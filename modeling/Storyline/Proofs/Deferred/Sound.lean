import Mathlib.Data.List.Induction
import Mathlib.Data.List.Nodup
import Storyline.Proofs.Deferred.Moved

/-!
# Watched machines keep their log straight

* `Watch.Sound`: what the log, the cells and the agenda of a watched machine have to do with one
  another;
* `Watch.Sound.step`: every step keeps it, `Watch.Sound.call`: so does putting an act on the agenda.
-/

namespace Storyline.Deferred

variable {α β : Type}

/-! ### Logs -/

/-- In a lawful log everything fits what was there before. -/
def Lawful (log : List (Event α β)) : Prop :=
  ∀ past e later, log = past ++ e :: later → e.MayFollow past

theorem lawful_nil : Lawful ([] : List (Event α β)) := by
  intro past e later h
  simp at h

theorem lawful_concat {log : List (Event α β)} {e : Event α β} :
    Lawful (log ++ [e]) ↔ Lawful log ∧ e.MayFollow log := by
  constructor
  · intro h
    refine ⟨fun past d later hd => h past d (later ++ [e]) (by simp [hd]), h log e [] rfl⟩
  · rintro ⟨hlog, he⟩ past d later hd
    rcases List.eq_nil_or_concat later with rfl | ⟨later', f, rfl⟩
    · obtain ⟨rfl, hed⟩ := List.append_inj' hd rfl
      exact (List.cons.inj hed).1 ▸ he
    · rw [List.concat_eq_append, ← List.cons_append, ← List.append_assoc] at hd
      exact hlog past d later' (List.append_inj' hd rfl).1

@[simp] theorem givenIn_concat (log : List (Event α β)) (e : Event α β) :
    givenIn (log ++ [e]) = givenIn log ++ e.given?.toList := by
  rw [givenIn, List.filterMap_append]
  cases h : e.given? <;> simp [h, givenIn]

@[simp] theorem startedIn_concat (log : List (Event α β)) (e : Event α β) :
    startedIn (log ++ [e]) = startedIn log ++ e.started?.toList := by
  rw [startedIn, List.filterMap_append]
  cases h : e.started? <;> simp [h, startedIn]

theorem mem_givenIn {log : List (Event α β)} {k : Callback α β} :
    k ∈ givenIn log ↔ .given k ∈ log := by
  rw [givenIn, List.mem_filterMap]
  constructor
  · rintro ⟨e, he, hk⟩
    cases e <;> simp_all [Event.given?]
  · exact fun h => ⟨_, h, rfl⟩

theorem Lawful.serials {log : List (Event α β)} (h : Lawful log) :
    (givenIn log).map (·.serial) = List.range (givenIn log).length := by
  induction log using List.reverseRecOn with
  | nil => rfl
  | append_singleton log e ih =>
    obtain ⟨hlog, he⟩ := lawful_concat.1 h
    rw [givenIn_concat]
    cases e with
    | given k =>
      simp only [Event.given?, Option.toList_some, List.map_append, ih hlog, List.map_cons,
        List.map_nil, List.length_append, List.length_singleton, List.range_succ, he.1]
    | resolved | solved | started => simpa [Event.given?] using ih hlog

theorem Lawful.nodup_givenIn {log : List (Event α β)} (h : Lawful log) : (givenIn log).Nodup :=
  List.Nodup.of_map (·.serial) (h.serials ▸ List.nodup_range)

theorem mem_startedIn {log : List (Event α β)} {k : Callback α β} :
    k ∈ startedIn log ↔ ∃ value, .started k value ∈ log := by
  rw [startedIn, List.mem_filterMap]
  constructor
  · rintro ⟨e, he, hk⟩
    cases e with
    | started k' value =>
      obtain rfl : k' = k := Option.some_inj.1 hk
      exact ⟨value, he⟩
    | resolved | solved | given => cases hk
  · rintro ⟨value, he⟩
    exact ⟨_, he, rfl⟩

theorem Lawful.solved_of_started {log : List (Event α β)} (h : Lawful log) {k : Callback α β}
    {value : α} (hk : .started k value ∈ log) : .solved k.cell value ∈ log := by
  obtain ⟨past, later, hlog⟩ := List.append_of_mem hk
  rw [hlog]
  exact List.mem_append_left _ (h _ _ _ hlog).2.1

/-! ### Machines -/

/-- The value of a cell. -/
def Machine.valueAt (m : Machine α β) (i : Nat) : Option α := m.cells[i]?.bind (·.result)

namespace Machine

variable {m m' : Machine α β} {i : Nat}

theorem valueAt_of_cell {c : Cell (Receiver α β) (Listener α β) α} (h : m.cells[i]? = some c) :
    m.valueAt i = c.result := by
  rw [valueAt, h]
  rfl

theorem valueAt_of_cells (h : m'.cells = m.cells) (i : Nat) : m'.valueAt i = m.valueAt i := by
  rw [valueAt, valueAt, h]

theorem valueAt_push {r : Receiver α β} (h : m'.cells = m.cells.push (.fresh r)) (i : Nat) :
    m'.valueAt i = m.valueAt i := by
  rw [valueAt, valueAt, h, Array.getElem?_push]
  split
  · rename_i hi
    rw [hi, Array.getElem?_eq_none (Nat.le_refl _)]
    rfl
  · rfl

theorem getElem?_set {c d : Cell (Receiver α β) (Listener α β) α} (hi : m.cells[i]? = some c)
    (h : m'.cells = m.cells.setIfInBounds i d) (j : Nat) :
    m'.cells[j]? = if j = i then some d else m.cells[j]? := by
  have hlt : i < m.cells.size := (Array.getElem?_eq_some_iff.1 hi).1
  rw [h, Array.getElem?_setIfInBounds]
  by_cases hj : i = j
  · subst hj
    rw [if_pos rfl, if_pos hlt, if_pos rfl]
  · rw [if_neg hj, if_neg (Ne.symm hj)]

theorem valueAt_set {c d : Cell (Receiver α β) (Listener α β) α} (hi : m.cells[i]? = some c)
    (h : m'.cells = m.cells.setIfInBounds i d) (j : Nat) :
    m'.valueAt j = if j = i then d.result else m.valueAt j := by
  rw [valueAt, getElem?_set hi h]
  split <;> rfl

end Machine

/-- Early callbacks of a cell. -/
def earlyAt (i : Nat) (ks : List (Callback α β)) : List (Callback α β) :=
  ks.filter fun k => k.early && k.cell == i

/-- Callbacks that did not have to wait. -/
def lateOf (ks : List (Callback α β)) : List (Callback α β) := ks.filter fun k => !k.early

@[simp] theorem earlyAt_append (i : Nat) (ks js : List (Callback α β)) :
    earlyAt i (ks ++ js) = earlyAt i ks ++ earlyAt i js := List.filter_append ..

@[simp] theorem lateOf_append (ks js : List (Callback α β)) :
    lateOf (ks ++ js) = lateOf ks ++ lateOf js := List.filter_append ..

theorem earlyAt_eq_nil {i : Nat} {ks : List (Callback α β)} (h : ∀ k ∈ ks, k.cell ≠ i) :
    earlyAt i ks = [] := by
  rw [earlyAt, List.filter_eq_nil_iff]
  exact fun k hk => by simp [h k hk]

theorem lateOf_eq_nil {ks : List (Callback α β)} (h : ∀ k ∈ ks, k.early = true) :
    lateOf ks = [] := by
  rw [lateOf, List.filter_eq_nil_iff]
  exact fun k hk => by simp [h k hk]

/-- Taking out callbacks of one cell does not change which there are of another. -/
theorem earlyAt_filter_ne {i j : Nat} (h : j ≠ i) (ks : List (Callback α β)) :
    earlyAt j (ks.filter (·.cell ≠ i)) = earlyAt j ks := by
  rw [earlyAt, List.filter_filter, earlyAt]
  refine List.filter_congr fun k _ => ?_
  by_cases hk : k.cell = j <;> simp [hk, h]

theorem earlyAt_filter_eq (i : Nat) (ks : List (Callback α β)) :
    earlyAt i (ks.filter (·.cell = i)) = earlyAt i ks := by
  rw [earlyAt, List.filter_filter, earlyAt]
  refine List.filter_congr fun k _ => ?_
  by_cases hk : k.cell = i <;> simp [hk]

namespace Watch

/-- What the log says about a cell. -/
structure Logged (w : Watch α β) (i : Nat) (c : Cell (Receiver α β) (Listener α β) α) :
    Prop where
  /-- The receiver is there until the cell is resolved. -/
  receiver : c.receiver.isSome → ∀ accepted, .resolved i accepted ∉ w.log
  resolved : c.receiver = none → .resolved i true ∈ w.log
  result : ∀ value, c.result = some value ↔ .solved i value ∈ w.log
  /-- While the receiver runs, the cell is going to get its value. -/
  settles : i ∈ w.machine.settling ↔ c.receiver = none ∧ c.result = none
  gone : c.result.isSome → c.receiver = none
  listeners : c.listeners = (w.waiting.filter (·.cell = i)).map (·.listener)

/-- What the log, the cells and the agenda have to do with one another. -/
structure Tidy (w : Watch α β) : Prop where
  lawful : Lawful w.log
  known : ∀ e ∈ w.log, e.cell < w.machine.cells.size
  cells : ∀ i c, w.machine.cells[i]? = some c → w.Logged i c
  nodup : w.machine.settling.Nodup
  settling_lt : ∀ i ∈ w.machine.settling, i < w.machine.cells.size

/-- Where the callbacks are that were given. -/
structure Booked (w : Watch α β) : Prop where
  /-- Only cells without a value are waited for. -/
  waiting : ∀ k ∈ w.waiting, k.early = true ∧ w.machine.valueAt k.cell = none
  /-- The callbacks on the agenda hear the values of their cells. -/
  heards : w.machine.heards.map (fun h => (h.1, some h.2)) =
    w.due.map fun k => (k.listener, w.machine.valueAt k.cell)
  /-- Callbacks that did not have to wait come first on the agenda. -/
  prompt : ∀ k ∈ w.due.tail, k.early = true
  top : w.machine.Hearing ∨ ∀ k ∈ w.due, k.early = true
  /-- An early callback was started, is about to be started, or waits. -/
  early : ∀ i, earlyAt i (startedIn w.log) ++ earlyAt i w.due ++ earlyAt i w.waiting =
    earlyAt i (givenIn w.log)
  late : lateOf (startedIn w.log) ++ lateOf w.due = lateOf (givenIn w.log)

/-- **What is true of a watched machine at all times.** -/
structure Sound (w : Watch α β) : Prop where
  tidy : w.Tidy
  booked : w.Booked

theorem sound_empty : ({} : Watch α β).Sound where
  tidy := ⟨lawful_nil, by simp, by simp, List.nodup_nil, by simp [Machine.settling]⟩
  booked := ⟨by simp, rfl, by simp, .inr (by simp), fun _ => rfl, rfl⟩

/-! ### Callbacks -/

namespace Booked

variable {w : Watch α β} {m : Machine α β}

theorem all_early (h : w.Booked) (hw : ¬w.machine.Hearing) : ∀ k ∈ w.due, k.early = true :=
  h.top.resolve_left hw

theorem lateOf_due (h : w.Booked) (hw : ¬w.machine.Hearing) : lateOf w.due = [] :=
  lateOf_eq_nil (h.all_early hw)

theorem valueAt_due (h : w.Booked) {k : Callback α β} (hk : k ∈ w.due) :
    (w.machine.valueAt k.cell).isSome := by
  have hmem : (k.listener, w.machine.valueAt k.cell) ∈
      w.machine.heards.map (fun h => (h.1, some h.2)) := by
    rw [h.heards]
    exact List.mem_map_of_mem hk
  obtain ⟨x, -, hx⟩ := List.mem_map.1 hmem
  rw [← (Prod.mk.inj hx).2]
  rfl

theorem given_of_mem (h : w.Booked) {k : Callback α β} (hk : k ∈ w.due ∨ k ∈ w.waiting) :
    k ∈ givenIn w.log := by
  cases hkind : k.early with
  | true =>
    have hmem : k ∈ earlyAt k.cell (givenIn w.log) := by
      rw [← h.early k.cell]
      rcases hk with hk | hk <;> simp [earlyAt, hk, hkind]
    exact (List.mem_filter.1 hmem).1
  | false =>
    have hdue : k ∈ w.due := hk.resolve_right fun hw => by simp [(h.waiting k hw).1] at hkind
    have hmem : k ∈ lateOf (givenIn w.log) := by
      rw [← h.late]
      simp [lateOf, hdue, hkind]
    exact (List.mem_filter.1 hmem).1

theorem not_started (h : w.Booked) (hlog : Lawful w.log) {k : Callback α β} (hk : k ∈ w.due) :
    k ∉ startedIn w.log := by
  intro hs
  have hnodup := hlog.nodup_givenIn
  cases hkind : k.early with
  | true =>
    have hd : (earlyAt k.cell (givenIn w.log)).Nodup := hnodup.filter _
    rw [← h.early k.cell] at hd
    exact (List.nodup_append.1 (List.nodup_append.1 hd).1).2.2 k (by simp [earlyAt, hs, hkind]) k
      (by simp [earlyAt, hk, hkind]) rfl
  | false =>
    have hd : (lateOf (givenIn w.log)).Nodup := hnodup.filter _
    rw [← h.late] at hd
    exact (List.nodup_append.1 hd).2.2 k (by simp [lateOf, hs, hkind]) k
      (by simp [lateOf, hk, hkind]) rfl

theorem passes (h : w.Booked) (hp : w.machine.Passes m)
    (hv : ∀ i, m.valueAt i = w.machine.valueAt i) {log : List (Event α β)}
    (hg : givenIn log = givenIn w.log) (hs : startedIn log = startedIn w.log) :
    Booked { w with machine := m, log := log } where
  waiting k hk := by rw [hv]; exact h.waiting k hk
  heards := by
    simp only [hp.heards, hv]
    exact h.heards
  prompt := h.prompt
  top := .inr (h.all_early hp.idle)
  early i := by
    rw [hg, hs]
    exact h.early i
  late := by
    rw [hg, hs]
    exact h.late

/-- A step that passes the callbacks by, in which a cell is resolved. -/
theorem passes_note (h : w.Booked) (hp : w.machine.Passes m)
    (hv : ∀ i, m.valueAt i = w.machine.valueAt i) (i : Nat) (accepted : Bool) :
    Booked { w.note (.resolved i accepted) with machine := m } :=
  h.passes hp hv (by simp [note, Event.given?]) (by simp [note, Event.started?])

theorem waits (h : w.Booked) (hp : w.machine.Passes m)
    (hv : ∀ i, m.valueAt i = w.machine.valueAt i) {i : Nat} (hi : w.machine.valueAt i = none)
    (k : Listener α β) : Booked { w.give i k false with machine := m } where
  waiting k' hk := by
    rw [hv]
    rcases List.mem_append.1 hk with hk | hk
    · exact h.waiting k' hk
    · obtain rfl := List.mem_singleton.1 hk
      exact ⟨rfl, hi⟩
  heards := by
    simp only [hp.heards, hv]
    exact h.heards
  prompt := h.prompt
  top := .inr (h.all_early hp.idle)
  -- the new callback is early, and the last that was given
  early j := by
    simp only [give, note, givenIn_concat, startedIn_concat, Event.given?, Event.started?]
    simp only [Option.toList_none, List.append_nil, Option.toList_some, earlyAt, List.filter_append]
    have := h.early j
    simp only [earlyAt] at this
    rw [← this]
    simp
  late := by
    simp only [give, note, givenIn_concat, startedIn_concat, Event.given?, Event.started?]
    have := h.late
    simp only [lateOf] at this
    simp [lateOf, List.filter_append, this]

theorem follows (h : w.Booked) {i : Nat} {k : Listener α β} {value : α}
    (hi : w.machine.valueAt i = some value) (hidle : ¬w.machine.Hearing) (hnext : m.Hearing)
    (hh : m.heards = (k, value) :: w.machine.heards)
    (hv : ∀ i, m.valueAt i = w.machine.valueAt i) :
    Booked { w.give i k true with machine := m } where
  waiting k' hk := by
    rw [hv]
    exact h.waiting k' hk
  heards := by
    simp only [hh, hv, give, if_true, List.map_cons, hi, h.heards]
  prompt := h.all_early hidle
  top := .inl hnext
  early j := by
    have := h.early j
    simp only [earlyAt] at this
    simp [give, note, Event.given?, Event.started?, earlyAt, this]
  late := by
    have := h.late
    rw [h.lateOf_due hidle, List.append_nil] at this
    have hnil := h.lateOf_due hidle
    simp only [lateOf] at this hnil
    simp [give, note, Event.given?, Event.started?, lateOf, this, hnil]

theorem solves (h : w.Booked) {i : Nat} {value : α} (hi : w.machine.valueAt i = none)
    (hidle : ¬w.machine.Hearing)
    (hh : m.heards = (w.waiting.filter (·.cell = i)).map (·.listener, value) ++ w.machine.heards)
    (hv : ∀ j, m.valueAt j = if j = i then some value else w.machine.valueAt j) :
    Booked { w.solve i value with machine := m } where
  waiting k hk := by
    obtain ⟨hk, hne⟩ := List.mem_filter.1 hk
    rw [hv, if_neg (by simpa using hne)]
    exact h.waiting k hk
  heards := by
    -- those that wait for this value are heard next, in front of those that are due
    have hnew : ∀ k ∈ w.waiting.filter (·.cell = i), m.valueAt k.cell = some value := by
      intro k hk
      rw [hv, if_pos (by simpa using (List.mem_filter.1 hk).2)]
    have hold : ∀ k ∈ w.due, m.valueAt k.cell = w.machine.valueAt k.cell := by
      intro k hk
      refine (hv _).trans (if_neg fun hki => ?_)
      have := h.valueAt_due hk
      rw [hki, hi] at this
      cases this
    simp only [hh, solve, List.map_append, h.heards, List.map_map]
    congr 1
    · exact List.map_congr_left fun k hk => by simp [hnew k hk]
    · exact List.map_congr_left fun k hk => by simp [hold k hk]
  prompt k hk := by
    have hmem := List.mem_of_mem_tail hk
    rcases List.mem_append.1 hmem with hk | hk
    · exact (h.waiting k (List.mem_filter.1 hk).1).1
    · exact h.all_early hidle k hk
  top := .inr fun k hk => by
    rcases List.mem_append.1 hk with hk | hk
    · exact (h.waiting k (List.mem_filter.1 hk).1).1
    · exact h.all_early hidle k hk
  early j := by
    have hdue : ∀ k ∈ w.due, k.cell ≠ i := by
      intro k hk hki
      have := h.valueAt_due hk
      rw [hki, hi] at this
      cases this
    have hj := h.early j
    simp only [solve, note, givenIn_concat, startedIn_concat, Event.given?, Event.started?,
      Option.toList_none, List.append_nil]
    rw [← hj]
    -- of the callbacks of cell `i` all leave the waiting list, of another cell none
    by_cases hji : j = i
    · subst hji
      have hgone : earlyAt j (w.waiting.filter (·.cell ≠ j)) = [] :=
        earlyAt_eq_nil fun k hk => by simpa using (List.mem_filter.1 hk).2
      rw [earlyAt_append, earlyAt_filter_eq, hgone, earlyAt_eq_nil hdue, List.append_nil,
        List.append_nil, List.append_nil]
    · have hnone : earlyAt j (w.waiting.filter (·.cell = i)) = [] :=
        earlyAt_eq_nil fun k hk hkj => hji (hkj ▸ by simpa using (List.mem_filter.1 hk).2)
      rw [earlyAt_append, hnone, List.nil_append, earlyAt_filter_ne hji]
  late := by
    have hnone : lateOf (w.waiting.filter (·.cell = i)) = [] :=
      lateOf_eq_nil fun k hk => (h.waiting k (List.mem_filter.1 hk).1).1
    simp only [solve, note, givenIn_concat, startedIn_concat, Event.given?, Event.started?,
      Option.toList_none, List.append_nil, lateOf_append, hnone, List.nil_append]
    exact h.late

theorem hears (h : w.Booked) {k : Listener α β} {value : α}
    (hh : w.machine.heards = (k, value) :: m.heards)
    (hv : ∀ i, m.valueAt i = w.machine.valueAt i) :
    ∃ c due, w.due = c :: due ∧ c.listener = k ∧ w.machine.valueAt c.cell = some value ∧
    Booked { w.hear value with machine := m } := by
  have hheards := h.heards
  cases hd : w.due with
  | nil => simp [hh, hd] at hheards
  | cons c due =>
    -- the first callback that is due is the one on top of the agenda
    rw [hh, hd, List.map_cons, List.map_cons, List.cons.injEq, Prod.mk.injEq] at hheards
    obtain ⟨⟨rfl, hvalue⟩, hheards⟩ := hheards
    refine ⟨c, due, rfl, rfl, hvalue.symm, ?_⟩
    have htail : w.due.tail = due := by rw [hd]; rfl
    simp only [hear, hd]
    exact {
      waiting := fun k hk => by rw [hv]; exact h.waiting k hk
      heards := by simp only [hv]; exact hheards
      prompt := fun k hk => h.prompt k (htail ▸ List.mem_of_mem_tail hk)
      top := .inr fun k hk => h.prompt k (htail ▸ hk)
      early := fun j => by
        have := h.early j
        simp only [note, givenIn_concat, startedIn_concat, Event.given?, Event.started?,
          Option.toList_none, Option.toList_some, List.append_nil]
        rw [← this, hd]
        simp only [earlyAt, List.filter_append, List.filter_cons, List.filter_nil, List.append_assoc]
        split <;> rfl
      late := by
        have := h.late
        simp only [note, givenIn_concat, startedIn_concat, Event.given?, Event.started?,
          Option.toList_none, Option.toList_some, List.append_nil]
        rw [← this, hd]
        simp only [lateOf, List.filter_append, List.filter_cons, List.filter_nil, List.append_assoc]
        split <;> rfl }

end Booked

/-! ### Cells -/

/-- What the log says about a cell is not changed by what concerns another one. -/
theorem Logged.frame {w w' : Watch α β} {j : Nat} {c : Cell (Receiver α β) (Listener α β) α}
    (h : w.Logged j c)
    (hr : ∀ accepted, .resolved j accepted ∈ w'.log ↔ .resolved j accepted ∈ w.log)
    (hs : ∀ value, .solved j value ∈ w'.log ↔ .solved j value ∈ w.log)
    (ht : j ∈ w'.machine.settling ↔ j ∈ w.machine.settling)
    (hw : w'.waiting.filter (·.cell = j) = w.waiting.filter (·.cell = j)) : w'.Logged j c where
  receiver hc accepted := by rw [hr]; exact h.receiver hc accepted
  resolved hc := (hr true).2 (h.resolved hc)
  result value := (h.result value).trans (hs value).symm
  settles := ht.trans h.settles
  gone := h.gone
  listeners := by rw [hw]; exact h.listeners

theorem Tidy.extend {w w' : Watch α β} {i : Nat} {e : Event α β} (h : w.Tidy)
    (hlog : w'.log = w.log ++ [e]) (hmay : e.MayFollow w.log) (hei : e.cell = i)
    (hi : i < w.machine.cells.size)
    (hother : ∀ j, j ≠ i → w'.machine.cells[j]? = w.machine.cells[j]?)
    (hsize : w'.machine.cells.size = w.machine.cells.size)
    (hnodup : w'.machine.settling.Nodup)
    (hsettling : ∀ j, j ≠ i → (j ∈ w'.machine.settling ↔ j ∈ w.machine.settling))
    (hwaiting : ∀ j, j ≠ i → w'.waiting.filter (·.cell = j) = w.waiting.filter (·.cell = j))
    (hself : ∀ d, w'.machine.cells[i]? = some d → w'.Logged i d) : w'.Tidy where
  lawful := hlog ▸ lawful_concat.2 ⟨h.lawful, hmay⟩
  known f hf := by
    rw [hlog, List.mem_append, List.mem_singleton] at hf
    rw [hsize]
    rcases hf with hf | rfl
    · exact h.known f hf
    · exact hei ▸ hi
  cells j d hd := by
    -- the cell of the event is the caller's business, any other one is framed
    by_cases hj : j = i
    · subst hj
      exact hself d hd
    · rw [hother j hj] at hd
      have hmem (f : Event α β) (hf : f.cell = j) : f ∈ w'.log ↔ f ∈ w.log := by
        rw [hlog, List.mem_append, List.mem_singleton, or_iff_left]
        rintro rfl
        exact hj (hf.symm.trans hei)
      exact (h.cells j d hd).frame (fun _ => hmem _ rfl) (fun _ => hmem _ rfl) (hsettling j hj)
        (hwaiting j hj)
  nodup := hnodup
  settling_lt j hj := by
    rw [hsize]
    by_cases hji : j = i
    · exact hji ▸ hi
    · exact h.settling_lt j ((hsettling j hji).1 hj)

namespace Sound

variable {w : Watch α β} {m : Machine α β} {i : Nat} {c : Cell (Receiver α β) (Listener α β) α}

theorem lt_of_waiting (h : w.Sound) {k : Callback α β} (hk : k ∈ w.waiting) :
    k.cell < w.machine.cells.size :=
  h.tidy.known _ (mem_givenIn.1 (h.booked.given_of_mem (.inr hk)))

theorem quiet (h : w.Sound) (hp : w.machine.Passes m) (hs : m.settling = w.machine.settling)
    (hc : m.cells = w.machine.cells) : Sound { w with machine := m } where
  tidy := {
    lawful := h.tidy.lawful
    known := by
      rw [hc]
      exact h.tidy.known
    cells := fun j d hd => by
      rw [hc] at hd
      exact (h.tidy.cells j d hd).frame (fun _ => .rfl) (fun _ => .rfl) (by simp only [hs]) rfl
    nodup := by
      simp only [hs]
      exact h.tidy.nodup
    settling_lt := by
      simp only [hs, hc]
      exact h.tidy.settling_lt }
  booked := h.booked.passes hp (Machine.valueAt_of_cells hc) rfl rfl

theorem creates (h : w.Sound) {r : Receiver α β} (hp : w.machine.Passes m)
    (hs : m.settling = w.machine.settling) (hc : m.cells = w.machine.cells.push (.fresh r)) :
    Sound { w with machine := m } where
  tidy := {
    lawful := h.tidy.lawful
    known := fun e he => by
      have := h.tidy.known e he
      simp only [hc, Array.size_push]
      omega
    cells := fun j d hd => by
      rw [hc, Array.getElem?_push] at hd
      split at hd
      · obtain rfl := Option.some_inj.1 hd
        rename_i hj
        have hnew : ∀ e ∈ w.log, e.cell ≠ j := fun e he hej => by
          have := h.tidy.known e he
          omega
        have hwait : w.waiting.filter (·.cell = j) = [] := by
          rw [List.filter_eq_nil_iff]
          intro k hk hkj
          have := h.lt_of_waiting hk
          simp at hkj
          omega
        exact {
          receiver := fun _ accepted he => hnew _ he rfl
          resolved := nofun
          result := fun value => ⟨nofun, fun he => absurd rfl (hnew _ he)⟩
          settles := ⟨fun hset => by
            have := h.tidy.settling_lt j (hs ▸ hset)
            omega, nofun⟩
          gone := nofun
          listeners := by
            rw [hwait]
            rfl }
      · exact (h.tidy.cells j d hd).frame (fun _ => .rfl) (fun _ => .rfl) (by simp only [hs]) rfl
    nodup := by
      simp only [hs]
      exact h.tidy.nodup
    settling_lt := fun j hj => by
      have := h.tidy.settling_lt j (hs ▸ hj)
      simp only [hc, Array.size_push]
      omega }
  booked := h.booked.passes hp (Machine.valueAt_push hc) rfl rfl

theorem lt_of_cell (hi : w.machine.cells[i]? = some c) : i < w.machine.cells.size :=
  (Array.getElem?_eq_some_iff.1 hi).1

theorem refuses (h : w.Sound) (hi : w.machine.cells[i]? = some c) (hr : c.receiver = none)
    (hp : w.machine.Passes m) (hs : m.settling = w.machine.settling)
    (hc : m.cells = w.machine.cells) :
    Sound { w.note (.resolved i false) with machine := m } where
  tidy := by
    have hlog := h.tidy.cells i c hi
    refine h.tidy.extend (i := i) rfl ?_ rfl (lt_of_cell hi) (fun j _ => by simp only [hc])
      (by simp only [hc]) (by simpa only [hs] using h.tidy.nodup) (fun j _ => by simp only [hs])
      (fun _ _ => rfl) fun d hd => ?_
    · exact ⟨nofun, fun hno => absurd (hlog.resolved hr) (hno true)⟩
    · obtain rfl : c = d := Option.some_inj.1 (hi.symm.trans (hc ▸ hd))
      exact {
        receiver := fun hsome => by simp [hr] at hsome
        resolved := fun _ => List.mem_append_left _ (hlog.resolved hr)
        result := fun value => (hlog.result value).trans (by simp [note])
        settles := by
          simp only [hs]
          exact hlog.settles
        gone := hlog.gone
        listeners := hlog.listeners }
  booked := h.booked.passes_note hp (Machine.valueAt_of_cells hc) i false

theorem receives (h : w.Sound) (hi : w.machine.cells[i]? = some c) (hr : c.receiver.isSome)
    (hp : w.machine.Passes m) (hs : m.settling = i :: w.machine.settling)
    (hc : m.cells = w.machine.cells.setIfInBounds i { c with receiver := none }) :
    Sound { w.note (.resolved i true) with machine := m } where
  tidy := by
    have hlog := h.tidy.cells i c hi
    have hget := Machine.getElem?_set hi hc
    -- a cell with a receiver is not about to be settled
    have hfree : i ∉ w.machine.settling := fun hmem => by simp [(hlog.settles.1 hmem).1] at hr
    refine h.tidy.extend (i := i) rfl ?_ rfl (lt_of_cell hi) (fun j hj => by simp only [hget, if_neg hj])
      (by simp only [hc, Array.size_setIfInBounds]) ?_ (fun j hj => by simp [hs, hj])
      (fun _ _ => rfl) fun d hd => ?_
    · exact ⟨fun _ => hlog.receiver hr, fun _ => rfl⟩
    · simp only [hs]
      exact List.nodup_cons.2 ⟨hfree, h.tidy.nodup⟩
    · obtain rfl : { c with receiver := none } = d := by simpa [hget] using hd
      have hunsolved : c.result = none := by
        cases hres : c.result with
        | none => rfl
        | some value => simp [hlog.gone (by simp [hres])] at hr
      exact {
        receiver := nofun
        resolved := fun _ => List.mem_append_right _ (List.mem_singleton_self _)
        result := fun value => (hlog.result value).trans (by simp [note])
        settles := by simp [hs, hunsolved]
        gone := fun _ => rfl
        listeners := hlog.listeners }
  booked := by
    refine h.booked.passes_note hp (fun j => ?_) i true
    rw [Machine.valueAt_set hi hc]
    split
    · rename_i hj
      rw [hj, Machine.valueAt_of_cell hi]
    · rfl

theorem waits (h : w.Sound) {k : Listener α β} (hi : w.machine.cells[i]? = some c)
    (hr : c.result = none) (hp : w.machine.Passes m) (hs : m.settling = w.machine.settling)
    (hc : m.cells = w.machine.cells.setIfInBounds i { c with listeners := c.listeners ++ [k] }) :
    Sound { w.give i k false with machine := m } where
  tidy := by
    have hlog := h.tidy.cells i c hi
    have hget := Machine.getElem?_set hi hc
    refine h.tidy.extend (i := i) rfl ?_ rfl (lt_of_cell hi) (fun j hj => by simp only [hget, if_neg hj])
      (by simp only [hc, Array.size_setIfInBounds]) (by simpa only [hs] using h.tidy.nodup)
      (fun j _ => by simp only [hs]) (fun j hj => ?_) fun d hd => ?_
    · -- it has to wait, as there is no value yet
      refine ⟨rfl, fun _ value hmem => ?_, fun _ => rfl⟩
      have := (hlog.result value).2 hmem
      rw [hr] at this
      cases this
    · simp [give, note, Ne.symm hj]
    · obtain rfl : { c with listeners := c.listeners ++ [k] } = d := by simpa [hget] using hd
      exact {
        receiver := fun hsome accepted => by simpa [give, note] using hlog.receiver hsome accepted
        resolved := fun hnone => List.mem_append_left _ (hlog.resolved hnone)
        result := fun value => (hlog.result value).trans (by simp [give, note])
        settles := by
          simp only [hs]
          exact hlog.settles
        gone := hlog.gone
        listeners := by simp [give, note, hlog.listeners] }
  booked := by
    refine h.booked.waits hp (fun j => ?_) ((Machine.valueAt_of_cell hi).trans hr) k
    rw [Machine.valueAt_set hi hc]
    split
    · rename_i hj
      rw [hj, Machine.valueAt_of_cell hi]
    · rfl

theorem follows (h : w.Sound) {k : Listener α β} {value : α} (hi : w.machine.cells[i]? = some c)
    (hr : c.result = some value) (hidle : ¬w.machine.Hearing) (hnext : m.Hearing)
    (hh : m.heards = (k, value) :: w.machine.heards) (hs : m.settling = w.machine.settling)
    (hc : m.cells = w.machine.cells) : Sound { w.give i k true with machine := m } where
  tidy := by
    have hlog := h.tidy.cells i c hi
    refine h.tidy.extend (i := i) rfl ?_ rfl (lt_of_cell hi) (fun j _ => by simp only [hc])
      (by simp only [hc]) (by simpa only [hs] using h.tidy.nodup) (fun j _ => by simp only [hs])
      (fun _ _ => rfl) fun d hd => ?_
    · exact ⟨rfl, nofun, fun hno => absurd ((hlog.result value).1 hr) (hno value)⟩
    · obtain rfl : c = d := Option.some_inj.1 (hi.symm.trans (hc ▸ hd))
      exact {
        receiver := fun hsome accepted => by simpa [give, note] using hlog.receiver hsome accepted
        resolved := fun hnone => List.mem_append_left _ (hlog.resolved hnone)
        result := fun value => (hlog.result value).trans (by simp [give, note])
        settles := by
          simp only [hs]
          exact hlog.settles
        gone := hlog.gone
        listeners := hlog.listeners }
  booked := h.booked.follows ((Machine.valueAt_of_cell hi).trans hr) hidle hnext hh
    (Machine.valueAt_of_cells hc)

theorem solves (h : w.Sound) {value : α} (hi : w.machine.cells[i]? = some c)
    (hidle : ¬w.machine.Hearing)
    (hh : m.heards = c.listeners.map (·, value) ++ w.machine.heards)
    (hs : w.machine.settling = i :: m.settling)
    (hc : m.cells = w.machine.cells.setIfInBounds i
      { c with result := some value, listeners := [] }) :
    Sound { w.solve i value with machine := m } := by
  have hlog := h.tidy.cells i c hi
  have hget := Machine.getElem?_set hi hc
  obtain ⟨hreceiver, hresult⟩ := hlog.settles.1 (by simp [hs])
  -- the cell gets its value for the first time
  have hunsolved : ∀ other, .solved i other ∉ w.log := fun other hmem => by
    have := (hlog.result other).2 hmem
    rw [hresult] at this
    cases this
  have hnodup := hs ▸ h.tidy.nodup
  refine ⟨?_, ?_⟩
  · refine h.tidy.extend (i := i) rfl ⟨hlog.resolved hreceiver, hunsolved⟩ rfl (lt_of_cell hi)
      (fun j hj => by simp only [hget, if_neg hj]) (by simp only [hc, Array.size_setIfInBounds])
      (List.nodup_cons.1 hnodup).2 (fun j hj => by simp [hs, hj]) (fun j hj => ?_) fun d hd => ?_
    · -- callbacks of other cells go on waiting
      simp only [solve]
      rw [List.filter_filter]
      refine List.filter_congr fun k _ => ?_
      by_cases hk : k.cell = j <;> simp [hk, hj]
    · obtain rfl : { c with result := some value, listeners := [] } = d := by
        simpa [hget] using hd
      exact {
        receiver := fun hsome => by simp [hreceiver] at hsome
        resolved := fun _ => List.mem_append_left _ (hlog.resolved hreceiver)
        result := fun other => by
          simp [solve, note, hunsolved, eq_comm]
        settles := by
          simpa using (List.nodup_cons.1 hnodup).1
        gone := fun _ => hreceiver
        listeners := by
          simp only [solve, note]
          rw [List.filter_filter, List.filter_eq_nil_iff.2]
          · rfl
          · simp }
  · refine h.booked.solves ((Machine.valueAt_of_cell hi).trans hresult) hidle ?_
      (Machine.valueAt_set hi hc)
    rw [hh, hlog.listeners, List.map_map]
    rfl

theorem hears (h : w.Sound) {k : Listener α β} {value : α}
    (hh : w.machine.heards = (k, value) :: m.heards) (hs : m.settling = w.machine.settling)
    (hc : m.cells = w.machine.cells) : Sound { w.hear value with machine := m } := by
  obtain ⟨b, due, hdue, rfl, hvalue, hbooked⟩ :=
    h.booked.hears hh (Machine.valueAt_of_cells hc)
  refine ⟨?_, hbooked⟩
  have hmem : b ∈ w.due := by simp [hdue]
  have hgiven := mem_givenIn.1 (h.booked.given_of_mem (.inl hmem))
  obtain ⟨d, hd, hresult⟩ := Option.bind_eq_some_iff.1 hvalue
  have hlog := h.tidy.cells _ d hd
  refine h.tidy.extend (e := .started b value) (i := b.cell) (by simp [hear, hdue, note]) ⟨hgiven,
    (hlog.result value).1 hresult, h.booked.not_started h.tidy.lawful hmem⟩ rfl (lt_of_cell hd)
    (fun j _ => by simp only [hc]) (by simp only [hc]) (by simpa only [hs] using h.tidy.nodup)
    (fun j _ => by simp only [hs]) (fun _ _ => by simp only [hear, hdue, note]) fun d' hd' => ?_
  obtain rfl : d = d' := Option.some_inj.1 (hd.symm.trans (hc ▸ hd'))
  exact hlog.frame (by simp [hear, hdue, note]) (by simp [hear, hdue, note]) (by simp only [hs])
    (by simp only [hear, hdue, note])

/-- **Every step keeps the log straight.** -/
theorem step [ToString α] (h : w.Sound) : w.step.Sound := by
  have hmoved := w.moved h.tidy.settling_lt
  generalize w.step = w' at hmoved
  cases hmoved with
  | rests => exact h
  | quiet m hp hs hc => exact h.quiet hp hs hc
  | creates m r hp hs hc => exact h.creates hp hs hc
  | refuses m i c hi hr hp hs hc => exact h.refuses hi hr hp hs hc
  | receives m i c hi hr hp hs hc => exact h.receives hi hr hp hs hc
  | waits m i c k hi hr hp hs hc => exact h.waits hi hr hp hs hc
  | follows m i c k value hi hr hidle hnext hh ht hs hc => exact h.follows hi hr hidle hnext hh hs hc
  | solves m i c value hi hidle hh ht hs hc => exact h.solves hi hidle hh hs hc
  | hears m k value hh ht hs hc => exact h.hears hh hs hc

theorem call (h : w.Sound) (hrest : w.machine.agenda = []) (a : Act α β) : (w.call a).Sound := by
  have hheards : (w.call a).machine.heards = w.machine.heards := by
    simp only [Machine.heards, Watch.call, Machine.push, hrest]
    rfl
  have hsettling : (w.call a).machine.settling = w.machine.settling := by
    simp only [Machine.settling, Watch.call, Machine.push, hrest]
    rfl
  -- at rest no callback is on the agenda, so that all that wait are early
  have hidle : ¬w.machine.Hearing := by
    rintro ⟨k, value, rest, hk⟩
    rw [hrest] at hk
    cases hk
  exact {
    tidy := {
      lawful := h.tidy.lawful
      known := h.tidy.known
      cells := fun i c hc => (h.tidy.cells i c hc).frame (fun _ => .rfl) (fun _ => .rfl)
        (by rw [hsettling]) rfl
      nodup := hsettling ▸ h.tidy.nodup
      settling_lt := hsettling ▸ h.tidy.settling_lt }
    booked := {
      waiting := h.booked.waiting
      heards := by
        rw [hheards]
        exact h.booked.heards
      prompt := h.booked.prompt
      top := .inr (h.booked.all_early hidle)
      early := h.booked.early
      late := h.booked.late } }

end Sound

end Watch

end Storyline.Deferred
