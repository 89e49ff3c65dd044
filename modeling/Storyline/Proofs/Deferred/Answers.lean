import Storyline.Proofs.Deferred.Sound

/-!
# What acts on deferred values answer

* `Watch.answerTo`: what an act has to answer, by the handles there are and by what has happened;
* `Watch.Sound.starts`: an act that starts leaves this answer on the agenda, behind all it leads to;
* `Watch.Sound.exists_rest`: the agenda is a stack, so what lies behind some tasks is reached;
* `Watch.Sound.answers`: every act gives its answer.
-/

namespace Storyline.Deferred

variable {α β : Type}

/-! ### Handles -/

/-- Every handle names a cell. -/
def Machine.Covered (m : Machine α β) : Prop :=
  ∀ handle i : Nat, m.handles[handle]? = some i → i < m.cells.size

namespace Machine

variable [ToString α] {m : Machine α β}

omit [ToString α] in
theorem Covered.push (h : m.Covered) (tasks : List (Task α β)) : (m.push tasks).Covered := h

omit [ToString α] in
theorem Covered.setCell (h : m.Covered) (i : Nat) (c : Cell (Receiver α β) (Listener α β) α) :
    (m.setCell i c).Covered := fun handle j hj => by
  rw [Machine.setCell, Array.size_setIfInBounds]
  exact h handle j hj

omit [ToString α] in
theorem Covered.handle {m' : Machine α β} (h : m.Covered) {i : Nat}
    (hm : m'.handles = m.handles.push i) (hsize : m.cells.size ≤ m'.cells.size)
    (hi : i < m'.cells.size) : m'.Covered := by
  intro handle j hj
  rw [hm, Array.getElem?_push] at hj
  split at hj
  · exact Option.some_inj.1 hj ▸ hi
  · exact Nat.lt_of_lt_of_le (h handle j hj) hsize

theorem Covered.start (h : m.Covered) (a : Act α β) (outer : Bool) : (m.start a outer).Covered := by
  cases a with
  | create compute acts =>
    exact .push (h.handle (i := m.cells.size) rfl (by simp) (by simp)) _
  | clone handle =>
    simp only [Machine.start]
    cases hc : m.cell? handle with
    | none => exact h.push _
    | some ic =>
      have hlt := h handle ic.1 (cell?_eq_some.1 hc).1
      exact .push (m := { m with handles := m.handles.push ic.1 })
        (h.handle rfl (Nat.le_refl _) hlt) _
  | resolve handle input =>
    simp only [Machine.start]
    cases m.cell? handle with
    | none => exact h.push _
    | some ic =>
      -- a handle that names a cell is all that matters; what becomes of the cell does not
      simp only
      cases ic.2.begin? with
      | error e => exact h.push _
      | ok rd => exact .push (.push (h.setCell _ _) _) _
  | listen handle tag acts =>
    simp only [Machine.start]
    cases m.cell? handle with
    | none => exact h.push _
    | some ic =>
      simp only
      cases hr : ic.2.result with
      | some value =>
        simp only [Cell.listen_of_some hr]
        exact .push (h.push _) _
      | none =>
        simp only [Cell.listen_of_none hr]
        exact .push (h.setCell _ _) _
  | isSolved handle | result handle | describe handle | sameCell handle other =>
    simp only [Machine.start]
    cases m.cell? handle <;> exact h.push _

theorem Covered.step (h : m.Covered) : m.step.Covered := by
  cases hm : m.agenda with
  | nil => rwa [step_of_nil hm]
  | cons task rest =>
    cases task with
    | act a outer =>
      rw [step_act hm]
      exact Covered.start (m := { m with agenda := rest }) h a outer
    | settle i value =>
      cases hc : m.cells[i]? with
      | none =>
        rw [Machine.step, hm]
        simp only [hc]
        exact h
      | some c =>
        rw [step_settle hm hc]
        exact .push (Covered.setCell (m := { m with agenda := rest }) h _ _) _
    | hear k value =>
      rw [step_hear hm]
      exact h
    | report name answer outer =>
      rw [step_report hm]
      cases outer <;> exact h

end Machine

/-! ### Answers by the log -/

/-- Whether a cell was resolved, with success or not. -/
def resolvedIn (log : List (Event α β)) (i : Nat) : Bool :=
  log.any fun
    | .resolved j _ => j == i
    | _ => false

/-- The value that a cell was given. -/
def valueIn (log : List (Event α β)) (i : Nat) : Option α :=
  log.findSome? fun
    | .solved j value => if j = i then some value else none
    | _ => none

/-- How many callbacks wait at a cell: none once it has its value. -/
def waitingIn (log : List (Event α β)) (i : Nat) : Nat :=
  if (valueIn log i).isSome then 0 else (earlyAt i (givenIn log)).length

/-- A cell of which only the value is known, and how many wait for it. -/
def Cell.outline (value : Option α) (waiting : Nat) : Cell Unit Unit α where
  receiver := none
  result := value
  listeners := List.replicate waiting ()

/-- Cells in words are told apart by their values and by how many wait for these. -/
theorem Cell.describe_congr {ρ κ σ ν : Type} [ToString α] {c : Cell ρ κ α} {d : Cell σ ν α}
    (hr : c.result = d.result) (hl : c.listeners.length = d.listeners.length) :
    c.describe = d.describe := by
  unfold describe
  rw [hr, hl]

namespace Watch

/-- An answer about the cell behind a handle. -/
def ofCell (w : Watch α β) (handle : Nat) (f : Nat → Answer α) : Answer α :=
  (w.machine.handles[handle]?.map f).getD .noSuchHandle

/-- **What an act has to answer**: making a cell or a handle answers the new handle; resolving a
cell succeeds if nobody has resolved it before, through whatever handle. -/
def answerTo [ToString α] (w : Watch α β) : Act α β → Answer α
  | .create .. => .handle w.machine.handles.size
  | .clone handle => w.ofCell handle fun _ => .handle w.machine.handles.size
  | .resolve handle _ => w.ofCell handle fun i =>
    if resolvedIn w.log i then .failed .alreadyResolved else .done
  | .listen handle .. => w.ofCell handle fun _ => .done
  | .isSolved handle => w.ofCell handle fun i => .flag (valueIn w.log i).isSome
  | .result handle => w.ofCell handle fun i => .value (valueIn w.log i)
  | .describe handle => w.ofCell handle fun i =>
    .text (Cell.outline (valueIn w.log i) (waitingIn w.log i)).describe
  | .sameCell handle other => w.ofCell handle fun i => .flag (w.machine.handles[other]? == some i)

end Watch

theorem resolvedIn_iff {log : List (Event α β)} {i : Nat} :
    resolvedIn log i = true ↔ ∃ accepted, .resolved i accepted ∈ log := by
  rw [resolvedIn, List.any_eq_true]
  constructor
  · rintro ⟨e, he, hi⟩
    cases e with
    | resolved j accepted =>
      obtain rfl : j = i := by simpa using hi
      exact ⟨accepted, he⟩
    | solved | given | started => cases hi
  · rintro ⟨accepted, he⟩
    exact ⟨_, he, by simp⟩

theorem mem_of_valueIn {log : List (Event α β)} {i : Nat} {value : α}
    (h : valueIn log i = some value) : .solved i value ∈ log := by
  obtain ⟨e, he, hi⟩ := List.exists_of_findSome?_eq_some h
  cases e with
  | solved j v =>
    obtain ⟨rfl, rfl⟩ : j = i ∧ v = value := by simpa using hi
    exact he
  | resolved | given | started => cases hi

theorem not_mem_of_valueIn {log : List (Event α β)} {i : Nat} (h : valueIn log i = none)
    (value : α) : .solved i value ∉ log := by
  intro hmem
  have := List.findSome?_eq_none_iff.1 h _ hmem
  simp at this

/-! ### What the log says of a cell -/

namespace Watch

variable {w : Watch α β} {i : Nat} {c : Cell (Receiver α β) (Listener α β) α}

theorem Logged.resolvedIn_eq (h : w.Logged i c) : resolvedIn w.log i = c.receiver.isNone := by
  cases hc : c.receiver with
  | none => exact resolvedIn_iff.2 ⟨true, h.resolved hc⟩
  | some r =>
    rw [Option.isNone_some, Bool.eq_false_iff, ne_eq, resolvedIn_iff]
    rintro ⟨accepted, hmem⟩
    exact h.receiver (by simp [hc]) accepted hmem

theorem Logged.valueIn_eq (h : w.Logged i c) : valueIn w.log i = c.result := by
  cases hv : valueIn w.log i with
  | some value => exact ((h.result value).2 (mem_of_valueIn hv)).symm
  | none =>
    cases hc : c.result with
    | none => rfl
    | some value => exact absurd ((h.result value).1 hc) (not_mem_of_valueIn hv value)

theorem Sound.listeners_eq_nil (h : w.Sound) (hc : w.machine.cells[i]? = some c)
    (hr : c.result.isSome) : c.listeners = [] := by
  rw [(h.tidy.cells i c hc).listeners, List.filter_eq_nil_iff.2, List.map_nil]
  intro k hk hki
  have hnone := (h.booked.waiting k hk).2
  rw [of_decide_eq_true hki, Machine.valueAt_of_cell hc] at hnone
  simp [hnone] at hr

/-- Callbacks that were given to a cell without a value wait there. -/
theorem Sound.early_wait (h : w.Sound) (hc : w.machine.cells[i]? = some c)
    (hr : c.result = none) : earlyAt i (givenIn w.log) = w.waiting.filter (·.cell = i) := by
  have hunsolved (value : α) : .solved i value ∉ w.log := fun hmem => by
    rw [((h.tidy.cells i c hc).result value).2 hmem] at hr
    cases hr
  have hstarted : earlyAt i (startedIn w.log) = [] := earlyAt_eq_nil fun k hk hki => by
    obtain ⟨value, he⟩ := mem_startedIn.1 hk
    exact hunsolved value (hki ▸ h.tidy.lawful.solved_of_started he)
  have hdue : earlyAt i w.due = [] := earlyAt_eq_nil fun k hk hki => by
    have hsome := h.booked.valueAt_due hk
    rw [hki, Machine.valueAt_of_cell hc, hr] at hsome
    cases hsome
  rw [← h.booked.early, hstarted, hdue, List.nil_append, List.nil_append, earlyAt]
  refine List.filter_congr fun k hk => ?_
  simp [(h.booked.waiting k hk).1, beq_eq_decide]

theorem Sound.waitingIn_eq (h : w.Sound) (hc : w.machine.cells[i]? = some c) :
    waitingIn w.log i = c.listeners.length := by
  have hlog := h.tidy.cells i c hc
  rw [waitingIn, hlog.valueIn_eq]
  cases hr : c.result with
  | some value =>
    rw [h.listeners_eq_nil hc (by simp [hr])]
    rfl
  | none =>
    rw [h.early_wait hc hr, hlog.listeners, List.length_map]
    rfl

end Watch

/-! ### Starting an act -/

theorem Machine.Covered.cell?_eq {m : Machine α β} (h : m.Covered) {handle i : Nat}
    (hi : m.handles[handle]? = some i) : ∃ c, m.cells[i]? = some c ∧ m.cell? handle = some (i, c) := by
  have hc := Array.getElem?_eq_getElem (h handle i hi)
  exact ⟨_, hc, Machine.cell?_eq_some.2 ⟨hi, hc⟩⟩

theorem Machine.cell?_eq_none {m : Machine α β} {handle : Nat} (hi : m.handles[handle]? = none) :
    m.cell? handle = none := by
  rw [Machine.cell?, hi]
  rfl

namespace Watch

variable [ToString α] {w : Watch α β} {a : Act α β} {outer : Bool} {rest : List (Task α β)}

omit [ToString α] in
theorem ofCell_of_none {handle : Nat} (h : w.machine.handles[handle]? = none)
    (f : Nat → Answer α) : w.ofCell handle f = .noSuchHandle := by
  rw [ofCell, h]
  rfl

omit [ToString α] in
theorem ofCell_of_some {handle i : Nat} (h : w.machine.handles[handle]? = some i)
    (f : Nat → Answer α) : w.ofCell handle f = f i := by
  rw [ofCell, h]
  rfl

/-- An act starts, and some tasks come before its answer. -/
def Starts (m : Machine α β) (a : Act α β) (outer : Bool) (answer : Answer α) : Prop :=
  ∃ cells handles new, m.start a outer =
    { m with cells, handles, agenda := new ++ .report a.name answer outer :: m.agenda }

theorem Sound.starts_ofCell {m : Machine α β} (hm : m.Covered) (hw : m.handles = w.machine.handles)
    {handle : Nat} {f : Nat → Answer α}
    (hnone : m.cell? handle = none → m.start a outer = m.push [.report a.name .noSuchHandle outer])
    (hsome : ∀ i c, m.cells[i]? = some c → m.cell? handle = some (i, c) →
      Starts m a outer (f i)) : Starts m a outer (w.ofCell handle f) := by
  cases hi : m.handles[handle]? with
  | none =>
    rw [ofCell_of_none (hw ▸ hi), Starts, hnone (Machine.cell?_eq_none hi)]
    exact ⟨_, _, [], rfl⟩
  | some i =>
    obtain ⟨c, hget, hc⟩ := hm.cell?_eq hi
    rw [ofCell_of_some (hw ▸ hi)]
    exact hsome i c hget hc

/-- **An act that starts has its answer**, which is given behind all that it leads to. -/
theorem Sound.starts (h : w.Sound) {m : Machine α β} (hm : m.Covered)
    (hcells : m.cells = w.machine.cells) (hhandles : m.handles = w.machine.handles) (a : Act α β)
    (outer : Bool) : Starts m a outer (w.answerTo a) := by
  cases a with
  | create compute acts =>
    rw [answerTo, ← hhandles]
    exact ⟨_, _, [], rfl⟩
  | clone handle =>
    refine starts_ofCell hm hhandles (fun hc => by simp only [Machine.start, hc]) fun i c _ hc => ?_
    simp only [Starts, Machine.start, hc, ← hhandles]
    exact ⟨_, _, [], rfl⟩
  | resolve handle input =>
    refine starts_ofCell hm hhandles (fun hc => by simp only [Machine.start, hc]) fun i c hget hc => ?_
    rw [(h.tidy.cells i c (hcells ▸ hget)).resolvedIn_eq]
    simp only [Starts, Machine.start, hc]
    -- The receiver is taken by whoever comes first.
    cases hr : c.receiver with
    | none =>
      simp only [Cell.begin?, hr]
      exact ⟨_, _, [], rfl⟩
    | some r =>
      simp only [Cell.begin?, hr]
      exact ⟨_, _, r.acts.map (.act · false) ++ [.settle i (r.compute input)], rfl⟩
  | listen handle tag acts =>
    refine starts_ofCell hm hhandles (fun hc => by simp only [Machine.start, hc]) fun i c _ hc => ?_
    simp only [Starts, Machine.start, hc]
    cases hr : c.result with
    | some value =>
      rw [Cell.listen_of_some hr]
      exact ⟨_, _, [.hear ⟨tag, acts⟩ value], rfl⟩
    | none =>
      rw [Cell.listen_of_none hr]
      exact ⟨_, _, [], rfl⟩
  | isSolved handle | result handle =>
    refine starts_ofCell hm hhandles (fun hc => by simp only [Machine.start, hc]) fun i c hget hc => ?_
    rw [(h.tidy.cells i c (hcells ▸ hget)).valueIn_eq]
    simp only [Starts, Machine.start, hc]
    exact ⟨_, _, [], rfl⟩
  | describe handle =>
    refine starts_ofCell hm hhandles (fun hc => by simp only [Machine.start, hc]) fun i c hget hc => ?_
    have hwords : (Cell.outline c.result c.listeners.length).describe = c.describe :=
      Cell.describe_congr rfl List.length_replicate
    rw [(h.tidy.cells i c (hcells ▸ hget)).valueIn_eq, h.waitingIn_eq (hcells ▸ hget), hwords]
    simp only [Starts, Machine.start, hc]
    exact ⟨_, _, [], rfl⟩
  | sameCell handle other =>
    refine starts_ofCell hm hhandles (fun hc => by simp only [Machine.start, hc]) fun i c _ hc => ?_
    simp only [Starts, Machine.start, hc, ← hhandles]
    exact ⟨_, _, [], rfl⟩

/-! ### The agenda is a stack -/

/-- A step replaces the first task by what it leads to. What was noted stays. -/
theorem Sound.step_agenda (h : w.Sound) (hm : w.machine.Covered) {t : Task α β}
    (ht : w.machine.agenda = t :: rest) :
    (∃ new, w.step.machine.agenda = new ++ rest) ∧ w.machine.notes <:+ w.step.machine.notes := by
  show (∃ new, w.machine.step.agenda = new ++ rest) ∧ w.machine.notes <:+ w.machine.step.notes
  cases t with
  | act a outer =>
    obtain ⟨cells, handles, new, hstart⟩ :=
      h.starts (m := { w.machine with agenda := rest }) hm rfl rfl a outer
    rw [Machine.step_act ht, hstart]
    exact ⟨⟨new ++ [.report a.name (w.answerTo a) outer], by simp⟩, List.suffix_rfl⟩
  | settle i value =>
    have hi : i < w.machine.cells.size :=
      h.tidy.settling_lt i (by simp [Machine.settling, ht, Task.settles?])
    rw [Machine.step_settle ht (Array.getElem?_eq_getElem hi)]
    exact ⟨⟨_, rfl⟩, List.suffix_rfl⟩
  | hear k value =>
    rw [Machine.step_hear ht]
    exact ⟨⟨_, rfl⟩, List.suffix_cons _ _⟩
  | report name answer outer =>
    rw [Machine.step_report ht]
    cases outer with
    | true => exact ⟨⟨[], rfl⟩, List.suffix_rfl⟩
    | false => exact ⟨⟨[], rfl⟩, List.suffix_cons _ _⟩

theorem Sound.exists_rest (h : w.Sound) (hm : w.machine.Covered) {new : List (Task α β)}
    (hw : w.machine.agenda = new ++ rest) :
    ∃ steps, (Nat.repeat Watch.step steps w).machine.agenda = rest := by
  -- By induction on what is left to do.
  induction hn : w.machine.weight using Nat.strongRecOn generalizing w new with
  | ind n ih =>
    cases new with
    | nil => exact ⟨0, hw⟩
    | cons t new =>
      obtain ⟨⟨new', hnew⟩, -⟩ := h.step_agenda hm hw
      have hlt : w.step.machine.weight < n := hn ▸ Machine.weight_step (by simp [hw])
      obtain ⟨steps, hsteps⟩ := ih _ hlt h.step hm.step
        (hnew.trans (List.append_assoc new' new rest).symm) rfl
      exact ⟨1 + steps, by rwa [repeat_add]⟩

/-- **Every act returns its answer**: with the tasks behind it left to do, an outer act has given
its answer to the host, an inner one has noted it. -/
theorem Sound.answers (h : w.Sound) (hm : w.machine.Covered)
    (ha : w.machine.agenda = .act a outer :: rest) :
    ∃ steps, (Nat.repeat Watch.step steps w).machine.agenda = rest ∧
      (outer = true → (Nat.repeat Watch.step steps w).machine.answer = w.answerTo a) ∧
      (outer = false → (Nat.repeat Watch.step steps w).machine.notes.head? =
        some (.did a.name (w.answerTo a))) := by
  obtain ⟨cells, handles, new, hstart⟩ :=
    h.starts (m := { w.machine with agenda := rest }) hm rfl rfl a outer
  have hnew : w.step.machine.agenda = new ++ .report a.name (w.answerTo a) outer :: rest := by
    show w.machine.step.agenda = _
    rw [Machine.step_act ha, hstart]
  -- All that the act leads to is done first, then the answer is on top.
  obtain ⟨steps, hsteps⟩ := h.step.exists_rest hm.step hnew
  have hlast := Machine.step_report hsteps
  refine ⟨1 + steps + 1, ?_⟩
  have hrun : (Nat.repeat Watch.step (1 + steps + 1) w).machine =
      (Nat.repeat Watch.step steps w.step).machine.step := by
    rw [Nat.repeat, repeat_add]
    rfl
  rw [hrun, hlast]
  cases outer with
  | true => exact ⟨rfl, fun _ => rfl, fun hno => absurd hno (by simp)⟩
  | false => exact ⟨rfl, fun hno => absurd hno (by simp), fun _ => rfl⟩

end Watch

end Storyline.Deferred
