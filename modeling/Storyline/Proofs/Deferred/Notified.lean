import Storyline.Proofs.Deferred.Answers

/-!
# Deferred values are resolved once and heard by everyone once

* `Watch.during`: a watched machine in the middle of an act, after any acts performed before;
* `Watch.Orderly`: what holds there: only the first resolving of a cell is accepted, whoever comes
  later changes nothing, every callback starts once, with the one value of its cell and not before
  there is one, those that had to wait start in the order they were given, and every act answers;
* `Watch.notifies_once`: it holds at all times, and when an act has ended every callback of a cell
  with a value was started, and the host has its answer.
-/

namespace Storyline.Deferred

variable {α β : Type}

/-- What is heard when a callback starts. -/
def Event.heard? : Event α β → Option (String × α)
  | started k value => some (k.listener.tag, value)
  | _ => none

/-! ### At all times -/

theorem Machine.performAll_concat [ToString α] (past : List (Act α β)) (a : Act α β) :
    Machine.performAll (past ++ [a]) = ((Machine.performAll past).perform a).2.2 := by
  rw [Machine.performAll, List.foldl_concat, Machine.performAll]

namespace Watch

/-- A watched machine in the middle of an act, some steps on, after some acts before. -/
def during [ToString α] (past : List (Act α β)) (a : Act α β) (steps : Nat) : Watch α β :=
  Nat.repeat step steps ((performAll past).call a)

/-- **How cells are resolved and callbacks are heard.** -/
structure Orderly [ToString α] (w : Watch α β) : Prop where
  /-- Only the first resolving of a cell is accepted; a cell gets one value; a callback starts at
  most once, after it was given, with the value of its cell. -/
  lawful : Lawful w.log
  /-- Every handle names a cell. -/
  covered : w.machine.Covered
  /-- Making a cell makes a handle on it, a new one. -/
  creates : ∀ compute acts outer rest,
    w.machine.agenda = .act (.create compute acts) outer :: rest → w.step.machine = { w.machine with
      cells := w.machine.cells.push (.fresh ⟨compute, acts⟩)
      handles := w.machine.handles.push w.machine.cells.size
      agenda := .report "new" (.handle w.machine.handles.size) outer :: rest }
  /-- Another handle names the same cell. -/
  clones : ∀ handle outer rest i, w.machine.agenda = .act (.clone handle) outer :: rest →
    w.machine.handles[handle]? = some i → w.step.machine = { w.machine with
      handles := w.machine.handles.push i
      agenda := .report "clone" (.handle w.machine.handles.size) outer :: rest }
  /-- Every act, an inner one too, returns what it has to answer. -/
  answers : ∀ a outer rest, w.machine.agenda = .act a outer :: rest →
    ∃ steps, (Nat.repeat step steps w).machine.agenda = rest ∧
      (outer = true → (Nat.repeat step steps w).machine.answer = w.answerTo a) ∧
      (outer = false → (Nat.repeat step steps w).machine.notes.head? =
        some (.did a.name (w.answerTo a)))
  /-- A cell has the value that was noted. With it there is neither a receiver nor a queue. -/
  solved : ∀ i c, w.machine.cells[i]? = some c → ∀ value,
    (c.result = some value ↔ .solved i value ∈ w.log) ∧
      (c.result = some value → c.receiver = none ∧ c.listeners = [])
  /-- Whoever resolves a cell again is refused and changes nothing. -/
  refuses : ∀ handle input outer rest i,
    w.machine.agenda = .act (.resolve handle input) outer :: rest →
    w.machine.handles[handle]? = some i → (∃ accepted, .resolved i accepted ∈ w.log) →
    w.step.machine = { w.machine with
      agenda := .report "resolve" (.failed .alreadyResolved) outer :: rest }
  /-- Whoever resolves a cell first takes its receiver, which runs and then gives the value. -/
  accepts : ∀ handle input outer rest i,
    w.machine.agenda = .act (.resolve handle input) outer :: rest →
    w.machine.handles[handle]? = some i → (∀ accepted, .resolved i accepted ∉ w.log) →
    ∃ c r, w.machine.cells[i]? = some c ∧ c.receiver = some r ∧ w.step.machine = { w.machine with
      cells := w.machine.cells.setIfInBounds i { c with receiver := none }
      agenda := r.acts.map (.act · false) ++
        .settle i (r.compute input) :: .report "resolve" .done outer :: rest }
  /-- Callbacks that had to wait start in the order they were given. -/
  order : ∀ i, earlyAt i (startedIn w.log) <+: earlyAt i (givenIn w.log)
  /-- At rest, every callback of a cell with a value was started. -/
  heard : w.machine.agenda = [] → ∀ k value, .given k ∈ w.log → .solved k.cell value ∈ w.log →
    .started k value ∈ w.log

variable [ToString α] {w : Watch α β}

omit [ToString α] in
theorem Logged.receiver_eq_none {i : Nat} {c : Cell (Receiver α β) (Listener α β) α}
    (h : w.Logged i c) (hr : ∃ accepted, .resolved i accepted ∈ w.log) : c.receiver = none := by
  obtain ⟨accepted, hmem⟩ := hr
  cases hc : c.receiver with
  | none => rfl
  | some r => exact absurd hmem (h.receiver (by simp [hc]) accepted)

omit [ToString α] in
theorem Sound.started_at_rest (h : w.Sound) (hrest : w.machine.agenda = []) {k : Callback α β}
    {value : α} (hk : .given k ∈ w.log) (hv : .solved k.cell value ∈ w.log) :
    .started k value ∈ w.log := by
  have hvalue : w.machine.valueAt k.cell = some value := by
    have hget := Array.getElem?_eq_getElem (h.tidy.known _ hv)
    exact (Machine.valueAt_of_cell hget).trans (((h.tidy.cells _ _ hget).result value).2 hv)
  have hdue : w.due = [] := by
    have := h.booked.heards
    rw [Machine.heards, hrest] at this
    exact List.map_eq_nil_iff.1 this.symm
  have hwaiting : k ∉ w.waiting := fun hmem => by
    rw [(h.booked.waiting k hmem).2] at hvalue
    cases hvalue
  have hstarted : k ∈ startedIn w.log := by
    have hgiven := mem_givenIn.2 hk
    cases hkind : k.early with
    | true =>
      have hmem : k ∈ earlyAt k.cell (givenIn w.log) := by simp [earlyAt, hgiven, hkind]
      rw [← h.booked.early, hdue] at hmem
      simpa [earlyAt, hkind, hwaiting] using hmem
    | false =>
      have hmem : k ∈ lateOf (givenIn w.log) := by simp [lateOf, hgiven, hkind]
      rw [← h.booked.late, hdue] at hmem
      simpa [lateOf, hkind] using hmem
  -- The value it was started with is that of its cell, so it is the one in question.
  obtain ⟨other, he⟩ := mem_startedIn.1 hstarted
  have hget := Array.getElem?_eq_getElem (h.tidy.known _ hv)
  have hsolved := (h.tidy.cells _ _ hget).result
  obtain rfl : other = value := Option.some_inj.1
    (((hsolved other).2 (h.tidy.lawful.solved_of_started he)).symm.trans ((hsolved value).2 hv))
  exact he

theorem Sound.orderly (h : w.Sound) (hm : w.machine.Covered) : w.Orderly where
  lawful := h.tidy.lawful
  covered := hm
  creates compute acts outer rest ha := by
    show w.machine.step = _
    rw [Machine.step_act ha]
    rfl
  clones handle outer rest i ha hi := by
    obtain ⟨c, -, hc⟩ := hm.cell?_eq hi
    show w.machine.step = _
    rw [Machine.step_act ha, Machine.start]
    simp only [Machine.cell?_agenda, hc]
    rfl
  answers a outer rest ha := h.answers hm ha
  solved i c hc value := by
    have hlog := h.tidy.cells i c hc
    refine ⟨hlog.result value, fun hvalue => ?_⟩
    have hsome : c.result.isSome := by simp [hvalue]
    exact ⟨hlog.gone hsome, h.listeners_eq_nil hc hsome⟩
  refuses handle input outer rest i ha hi hr := by
    have hget := Array.getElem?_eq_getElem (hm handle i hi)
    have hnone := (h.tidy.cells i _ hget).receiver_eq_none hr
    show w.machine.step = _
    rw [Machine.step_act ha, Machine.start]
    simp only [Machine.cell?_agenda, Machine.cell?_eq_some.2 ⟨hi, hget⟩, Cell.begin?, hnone]
    rfl
  accepts handle input outer rest i ha hi hr := by
    obtain ⟨c, hget⟩ : ∃ c, w.machine.cells[i]? = some c :=
      ⟨_, Array.getElem?_eq_getElem (hm handle i hi)⟩
    have hlog := h.tidy.cells i c hget
    -- a cell without a receiver was resolved before
    cases hc : c.receiver with
    | none => exact absurd (hlog.resolved hc) (hr true)
    | some r =>
      refine ⟨c, r, hget, hc, ?_⟩
      show w.machine.step = _
      rw [Machine.step_act ha, Machine.start]
      simp only [Machine.cell?_agenda, Machine.cell?_eq_some.2 ⟨hi, hget⟩, Cell.begin?, hc]
      simp [Machine.push, Machine.setCell, Act.name]
  order i := by
    rw [← h.booked.early, List.append_assoc]
    exact List.prefix_append _ _
  heard hrest k value hk hv := h.started_at_rest hrest hk hv

/-! ### Runs -/

theorem Sound.told_step (h : w.Sound) : ∃ new, w.step.log = w.log ++ new ∧
    w.step.machine.told.reverse = w.machine.told.reverse ++ new.filterMap Event.heard? := by
  have hmoved := w.moved h.tidy.settling_lt
  generalize w.step = w' at hmoved
  cases hmoved with
  | rests => exact ⟨[], by simp⟩
  | quiet m hp | creates m r hp => exact ⟨[], by simp, by simp [hp.told]⟩
  | refuses m i c hi hr hp | receives m i c hi hr hp =>
    exact ⟨[_], rfl, by simp [hp.told, Event.heard?]⟩
  | waits m i c k hi hr hp => exact ⟨[_], rfl, by simp [hp.told, Event.heard?]⟩
  | follows m i c k value hi hr hidle hnext hh ht => exact ⟨[_], rfl, by simp [ht, Event.heard?]⟩
  | solves m i c value hi hidle hh ht => exact ⟨[_], rfl, by simp [ht, Event.heard?]⟩
  | hears m k value hh ht hs hc =>
    obtain ⟨b, due, hdue, rfl, -, -⟩ := h.booked.hears hh (Machine.valueAt_of_cells hc)
    exact ⟨[.started b value], by simp [hear, hdue, note], by simp [ht, Event.heard?]⟩

theorem Sound.repeat_step (h : w.Sound) (hm : w.machine.Covered) (ht : w.machine.told = [])
    (steps : Nat) : (Nat.repeat Watch.step steps w).Sound ∧
      (Nat.repeat Watch.step steps w).machine.Covered ∧
      (Nat.repeat Watch.step steps w).machine = Nat.repeat Machine.step steps w.machine ∧
      ∃ later, (Nat.repeat Watch.step steps w).log = w.log ++ later ∧
        (Nat.repeat Watch.step steps w).machine.told.reverse = later.filterMap Event.heard? := by
  induction steps with
  | zero => exact ⟨h, hm, rfl, [], by simp [Nat.repeat], by simp [Nat.repeat, ht]⟩
  | succ n ih =>
    obtain ⟨hs, hcov, hmachine, later, hlog, htold⟩ := ih
    obtain ⟨new, hlog', htold'⟩ := hs.told_step
    simp only [Nat.repeat]
    refine ⟨hs.step, hcov.step, ?_, later ++ new, ?_, ?_⟩
    · rw [← hmachine]
      rfl
    · rw [hlog', hlog, List.append_assoc]
    · rw [htold', htold, List.filterMap_append]

theorem Sound.notes_repeat (h : w.Sound) (hm : w.machine.Covered) (ht : w.machine.told = [])
    (steps more : Nat) : (Nat.repeat Watch.step steps w).machine.notes <:+
      (Nat.repeat Watch.step (steps + more) w).machine.notes := by
  induction more with
  | zero => exact List.suffix_rfl
  | succ n ih =>
    obtain ⟨hs, hcov, -⟩ := h.repeat_step hm ht (steps + n)
    refine ih.trans ?_
    rw [Nat.add_succ, Nat.repeat]
    cases hagenda : (Nat.repeat Watch.step (steps + n) w).machine.agenda with
    | nil =>
      show _ <:+ (Nat.repeat Watch.step (steps + n) w).machine.step.notes
      simp only [Machine.step_of_nil hagenda, List.suffix_rfl]
    | cons t rest => exact (hs.step_agenda hcov hagenda).2

theorem repeat_of_rest (hrest : w.machine.agenda = []) (steps : Nat) :
    Nat.repeat Watch.step steps w = w := by
  induction steps with
  | zero => rfl
  | succ n ih =>
    rw [Nat.repeat, ih, Watch.step, foresee, hrest, Machine.step_of_nil hrest]

theorem repeat_eq_of_rest {m n : Nat} (hm : (Nat.repeat Watch.step m w).machine.agenda = [])
    (hn : (Nat.repeat Watch.step n w).machine.agenda = []) :
    Nat.repeat Watch.step m w = Nat.repeat Watch.step n w := by
  rcases Nat.le_total m n with hle | hle
  · rw [← Nat.add_sub_cancel' hle, repeat_add, repeat_of_rest hm]
  · rw [← Nat.add_sub_cancel' hle, repeat_add, repeat_of_rest hn]

omit [ToString α] in
theorem covered_call (h : w.machine.Covered) (a : Act α β) : (w.call a).machine.Covered := h

omit [ToString α] in
theorem agenda_call (hrest : w.machine.agenda = []) (a : Act α β) :
    (w.call a).machine.agenda = [.act a true] := congrArg (Task.act a true :: ·) hrest

theorem performAll_concat (past : List (Act α β)) (a : Act α β) :
    performAll (past ++ [a]) = (performAll past).perform a := by
  rw [performAll, List.foldl_concat, performAll]

theorem at_rest (acts : List (Act α β)) : (performAll acts).Sound ∧
    (performAll acts).machine.Covered ∧ (performAll acts).machine = Machine.performAll acts ∧
    (performAll acts).machine.agenda = [] := by
  induction acts using List.reverseRecOn with
  | nil => exact ⟨sound_empty, by simp [performAll, Machine.Covered], rfl, rfl⟩
  | append_singleton acts a ih =>
    obtain ⟨hs, hm, heq, hrest⟩ := ih
    obtain ⟨hs', hm', heq', -⟩ := Sound.repeat_step (hs.call hrest a) (covered_call hm a) rfl
      ((performAll acts).call a).machine.weight
    rw [performAll_concat]
    refine ⟨hs', hm', heq'.trans ?_, ?_⟩
    · rw [Machine.performAll_concat, ← heq]
      rfl
    · rw [perform, heq']
      exact Machine.agenda_run _

/-- **Deferred values are resolved once and heard by everyone once**, at every moment of every run
of acts, inner ones included. Every act ends and answers the host what it has to; what was heard in
it is what was noted. -/
theorem notifies_once (past : List (Act α β)) (a : Act α β) (steps : Nat) :
    (during past a steps).Orderly ∧
    (∃ later, (during past a steps).log = (performAll past).log ++ later ∧
      (during past a steps).machine.told.reverse = later.filterMap Event.heard?) ∧
    performAll (past ++ [a]) = during past a ((performAll past).call a).machine.weight ∧
    (performAll (past ++ [a])).machine = Machine.performAll (past ++ [a]) ∧
    (performAll (past ++ [a])).machine.agenda = [] ∧
    (Machine.performAll past).perform a = ((performAll past).answerTo a,
      (performAll (past ++ [a])).machine.notes.reverse, (performAll (past ++ [a])).machine) ∧
    (during past a steps).machine.notes.reverse <+:
      (performAll (past ++ [a])).machine.notes.reverse := by
  obtain ⟨hs, hm, hsame, hrest⟩ := at_rest past
  have hcalled := hs.call hrest a
  have hcovered := covered_call hm a
  obtain ⟨hs', hm', -, hlog⟩ := hcalled.repeat_step hcovered rfl steps
  obtain ⟨-, -, hmachine, hdone⟩ := at_rest (past ++ [a])
  have hwhole := performAll_concat past a
  refine ⟨hs'.orderly hm', hlog, hwhole, hmachine, hdone, ?_, ?_⟩
  · -- The act is the only task, so it has answered when nothing is left to do.
    obtain ⟨n, hn, hanswer, -⟩ := hcalled.answers hcovered
      (agenda_call hrest a)
    have hlast : performAll (past ++ [a]) = Nat.repeat step n ((performAll past).call a) := by
      rw [hwhole] at hdone ⊢
      exact repeat_eq_of_rest hdone hn
    have hanswer' : (performAll (past ++ [a])).machine.answer = (performAll past).answerTo a := by
      rw [hlast, hanswer rfl]
      rfl
    rw [← hanswer', hmachine, Machine.performAll_concat]
    rfl
  · -- However far the run went, it goes on to its end.
    have hlast : performAll (past ++ [a]) =
        Nat.repeat step (steps + ((performAll past).call a).machine.weight)
          ((performAll past).call a) := by
      have hstays := repeat_of_rest hdone steps
      rw [hwhole] at hstays
      rw [Nat.add_comm, repeat_add, hwhole]
      exact hstays.symm
    rw [hlast, List.reverse_prefix]
    exact hcalled.notes_repeat hcovered rfl steps _

/-- A receiver that resolves its own cell is refused, and what it makes the cell listen to is heard
behind what came before. The host resolves the cell through a second handle, and is refused when it
does so again through the first. -/
theorem notifies_once_reentrant :
    let made : Act Nat Nat :=
      .create (fun n => 2 * n) [.resolve 0 5, .listen 0 "inner" [.result 0]]
    let past := [made, .listen 0 "outer" [], .clone 0]
    (({} : Machine Nat Nat).perform made).1 = .handle 0 ∧
    ((Machine.performAll [made, .listen 0 "outer" []]).perform (.clone 0)).1 = .handle 1 ∧
    ((Machine.performAll past).perform (.resolve 1 4)).1 = .done ∧
    ((Machine.performAll past).perform (.resolve 1 4)).2.1 =
      [.did "resolve" (.failed .alreadyResolved), .did "then" .done, .heard "outer" 8,
        .heard "inner" 8, .did "result" (.value (some 8))] ∧
    ((Machine.performAll (past ++ [.resolve 1 4])).perform (.resolve 0 7)).1 =
      .failed .alreadyResolved ∧
    (during past (.resolve 1 4) 3).Orderly ∧
    (performAll (past ++ [.resolve 1 4])).answerTo (.resolve 0 7) = .failed .alreadyResolved := by
  intro made past
  have hsecond := notifies_once (past ++ [.resolve 1 4]) (.resolve 0 7) 0
  obtain ⟨-, -, -, -, -, hanswer, -⟩ := hsecond
  have hrefused : ((Machine.performAll (past ++ [.resolve 1 4])).perform (.resolve 0 7)).1 =
      .failed .alreadyResolved := by decide
  refine ⟨by decide, by decide, by decide, by decide, hrefused,
    (notifies_once past (.resolve 1 4) 3).1, ?_⟩
  rw [← hrefused, hanswer]

end Watch

end Storyline.Deferred
