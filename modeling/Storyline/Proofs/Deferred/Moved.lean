import Storyline.Proofs.Deferred.Watch

/-!
# What one step does to a watched machine

* `Machine.heards`, `Machine.settling`, `Machine.told`: the callbacks on the agenda, the cells whose
  receivers run, and what was heard so far;
* `Watch.Moved`: the eight ways in which a step can go, and `Watch.moved`.
-/

namespace Storyline.Deferred

variable {α β : Type}

def Task.heard? : Task α β → Option (Listener α β × α)
  | .hear k value => some (k, value)
  | _ => none

def Task.settles? : Task α β → Option Nat
  | .settle i _ => some i
  | _ => none

def Note.heard? : Note α → Option (String × α)
  | .heard tag value => some (tag, value)
  | _ => none

@[simp] theorem filterMap_heard_act (acts : List (Act α β)) (outer : Bool) :
    (acts.map (Task.act · outer)).filterMap Task.heard? = [] := by
  rw [List.filterMap_map]
  exact List.filterMap_eq_nil_iff.2 fun _ _ => rfl

@[simp] theorem filterMap_settles_act (acts : List (Act α β)) (outer : Bool) :
    (acts.map (Task.act · outer)).filterMap Task.settles? = [] := by
  rw [List.filterMap_map]
  exact List.filterMap_eq_nil_iff.2 fun _ _ => rfl

@[simp] theorem filterMap_heard_hear (ks : List (Listener α β)) (value : α) :
    (ks.map (Task.hear · value)).filterMap Task.heard? = ks.map (·, value) := by
  rw [List.filterMap_map, ← List.filterMap_eq_map]
  rfl

@[simp] theorem filterMap_settles_hear (ks : List (Listener α β)) (value : α) :
    (ks.map (Task.hear · value)).filterMap Task.settles? = [] := by
  rw [List.filterMap_map]
  exact List.filterMap_eq_nil_iff.2 fun _ _ => rfl

namespace Machine

/-- The callbacks on the agenda with what they are going to hear, the next one first. -/
def heards (m : Machine α β) : List (Listener α β × α) := m.agenda.filterMap Task.heard?

/-- The cells that are going to be given a value. -/
def settling (m : Machine α β) : List Nat := m.agenda.filterMap Task.settles?

/-- What was heard since the notes were begun, the last first. -/
def told (m : Machine α β) : List (String × α) := m.notes.filterMap Note.heard?

/-- The next task is to start a callback. -/
def Hearing (m : Machine α β) : Prop := ∃ k value rest, m.agenda = .hear k value :: rest

/-- A step that leaves the callbacks on the agenda and what was heard as they are. -/
structure Passes (m m' : Machine α β) : Prop where
  idle : ¬m.Hearing
  heards : m'.heards = m.heards
  told : m'.told = m.told

end Machine

/-- **The ways in which a step can go.** -/
inductive Watch.Moved (w : Watch α β) : Watch α β → Prop
  /-- There is nothing to do. -/
  | rests (h : w.machine.agenda = []) : Moved w w
  /-- No cell is touched. -/
  | quiet (m : Machine α β) (hp : w.machine.Passes m) (hs : m.settling = w.machine.settling)
      (hc : m.cells = w.machine.cells) : Moved w { w with machine := m }
  /-- There is a new cell. -/
  | creates (m : Machine α β) (r : Receiver α β) (hp : w.machine.Passes m)
      (hs : m.settling = w.machine.settling)
      (hc : m.cells = w.machine.cells.push (.fresh r)) : Moved w { w with machine := m }
  /-- A cell is resolved that was resolved before. -/
  | refuses (m : Machine α β) (i : Nat) (c : Cell (Receiver α β) (Listener α β) α)
      (hi : w.machine.cells[i]? = some c) (hr : c.receiver = none) (hp : w.machine.Passes m)
      (hs : m.settling = w.machine.settling) (hc : m.cells = w.machine.cells) :
      Moved w { w.note (.resolved i false) with machine := m }
  /-- The receiver of a cell starts. -/
  | receives (m : Machine α β) (i : Nat) (c : Cell (Receiver α β) (Listener α β) α)
      (hi : w.machine.cells[i]? = some c) (hr : c.receiver.isSome) (hp : w.machine.Passes m)
      (hs : m.settling = i :: w.machine.settling)
      (hc : m.cells = w.machine.cells.setIfInBounds i { c with receiver := none }) :
      Moved w { w.note (.resolved i true) with machine := m }
  /-- A callback is given to a cell without a value. -/
  | waits (m : Machine α β) (i : Nat) (c : Cell (Receiver α β) (Listener α β) α)
      (k : Listener α β) (hi : w.machine.cells[i]? = some c) (hr : c.result = none)
      (hp : w.machine.Passes m) (hs : m.settling = w.machine.settling)
      (hc : m.cells = w.machine.cells.setIfInBounds i { c with listeners := c.listeners ++ [k] }) :
      Moved w { w.give i k false with machine := m }
  /-- A callback is given to a cell that has its value. -/
  | follows (m : Machine α β) (i : Nat) (c : Cell (Receiver α β) (Listener α β) α)
      (k : Listener α β) (value : α) (hi : w.machine.cells[i]? = some c)
      (hr : c.result = some value) (hidle : ¬w.machine.Hearing) (hnext : m.Hearing)
      (hh : m.heards = (k, value) :: w.machine.heards) (ht : m.told = w.machine.told)
      (hs : m.settling = w.machine.settling) (hc : m.cells = w.machine.cells) :
      Moved w { w.give i k true with machine := m }
  /-- A cell gets its value. -/
  | solves (m : Machine α β) (i : Nat) (c : Cell (Receiver α β) (Listener α β) α) (value : α)
      (hi : w.machine.cells[i]? = some c) (hidle : ¬w.machine.Hearing)
      (hh : m.heards = c.listeners.map (·, value) ++ w.machine.heards)
      (ht : m.told = w.machine.told) (hs : w.machine.settling = i :: m.settling)
      (hc : m.cells = w.machine.cells.setIfInBounds i
        { c with result := some value, listeners := [] }) :
      Moved w { w.solve i value with machine := m }
  /-- A callback starts. -/
  | hears (m : Machine α β) (k : Listener α β) (value : α)
      (hh : w.machine.heards = (k, value) :: m.heards)
      (ht : m.told = (k.tag, value) :: w.machine.told)
      (hs : m.settling = w.machine.settling) (hc : m.cells = w.machine.cells) :
      Moved w { w.hear value with machine := m }

namespace Machine

variable {m : Machine α β} {rest : List (Task α β)}

theorem not_hearing {t : Task α β} (h : m.agenda = t :: rest) (ht : t.heard? = none) :
    ¬m.Hearing := by
  rintro ⟨k, value, rest', h'⟩
  rw [h] at h'
  obtain ⟨rfl, -⟩ := List.cons.inj h'
  cases ht

/-- A task that is no callback makes room for tasks that are none. -/
theorem Passes.of_agenda {t : Task α β} {m' : Machine α β} (new : List (Task α β))
    (h : m.agenda = t :: rest) (ht : t.heard? = none) (h' : m'.agenda = new ++ rest)
    (hnew : new.filterMap Task.heard? = []) (hnotes : m'.told = m.told) : m.Passes m' where
  idle := not_hearing h ht
  heards := by
    rw [Machine.heards, Machine.heards, h, h', List.filterMap_append, hnew, List.nil_append,
      List.filterMap_cons_none ht]
  told := hnotes

theorem settling_of_agenda {t : Task α β} {m' : Machine α β} (new : List (Task α β))
    (h : m.agenda = t :: rest) (ht : t.settles? = none) (h' : m'.agenda = new ++ rest) :
    m'.settling = new.filterMap Task.settles? ++ m.settling := by
  rw [settling, settling, h, h', List.filterMap_append, List.filterMap_cons_none ht]

end Machine

namespace Watch

variable [ToString α] {w : Watch α β} {a : Act α β} {outer : Bool} {rest : List (Task α β)}

omit [ToString α] in
theorem Moved.of_reply {answer : Answer α} (h : w.machine.agenda = .act a outer :: rest)
    (handles : Array Nat) :
    w.Moved { w with machine := { w.machine with
      agenda := .report a.name answer outer :: rest, handles } } :=
  .quiet _ (.of_agenda [.report a.name answer outer] h rfl rfl rfl rfl)
    (Machine.settling_of_agenda [.report a.name answer outer] h rfl rfl) rfl

theorem moved_resolve {handle : Nat} {input : β}
    (h : w.machine.agenda = .act (.resolve handle input) outer :: rest) : w.Moved w.step := by
  cases hc : w.machine.cell? handle with
  | none =>
    simp only [step, foresee, h, Machine.step_act h, Machine.start, Machine.cell?_agenda, hc]
    exact .of_reply h _
  | some ic =>
    obtain ⟨i, c⟩ := ic
    have hi := (Machine.cell?_eq_some.1 hc).2
    simp only [step, foresee, h, Machine.step_act h, Machine.start, Machine.cell?_agenda, hc]
    -- a cell that was resolved before has no receiver left
    cases hr : c.receiver with
    | none =>
      simp only [Cell.begin?, hr]
      exact .refuses _ i c hi hr (.of_agenda [.report _ _ _] h rfl rfl rfl rfl)
        (Machine.settling_of_agenda [.report _ _ _] h rfl rfl) rfl
    | some r =>
      simp only [Cell.begin?, hr]
      -- what the receiver does comes before the value is given out
      let new : List (Task α β) := r.acts.map (.act · false) ++
        [.settle i (r.compute input), .report (Act.resolve (α := α) handle input).name .done outer]
      have happend (ts : List (Task α β)) : r.acts.map (Task.act · false) ++
          [.settle i (r.compute input)] ++ .report (Act.resolve (α := α) handle input).name .done
            outer :: ts = new ++ ts := by
        simp [new]
      refine .receives _ i c hi (by simp [hr])
        (.of_agenda new h rfl (happend rest) ?_ rfl) ?_ rfl
      · simp only [new, List.filterMap_append, filterMap_heard_act]
        rfl
      · rw [Machine.settling_of_agenda new h rfl (happend rest)]
        simp only [new, List.filterMap_append, filterMap_settles_act]
        rfl

theorem moved_listen {handle : Nat} {tag : String} {acts : List (Act α β)}
    (h : w.machine.agenda = .act (.listen handle tag acts) outer :: rest) : w.Moved w.step := by
  cases hc : w.machine.cell? handle with
  | none =>
    simp only [step, foresee, h, Machine.step_act h, Machine.start, Machine.cell?_agenda, hc]
    exact .of_reply h _
  | some ic =>
    obtain ⟨i, c⟩ := ic
    have hi := (Machine.cell?_eq_some.1 hc).2
    simp only [step, foresee, h, Machine.step_act h, Machine.start, Machine.cell?_agenda, hc]
    cases hr : c.result with
    | none =>
      simp only [Cell.listen_of_none hr, Cell.isSolved, hr]
      exact .waits _ i c ⟨tag, acts⟩ hi hr (.of_agenda [.report _ _ _] h rfl rfl rfl rfl)
        (Machine.settling_of_agenda [.report _ _ _] h rfl rfl) (by rw [hr]; rfl)
    | some value =>
      simp only [Cell.listen_of_some hr, Cell.isSolved, hr]
      refine .follows _ i c ⟨tag, acts⟩ value hi hr (Machine.not_hearing h rfl)
        ⟨_, _, _, rfl⟩ ?_ rfl (Machine.settling_of_agenda [.hear _ _, .report _ _ _] h rfl rfl) rfl
      rw [Machine.heards, Machine.heards, h]
      rfl

/-- **What a step does.** -/
theorem moved (hs : ∀ i ∈ w.machine.settling, i < w.machine.cells.size) : w.Moved w.step := by
  cases h : w.machine.agenda with
  | nil =>
    rw [step, foresee, h, Machine.step_of_nil h]
    exact .rests h
  | cons task rest =>
    cases task with
    | act a outer =>
      -- only resolving, listening and creating change a cell
      cases a with
      | create compute acts =>
        rw [step, foresee, h, Machine.step_act h]
        exact .creates _ ⟨compute, acts⟩ (.of_agenda [.report _ _ _] h rfl rfl rfl rfl)
          (Machine.settling_of_agenda [.report _ _ _] h rfl rfl) rfl
      | resolve handle input => exact moved_resolve h
      | listen handle tag acts => exact moved_listen h
      | clone handle | isSolved handle | result handle | describe handle | sameCell handle other =>
        simp only [step, foresee, h, Machine.step_act h, Machine.start, Machine.cell?_agenda]
        cases w.machine.cell? handle <;> exact .of_reply h _
    | settle i value =>
      have hi : i < w.machine.cells.size := hs i (by simp [Machine.settling, h, Task.settles?])
      have hc := Array.getElem?_eq_getElem hi
      rw [step, foresee, h, Machine.step_settle h hc]
      refine .solves _ i _ value hc (Machine.not_hearing h rfl) ?_ rfl ?_ rfl
      · rw [Machine.heards, Machine.heards, h]
        simp only [Machine.push, Machine.setCell, List.filterMap_append, filterMap_heard_hear]
        rfl
      · rw [Machine.settling, Machine.settling, h]
        simp only [Machine.push, Machine.setCell, List.filterMap_append, filterMap_settles_hear]
        rfl
    | hear k value =>
      rw [step, foresee, h, Machine.step_hear h]
      refine .hears _ k value ?_ rfl ?_ rfl
      · rw [Machine.heards, Machine.heards, h, List.filterMap_append, filterMap_heard_act]
        rfl
      · rw [Machine.settling, Machine.settling, h, List.filterMap_append, filterMap_settles_act]
        rfl
    | report name answer outer =>
      rw [step, foresee, h, Machine.step_report h]
      cases outer <;> exact .quiet _ (.of_agenda [] h rfl rfl rfl rfl)
        (Machine.settling_of_agenda [] h rfl rfl) rfl

end Watch

end Storyline.Deferred
