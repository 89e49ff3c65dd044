import Storyline.Deferred.Program

/-!
# Programs over deferred values end

* `Machine.step_act`, `Machine.step_settle`, `Machine.step_hear`, `Machine.step_report`: one step, by
  the task on top of the agenda;
* `Machine.weight_step`: a step on a machine with something to do takes weight off;
* `Machine.agenda_run`: running leaves nothing to do.
-/

namespace Storyline.Deferred

variable {α β : Type}

/-! ### Repeating -/

theorem repeat_add {σ : Type} (f : σ → σ) (m n : Nat) (s : σ) :
    Nat.repeat f (m + n) s = Nat.repeat f n (Nat.repeat f m s) := by
  induction n with
  | zero => rfl
  | succ n ih => exact congrArg f ih

/-! ### Weights -/

@[simp] theorem total_nil : total [] = 0 := rfl
@[simp] theorem total_cons (w : Nat) (ws : List Nat) : total (w :: ws) = w + total ws := rfl

@[simp] theorem total_append (ws vs : List Nat) : total (ws ++ vs) = total ws + total vs := by
  induction ws with
  | nil => simp
  | cons w ws ih => rw [List.cons_append, total_cons, total_cons, ih, Nat.add_assoc]

theorem total_set (ws : List Nat) (i w v : Nat) (h : ws[i]? = some w) :
    total (ws.set i v) + w = total ws + v := by
  induction ws generalizing i with
  | nil => simp at h
  | cons u ws ih =>
    cases i with
    | zero =>
      obtain rfl : u = w := by simpa using h
      simp only [List.set_cons_zero, total_cons]
      omega
    | succ i =>
      have := ih i (by simpa using h)
      simp only [List.set_cons_succ, total_cons]
      omega

theorem Act.weight_pos (a : Act α β) : 0 < a.weight := by
  cases a <;> simp [Act.weight]

theorem Act.total_weight (acts : List (Act α β)) (outer : Bool) :
    total ((acts.map (Task.act · outer)).map Task.weight) = Act.weightAll acts := by
  induction acts with
  | nil => rfl
  | cons a acts ih =>
    simp only [List.map_cons, total_cons, Act.weightAll, ih]
    rfl

theorem total_hear (ks : List (Listener α β)) (value : α) :
    total ((ks.map (Task.hear · value)).map Task.weight) = total (ks.map Listener.weight) := by
  induction ks with
  | nil => rfl
  | cons k ks ih =>
    simp only [List.map_cons, total_cons, ih]
    rfl

theorem Task.weight_pos (t : Task α β) : 0 < t.weight := by
  cases t with
  | act a => exact a.weight_pos
  | settle => exact Nat.one_pos
  | hear k => exact Nat.succ_pos _
  | report => exact Nat.one_pos

/-! ### Listening -/

theorem Cell.listen_of_some {ρ κ : Type} {c : Cell ρ κ α} {value : α} (h : c.result = some value)
    (k : κ) : c.listen k = (some value, c) := by
  rw [Cell.listen, h]

theorem Cell.listen_of_none {ρ κ : Type} {c : Cell ρ κ α} (h : c.result = none) (k : κ) :
    c.listen k = (none, { c with listeners := c.listeners ++ [k] }) := by
  rw [Cell.listen, h]

/-! ### One step -/

namespace Machine

variable [ToString α] {m : Machine α β} {rest : List (Task α β)}

theorem step_of_nil (h : m.agenda = []) : m.step = m := by
  rw [step, h]

theorem step_act {a : Act α β} {outer : Bool} (h : m.agenda = .act a outer :: rest) :
    m.step = { m with agenda := rest }.start a outer := by
  rw [step, h]

theorem step_settle {i : Nat} {value : α} {c : Cell (Receiver α β) (Listener α β) α}
    (h : m.agenda = .settle i value :: rest) (hc : m.cells[i]? = some c) :
    m.step = ({ m with agenda := rest }.setCell i (c.solve value).2).push
      (c.listeners.map (.hear · value)) := by
  rw [step, h]
  simp only [hc]
  rfl

theorem step_hear {k : Listener α β} {value : α} (h : m.agenda = .hear k value :: rest) :
    m.step = { m with
      agenda := k.acts.map (.act · false) ++ rest
      notes := .heard k.tag value :: m.notes } := by
  rw [step, h]
  rfl

theorem step_report {name : String} {answer : Answer α} {outer : Bool}
    (h : m.agenda = .report name answer outer :: rest) :
    m.step = if outer then { m with agenda := rest, answer := answer }
      else { m with agenda := rest, notes := .did name answer :: m.notes } := by
  rw [step, h]

omit [ToString α] in
theorem cell?_eq_some {handle i : Nat} {c : Cell (Receiver α β) (Listener α β) α} :
    m.cell? handle = some (i, c) ↔ m.handles[handle]? = some i ∧ m.cells[i]? = some c := by
  simp only [cell?, bind, Option.bind_eq_some_iff, pure, Option.some.injEq, Prod.mk.injEq]
  constructor
  · rintro ⟨j, hj, d, hd, rfl, rfl⟩
    exact ⟨hj, hd⟩
  · rintro ⟨hi, hc⟩
    exact ⟨i, hi, c, hc, rfl, rfl⟩

omit [ToString α] in
theorem cell?_agenda (m : Machine α β) (tasks : List (Task α β)) (handle : Nat) :
    { m with agenda := tasks }.cell? handle = m.cell? handle := rfl

/-! ### Steps take weight off -/

omit [ToString α] in
theorem weight_push (tasks : List (Task α β)) :
    (m.push tasks).weight = total (tasks.map Task.weight) + m.weight := by
  simp only [weight, push, List.map_append, total_append]
  omega

omit [ToString α] in
theorem weight_setCell {i : Nat} {c d : Cell (Receiver α β) (Listener α β) α}
    (h : m.cells[i]? = some c) :
    (m.setCell i d).weight + Cell.weight c = m.weight + Cell.weight d := by
  have hset := total_set (m.cells.toList.map Cell.weight) i (Cell.weight c) (Cell.weight d)
    (by simp [h])
  simp only [weight, setCell, Array.toList_setIfInBounds, List.map_set]
  omega

omit [ToString α] in
theorem weight_begin {c d : Cell (Receiver α β) (Listener α β) α} {r : Receiver α β}
    (h : c.begin? = .ok (r, d)) : Cell.weight c = r.weight + Cell.weight d := by
  unfold Cell.begin? at h
  cases hr : c.receiver with
  | none => simp [hr] at h
  | some s =>
    obtain ⟨rfl, rfl⟩ : s = r ∧ { c with receiver := none } = d := by simpa [hr] using h
    simp [Cell.weight, hr]

omit [ToString α] in
theorem weight_solve (c : Cell (Receiver α β) (Listener α β) α) (value : α) :
    total (c.listeners.map Listener.weight) + Cell.weight (c.solve value).2 = Cell.weight c := by
  simp only [Cell.weight, Cell.solve, List.map_nil, total_nil]
  omega

theorem weight_start (a : Act α β) (outer : Bool) :
    (m.start a outer).weight < a.weight + m.weight := by
  have hreply (m' : Machine α β) (name : String) (answer : Answer α) :
      (m'.push [.report name answer outer]).weight = 1 + m'.weight := weight_push _
  have hhandles (hs : Array Nat) : { m with handles := hs }.weight = m.weight := rfl
  -- what an act puts on the agenda is part of the act itself, or was in the cell
  cases a with
  | create compute acts =>
    simp only [start, hreply]
    simp [weight, Cell.weight, Cell.fresh, Receiver.weight, Act.weight]
    omega
  | clone handle =>
    simp only [start, Act.weight]
    cases m.cell? handle <;> simp only [hreply, hhandles] <;> omega
  | resolve handle input =>
    simp only [start, Act.weight]
    cases hc : m.cell? handle with
    | none =>
      simp only [hreply]
      omega
    | some ic =>
      obtain ⟨i, c⟩ := ic
      have hget := (cell?_eq_some.1 hc).2
      simp only
      cases hb : c.begin? with
      | error e =>
        simp only [hreply]
        omega
      | ok rd =>
        obtain ⟨r, d⟩ := rd
        have hset := weight_setCell (d := d) hget
        have hbegin := weight_begin hb
        simp only [weight_push, hreply, List.map_append, total_append, Act.total_weight]
        simp only [Receiver.weight] at hbegin
        simp only [List.map_cons, List.map_nil, total_cons, total_nil, Task.weight]
        omega
  | listen handle tag acts =>
    simp only [start, Act.weight]
    cases hc : m.cell? handle with
    | none =>
      simp only [hreply]
      omega
    | some ic =>
      obtain ⟨i, c⟩ := ic
      have hget := (cell?_eq_some.1 hc).2
      simp only
      cases hr : c.result with
      | some value =>
        simp only [Cell.listen_of_some hr, weight_push, List.map_cons, List.map_nil, total_cons,
          total_nil, Task.weight, Listener.weight]
        omega
      | none =>
        have hset := weight_setCell (d := { c with listeners := c.listeners ++ [⟨tag, acts⟩] }) hget
        simp only [Cell.listen_of_none hr, hreply]
        simp only [Cell.weight, List.map_append, total_append, List.map_cons, List.map_nil,
          total_cons, total_nil, Listener.weight] at hset
        omega
  | isSolved handle | result handle | describe handle | sameCell handle other =>
    simp only [start, Act.weight]
    cases m.cell? handle <;> simp only [hreply] <;> omega

/-- **A step takes weight off**, as long as there is something to do. -/
theorem weight_step (h : m.agenda ≠ []) : m.step.weight < m.weight := by
  obtain ⟨task, rest, hm⟩ := List.exists_cons_of_ne_nil h
  have hweight : m.weight = task.weight + { m with agenda := rest }.weight := by
    simp only [weight, hm, List.map_cons, total_cons]
    omega
  rw [hweight]
  -- a task leaves what it holds to its successors, and is one less itself
  cases task with
  | act a outer =>
    rw [step_act hm]
    exact weight_start a outer
  | settle i value =>
    cases hc : m.cells[i]? with
    | none =>
      rw [step, hm]
      simp only [hc, Task.weight]
      omega
    | some c =>
      have hset := weight_setCell (m := { m with agenda := rest }) (d := (c.solve value).2) hc
      have hsolve := weight_solve c value
      rw [step_settle hm hc, weight_push, total_hear, Task.weight]
      omega
  | hear k value =>
    rw [step_hear hm]
    simp only [weight, List.map_append, total_append, Act.total_weight, Task.weight,
      Listener.weight]
    omega
  | report name answer outer =>
    rw [step_report hm]
    cases outer <;> simp [weight, Task.weight]

/-- **Running leaves nothing to do**: as many steps as the machine weighs are enough. -/
theorem agenda_run (m : Machine α β) : m.run.agenda = [] := by
  have hsteps (n : Nat) :
      (Nat.repeat step n m).agenda = [] ∨ (Nat.repeat step n m).weight + n ≤ m.weight := by
    induction n with
    | zero => exact .inr (Nat.le_refl _)
    | succ n ih =>
      rw [Nat.repeat]
      by_cases h : (Nat.repeat step n m).agenda = []
      · exact .inl (by rw [step_of_nil h, h])
      · have hlt := weight_step h
        have hle := ih.resolve_left h
        exact .inr (by omega)
  rcases hsteps m.weight with h | h
  · exact h
  · cases ha : m.run.agenda with
    | nil => rfl
    | cons t rest =>
      have hpos := t.weight_pos
      have hw : m.run.weight = 0 := by
        unfold run
        omega
      simp only [weight, ha, List.map_cons, total_cons] at hw
      omega

end Machine

end Storyline.Deferred
