import Storyline.Proofs.Deferred.Finish

/-!
# Programs over deferred values, watched

* `Event`: what happens to cells while a machine runs: resolving, solving, giving and starting
  callbacks;
* `Watch`: a machine beside the log of its events, with the callbacks that wait at cells and those
  that are about to be heard; `Watch.step` adds what the next step of the machine is about to do;
* `Event.MayFollow`: what may happen after what has happened.

The log is kept for the proofs alone. Nothing in it decides what the machine does.
-/

namespace Storyline.Deferred

variable {α β : Type}

/-- A callback that was given to a cell. -/
structure Callback (α β : Type) where
  /-- How many callbacks were given before, to any cell. -/
  serial : Nat
  cell : Nat
  listener : Listener α β
  /-- Whether the cell had no value yet, so that the callback had to wait. -/
  early : Bool

/-- What happens to a cell. -/
inductive Event (α β : Type) where
  /-- Somebody resolves the cell. If that is accepted the receiver of the cell runs. -/
  | resolved (cell : Nat) (accepted : Bool)
  /-- The receiver has ended and the cell has its value. -/
  | solved (cell : Nat) (value : α)
  | given (callback : Callback α β)
  /-- A callback starts, with the value it hears. -/
  | started (callback : Callback α β) (value : α)

namespace Event

def given? : Event α β → Option (Callback α β)
  | given k => some k
  | _ => none

def started? : Event α β → Option (Callback α β)
  | started k _ => some k
  | _ => none

/-- The cell that an event is about. -/
def cell : Event α β → Nat
  | resolved i _ => i
  | solved i _ => i
  | given k => k.cell
  | started k _ => k.cell

end Event

/-- The callbacks that were given, in order. -/
def givenIn (log : List (Event α β)) : List (Callback α β) := log.filterMap Event.given?

/-- The callbacks that were started, in order. -/
def startedIn (log : List (Event α β)) : List (Callback α β) := log.filterMap Event.started?

/-- What may happen after some events: a cell is resolved with success once, and first; it gets one
value, after that; whether a callback has to wait depends on whether there is a value; a callback
starts once, after it was given and with the one value of its cell. -/
def Event.MayFollow (log : List (Event α β)) : Event α β → Prop
  | resolved i accepted => accepted = true ↔ ∀ other, .resolved i other ∉ log
  | solved i _ => .resolved i true ∈ log ∧ ∀ other, .solved i other ∉ log
  | given k => k.serial = (givenIn log).length ∧ (k.early = true ↔ ∀ value, .solved k.cell value ∉ log)
  | started k value => .given k ∈ log ∧ .solved k.cell value ∈ log ∧ k ∉ startedIn log

/-- A machine and what has happened so far. -/
structure Watch (α β : Type) where
  machine : Machine α β := {}
  log : List (Event α β) := []
  /-- The callbacks that wait for the values of their cells, in the order they were given. -/
  waiting : List (Callback α β) := []
  /-- The callbacks on the agenda of the machine, the next one first. -/
  due : List (Callback α β) := []

namespace Watch

/-- Notes an event. -/
def note (w : Watch α β) (e : Event α β) : Watch α β := { w with log := w.log ++ [e] }

/-- A callback is given to a cell, which may have its value already. -/
def give (w : Watch α β) (i : Nat) (k : Listener α β) (solved : Bool) : Watch α β :=
  let callback := ⟨(givenIn w.log).length, i, k, !solved⟩
  { w.note (.given callback) with
    waiting := if solved then w.waiting else w.waiting ++ [callback]
    due := if solved then callback :: w.due else w.due }

/-- A cell gets its value, and its callbacks come next. -/
def solve (w : Watch α β) (i : Nat) (value : α) : Watch α β :=
  { w.note (.solved i value) with
    waiting := w.waiting.filter (·.cell ≠ i)
    due := w.waiting.filter (·.cell = i) ++ w.due }

/-- The next callback is heard. -/
def hear (w : Watch α β) (value : α) : Watch α β :=
  match w.due with
  | k :: due => { w.note (.started k value) with due }
  | [] => w

/-- The log with what the next step of the machine is about to do. -/
def foresee (w : Watch α β) : Watch α β :=
  match w.machine.agenda with
  | .act (.resolve handle _) _ :: _ =>
    match w.machine.cell? handle with
    | some (i, c) => w.note (.resolved i c.receiver.isSome)
    | none => w
  | .act (.listen handle tag acts) _ :: _ =>
    match w.machine.cell? handle with
    | some (i, c) => w.give i ⟨tag, acts⟩ c.isSolved
    | none => w
  | .settle i value :: _ => w.solve i value
  | .hear _ value :: _ => w.hear value
  | _ => w

/-- Does the first task of the machine's agenda. -/
def step [ToString α] (w : Watch α β) : Watch α β :=
  { w.foresee with machine := w.machine.step }

/-- Puts an act on the agenda of a machine at rest. -/
def call (w : Watch α β) (a : Act α β) : Watch α β :=
  { w with machine := { w.machine with notes := [] }.push [.act a true] }

/-- Performs one act with all it leads to. -/
def perform [ToString α] (w : Watch α β) (a : Act α β) : Watch α β :=
  Nat.repeat step (w.call a).machine.weight (w.call a)

/-- Performs some acts, one after the other, from no cells on. -/
def performAll [ToString α] (acts : List (Act α β)) : Watch α β := acts.foldl perform {}

end Watch

/-- The machine after some acts, performed one after the other from no cells on. -/
def Machine.performAll [ToString α] (acts : List (Act α β)) : Machine α β :=
  acts.foldl (fun m a => (m.perform a).2.2) {}

end Storyline.Deferred
