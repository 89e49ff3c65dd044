import Storyline.Deferred.Cell

/-!
Programs over deferred values. An act makes, resolves, listens to or looks at a cell; receivers and
listeners are programs themselves, which may touch any cell, also the one they belong to. A
machine runs one task at a time from an agenda. Every task it takes off weighs one more than what
it puts on the agenda and into the cells, so as many steps as the state weighs end every program.
-/

namespace Storyline.Deferred

/-- An act on deferred values of type `α` that are resolved with values of type `β`. Cells are
named by handles, numbered from zero in the order they were made. -/
inductive Act (α β : Type) where
  /-- Makes a cell whose receiver runs some acts and then computes the value. -/
  | create (compute : β → α) (acts : List (Act α β))
  /-- Makes another handle on a cell. -/
  | clone (handle : Nat)
  | resolve (handle : Nat) (input : β)
  /-- Adds a listener that notes the value under a tag and then runs some acts. -/
  | listen (handle : Nat) (tag : String) (acts : List (Act α β))
  | isSolved (handle : Nat)
  | result (handle : Nat)
  | describe (handle : Nat)
  | sameCell (handle other : Nat)

namespace Act

variable {α β : Type}

/-- The name of an act, under which it is noted. -/
def name : Act α β → String
  | create .. => "new"
  | clone _ => "clone"
  | resolve .. => "resolve"
  | listen .. => "then"
  | isSolved _ => "solved"
  | result _ => "result"
  | describe _ => "debug"
  | sameCell .. => "ptr_eq"

mutual

/-- The number of machine steps that an act accounts for, in all. -/
def weight : Act α β → Nat
  | create _ acts => weightAll acts + 3
  | listen _ _ acts => weightAll acts + 3
  | _ => 2

def weightAll : List (Act α β) → Nat
  | [] => 0
  | a :: acts => a.weight + weightAll acts

end

end Act

/-- What an act answers. -/
inductive Answer (α : Type) where
  | done
  | handle (n : Nat)
  | flag (b : Bool)
  | value (a : Option α)
  | text (s : String)
  | failed (e : AwaitError)
  | noSuchHandle
deriving DecidableEq, Repr

/-- What is noted while a program runs. -/
inductive Note (α : Type) where
  | heard (tag : String) (value : α)
  | did (name : String) (answer : Answer α)
deriving DecidableEq, Repr

/-- The receiver of a cell. -/
structure Receiver (α β : Type) where
  compute : β → α
  acts : List (Act α β)

/-- A listener on a cell. -/
structure Listener (α β : Type) where
  tag : String
  acts : List (Act α β)

/-- Something the machine still has to do. -/
inductive Task (α β : Type) where
  | act (a : Act α β) (outer : Bool)
  /-- Gives a cell its value and hands its listeners on. -/
  | settle (cell : Nat) (value : α)
  | hear (listener : Listener α β) (value : α)
  /-- Notes the answer of an inner act, or gives that of the outer one. -/
  | report (name : String) (answer : Answer α) (outer : Bool)

/-- The state of the machine. Notes are kept last first. -/
structure Machine (α β : Type) where
  cells : Array (Cell (Receiver α β) (Listener α β) α) := #[]
  handles : Array Nat := #[]
  agenda : List (Task α β) := []
  notes : List (Note α) := []
  answer : Answer α := .done

variable {α β : Type}

def Receiver.weight (r : Receiver α β) : Nat := Act.weightAll r.acts + 1

def Listener.weight (k : Listener α β) : Nat := Act.weightAll k.acts + 1

def Task.weight : Task α β → Nat
  | act a _ => a.weight
  | settle .. => 1
  | hear k _ => k.weight
  | report .. => 1

/-- The sum of some weights. -/
def total (weights : List Nat) : Nat := weights.foldr (· + ·) 0

/-- The weight of what a cell still holds. -/
def Cell.weight (c : Cell (Receiver α β) (Listener α β) α) : Nat :=
  (c.receiver.map Receiver.weight).getD 0 + total (c.listeners.map Listener.weight)

namespace Machine

/-- The steps left to run. -/
def weight (m : Machine α β) : Nat :=
  total (m.agenda.map Task.weight) + total (m.cells.toList.map Cell.weight)

/-- The place and the cell behind a handle. -/
def cell? (m : Machine α β) (handle : Nat) :
    Option (Nat × Cell (Receiver α β) (Listener α β) α) := do
  let i ← m.handles[handle]?
  let c ← m.cells[i]?
  return (i, c)

def setCell (m : Machine α β) (i : Nat) (c : Cell (Receiver α β) (Listener α β) α) :
    Machine α β :=
  { m with cells := m.cells.setIfInBounds i c }

def push (m : Machine α β) (tasks : List (Task α β)) : Machine α β :=
  { m with agenda := tasks ++ m.agenda }

/-- Starts an act on a machine that has taken it off its agenda. -/
def start [ToString α] (m : Machine α β) (a : Act α β) (outer : Bool) : Machine α β :=
  let reply (m : Machine α β) (answer : Answer α) := m.push [.report a.name answer outer]
  let look (handle : Nat) (f : Nat → Cell (Receiver α β) (Listener α β) α → Machine α β) :=
    match m.cell? handle with
    | some (i, c) => f i c
    | none => reply m .noSuchHandle
  match a with
  | .create compute acts =>
    let m' := { m with
      cells := m.cells.push (.fresh ⟨compute, acts⟩)
      handles := m.handles.push m.cells.size }
    reply m' (.handle m.handles.size)
  | .clone handle => look handle fun i _ =>
    reply { m with handles := m.handles.push i } (.handle m.handles.size)
  | .resolve handle input => look handle fun i c =>
    match c.begin? with
    | .error e => reply m (.failed e)
    | .ok (r, c) =>
      (reply (m.setCell i c) .done).push
        (r.acts.map (.act · false) ++ [.settle i (r.compute input)])
  | .listen handle tag acts => look handle fun i c =>
    match c.listen ⟨tag, acts⟩ with
    | (some value, _) => (reply m .done).push [.hear ⟨tag, acts⟩ value]
    | (none, c) => reply (m.setCell i c) .done
  | .isSolved handle => look handle fun _ c => reply m (.flag c.isSolved)
  | .result handle => look handle fun _ c => reply m (.value c.result)
  | .describe handle => look handle fun _ c => reply m (.text c.describe)
  | .sameCell handle other => look handle fun i _ =>
    reply m (.flag (m.handles[other]? == some i))

/-- Does the first task of the agenda. -/
def step [ToString α] (m : Machine α β) : Machine α β :=
  match m.agenda with
  | [] => m
  | task :: rest =>
    let m := { m with agenda := rest }
    match task with
    | .act a outer => m.start a outer
    | .settle i value =>
      match m.cells[i]? with
      | some c =>
        let (listeners, c) := c.solve value
        (m.setCell i c).push (listeners.map (.hear · value))
      | none => m
    | .hear k value =>
      { m with notes := .heard k.tag value :: m.notes }.push (k.acts.map (.act · false))
    | .report name answer outer =>
      if outer then { m with answer := answer }
      else { m with notes := .did name answer :: m.notes }

/-- Runs until the agenda is empty. -/
def run [ToString α] (m : Machine α β) : Machine α β := Nat.repeat step m.weight m

/-- Performs one act with all it leads to: its answer, what was noted meanwhile in order, and the
machine afterwards. -/
def perform [ToString α] (m : Machine α β) (a : Act α β) :
    Answer α × List (Note α) × Machine α β :=
  let m' := ({ m with notes := [] }.push [.act a true]).run
  (m'.answer, m'.notes.reverse, m')

end Machine

end Storyline.Deferred
