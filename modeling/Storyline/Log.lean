import Storyline.Store

/-!
Logs of changes that can be taken back. A log holds commits, each a list of records in the order
they were pushed, and at most one open buffer of records not committed yet. A commit is named by
its place among all commits ever made; taking it leaves its place empty.
-/

namespace Storyline

/-- What can go wrong with a log. -/
inductive LogError where
  | alreadyStarted
  | notStarted
  | invalidToken (token size : Nat)
deriving DecidableEq, Repr

def LogError.message : LogError → String
  | alreadyStarted => "transaction already started"
  | notStarted => "no transaction started"
  | invalidToken token size => s!"invalid commit token {token} (history length {size})"

/-- A log of records of type `ρ`. -/
structure Log (ρ : Type) where
  /-- The commits, the last one first; a commit that was taken leaves an empty place. -/
  recent : List (Option (List ρ))
  /-- The number of commits ever made. -/
  size : Nat
  buffer : Option (List ρ)
  size_eq : size = recent.length
deriving DecidableEq, Repr

namespace Log

variable {ρ : Type}

/-- The log without commits and without a buffer. -/
def empty : Log ρ := ⟨[], 0, none, rfl⟩

instance : Inhabited (Log ρ) := ⟨empty⟩

/-- The commits in the order they were made. -/
def commits (l : Log ρ) : List (Option (List ρ)) := l.recent.reverse

theorem length_commits (l : Log ρ) : l.commits.length = l.size := by
  simp [commits, l.size_eq]

/-- Opens a buffer; one that is open stays as it is. -/
def start (l : Log ρ) : Except LogError (Log ρ) :=
  match l.buffer with
  | some _ => .error .alreadyStarted
  | none => .ok { l with buffer := some [] }

/-- Appends a record to the open buffer. -/
def push (l : Log ρ) (r : ρ) : Except LogError (Log ρ) :=
  match l.buffer with
  | some rs => .ok { l with buffer := some (rs ++ [r]) }
  | none => .error .notStarted

/-- Commits the open buffer and answers the token of the commit. -/
def commit (l : Log ρ) : Except LogError (Nat × Log ρ) :=
  match l.buffer with
  | some rs =>
    .ok (l.size, ⟨some rs :: l.recent, l.size + 1, none, congrArg (· + 1) l.size_eq⟩)
  | none => .error .notStarted

/-- Commits a single record. -/
def commitWith (l : Log ρ) (r : ρ) : Except LogError (Nat × Log ρ) := do
  let l ← l.start
  let l ← l.push r
  l.commit

def isOpen (l : Log ρ) : Bool := l.buffer.isSome

/-- Where the commit of a token stands among the commits, the last one first. -/
def place (l : Log ρ) (token : Nat) : Nat := l.size - 1 - token

/-- The records of a commit that has not been taken. -/
def commit? (l : Log ρ) (token : Nat) : Option (List ρ) :=
  if token < l.size then l.recent[l.place token]?.join else none

theorem commit?_eq (l : Log ρ) (token : Nat) : l.commit? token = l.commits[token]?.join := by
  unfold commit? commits place
  split
  · rename_i h
    rw [List.getElem?_reverse (by rw [← l.size_eq]; exact h), l.size_eq]
  · rename_i h
    rw [List.getElem?_eq_none (by rw [List.length_reverse, ← l.size_eq]; omega)]
    rfl

/-- The token of the last commit that has not been taken. -/
def latest? (l : Log ρ) : Option Nat :=
  (l.recent.findIdx? Option.isSome).map fun i => l.size - 1 - i

/-- Takes the records of a commit out of the log: of the one named, or of the latest. -/
def take (l : Log ρ) (token? : Option Nat) : Except LogError (List ρ × Log ρ) :=
  match token?.orElse fun _ => l.latest? with
  | none => .error (.invalidToken 0 l.size)
  | some token =>
    match l.commit? token with
    | some rs =>
      .ok (rs, { l with
        recent := l.recent.set (l.place token) none
        size_eq := by rw [List.length_set, l.size_eq] })
    | none => .error (.invalidToken token l.size)

/-- A log in words. -/
def describe (l : Log ρ) : String :=
  let opened := match l.buffer with
    | some rs => s!"Some({rs.length})"
    | none => "None"
  s!"Transaction \x7b commits: {l.size}, open: {opened} \x7d"

end Log

/-- States whose records can be rolled back, on a store that may have to be mended with them. -/
class Undoable (σ : Type) (ρ : outParam Type) where
  rollback : ρ → σ → Store → σ × Store

/-- A state and the log of its changes. -/
structure Tracked (σ ρ : Type) where
  state : σ
  log : Log ρ := .empty

namespace Tracked

variable {σ ρ : Type}

/-- Commits one record. A log with an open buffer is left as it is. -/
def record (t : Tracked σ ρ) (r : ρ) : Option Nat × Tracked σ ρ :=
  match t.log.commitWith r with
  | .ok (token, log) => (some token, { t with log := log })
  | .error _ => (none, t)

/-- Commits the open buffer, if there is one. -/
def commitBuffer (t : Tracked σ ρ) : Option Nat × Tracked σ ρ :=
  match t.log.commit with
  | .ok (token, log) => (some token, { t with log := log })
  | .error _ => (none, t)

/-- Sets the state and commits the record of the change. -/
def change (t : Tracked σ ρ) (state : σ) (r : ρ) : Tracked σ ρ :=
  ({ t with state := state }.record r).2

/-- Rolls records back, the last one first. -/
def rollbackAll [Undoable σ ρ] (records : List ρ) (state : σ) (store : Store) : σ × Store :=
  records.foldr (fun r s => Undoable.rollback r s.1 s.2) (state, store)

/-- Takes a commit back, the latest if none is named; answers how many records it had. -/
def undo [Undoable σ ρ] (t : Tracked σ ρ) (token? : Option Nat) (store : Store) :
    Except LogError (Nat × Tracked σ ρ × Store) :=
  match t.log.take token? with
  | .ok (records, log) =>
    let (state, store) := rollbackAll records t.state store
    .ok (records.length, ⟨state, log⟩, store)
  | .error e => .error e

/-- A tracked state in words. -/
def describe (t : Tracked σ ρ) (words : σ → String) : String :=
  s!"Stateful \x7b state: {words t.state}, transaction: {t.log.describe} \x7d"

end Tracked

end Storyline
