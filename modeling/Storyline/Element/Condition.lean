import Storyline.Element.Kind
import Storyline.Element.Script
import Storyline.Graph.Basic

/-!
Conditions: branches under predicates, tried in the order they were declared. The first that comes
out true is taken, else the branch for all other cases, if there is one.
-/

namespace Storyline

/-- What a predicate did: the store it left, the answers it gave in order and a cleaner, if any. -/
structure Verdict where
  store : Store
  answers : List Bool
  cleaner : Option Cleaner := none

/-- A predicate on the store, which it may change. -/
structure Predicate where
  judge : Store → Verdict

namespace Predicate

def constant (value : Bool) : Predicate := ⟨fun s => { store := s, answers := [value] }⟩

/-- The value at a place of the store counts as true. -/
def flag (space key : String) : Predicate :=
  ⟨fun s => { store := s, answers := [((s.get? space key).map (·.isTruthy)).getD false] }⟩

/-- Takes an answer, unless there is one. -/
def resolve (resolved : Option Bool) (value : Bool) : Option Bool :=
  if resolved.isNone then some value else resolved

/-- What is settled by some answers, given one after the other. -/
def settled (answers : List Bool) : Option Bool := answers.foldl resolve none

/-- Only the first answer counts. -/
theorem settled_eq_head? (answers : List Bool) : settled answers = answers.head? := by
  have hstays (value : Bool) : answers.tail.foldl resolve (some value) = some value := by
    induction answers.tail with
    | nil => rfl
    | cons _ rest ih => exact ih
  cases answers with
  | nil => rfl
  | cons value rest => exact hstays value

/-- Runs a predicate. One that gives no answer is false. -/
def evaluate (p : Predicate) (s : Store) : Bool × Option Cleaner × Store :=
  let v := p.judge s
  ((settled v.answers).getD false, v.cleaner, v.store)

theorem evaluate_fst (p : Predicate) (s : Store) :
    (p.evaluate s).1 = (p.judge s).answers.head?.getD false := by
  rw [evaluate, settled_eq_head?]

/-- A predicate in words. -/
def describe (_ : Predicate) : String := "Lambda"

end Predicate

inductive BranchKind where
  | when
  | elseWhen (index : Nat)
  | otherwise
deriving DecidableEq, Repr

namespace BranchKind

/-- The kind of the branch at a place of the list of predicates. -/
def ofIndex : Nat → BranchKind
  | 0 => when
  | n + 1 => elseWhen n

def describe : BranchKind → String
  | when => "If"
  | elseWhen n => s!"ElseIf({n})"
  | otherwise => "Else"

end BranchKind

structure Branch where
  predicate : Predicate
  actions : List NodeId
  chain : Option Chain

/-- The branch that was taken. -/
structure Chosen where
  branch : BranchKind
  actions : List NodeId
  chain : Option Chain
  cleaner : Option Cleaner := none

/-- A branch that was taken, in words. -/
def Chosen.describe (c : Chosen) : String :=
  let nodes := ", ".intercalate (c.actions.map fun n => s!"NodeId({n})")
  let chain := match c.chain with
    | some ⟨h, t⟩ => s!"Some(Chain \x7b head: NodeId({h}), tail: NodeId({t}) \x7d)"
    | none => "None"
  s!"Chosen \x7b branch: {c.branch.describe}, actions: [{nodes}], chain: {chain}, .. \x7d"

/-- The branch that was taken last. -/
structure ConditionState where
  last : Option BranchKind := none
deriving DecidableEq, Repr

structure ConditionRecord where
  cleaner : Option Cleaner
  previous : Option BranchKind

instance : Undoable ConditionState ConditionRecord where
  rollback r _ store := (⟨r.previous⟩, Cleaner.runIfAny r.cleaner store)

structure Condition where
  id : ElementId
  /-- The branches under predicates, in the order they were declared. -/
  branches : List Branch := []
  fallback : Option (List NodeId × Option Chain) := none
  tracked : Tracked ConditionState ConditionRecord := { state := {} }

namespace Condition

def last (c : Condition) : Option BranchKind := c.tracked.state.last

/-- Declares the first branch. -/
def setWhen (c : Condition) (b : Branch) : Except ElementError Condition :=
  if c.branches.isEmpty then .ok { c with branches := [b] }
  else .error (.invalidConfig "condition already has an If branch")

/-- Declares a further branch. -/
def addElseWhen (c : Condition) (b : Branch) : Except ElementError Condition :=
  if c.branches.isEmpty then .error (.invalidConfig "ElseIf declared before If")
  else .ok { c with branches := c.branches ++ [b] }

/-- Declares the branch for all other cases. -/
def setOtherwise (c : Condition) (actions : List NodeId) (chain : Option Chain) :
    Except ElementError Condition :=
  match c.fallback with
  | some _ => .error (.invalidConfig "condition already has an Else branch")
  | none => .ok { c with fallback := some (actions, chain) }

/-- The first branch, counting from `index`, whose predicate comes out true, and the store the
predicates that were run left. -/
def firstTrue (index : Nat) : List Branch → Store → Option Chosen × Store
  | [], s => (none, s)
  | b :: rest, s =>
    match b.predicate.evaluate s with
    | (true, cleaner, s) => (some ⟨.ofIndex index, b.actions, b.chain, cleaner⟩, s)
    | (false, _, s) => firstTrue (index + 1) rest s

/-- Picks a branch. -/
def evaluate (c : Condition) (s : Store) : Option Chosen × Store :=
  match firstTrue 0 c.branches s with
  | (some chosen, s) => (some chosen, s)
  | (none, s) => (c.fallback.map fun (actions, chain) => ⟨.otherwise, actions, chain, none⟩, s)

/-- Picks a branch and records it; answers its chain. -/
def run (c : Condition) (s : Store) : Option Chain × Condition × Store :=
  let (chosen, s) := c.evaluate s
  let tracked := c.tracked.change ⟨chosen.map (·.branch)⟩ ⟨chosen.bind (·.cleaner), c.last⟩
  (chosen.bind (·.chain), { c with tracked }, s)

end Condition

end Storyline
