import Storyline.Log
import Storyline.Ident

/-!
Scripts: host code that runs as a step of the story. A handler answers the store as it leaves it
and, if it likes, a cleaner that mends the store when the step is taken back.
-/

namespace Storyline

/-- Mends the store when what made it is taken back. -/
abbrev Cleaner := Store → Store

/-- Runs a cleaner if there is one. -/
def Cleaner.runIfAny (cleaner : Option Cleaner) (store : Store) : Store :=
  match cleaner with
  | some clean => clean store
  | none => store

/-- Host code, run for a node on a store. It may keep count of its own earlier calls, which
taking steps back does not change. -/
abbrev Handler := (earlier : Nat) → NodeId → Store → Store × Option Cleaner

structure ScriptState where
  runs : Nat := 0
deriving DecidableEq, Repr

structure ScriptRecord where
  cleaner : Option Cleaner

instance : Undoable ScriptState ScriptRecord where
  rollback r s store := (⟨s.runs - 1⟩, Cleaner.runIfAny r.cleaner store)

structure Script where
  id : ElementId
  handler : Handler
  /-- How often the handler was called. -/
  calls : Nat := 0
  tracked : Tracked ScriptState ScriptRecord := { state := {} }

namespace Script

/-- The runs that have not been taken back. -/
def runs (s : Script) : Nat := s.tracked.state.runs

/-- Runs the handler and records its cleaner. -/
def run (s : Script) (node : NodeId) (store : Store) : Script × Store :=
  let (store, cleaner) := s.handler s.calls node store
  ({ s with calls := s.calls + 1, tracked := s.tracked.change ⟨s.runs + 1⟩ ⟨cleaner⟩ }, store)

/-- A script in words. -/
def describe (s : Script) : String :=
  let state := s.tracked.describe fun st => s!"ScriptState \x7b runs: {st.runs} \x7d"
  s!"Script \x7b id: ElementId({s.id}), stateful: {state}, .. \x7d"

end Script

end Storyline
