import Storyline.Proofs.Game.Next
import Storyline.Proofs.World.Strokes

/-!
# Runs and their accounts

* `Posting`: a step that was begun and not taken back, with the game just before it, the commit that
  its element made for it and the cleaner that the host answered;
* `Account`: the postings of a game since it started last, beside those steps that were taken back;
* `Run g account`: new games, next steps that succeed, answers of futures, undoing and writes of the
  host to the store, in any order, lead from an authored world to the game `g`;
* `Account.next_*`: what the next step adds to an account.

An account is kept for the proofs alone. Nothing in it decides how play goes on.
-/

namespace Storyline

open Effect

variable {σ : Type}

/-- A step that was begun and has not been taken back. -/
structure Posting (σ : Type) where
  /-- How many times play was asked for a step before. -/
  serial : Nat
  /-- The game just before the step was executed. -/
  before : Game σ
  action : Action
  /-- The commit that the element of the step has made for it. -/
  token : Option Nat := none

namespace Posting

/-- The cleaner that the host's code answered when the step was executed. -/
def cleaner (p : Posting σ) : Option Cleaner := (p.action.host p.before.world p.before.store).2

/-- The store that the step left. -/
def store (p : Posting σ) : Store := (p.action.host p.before.world p.before.store).1

/-- The number of commits of the step's element before. -/
def commits (p : Posting σ) : Nat := p.before.world.commits p.action.callee

/-- The commit of the step with its cleaners, if there is one. -/
def commit? (p : Posting σ) : Option (Nat × List Cleaner) := p.token.map (·, p.cleaner.toList)

/-- The posting after another look at the log of its element. -/
def sign (p : Posting σ) (w : World) : Posting σ :=
  { p with token := if p.commits < w.commits p.action.callee then some p.commits else none }

/-- The commit of the step if that is in the log of an element. -/
def item? (e : ElementId) (p : Posting σ) : Option (Nat × List Cleaner) :=
  if p.action.callee = e then p.commit? else none

end Posting

/-- What is kept of a game since it started last. -/
structure Account (σ : Type) where
  /-- How many times play was asked for a step, over all games. -/
  calls : Nat := 0
  /-- The world at the start of the game. -/
  opening : World
  /-- The step that waits. -/
  waiting : Option (Posting σ) := none
  /-- The steps of the history, the last one first. -/
  posts : List (Posting σ) := []
  /-- The serials of all steps that were taken back, over all games, the last one first. -/
  undone : List Nat := []
  /-- Whether the host wrote to the store between its calls since the game started. -/
  written : Bool := false

namespace Account

/-- The steps that can be taken back, the last one first. -/
def all (acc : Account σ) : List (Posting σ) := acc.waiting.toList ++ acc.posts

/-- The node that was executed from one game to another, if one was. -/
def executed? (g g' : Game σ) : Option NodeId :=
  match g'.live.pending with
  | some p => some p.node
  | none =>
    if g.live.history.length < g'.live.history.length then
      g'.live.history.head?.map (·.outcome.node)
    else none

/-- The step that the call of play between two games began or went on with. -/
def step? (acc : Account σ) (g g' : Game σ) : Option (Posting σ) :=
  match acc.waiting with
  | some p => some (p.sign g'.world)
  | none => do
    let action ← g.world.action? (← executed? g g')
    return { serial := acc.calls, before := g, action : Posting σ }.sign g'.world

/-- The account after a next step that led from one game to another. -/
def next (acc : Account σ) (g g' : Game σ) : Account σ :=
  if g'.live.pending.isSome then
    { acc with calls := acc.calls + 1, waiting := acc.step? g g' }
  else
    { acc with
      calls := acc.calls + 1
      waiting := none
      posts := (acc.step? g g').toList ++ acc.posts }

/-- The account after a new game was started. -/
def reopen (acc : Account σ) (w : World) : Account σ :=
  { acc with opening := w, waiting := none, posts := [], written := false }

/-- The account after the step that waits and the last one of the history were taken back. -/
def back (acc : Account σ) : Account σ :=
  { acc with
    waiting := none
    posts := acc.posts.tail
    undone := acc.posts.head?.toList.map (·.serial) ++ acc.waiting.toList.map (·.serial) ++
      acc.undone }

end Account

/-- Games that are reached by new games, next steps that succeed, answers of futures, undoing and
writes of the host to the store, in any order, each with its account. -/
inductive Run : Game σ → Account σ → Prop
  | start {g : Game σ} (hw : g.world.Authored) (hh : g.live.history = [])
      (hp : g.live.pending = none) : Run g { opening := g.world }
  | newGame {g : Game σ} {acc : Account σ} (h : Run g acc) (now : Instant) :
      Run (g.newGame now) (acc.reopen g.world)
  | next {g g' : Game σ} {acc : Account σ} (h : Run g acc) (screen : Screen σ) (step : Step)
      (hn : Play.next screen g = .ok step g') : Run g' (acc.next g g')
  | resolve {g : Game σ} {acc : Account σ} (h : Run g acc) (answer : FutureId × Resolution) :
      Run (g.mapStage fun s => { s with futures := s.futures.settle answer }) acc
  | undo {g : Game σ} {acc : Account σ} (h : Run g acc) : Run (left (Play.undoLast g)) acc.back
  /-- The host may leave any store between two calls. -/
  | write {g : Game σ} {acc : Account σ} (h : Run g acc) (store : Store) :
      Run (g.mapStage fun s => { s with store }) { acc with written := true }

namespace Account

variable {acc : Account σ} {g g' : Game σ} {p : Posting σ} {a : Action}

/-! ### The next step in an account -/

theorem next_of_waits {q : Pending} (hw : acc.waiting = some p) (hp : g'.live.pending = some q) :
    acc.next g g' = { acc with calls := acc.calls + 1, waiting := some (p.sign g'.world) } := by
  unfold next step?
  simp [hw, hp]

theorem next_of_resumes (hw : acc.waiting = some p) (hp : g'.live.pending = none) :
    acc.next g g' = { acc with
      calls := acc.calls + 1, waiting := none, posts := p.sign g'.world :: acc.posts } := by
  unfold next step?
  simp [hw, hp]

theorem next_of_begins {q : Pending} (hw : acc.waiting = none) (hp : g'.live.pending = some q)
    (ha : g.world.action? q.node = some a) :
    acc.next g g' = { acc with
      calls := acc.calls + 1
      waiting := some ({ serial := acc.calls, before := g, action := a : Posting σ }.sign
        g'.world) } := by
  unfold next step? executed?
  simp [hw, hp, ha]

theorem next_of_executes {e : HistoryEntry} (hw : acc.waiting = none)
    (hp : g'.live.pending = none) (hh : g'.live.history = e :: g.live.history)
    (ha : g.world.action? e.outcome.node = some a) :
    acc.next g g' = { acc with
      calls := acc.calls + 1
      waiting := none
      posts := { serial := acc.calls, before := g, action := a : Posting σ }.sign g'.world ::
        acc.posts } := by
  unfold next step? executed?
  simp [hw, hp, hh, ha]

theorem next_of_ends (hw : acc.waiting = none) (hp : g'.live.pending = none)
    (hh : g'.live.history = g.live.history) :
    acc.next g g' = { acc with calls := acc.calls + 1 } := by
  unfold next step? executed?
  simp [hw, hp, hh]

end Account

end Storyline
