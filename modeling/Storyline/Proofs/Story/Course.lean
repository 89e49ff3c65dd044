import Storyline.Proofs.Game.Next
import Storyline.Proofs.Story.Turn

/-!
# The turns of a game

* `Stood F g agenda v`: no step waits, the agenda can be played from the current node on and the
  outlook is `v`; `Waiting F g o agenda v`: a step waits whose outcome is there, after which that
  holds;
* `Play.execute_node`, `Play.next_of_waiting`: the turn of the first tree of an agenda, in one step
  or in two.
-/

namespace Storyline

open Effect Storyline.Tree

variable {F : List (List Tree)} {g g' : Game Headless} {t : Tree} {rest agenda : List Tree}
  {v : Outlook} {o : Outcome}

/-- A game that no step of waits, ahead of an agenda. -/
structure Stood (F : List (List Tree)) (g : Game Headless) (agenda : List Tree) (v : Outlook) :
    Prop where
  carries : g.world.Carries F
  pending : g.live.pending = none
  current : g.live.current = (nodes agenda).head?
  ready : Ready F g.world.graph agenda
  outlook : g.stage.outlook = v

/-- A game whose waiting step has its outcome already. Once that is taken over the game is ahead of
an agenda. -/
structure Waiting (F : List (List Tree)) (g : Game Headless) (o : Outcome) (agenda : List Tree)
    (v : Outlook) : Prop where
  carries : g.world.Carries F
  pending : ∃ p, g.live.pending = some p ∧ g.stage.futures.result? p.future = some o
  after : ∃ w, (match o.choice with
      | some i => Build.choose o.node i g.world = .ok () w
      | none => w = g.world) ∧
    w.Carries F ∧ Ready F w.graph agenda ∧ w.graph.child? o.node = (nodes agenda).head? ∧
      Stage.outlook { g.stage with world := w } = v

/-- Two games at the same place of the same story. -/
structure SamePlace (l l' : Live) : Prop where
  story : l'.story = l.story
  units : l'.units = l.units
  unit : l'.unit = l.unit
  started : l'.started = l.started

namespace Play

/-- **The turn of the first tree** of an agenda, or its first half. -/
theorem execute_node (hc : g.world.Carries F) (hp : g.live.pending = none)
    (ha : Ready F g.world.graph (t :: rest)) :
    ∃ step g' o, execute Headless.screen t.node g = .ok step g' ∧ o.node = t.node ∧
      SamePlace (g.live.reach t.node) g'.live ∧
      ((step = .advanced o ∧
          Stood F g' ((t.turn g.stage.outlook).1 ++ rest) (t.turn g.stage.outlook).2) ∨
        ∃ f, step = .suspended f ∧ g'.stage.futures.isSolved f = true ∧
          Waiting F g' o ((t.turn g.stage.outlook).1 ++ rest) (t.turn g.stage.outlook).2) := by
  have ht := hc.stands t ha.head_mem
  obtain ⟨r, s, hr, o, hanswered, hnode, hturn⟩ := Perform.execute_tree hc.sound hc.inSequence ha ht
  obtain ⟨a, hact, -⟩ := ht
  have hexec := execute_of_perform hact hr
  have hpending : (g.live.reach t.node).pending = none := by rw [Live.pending_reach, hp]
  -- at once the graft is made; with a prompt a pick may come before it
  cases r with
  | immediate o' =>
    obtain rfl : o' = o := hanswered
    have hturned : Turned F t rest g.stage s := by
      cases hchoice : o'.choice with
      | none => simpa only [hchoice] using hturn
      | some i =>
        rw [hchoice] at hturn
        obtain ⟨⟨f, hf⟩, -⟩ := hturn
        cases hf
    refine ⟨_, _, o', hexec, hnode, ⟨rfl, rfl, rfl, rfl⟩, .inl ⟨rfl, ?_⟩⟩
    refine ⟨hc.keeps hturned.keeps hturned.inSequence, hpending, ?_, hturned.ready, hturned.outlook⟩
    show s.world.graph.child? o'.node = _
    rw [hnode]
    exact hturned.next
  | suspended f =>
    have hsolved : s.futures.isSolved f = true := by
      unfold Futures.isSolved
      rw [show s.futures.result? f = some o from hanswered]
      rfl
    refine ⟨_, _, o, hexec, hnode, ⟨rfl, rfl, rfl, rfl⟩, .inr ⟨f, rfl, hsolved, ?_⟩⟩
    cases hchoice : o.choice with
    | none =>
      rw [hchoice] at hturn
      have hcarries := hc.keeps hturn.keeps hturn.inSequence
      refine ⟨hcarries, ⟨_, rfl, hanswered⟩, s.world, ?_, hcarries, hturn.ready, ?_, hturn.outlook⟩
      · rw [hchoice]
        rfl
      · rw [hnode]
        exact hturn.next
    -- with a pick the graft is made by the step that adopts it
    | some i =>
      rw [hchoice] at hturn
      obtain ⟨-, hworld, w, hw, hturned⟩ := hturn
      refine ⟨?_, ⟨_, rfl, hanswered⟩, w, ?_, hc.keeps hturned.keeps hturned.inSequence, hturned.ready,
        ?_, hturned.outlook⟩
      · show s.world.Carries F
        rw [hworld]
        exact hc
      · rw [hchoice, hnode]
        exact hw
      · rw [hnode]
        exact hturned.next

theorem next_of_waiting (h : Waiting F g o agenda v) (hs : g.live.story.isSome) :
    ∃ g', next Headless.screen g = .ok (.advanced o) g' ∧ SamePlace g.live g'.live ∧
      Stood F g' agenda v := by
  obtain ⟨hc, ⟨p, hp, hf⟩, w, hw, hcw, hready, hchild, hv⟩ := h
  rw [next_of_pending hs hp]
  simp only [hf]
  exact ⟨_, resume_of_choose hw, ⟨rfl, rfl, rfl, rfl⟩, hcw, rfl, hchild, hready, hv⟩

end Play

end Storyline
