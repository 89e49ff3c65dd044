import Storyline.Proofs.Game.Undo
import Storyline.Proofs.Stage.Residue

/-!
# What one call of play leaves behind, also one that fails

* `Play.next_of_no_story`, `Play.execute_of_error`: how a next step fails before and in executing;
* `Play.left_resume`: what ending a wait leaves;
* `Play.stage_left_next`, `Play.left_undoLast`: what a next step and undoing do to the stage;
* `Play.reverts_undoLast`: undoing changes no edge and nothing that was written.
-/

namespace Storyline

open Effect

variable {σ : Type}

namespace Play

variable {screen : Screen σ} {g g' : Game σ} {node : NodeId} {p : Pending} {o : Outcome}

theorem next_of_no_story (h : g.live.story = none) (screen : Screen σ) :
    next screen g = .error .noStory g := by
  unfold next
  rw [bind_get_apply, h]
  rfl

theorem execute_of_error {e : GameError} {s : Stage σ}
    (h : Perform.execute screen node g.stage = .error e s) :
    execute screen node g = .error e (g.executed node s) := by
  unfold execute
  rw [bind_modifyLive_apply, bind_get_apply]
  cases ha : g.world.action? node with
  | none =>
    -- a node without an action fails before anything is performed: the stage is left as it is
    have hmissing : Perform.execute screen node g.stage = .error (.missingAction node) g.stage := by
      unfold Perform.execute
      rw [bind_get_apply, show g.stage.world.action? node = none from ha]
      rfl
    obtain ⟨rfl, rfl⟩ := EStateM.Result.error.inj (hmissing.symm.trans h)
    have hcallee : build (Build.ofExcept (g.world.calleeOf node))
        { g with live := g.live.reach node } =
          .error (.missingAction node) (g.executed node g.stage) := by
      unfold World.calleeOf
      rw [ha]
      rfl
    exact bind_of_error hcallee
  | some a =>
    have hcallee : build (Build.ofExcept (g.world.calleeOf node))
        { g with live := g.live.reach node } = .ok a.callee { g with live := g.live.reach node } :=
      build_eq_ok_iff.2 ⟨g.world, Build.ofExcept_eq_ok_iff.2
        ⟨World.calleeOf_eq_ok_iff.2 ⟨a, ha, rfl⟩, rfl⟩, rfl⟩
    have hperform : perform (Perform.execute screen node) { g with live := g.live.reach node } =
        .error e (g.executed node s) := by
      unfold perform
      rw [show Perform.execute screen node ({ g with live := g.live.reach node } : Game σ).stage = _
        from h]
      rfl
    refine (bind_of_ok hcallee).trans ?_
    rw [bind_get_apply]
    exact bind_of_error hperform

theorem build_of_error {α : Type} {change : Build α} {e : GameError} {w : World}
    (h : change g.world = .error e w) :
    build change g = .error e { g with stage := { g.stage with world := w } } := by
  unfold build perform Perform.build
  rw [show change g.stage.world = _ from h]

/-- Ending a wait leaves no wait behind, and the world that the pick leaves if there is one. -/
theorem left_resume (p : Pending) (o : Outcome) (g : Game σ) :
    (left (resume p o g)).live.pending = none ∧
      (left (resume p o g)).stage = match o.choice with
        | some index => { g.stage with world := left (Build.choose o.node index g.world) }
        | none => g.stage := by
  unfold resume
  rw [bind_modifyLive_apply]
  cases hc : o.choice with
  | none => exact ⟨rfl, rfl⟩
  | some index =>
    simp only
    cases hb : Build.choose o.node index g.world with
    | ok u w =>
      have hbuild : build (Build.choose o.node index)
          { g with live := { g.live with pending := none } } = .ok u (g.awaited w) :=
        build_eq_ok_iff.2 ⟨w, hb, rfl⟩
      rw [bind_of_ok hbuild]
      exact ⟨rfl, rfl⟩
    | error e w =>
      have hbuild : build (Build.choose o.node index)
          { g with live := { g.live with pending := none } } = .error e (g.awaited w) :=
        build_of_error hb
      rw [bind_of_error hbuild]
      exact ⟨rfl, rfl⟩

/-- Executing a node leaves the stage as the action leaves it. -/
theorem stage_left_execute (screen : Screen σ) (node : NodeId) (g : Game σ) :
    (left (execute screen node g)).stage = left (Perform.execute screen node g.stage) := by
  cases hx : Perform.execute screen node g.stage with
  | error e s =>
    rw [execute_of_error hx]
    rfl
  | ok r s =>
    obtain ⟨a, ha, -, -⟩ := Perform.executes_of_execute hx
    rw [execute_of_perform ha hx]
    cases r <;> rfl

/-- **What a next step does to the stage**: nothing, or it takes a pick over, or it executes a node. -/
theorem stage_left_next (screen : Screen σ) (g : Game σ) :
    (left (next screen g)).stage = g.stage ∨
      (∃ node index, (left (next screen g)).stage =
        { g.stage with world := left (Build.choose node index g.world) }) ∨
      ∃ node, (left (next screen g)).stage = left (Perform.execute screen node g.stage) := by
  cases hs : g.live.story with
  | none => exact .inl (by rw [next_of_no_story hs]; rfl)
  | some story =>
    have hs' : g.live.story.isSome := by rw [hs]; rfl
    cases hp : g.live.pending with
    | some p =>
      rw [next_of_pending hs' hp]
      cases g.stage.futures.result? p.future with
      | none => exact .inl rfl
      | some o =>
        -- the outcome is looked at for a pick only
        have hstage := (left_resume p o g).2
        cases hc : o.choice with
        | none =>
          rw [hc] at hstage
          exact .inl hstage
        | some index =>
          rw [hc] at hstage
          exact .inr (.inl ⟨o.node, index, hstage⟩)
    | none =>
      rw [next_of_idle hs' hp]
      cases g.live.aim.current with
      | none => exact .inl rfl
      | some node => exact .inr (.inr ⟨node, stage_left_execute screen node _⟩)

/-! ### Undoing -/

/-- What clearing the wait, any change of how far the game was played and taking commits back keep,
undoing keeps. -/
theorem left_undoLast {P : Game σ → Prop}
    (hclear : P { g with live := { g.live with pending := none } })
    (hlive : ∀ {k : Game σ} {l : Live}, l.pending = k.live.pending → P k → P { k with live := l })
    (hundo : ∀ {k : Game σ} (n : NodeId), P k → P (left (perform (Perform.undoAction n) k))) :
    P (left (undoLast g)) := by
  -- an action is taken back only where the step has committed
  have hbind : ∀ {k : Game σ} {α : Type} (n : NodeId) (c : Prop) [Decidable c]
      (rest : Unit → Play σ α), P k → (∀ k', P k' → P (left (rest () k'))) →
      P (left ((if c then do
          discard (perform (Perform.undoAction n))
          rest ()
        else rest ()) k)) := by
    intro k α n c _ rest hk hrest
    split
    · have hleft := hundo n hk
      rw [← left_discard] at hleft
      refine left_bind hleft fun u k' hk' => hrest k' ?_
      rwa [hk'] at hleft
    · exact hrest k hk
  have hentry : ∀ k, P k → P (left (undoEntry k)) := by
    intro k hk
    unfold undoEntry
    rw [bind_get_apply]
    cases hh : k.live.history with
    | nil => exact hk
    | cons e rest =>
      simp only [bind_modifyLive_apply]
      exact hbind e.outcome.node _ (fun _ => do
          modifyLive fun l => { l with current := some e.outcome.node, terminated := false }
          return some e.outcome)
        (hlive rfl hk) fun k' hk' => hlive rfl hk'
  rw [undoLast_apply]
  cases hp : g.live.pending with
  | none =>
    refine hentry g ?_
    rwa [← hp] at hclear
  | some q =>
    simp only
    have hpending : P (left (undoPending q g)) := by
      unfold undoPending
      rw [bind_modifyLive_apply, bind_get_apply]
      exact hbind q.node _ (fun _ => modifyLive fun l => { l with current := some q.node })
        hclear fun k' hk' => hlive rfl hk'
    refine left_bind hpending fun u k hk => hentry k ?_
    rwa [hk] at hpending

/-- Nothing that was written is changed, and no edge. -/
def Reverts (w w' : World) : Prop := w.Keeps w' ∧ w'.graph = w.graph

theorem reverts_undoAction (hw : g.world.Sound) (n : NodeId) :
    Reverts g.world (left (perform (Perform.undoAction n) g)).world ∧
      (left (perform (Perform.undoAction n) g)).live = g.live := by
  unfold perform Perform.undoAction
  cases hu : g.stage.world.undoAction n g.stage.store with
  | error e => exact ⟨⟨.refl _, rfl⟩, rfl⟩
  | ok q =>
    obtain ⟨count, w, store⟩ := q
    obtain ⟨hk, hg⟩ := World.undoAction_keeps hw hu
    exact ⟨⟨hk, hg⟩, rfl⟩

/-- **Undoing** changes no edge, and nothing waits afterwards. -/
theorem reverts_undoLast (hw : g.world.Sound) :
    Reverts g.world (left (undoLast g)).world ∧ (left (undoLast g)).live.pending = none := by
  refine left_undoLast (P := fun k => Reverts g.world k.world ∧ k.live.pending = none)
    ⟨⟨.refl _, rfl⟩, rfl⟩ (fun hl hk => ⟨hk.1, hl.trans hk.2⟩) fun n ⟨⟨hk, hg⟩, hp⟩ => ?_
  obtain ⟨⟨hk', hg'⟩, hl⟩ := reverts_undoAction (hk.sound hw) n
  exact ⟨⟨hk.trans hk', hg'.trans hg⟩, by rw [hl, hp]⟩

end Play

end Storyline
