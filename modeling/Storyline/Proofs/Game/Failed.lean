import Storyline.Proofs.Game.Handled
import Storyline.Proofs.Game.Picked
import Storyline.Proofs.Stage.Attempted
import Storyline.Stage.Recorder

/-!
# Next steps that fail

* `Play.Failed`: the ways in which a next step fails, and `Play.failed_of_next`;
* `Game.ventures?`: the element that the next step changes before it can fail;
* `Game.Mishap g e g'`: what is left of a game where a next step has failed;
* `Game.Handled.mishap`: no more is lost where a next step of a game fails.
-/

namespace Storyline

open Effect

variable {σ : Type}

namespace Play

variable {screen : Screen σ} {g g' : Game σ} {e : GameError}

/-- The ways in which a next step fails. -/
inductive Failed (screen : Screen σ) (g : Game σ) : GameError → Game σ → Prop
  /-- There is no story. -/
  | story (hs : g.live.story = none) : Failed screen g .noStory g
  /-- The pick of a step that waited cannot be taken over. -/
  | pick {p : Pending} {o : Outcome} {index : Nat} {e : GameError} {w : World}
      (hp : g.live.pending = some p) (ho : g.stage.futures.result? p.future = some o)
      (hc : o.choice = some index) (hw : Build.choose o.node index g.world = .error e w) :
      Failed screen g e (g.awaited w)
  /-- A node is executed in vain. -/
  | execute {x : NodeId} {e : GameError} {s : Stage σ} (hp : g.live.pending = none)
      (hx : g.live.aim.current = some x) (hs : Perform.execute screen x g.stage = .error e s) :
      Failed screen g e ({ g with live := g.live.aim }.executed x s)

theorem failed_of_resume {p : Pending} {o : Outcome} (hp : g.live.pending = some p)
    (ho : g.stage.futures.result? p.future = some o) (h : resume p o g = .error e g') :
    Failed screen g e g' := by
  unfold resume at h
  rw [bind_modifyLive_apply] at h
  -- without a pick the outcome is adopted as it is, which cannot fail
  cases hc : o.choice with
  | none =>
    rw [hc] at h
    cases h
  | some index =>
    rw [hc] at h
    simp only at h
    cases hw : Build.choose o.node index g.world with
    | ok u w =>
      have hbuild : build (Build.choose o.node index)
          { g with live := { g.live with pending := none } } = .ok u (g.awaited w) :=
        build_eq_ok_iff.2 ⟨w, hw, rfl⟩
      rw [bind_of_ok hbuild] at h
      cases h
    | error e' w =>
      have hbuild : build (Build.choose o.node index)
          { g with live := { g.live with pending := none } } = .error e' (g.awaited w) :=
        build_of_error hw
      rw [bind_of_error hbuild] at h
      obtain ⟨rfl, rfl⟩ := EStateM.Result.error.inj h
      exact .pick hp ho hc hw

theorem failed_of_execute {x : NodeId} (hp : g.live.pending = none)
    (hx : g.live.aim.current = some x)
    (h : execute screen x { g with live := g.live.aim } = .error e g') : Failed screen g e g' := by
  cases hs : Perform.execute screen x g.stage with
  | error e' s =>
    rw [execute_of_error (g := { g with live := g.live.aim }) hs] at h
    obtain ⟨rfl, rfl⟩ := EStateM.Result.error.inj h
    exact .execute hp hx hs
  | ok r s =>
    obtain ⟨a, ha, -, -⟩ := Perform.executes_of_execute hs
    rw [execute_of_perform (g := { g with live := g.live.aim }) ha hs] at h
    cases r <;> cases h

/-- **How a next step fails.** -/
theorem failed_of_next (h : next screen g = .error e g') : Failed screen g e g' := by
  cases hs : g.live.story with
  | none =>
    rw [next_of_no_story hs] at h
    obtain ⟨rfl, rfl⟩ := EStateM.Result.error.inj h
    exact .story hs
  | some story =>
    -- what is left is told by the step: a pending one is resumed, else the node at hand is executed
    have hs' : g.live.story.isSome := by rw [hs]; rfl
    cases hp : g.live.pending with
    | some p =>
      rw [next_of_pending hs' hp] at h
      cases ho : g.stage.futures.result? p.future with
      | none =>
        rw [ho] at h
        cases h
      | some o =>
        rw [ho] at h
        exact failed_of_resume hp ho h
    | none =>
      rw [next_of_idle hs' hp] at h
      cases hx : g.live.aim.current with
      | none =>
        rw [hx] at h
        cases h
      | some x =>
        rw [hx] at h
        exact failed_of_execute hp hx h

end Play

/-- The element that the next step changes before it can fail, if there is one: the menu whose pick it
takes over, or the condition that it runs. -/
def Game.ventures? (g : Game σ) : Option ElementId :=
  match g.live.pending with
  | some _ => (g.picking?.bind g.world.action?).map (·.callee)
  | none => (g.live.aim.current.bind g.world.action?).bind (·.ventures?)

/-- **What is left where a next step has failed.** -/
structure Game.Mishap (g : Game σ) (e : GameError) (g' : Game σ) : Prop where
  history : g'.live.history = g.live.history
  /-- What waits goes on waiting, unless its pick is there and cannot be taken over. -/
  pending : g.picking? = none → g'.live.pending = g.live.pending
  dropped : g.picking? ≠ none → e ≠ .noStory → g'.live.pending = none
  /-- A game stays at its node, and one that is at none may come to stand at its next unit. -/
  current : g'.live.current = g.live.current ∨
    g.live.current = none ∧ g'.live.current = g.live.onward
  /-- The state of every element and all its commits are as they were, but for the one that ventured. -/
  elements : ∀ x, g.ventures? ≠ some x → g'.world.elements.get? x = g.world.elements.get? x
  /-- That one has made one commit at most, which leads back to what it was. -/
  ventured : ∀ x, g.ventures? = some x → g'.world.elements.get? x = g.world.elements.get? x ∨
    ∃ y y' cleaners, g.world.elements.get? x = some y ∧ g'.world.elements.get? x = some y' ∧
      y.Recorded y' cleaners
  /-- No element is changed but for an error of the graph. -/
  lookup : (∀ ge, e ≠ .graph ge) → g'.world.elements = g.world.elements
  /-- Who asks for the next step again is led to the same node. -/
  place : g'.place? = g.place?

namespace Game

variable {g : Game σ} {e : GameError} {w : World}

theorem Mishap.of_attempted {g' : Game σ} (hw : g.world.Sound)
    (h : g.world.Attempted g.ventures? e g'.world) (hhistory : g'.live.history = g.live.history)
    (hpending : g.picking? = none → g'.live.pending = g.live.pending)
    (hdropped : g.picking? ≠ none → e ≠ .noStory → g'.live.pending = none)
    (hcurrent : g'.live.current = g.live.current ∨
      g.live.current = none ∧ g'.live.current = g.live.onward)
    (hplace : g'.place? = g.place?) : g.Mishap e g' where
  history := hhistory
  pending := hpending
  dropped := hdropped
  current := hcurrent
  elements _ hx := h.get?_other hw hx
  ventured _ hx := h.get?_self hw hx
  lookup he := h.eq_of_lookup he
  place := hplace

theorem mishap_of_pick (hw : g.world.Sound) (hl : g.live.Coherent) {p : Pending} {o : Outcome}
    {index : Nat} (hp : g.live.pending = some p) (ho : g.stage.futures.result? p.future = some o)
    (hc : o.choice = some index) (hpick : Build.choose o.node index g.world = .error e w) :
    g.Mishap e (g.awaited w) := by
  have hpicking := Expectant.picking?_of_choice hp ho hc
  refine .of_attempted hw ?_ rfl (fun hn => ?_) (fun _ _ => rfl) (.inl rfl) ?_
  · have hattempt := Build.attempted_choose hw hpick
    unfold ventures?
    rw [hp, hpicking]
    exact hattempt
  · cases hpicking.symm.trans hn
  · rw [place?_of_pending hp]
    show g.live.current.or _ = _
    rw [hl.waits p hp]
    rfl

theorem mishap_of_execute {screen : Screen σ} (hw : g.world.Sound) {x : NodeId} {s : Stage σ}
    (hp : g.live.pending = none) (hx : g.live.aim.current = some x)
    (hs : Perform.execute screen x g.stage = .error e s) :
    g.Mishap e ({ g with live := g.live.aim }.executed x s) := by
  have hpending : (g.live.aim.reach x).pending = none :=
    (Live.pending_reach _ x).trans ((Live.pending_aim _).trans hp)
  have hcurrent : (g.live.aim.reach x).current = some x := (Live.current_reach _ x).trans hx
  refine .of_attempted hw ?_ ?_ (fun _ => hpending.trans hp.symm) (fun _ _ => hpending) ?_ ?_
  · have hattempt := Perform.attempted_execute (s := g.stage) hw hs
    unfold ventures?
    rw [hp, hx]
    exact hattempt
  · exact (Live.history_reach _ x).trans (Live.history_aim _)
  · show (g.live.aim.reach x).current = _ ∨ _ ∧ (g.live.aim.reach x).current = _
    rw [hcurrent, ← hx, Live.aim_current]
    cases g.live.current with
    | none => exact .inr ⟨rfl, rfl⟩
    | some y => exact .inl rfl
  · rw [place?_of_idle hp, hx]
    refine (place?_of_idle hpending).trans ?_
    show (g.live.aim.reach x).aim.current = _
    rw [Live.aim_current, hcurrent]
    rfl

/-- **Where a next step fails**, the history is as it was, and so are what waits, the current node, the
state of every element and all its commits, with three exceptions. A pick that cannot be taken over is
lost with the wait for it; the menu of such a pick, or a condition whose branch cannot be grafted in,
may have made a commit; and a game at no node may have gone on to its next unit. Whatever the cause, the
next step leads to the same node again. -/
theorem Handled.mishap (h : g.Handled) {screen : Screen σ} {g' : Game σ}
    (hn : Play.next screen g = .error e g') : g.Mishap e g' := by
  cases Play.failed_of_next hn with
  | story hs =>
    exact ⟨rfl, fun _ => rfl, fun _ he => absurd rfl he, .inl rfl, fun _ _ => rfl,
      fun _ _ => .inl rfl, fun _ => rfl, rfl⟩
  | pick hp ho hc hw => exact mishap_of_pick h.sound h.coherent hp ho hc hw
  | execute hp hx hs => exact mishap_of_execute h.sound hp hx hs

end Game

/-! ### Roads that lead to themselves -/

/-- A signpost whose only arm points at the town behind it; the traveller turns off. -/
def signpost : Game Recorder :=
  (Game.new {} {}).handle [.write (.character "traveller" {}), .write (.story "tale"),
    .write (.menu none), .write (.append ⟨1⟩ (.say (.plain "the town"))),
    .write (.choose ⟨3⟩ (.plain "turn off") [[⟨4⟩]]), .write (.toAction .menu ⟨3⟩),
    .write (.storyAction ⟨2⟩ [[⟨5⟩], [⟨4⟩]]), .register ⟨2⟩, .newGame default,
    .next Recorder.screen, .answer (⟨0⟩, .choose 0)]

/-- A ford that is tried behind the first line, and whose only branch is the line behind it. -/
def ford : Game Recorder :=
  (Game.new {} {}).handle [.write (.character "traveller" {}), .write (.story "tale"),
    .write .condition, .write (.append ⟨1⟩ (.say (.plain "the river"))),
    .write (.append ⟨1⟩ (.say (.plain "the town"))),
    .write (.when ⟨3⟩ (.constant true) [[⟨5⟩]]), .write (.toAction .condition ⟨3⟩),
    .write (.storyAction ⟨2⟩ [[⟨4⟩]]), .write (.storyAction ⟨2⟩ [[⟨6⟩], [⟨5⟩]]), .register ⟨2⟩,
    .newGame default, .next Recorder.screen, .answer (⟨0⟩, .proceed), .next Recorder.screen]

/-- The error of a next step. -/
def Play.error? (g : Game Recorder) : Option GameError :=
  match Play.next Recorder.screen g with
  | .ok _ _ => none
  | .error e _ => some e

theorem Play.error_of_error? {g : Game Recorder} {e : GameError} (h : error? g = some e) :
    next Recorder.screen g = .error e (left (next Recorder.screen g)) := by
  unfold error? at h
  cases hn : next Recorder.screen g with
  | ok step g' =>
    rw [hn] at h
    cases h
  | error e' g' =>
    rw [hn] at h
    obtain rfl := Option.some_inj.1 h
    rfl

/-- The pick at the signpost is lost, and the wait for it, but nothing of the traveller; the signpost
is where play stands. At the ford, which play has come to from no node, the branch is noted. -/
theorem mishap_signpost :
    (∃ g, Play.next Recorder.screen signpost = .error (.graph (.selfChild ⟨4⟩)) g ∧
      signpost.live.pending ≠ none ∧ g.live.pending = none ∧
      g.world.elements.get? ⟨1⟩ = signpost.world.elements.get? ⟨1⟩ ∧
      signpost.world.commits ⟨3⟩ = 0 ∧ g.world.commits ⟨3⟩ = 1 ∧ g.place? = some ⟨5⟩) ∧
    ∃ g, Play.next Recorder.screen ford = .error (.graph (.selfChild ⟨5⟩)) g ∧
      ford.live.current = none ∧ g.live.current = some ⟨6⟩ ∧
      g.live.history = ford.live.history ∧
      g.world.elements.get? ⟨1⟩ = ford.world.elements.get? ⟨1⟩ ∧
      ford.world.commits ⟨3⟩ = 0 ∧ g.world.commits ⟨3⟩ = 1 ∧ g.place? = some ⟨6⟩ := by
  have hsignpost : signpost.Handled := (Game.Handled.new _ _).handle _
  have hford : ford.Handled := (Game.Handled.new _ _).handle _
  have hpick := Play.error_of_error? (g := signpost) (e := .graph (.selfChild ⟨4⟩)) (by decide +kernel)
  have hrun := Play.error_of_error? (g := ford) (e := .graph (.selfChild ⟨5⟩)) (by decide +kernel)
  have hlost := hsignpost.mishap hpick
  have hnoted := hford.mishap hrun
  refine ⟨⟨_, hpick, by decide +kernel, hlost.dropped (by decide +kernel) nofun,
    hlost.elements _ (by decide +kernel), by decide +kernel, by decide +kernel, ?_⟩,
    ⟨_, hrun, by decide +kernel, by decide +kernel, hnoted.history,
      hnoted.elements _ (by decide +kernel), by decide +kernel, by decide +kernel, ?_⟩⟩
  · exact hlost.place.trans (by decide +kernel)
  · exact hnoted.place.trans (by decide +kernel)

end Storyline
