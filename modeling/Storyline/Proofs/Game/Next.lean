import Storyline.Game.Play
import Storyline.Proofs.Stage.Execute

/-!
# What one call of play does

* `Play.next_of_pending`, `Play.next_of_idle`: the next step ends a wait, or executes the node that
  the game aims at, or ends the story;
* `Play.execute_eq_ok`, `Play.resume_eq_ok`: what executing a node and ending a wait come to;
* `Play.Moved`: the four ways in which a next step can succeed, and `Play.moved_of_next`.
-/

namespace Storyline

open Effect

/-- Where play stands before it executes: at the current node, or else at the next unit. -/
def Live.aim (l : Live) : Live :=
  if l.current.isNone then { l.nextUnit.2 with current := l.nextUnit.1 } else l

theorem Live.history_aim (l : Live) : l.aim.history = l.history := by
  unfold Live.aim Live.nextUnit
  split
  · simp only
    split <;> rfl
  · rfl

theorem Live.pending_aim (l : Live) : l.aim.pending = l.pending := by
  unfold Live.aim Live.nextUnit
  split
  · simp only
    split <;> rfl
  · rfl

theorem Live.history_reach (l : Live) (node : NodeId) : (l.reach node).history = l.history := by
  unfold Live.reach
  split <;> rfl

theorem Live.pending_reach (l : Live) (node : NodeId) : (l.reach node).pending = l.pending := by
  unfold Live.reach
  split <;> rfl

theorem Live.units_aim (l : Live) : l.aim.units = l.units := by
  unfold Live.aim Live.nextUnit
  split
  · simp only
    split <;> rfl
  · rfl

theorem Live.units_reach (l : Live) (n : NodeId) : (l.reach n).units = l.units := by
  unfold Live.reach
  split <;> rfl

theorem Live.story_aim (l : Live) : l.aim.story = l.story := by
  unfold Live.aim Live.nextUnit
  split
  · simp only
    split <;> rfl
  · rfl

theorem Live.story_reach (l : Live) (node : NodeId) : (l.reach node).story = l.story := by
  unfold Live.reach
  split <;> rfl

theorem Live.current_reach (l : Live) (node : NodeId) : (l.reach node).current = l.current := by
  unfold Live.reach
  split <;> rfl

theorem Live.started_reach (l : Live) (node : NodeId) : (l.reach node).started = true := by
  unfold Live.reach
  split <;> rfl

theorem Live.aim_cases {l : Live} {u : NodeId} (h : l.aim.current = some u) :
    l.current = some u ∨ u ∈ l.units := by
  unfold Live.aim at h
  split at h
  · right
    unfold Live.nextUnit at h
    simp only at h
    split at h
    · rename_i n hn
      obtain rfl := Option.some_inj.1 h
      exact List.mem_of_getElem? hn
    · cases h
  · exact .inl h

variable {σ α : Type}

/-- The game after an outcome was taken over. -/
def Game.adopted (g : Game σ) (o : Outcome) (callee : ElementId) (before : Nat) : Game σ :=
  { g with live :=
    g.live.adopt o (before < g.world.commits callee) (g.world.graph.child? o.node) }

/-- The game after a node was reached and executed. -/
def Game.executed (g : Game σ) (node : NodeId) (s : Stage σ) : Game σ :=
  { g with live := g.live.reach node, stage := s }

/-- The game after a step was begun that waits. -/
def Game.awaiting (g : Game σ) (p : Pending) : Game σ :=
  { g with live := { g.live with pending := some p } }

/-- The game after the wait of a step, in which the world may have changed. -/
def Game.awaited (g : Game σ) (w : World) : Game σ :=
  { g with live := { g.live with pending := none }, stage := { g.stage with world := w } }

namespace Play

variable {screen : Screen σ} {g g' : Game σ} {step : Step} {node : NodeId} {p : Pending}
  {o : Outcome}

theorem perform_eq_ok_iff {act : Perform σ α} {x : α} :
    perform act g = .ok x g' ↔ ∃ s, act g.stage = .ok x s ∧ g' = { g with stage := s } := by
  unfold perform
  cases act g.stage with
  | ok y s =>
    constructor
    · rintro ⟨⟩
      exact ⟨s, rfl, rfl⟩
    · rintro ⟨s', ⟨⟩, rfl⟩
      rfl
  | error e s => simp

theorem build_eq_ok_iff {change : Build α} {x : α} :
    build change g = .ok x g' ↔
      ∃ w, change g.world = .ok x w ∧ g' = { g with stage := { g.stage with world := w } } := by
  unfold build
  rw [perform_eq_ok_iff]
  constructor
  · rintro ⟨s, hs, rfl⟩
    obtain ⟨w, hw, rfl⟩ := Perform.build_eq_ok_iff.1 hs
    exact ⟨w, hw, rfl⟩
  · rintro ⟨w, hw, rfl⟩
    exact ⟨_, Perform.build_eq_ok_iff.2 ⟨w, hw, rfl⟩, rfl⟩

@[simp] theorem bind_modifyLive_apply (f : Live → Live) (k : PUnit → Play σ α) (g : Game σ) :
    (modifyLive f >>= k) g = k ⟨⟩ { g with live := f g.live } := rfl

/-! ### Executing a node -/

theorem execute_of_perform {a : Action} {r : Executed} {s : Stage σ}
    (ha : g.world.action? node = some a) (hs : Perform.execute screen node g.stage = .ok r s) :
    execute screen node g = match r with
      | .immediate o =>
        .ok (.advanced o) ((g.executed node s).adopted o a.callee (g.world.commits a.callee))
      | .suspended f => .ok (.suspended f)
          ((g.executed node s).awaiting ⟨node, f, a.callee, g.world.commits a.callee⟩) := by
  have hcallee : build (Build.ofExcept (g.world.calleeOf node))
      { g with live := g.live.reach node } = .ok a.callee { g with live := g.live.reach node } :=
    build_eq_ok_iff.2 ⟨g.world, Build.ofExcept_eq_ok_iff.2
      ⟨World.calleeOf_eq_ok_iff.2 ⟨a, ha, rfl⟩, rfl⟩, rfl⟩
  have hperform : perform (Perform.execute screen node) { g with live := g.live.reach node } =
      .ok r (g.executed node s) := perform_eq_ok_iff.2 ⟨s, hs, rfl⟩
  unfold execute
  rw [bind_modifyLive_apply, bind_get_apply]
  refine (bind_of_ok hcallee).trans ?_
  rw [bind_get_apply]
  refine (bind_of_ok hperform).trans ?_
  cases r <;> rfl

/-- **Executing a node** of an action that does not fail. -/
theorem execute_eq_ok (h : execute screen node g = .ok step g') :
    ∃ a r s, g.world.action? node = some a ∧ Perform.execute screen node g.stage = .ok r s ∧
      match r with
      | .immediate o => step = .advanced o ∧
          g' = (g.executed node s).adopted o a.callee (g.world.commits a.callee)
      | .suspended f => step = .suspended f ∧
          g' = (g.executed node s).awaiting ⟨node, f, a.callee, g.world.commits a.callee⟩ := by
  unfold execute at h
  rw [bind_modifyLive_apply, bind_get_apply] at h
  obtain ⟨callee, g₁, hcallee, h₁⟩ := bind_apply_eq_ok.1 h
  obtain ⟨w, hw, rfl⟩ := build_eq_ok_iff.1 hcallee
  obtain ⟨hc, rfl⟩ := Build.ofExcept_eq_ok_iff.1 hw
  obtain ⟨a, ha, rfl⟩ := World.calleeOf_eq_ok_iff.1 hc
  rw [bind_get_apply] at h₁
  obtain ⟨r, g₂, hperform, h₂⟩ := bind_apply_eq_ok.1 h₁
  obtain ⟨s, hs, rfl⟩ := perform_eq_ok_iff.1 hperform
  refine ⟨a, r, s, ha, hs, ?_⟩
  cases r with
  | immediate o =>
    obtain ⟨rfl, rfl⟩ := EStateM.Result.ok.inj h₂
    exact ⟨rfl, rfl⟩
  | suspended f =>
    obtain ⟨rfl, rfl⟩ := EStateM.Result.ok.inj h₂
    exact ⟨rfl, rfl⟩

/-- Ending a wait with an outcome whose choice, if any, can be grafted in. -/
theorem resume_of_choose {w : World} (hw : match o.choice with
      | some index => Build.choose o.node index g.world = .ok () w
      | none => w = g.world) :
    resume p o g = .ok (.advanced o) ((g.awaited w).adopted o p.callee p.before) := by
  unfold resume
  rw [bind_modifyLive_apply]
  cases hc : o.choice with
  | none =>
    obtain rfl : w = g.world := by simpa [hc] using hw
    rfl
  | some index =>
    simp only [hc] at hw ⊢
    have hbuild : build (Build.choose o.node index)
        { g with live := { g.live with pending := none } } = .ok () (g.awaited w) :=
      build_eq_ok_iff.2 ⟨w, hw, rfl⟩
    exact bind_of_ok hbuild

/-- **Ending a wait** with an outcome, whose choice is grafted in first. -/
theorem resume_eq_ok (h : resume p o g = .ok step g') :
    ∃ w, (match o.choice with
        | some index => Build.choose o.node index g.world = .ok () w
        | none => w = g.world) ∧
      step = .advanced o ∧ g' = (g.awaited w).adopted o p.callee p.before := by
  unfold resume at h
  rw [bind_modifyLive_apply] at h
  cases hc : o.choice with
  | none =>
    simp only [hc] at h
    obtain ⟨rfl, rfl⟩ := EStateM.Result.ok.inj h
    exact ⟨g.world, rfl, rfl, rfl⟩
  | some index =>
    simp only [hc] at h
    obtain ⟨_, g₁, hb, h₁⟩ := bind_apply_eq_ok.1 h
    obtain ⟨w, hw, rfl⟩ := build_eq_ok_iff.1 hb
    obtain ⟨rfl, rfl⟩ := EStateM.Result.ok.inj h₁
    exact ⟨w, hw, rfl, rfl⟩

/-! ### The next step -/

theorem next_of_pending (hs : g.live.story.isSome) (hp : g.live.pending = some p) :
    next screen g =
      match g.stage.futures.result? p.future with
      | none => .ok (.suspended p.future) g
      | some o => resume p o g := by
  unfold next
  have hs' : g.live.story.isNone = false := by simpa using hs
  rw [bind_get_apply]
  simp only [hs', Bool.false_eq_true, if_false, hp]
  cases g.stage.futures.result? p.future <;> rfl

theorem next_of_idle (hs : g.live.story.isSome) (hp : g.live.pending = none) :
    next screen g =
      match g.live.aim.current with
      | some node => execute screen node { g with live := g.live.aim }
      | none => .ok .terminated { g with live := { g.live.aim with terminated := true } } := by
  unfold next Live.aim
  have hs' : g.live.story.isNone = false := by simpa using hs
  rw [bind_get_apply]
  simp only [hs', Bool.false_eq_true, if_false, hp]
  by_cases hc : g.live.current.isNone
  · simp only [hc, if_true]
    rw [bind_modifyLive_apply, bind_get_apply]
    cases g.live.nextUnit.1 <;> rfl
  · simp only [hc, Bool.false_eq_true, if_false]
    rw [bind_get_apply]
    cases hcur : g.live.current with
    | none => simp [hcur] at hc
    | some node => rfl

theorem next_eq_ok_story (h : next screen g = .ok step g') : g.live.story.isSome := by
  cases hs : g.live.story with
  | some => rfl
  | none =>
    unfold next at h
    rw [bind_get_apply] at h
    simp [hs] at h

/-- The ways in which a next step succeeds. -/
inductive Moved (screen : Screen σ) (g : Game σ) : Step → Game σ → Prop
  /-- A step waits on. -/
  | waits (p : Pending) (hp : g.live.pending = some p)
      (hf : g.stage.futures.result? p.future = none) : Moved screen g (.suspended p.future) g
  /-- The wait of a step ends. -/
  | resumes (p : Pending) (o : Outcome) (w : World) (hp : g.live.pending = some p)
      (hf : g.stage.futures.result? p.future = some o)
      (hw : match o.choice with
        | some index => Build.choose o.node index g.world = .ok () w
        | none => w = g.world) :
      Moved screen g (.advanced o) ((g.awaited w).adopted o p.callee p.before)
  /-- The story ends. -/
  | ends (hp : g.live.pending = none) :
      Moved screen g .terminated { g with live := { g.live.aim with terminated := true } }
  /-- A node is executed and done with. -/
  | executes (node : NodeId) (a : Action) (o : Outcome) (s : Stage σ)
      (hp : g.live.pending = none) (ha : g.world.action? node = some a)
      (hs : Perform.execute screen node g.stage = .ok (.immediate o) s) :
      Moved screen g (.advanced o)
        (({ g with live := g.live.aim }.executed node s).adopted o a.callee
          (g.world.commits a.callee))
  /-- A node is executed and waits. -/
  | begins (node : NodeId) (a : Action) (f : FutureId) (s : Stage σ)
      (hp : g.live.pending = none) (ha : g.world.action? node = some a)
      (hs : Perform.execute screen node g.stage = .ok (.suspended f) s) :
      Moved screen g (.suspended f)
        (({ g with live := g.live.aim }.executed node s).awaiting
          ⟨node, f, a.callee, g.world.commits a.callee⟩)

/-- **What a next step does** that does not fail. -/
theorem moved_of_next (h : next screen g = .ok step g') : Moved screen g step g' := by
  have hs := next_eq_ok_story h
  cases hp : g.live.pending with
  | some p =>
    rw [next_of_pending hs hp] at h
    cases hf : g.stage.futures.result? p.future with
    | none =>
      rw [hf] at h
      obtain ⟨rfl, rfl⟩ := EStateM.Result.ok.inj h
      exact .waits p hp hf
    | some o =>
      rw [hf] at h
      obtain ⟨w, hw, rfl, rfl⟩ := resume_eq_ok h
      exact .resumes p o w hp hf hw
  | none =>
    rw [next_of_idle hs hp] at h
    split at h
    · obtain ⟨a, r, s, ha, hr, hstep⟩ := execute_eq_ok h
      cases r with
      | immediate o =>
        obtain ⟨rfl, rfl⟩ := hstep
        exact .executes _ a o s hp ha hr
      | suspended f =>
        obtain ⟨rfl, rfl⟩ := hstep
        exact .begins _ a f s hp ha hr
    · obtain ⟨rfl, rfl⟩ := EStateM.Result.ok.inj h
      exact .ends hp

end Play

end Storyline
