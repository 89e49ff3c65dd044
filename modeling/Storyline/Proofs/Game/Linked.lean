import Storyline.Proofs.Game.Residue
import Storyline.Proofs.Stage.Linked

/-!
# Two games that play cannot tell apart

* `Live.bare`: the live part of a game without the name of the future that is waited for;
* `Link.Games`: two games on linked stages that wait for futures which stand for each other;
* `Link.Games.restart`, `Play.agree_next`, `Play.agree_undoLast`: play goes on alike in linked games, if
  what waits is answered in both alike.
-/

namespace Storyline

open Effect

variable {σ τ : Type}

/-! ### The live part without names -/

namespace Live

variable {l l' : Live}

/-- The live part without the name of the future that is waited for, and without the record that the
game was started from. -/
def bare (l : Live) : Live :=
  { l with pending := l.pending.map fun p => { p with future := ⟨0⟩ }, saved := none }

@[simp] theorem units_bare (l : Live) : l.bare.units = l.units := rfl
@[simp] theorem current_bare (l : Live) : l.bare.current = l.current := rfl

theorem bare_reach (l : Live) (n : NodeId) : (l.reach n).bare = l.bare.reach n := by
  unfold reach
  rw [units_bare]
  cases l.units.findIdx? (· = n) <;> rfl

theorem bare_nextUnit (l : Live) : l.bare.nextUnit = (l.nextUnit.1, l.nextUnit.2.bare) := by
  have hunit : l.bare.units[if l.bare.started then l.bare.unit + 1 else 0]? =
      l.units[if l.started then l.unit + 1 else 0]? := rfl
  unfold nextUnit
  simp only [hunit]
  split <;> rfl

theorem bare_aim (l : Live) : l.aim.bare = l.bare.aim := by
  unfold aim
  rw [current_bare, bare_nextUnit]
  cases l.current <;> rfl

section OfBare

variable (h : l'.bare = l.bare)
include h

theorem story_of_bare : l'.story = l.story := by
  have hstory := congrArg Live.story h
  exact hstory

theorem units_of_bare : l'.units = l.units := by
  have hunits := congrArg Live.units h
  exact hunits

theorem current_of_bare : l'.current = l.current := by
  have hcurrent := congrArg Live.current h
  exact hcurrent

theorem namespaces_of_bare : l'.namespaces = l.namespaces := by
  have hnames := congrArg Live.namespaces h
  exact hnames

theorem history_of_bare : l'.history = l.history := by
  have hhistory := congrArg Live.history h
  exact hhistory

theorem pending_of_bare {p : Pending} (hp : l.pending = some p) :
    ∃ q, l'.pending = some q ∧ q.node = p.node ∧ q.callee = p.callee ∧ q.before = p.before := by
  have hpend := congrArg Live.pending h
  unfold bare at hpend
  rw [hp, Option.map_some] at hpend
  obtain ⟨q, hq, heq⟩ := Option.map_eq_some_iff.1 hpend
  obtain ⟨hnode, -, hcallee, hbefore⟩ := Pending.mk.inj heq
  exact ⟨q, hq, hnode, hcallee, hbefore⟩

theorem pending_none_of_bare (hp : l.pending = none) : l'.pending = none := by
  have hpend := congrArg Live.pending h
  unfold bare at hpend
  rw [hp, Option.map_none] at hpend
  exact Option.map_eq_none_iff.1 hpend

end OfBare

end Live

/-! ### Linked games -/

variable {L : Link σ τ} {a : Screen σ} {b : Screen τ} {g : Game σ} {h : Game τ}

/-- Two games on linked stages that wait for futures which stand for each other. -/
structure Link.Games (L : Link σ τ) (g : Game σ) (h : Game τ) : Prop where
  stage : L.Stages g.stage h.stage
  live : h.live.bare = g.live.bare
  pending : ∀ p q, g.live.pending = some p → h.live.pending = some q → L.names p.future q.future

/-- Two next steps are alike. -/
def Link.Steps (L : Link σ τ) : Step → Step → Prop
  | .advanced o, .advanced o' => o' = o
  | .suspended f, .suspended f' => L.names f f'
  | .terminated, .terminated => True
  | _, _ => False

namespace Link.Games

theorem world (hg : L.Games g h) : h.world = g.world := hg.stage.world

theorem story (hg : L.Games g h) : h.live.story = g.live.story := Live.story_of_bare hg.live

/-- A change of the live parts that does not touch what waits. -/
theorem withLive (hg : L.Games g h) {l l' : Live} (hl : l'.bare = l.bare)
    (hp : l.pending = g.live.pending) (hq : l'.pending = h.live.pending) :
    L.Games { g with live := l } { h with live := l' } where
  stage := hg.stage
  live := hl
  pending p q hp' hq' := hg.pending p q (hp ▸ hp') (hq ▸ hq')

theorem withLive_none (hg : L.Games g h) {l l' : Live} (hl : l'.bare = l.bare)
    (hp : l.pending = none) : L.Games { g with live := l } { h with live := l' } where
  stage := hg.stage
  live := hl
  pending p q hp' hq' := by
    rw [show l.pending = some p from hp'] at hp
    cases hp

theorem withStage (hg : L.Games g h) {s : Stage σ} {t : Stage τ} (hs : L.Stages s t) :
    L.Games { g with stage := s } { h with stage := t } :=
  ⟨hs, hg.live, hg.pending⟩

/-- **A new game** on linked stages, of the same story. -/
theorem restart (hs : L.Stages g.stage h.stage) (hstory : h.live.story = g.live.story)
    (hunits : h.live.units = g.live.units) (hnames : h.live.namespaces = g.live.namespaces)
    (now now' : Instant) : L.Games (g.newGame now) (h.newGame now') := by
  refine ⟨⟨hs.world, ?_, hs.rest⟩, ?_, nofun⟩
  · show Game.emptyNamespaces h.live.namespaces h.stage.store =
      Game.emptyNamespaces g.live.namespaces g.stage.store
    rw [hnames, hs.store]
  · show (h.live.restart _).bare = (g.live.restart _).bare
    unfold Live.restart Live.bare
    rw [hunits, hnames, hstory]

theorem newGame (hg : L.Games g h) (now now' : Instant) :
    L.Games (g.newGame now) (h.newGame now') :=
  restart hg.stage hg.story (Live.units_of_bare hg.live) (Live.namespaces_of_bare hg.live) now now'

end Link.Games

namespace Play

/-! ### Single changes -/

section Changes

variable {α β α' β' : Type} {R : α → β → Prop}

theorem agree_perform (hg : L.Games g h) {x : Perform σ α} {y : Perform τ β}
    (hxy : Agree L.Stages R (x g.stage) (y h.stage)) :
    Agree L.Games R (perform x g) (perform y h) := by
  unfold perform
  cases hx : x g.stage <;> cases hy : y h.stage <;> rw [hx, hy] at hxy
  · exact ⟨hxy.1, hg.withStage hxy.2⟩
  · exact hxy.elim
  · exact hxy.elim
  · exact ⟨hxy.1, hg.withStage hxy.2⟩

theorem agree_build (hg : L.Games g h) (change : Build α) :
    Agree L.Games Eq (build change g) (build change h) :=
  agree_perform hg (Perform.agree_build hg.stage change)

theorem agree_undoAction (hg : L.Games g h) (n : NodeId) :
    Agree L.Games Eq (discard (perform (Perform.undoAction n)) g)
      (discard (perform (Perform.undoAction n)) h) := by
  have hundo : Agree L.Stages Eq (Perform.undoAction n g.stage) (Perform.undoAction n h.stage) := by
    unfold Perform.undoAction
    rw [hg.stage.world, hg.stage.store]
    cases g.stage.world.undoAction n g.stage.store with
    | error e => exact ⟨rfl, hg.stage⟩
    | ok q => exact ⟨rfl, (hg.stage.withWorld q.2.1).withStore q.2.2⟩
  have hperform := agree_perform hg hundo
  rw [discard_apply, discard_apply]
  cases hx : perform (Perform.undoAction n) g <;> cases hy : perform (Perform.undoAction n) h <;>
    rw [hx, hy] at hperform
  · exact ⟨rfl, hperform.2⟩
  · exact hperform.elim
  · exact hperform.elim
  · exact hperform

theorem agree_adopt (hg : L.Games g h) (o : Outcome) (callee : ElementId) (before : Nat) :
    Agree L.Games L.Steps (adopt o callee before g) (adopt o callee before h) := by
  show L.Steps (.advanced o) (.advanced o) ∧
    L.Games (g.adopted o callee before) (h.adopted o callee before)
  refine ⟨rfl, ?_⟩
  unfold Game.adopted
  rw [hg.world]
  refine hg.withLive ?_ rfl rfl
  have hadopt := congrArg (fun l : Live => l.adopt o (decide (before < g.world.commits callee))
    (g.world.graph.child? o.node)) hg.live
  exact hadopt

end Changes

/-! ### Every call -/

theorem agree_resume (hg : L.Games g h) (p q : Pending) (hc : q.callee = p.callee)
    (hb : q.before = p.before) (o : Outcome) :
    Agree L.Games L.Steps (resume p o g) (resume q o h) := by
  unfold resume
  rw [bind_modifyLive_apply, bind_modifyLive_apply, hc, hb]
  have hg' : L.Games { g with live := { g.live with pending := none } }
      { h with live := { h.live with pending := none } } := by
    refine hg.withLive_none ?_ rfl
    have hbare := congrArg (fun l : Live => { l with pending := none }) hg.live
    exact hbare
  cases o.choice with
  | none => exact agree_adopt hg' o _ _
  | some index =>
    refine (agree_build hg' (Build.choose o.node index)).bind ?_
    rintro _ _ g' h' - hg''
    exact agree_adopt hg'' o _ _

/-- **Executing a node** in linked games. -/
theorem agree_execute (hL : L.Lawful a b) (hg : L.Games g h) (node : NodeId) :
    Agree L.Games L.Steps (execute a node g) (execute b node h) := by
  unfold execute
  rw [bind_modifyLive_apply, bind_modifyLive_apply, bind_get_apply, bind_get_apply]
  have hreach : L.Games { g with live := g.live.reach node } { h with live := h.live.reach node } := by
    refine hg.withLive ?_ (Live.pending_reach _ _) (Live.pending_reach _ _)
    rw [Live.bare_reach, Live.bare_reach, hg.live]
  rw [show ({ h with live := h.live.reach node } : Game τ).world.calleeOf node =
    ({ g with live := g.live.reach node } : Game σ).world.calleeOf node from by rw [hreach.world]]
  refine (agree_build hreach _).bind ?_
  rintro callee _ g₁ h₁ rfl hg₁
  rw [bind_get_apply, bind_get_apply, hg₁.world]
  refine (agree_perform hg₁ (Perform.agrees_execute hL hg₁.stage node)).bind ?_
  rintro r r' g₂ h₂ hr hg₂
  -- both actions are done at once, or both are waited for
  cases r with
  | immediate o =>
    cases r' with
    | suspended f' => exact hr.elim
    | immediate o' =>
      obtain rfl : o' = o := hr
      exact agree_adopt hg₂ o' _ _
  | suspended f =>
    cases r' with
    | immediate o' => exact hr.elim
    | suspended f' =>
      refine ⟨hr, hg₂.stage, ?_, ?_⟩
      · have hbare := congrArg (fun l : Live => { l with pending := some ⟨node, ⟨0⟩, callee,
          g₁.world.commits callee⟩ }) hg₂.live
        exact hbare
      · rintro _ _ ⟨⟩ ⟨⟩
        exact hr

/-- **The next step** of linked games, in which what waits is answered alike. -/
theorem agree_next (hL : L.Lawful a b) (hg : L.Games g h)
    (hanswer : ∀ p q, g.live.pending = some p → h.live.pending = some q →
      h.stage.futures.result? q.future = g.stage.futures.result? p.future) :
    Agree L.Games L.Steps (next a g) (next b h) := by
  cases hs : g.live.story with
  | none =>
    rw [next_of_no_story hs, next_of_no_story (hg.story.trans hs)]
    exact ⟨rfl, hg⟩
  | some story =>
    have hs' : g.live.story.isSome := by rw [hs]; rfl
    have ht' : h.live.story.isSome := by rw [hg.story]; exact hs'
    -- the games agree on whether a step is pending, and on the outcome it waits for
    cases hp : g.live.pending with
    | some p =>
      obtain ⟨q, hq, hnode, hcallee, hbefore⟩ := Live.pending_of_bare hg.live hp
      rw [next_of_pending hs' hp, next_of_pending ht' hq, hanswer p q hp hq]
      cases g.stage.futures.result? p.future with
      | none => exact ⟨hg.pending p q hp hq, hg⟩
      | some o => exact agree_resume hg p q hcallee hbefore o
    | none =>
      have hq := Live.pending_none_of_bare hg.live hp
      rw [next_of_idle hs' hp, next_of_idle ht' hq]
      have hbare : h.live.aim.bare = g.live.aim.bare := by
        rw [Live.bare_aim, Live.bare_aim, hg.live]
      rw [Live.current_of_bare hbare]
      cases g.live.aim.current with
      | some node =>
        exact agree_execute hL (hg.withLive hbare (Live.pending_aim _) (Live.pending_aim _)) node
      | none =>
        refine ⟨trivial, hg.withLive ?_ (Live.pending_aim _) (Live.pending_aim _)⟩
        have hended := congrArg (fun l : Live => { l with terminated := true }) hbare
        exact hended

/-- What follows where a commit is taken back first, if there is one. -/
theorem agree_undoAction_if {α : Type} (hg : L.Games g h) (n : NodeId) (c : Prop) [Decidable c]
    {k : Unit → Play σ α} {l : Unit → Play τ α}
    (hk : ∀ g h, L.Games g h → Agree L.Games Eq (k () g) (l () h)) :
    Agree L.Games Eq
      ((if c then do
          discard (perform (Perform.undoAction n))
          k ()
        else k ()) g)
      ((if c then do
          discard (perform (Perform.undoAction n))
          l ()
        else l ()) h) := by
  split
  · refine (agree_undoAction hg n).bind ?_
    rintro _ _ g' h' - hg'
    exact hk g' h' hg'
  · exact hk g h hg

theorem agree_undoEntry (hg : L.Games g h) : Agree L.Games Eq (undoEntry g) (undoEntry h) := by
  unfold undoEntry
  rw [bind_get_apply, bind_get_apply, Live.history_of_bare hg.live]
  cases g.live.history with
  | nil => exact ⟨rfl, hg⟩
  | cons e rest =>
    simp only [bind_modifyLive_apply]
    have hbare := congrArg (fun l : Live => { l with history := rest }) hg.live
    have hg₁ : L.Games { g with live := { g.live with history := rest } }
        { h with live := { h.live with history := rest } } := hg.withLive hbare rfl rfl
    refine agree_undoAction_if hg₁ e.outcome.node _
      (k := fun _ => do
        modifyLive fun l => { l with current := some e.outcome.node, terminated := false }
        return some e.outcome)
      (l := fun _ => do
        modifyLive fun l => { l with current := some e.outcome.node, terminated := false }
        return some e.outcome)
      fun g' h' hg' => ⟨rfl, ?_⟩
    have hbare' := congrArg (fun l : Live =>
      { l with current := some e.outcome.node, terminated := false }) hg'.live
    exact hg'.withLive hbare' rfl rfl

/-- **Undoing** in linked games. -/
theorem agree_undoLast (hg : L.Games g h) :
    Agree L.Games Eq (undoLast g) (undoLast h) := by
  rw [undoLast_apply, undoLast_apply]
  cases hp : g.live.pending with
  | none =>
    rw [Live.pending_none_of_bare hg.live hp]
    exact agree_undoEntry hg
  | some p =>
    obtain ⟨q, hq, hnode, hcallee, hbefore⟩ := Live.pending_of_bare hg.live hp
    rw [hq]
    refine Agree.bind (R := Eq) ?_ fun _ _ g' h' _ hg' => agree_undoEntry hg'
    unfold undoPending
    rw [bind_modifyLive_apply, bind_modifyLive_apply, bind_get_apply, bind_get_apply, hnode, hcallee,
      hbefore]
    have hbare := congrArg (fun l : Live => { l with pending := none }) hg.live
    have hg' : L.Games { g with live := { g.live with pending := none } }
        { h with live := { h.live with pending := none } } := hg.withLive_none hbare rfl
    rw [hg'.world]
    refine agree_undoAction_if hg' p.node _
      (k := fun _ => modifyLive fun l => { l with current := some p.node })
      (l := fun _ => modifyLive fun l => { l with current := some p.node })
      fun g' h' hg' => ⟨rfl, ?_⟩
    have hbare' := congrArg (fun l : Live => { l with current := some p.node }) hg'.live
    exact hg'.withLive hbare' rfl rfl

end Play

end Storyline
