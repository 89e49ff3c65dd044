import Storyline.Proofs.Log.Single
import Storyline.Proofs.Number.Unit
import Storyline.Proofs.Stage.Lived
import Storyline.Proofs.World.Unplayed

/-!
# Images on the stage

* `Position.OnStage`: fractions of the stage lie between zero and one, and `Position.problem?_eq_none_iff`:
  the check for positions refuses exactly those that do not;
* `Tracked.Upholds P R t`: a state and its records are good, which recorded changes and undoing keep;
* `Image.Placed allowed`: an image stands on the stage, its transform fits, and so it was in all states that
  undoing can lead back to;
* `World.Placed allowed`: all images do, and all actions lead to such states only, and
  `World.Placed.stroke`: **calls keep that** where the transforms fit that are handed to them.

The builder checks positions. What a transform has to fit is left open: the transforms that are
handed over.
-/

namespace Storyline

open Effect

/-! ### Positions -/

/-- Fractions of the stage lie between zero and one. Coordinates may be anything. -/
def Position.OnStage : Position → Prop
  | align x y => x.WithinUnit ∧ y.WithinUnit
  | _ => True

/-- **The check for positions** refuses those that are off the stage, and no others. -/
theorem Position.problem?_eq_none_iff (p : Position) : p.problem? = none ↔ p.OnStage := by
  cases p with
  | align x y =>
    simp only [problem?, OnStage, ← Number.inUnit_iff, ← Bool.and_eq_true]
    split <;> simp [*]
  | _ => exact iff_of_true rfl trivial

/-- If a transform leads to a position, this lies on the stage. -/
def Transform.OnStage (t : Transform) : Prop := ∀ p, t.position = some p → p.OnStage

/-! ### Records that lead back -/

namespace Tracked

variable {σ ρ : Type} {P : σ → Prop} {R : ρ → Prop} {t t' : Tracked σ ρ} {s : σ} {r : ρ}

/-- The state is good, and so are the records of all commits that can be taken. -/
structure Upholds (P : σ → Prop) (R : ρ → Prop) (t : Tracked σ ρ) : Prop where
  state : P t.state
  commit : ∀ k rs, t.log.commit? k = some rs → ∀ r ∈ rs, R r

namespace Upholds

theorem new (hs : P s) : Upholds P R { state := s } := by
  refine ⟨hs, fun k rs hk => ?_⟩
  rw [Log.commit?_eq] at hk
  cases hk

theorem change (h : t.Upholds P R) (hb : t.log.buffer = none) (hs : P s) (hr : R r) :
    (t.change s r).Upholds P R := by
  rw [change_eq hb]
  refine ⟨hs, fun k rs hk => ?_⟩
  rw [Log.commit?_committed] at hk
  split at hk
  · obtain rfl := Option.some.inj hk
    intro r' hr'
    rwa [List.mem_singleton.1 hr']
  · exact h.commit k rs hk

/-- Undoing, if good records lead from good states to good states. -/
theorem undo [Undoable σ ρ] [Rolling σ ρ] {token? : Option Nat} {store store' : Store} {n : Nat}
    (h : t.Upholds P R) (hback : ∀ r s, R r → P s → P (Rolling.back r s))
    (hu : t.undo token? store = .ok (n, t', store')) : t'.Upholds P R := by
  have hroll : ∀ rs : List ρ, (∀ r ∈ rs, R r) → P (rs.foldr Rolling.back t.state) := by
    intro rs hrs
    induction rs with
    | nil => exact h.state
    | cons r rest ih =>
      obtain ⟨hr, hrest⟩ := List.forall_mem_cons.1 hrs
      exact hback r _ hr (ih hrest)
  unfold Tracked.undo at hu
  cases htake : t.log.take token? with
  | error e =>
    rw [htake] at hu
    cases hu
  | ok p =>
    obtain ⟨rs, l⟩ := p
    obtain ⟨k, hk, rfl⟩ := Log.take_eq_ok htake
    simp only [htake, rollbackAll_eq] at hu
    obtain ⟨-, rfl, -⟩ := Prod.mk.inj (Except.ok.inj hu)
    refine ⟨hroll rs (h.commit k rs hk), fun j rs' hj => ?_⟩
    rw [Log.commit?_emptied (Log.lt_size_of_commit? hk)] at hj
    split at hj
    · cases hj
    · exact h.commit j rs' hj

end Upholds

end Tracked

/-! ### Events, actions and states -/

namespace ImageEvent

/-- The position that an image moves to. -/
def position? : ImageEvent → Option Position
  | setPosition p _ => some p
  | _ => none

def transform : ImageEvent → Transform
  | setPosition _ t | «show» t | hide t | applyTransform t => t

end ImageEvent

section Placed

variable (allowed : Transform → Prop)

/-- An image moves to a position on the stage, under a transform that fits. -/
structure ImageEvent.Placed (event : ImageEvent) : Prop where
  position : ∀ p, event.position? = some p → p.OnStage
  transform : allowed event.transform

/-- An action of an image tells the screen of such an event. -/
def ActionKind.Placed (kind : ActionKind) : Prop := ∀ event, kind.event? = some event → event.Placed allowed

/-- An image stands on the stage, under a transform that fits. -/
structure ImageState.Placed (s : ImageState) : Prop where
  position : s.position.OnStage
  transform : ∀ t, s.transform = some t → allowed t

/-- What a change has replaced was such a position or transform. -/
def ImageRecord.Placed : ImageRecord → Prop
  | position previous => previous.OnStage
  | transform previous => ∀ t, previous = some t → allowed t
  | src _ | displayed _ => True

/-- The state of an image is placed, and so are all that its records lead back to. -/
def Image.Placed (i : Image) : Prop := i.tracked.Upholds (ImageState.Placed allowed) (ImageRecord.Placed allowed)

def Element.Placed : Element → Prop
  | image i => i.Placed allowed
  | _ => True

/-- What the screen is told of an image. -/
def Cue.Placed : Cue → Prop
  | addImage _ i => i.state.Placed allowed
  | animate _ event _ => event.Placed allowed
  | _ => True

/-- All images are placed, and all actions lead to such states only. -/
structure World.Placed (w : World) : Prop where
  kind : ∀ n a, w.action? n = some a → a.kind.Placed allowed
  elements : w.Each (Element.Placed allowed)

end Placed

variable {allowed : Transform → Prop}

/-! ### Images -/

namespace Image

variable {i : Image}

/-- A new image stands where its configuration says, which was checked. -/
theorem placed_of_new {id : ElementId} {name : String} {config : ImageConfig}
    (h : Image.new id name config = .ok i) : i.Placed allowed := by
  have hposition : config.position.OnStage := by
    rw [← Position.problem?_eq_none_iff]
    unfold Image.new ImageConfig.problem? at h
    cases hsrc : config.src.isEmpty with
    | true => simp [hsrc] at h
    | false =>
      cases hp : config.position.problem? with
      | none => rfl
      | some problem => simp [hsrc, hp] at h
  obtain rfl := Image.eq_of_new h
  exact .new ⟨hposition, nofun⟩

theorem Placed.change (h : i.Placed allowed) (hb : i.tracked.log.buffer = none) {kind : ActionKind}
    (hk : kind.Placed allowed) : (kind.change i).Placed allowed := by
  obtain ⟨hposition, htransform⟩ := h.state
  cases kind with
  | setSrc src => exact Tracked.Upholds.change h hb ⟨hposition, htransform⟩ trivial
  | setPosition p t =>
    exact Tracked.Upholds.change h hb ⟨(hk _ rfl).position p rfl, htransform⟩ hposition
  | showImage t => exact Tracked.Upholds.change h hb ⟨hposition, htransform⟩ trivial
  | hideImage t => exact Tracked.Upholds.change h hb ⟨hposition, htransform⟩ trivial
  | applyTransform t =>
    refine Tracked.Upholds.change h hb ⟨hposition, ?_⟩ htransform
    rintro _ ⟨⟩
    exact (hk _ rfl).transform
  | _ => exact h

end Image

/-! ### Elements -/

namespace Element

variable {x y : Element}

theorem Placed.of_bare (h : x.Placed allowed) (hy : y.bare = x.bare) : y.Placed allowed := by
  cases y with
  | image j =>
    cases x with
    | image i =>
      have htracked : j.tracked = i.tracked := congrArg (·.tracked) (Element.image.inj hy)
      show Tracked.Upholds _ _ j.tracked
      rw [htracked]
      exact h
    | _ => cases hy
  | _ => trivial

theorem placed_of_written (h : x.kind ≠ .image) (hy : y.written = x.written) : y.Placed allowed := by
  cases y with
  | image j =>
    cases x with
    | image i => exact absurd rfl h
    | _ => cases hy
  | _ => trivial

theorem Placed.undo (h : x.Placed allowed) {store store' : Store} {count : Nat}
    (hu : x.undo store = .ok (count, y, store')) : y.Placed allowed := by
  cases x with
  | image i =>
    have hu : undoIn i.tracked (fun t => image { i with tracked := t }) store = _ := hu
    unfold undoIn at hu
    cases ht : i.tracked.undo none store with
    | error e =>
      rw [ht] at hu
      cases hu
    | ok p =>
      obtain ⟨n, t, store₁⟩ := p
      rw [ht] at hu
      obtain ⟨-, rfl, -⟩ := Prod.mk.inj (Except.ok.inj hu)
      refine Tracked.Upholds.undo h (fun r s hr hs => ?_) ht
      cases r with
      | src | displayed => exact ⟨hs.position, hs.transform⟩
      | position previous => exact ⟨hr, hs.transform⟩
      | transform previous => exact ⟨hs.position, hr⟩
  | _ => exact placed_of_written (by simp [kind]) (undo_keeps hu).1

end Element

/-! ### Worlds -/

/-- The transforms that are handed to a call fit. An action that is made without an author is not
checked and has to be placed as it is. -/
def Call.HandsOnly (allowed : Transform → Prop) : Call → Prop
  | append _ kind => ∀ event, kind.event? = some event → allowed event.transform
  | newAction _ kind => kind.Placed allowed
  | _ => True

/-- An action of which the screen is told no event of an image. -/
theorem ActionKind.placed_of_event?_eq_none {kind : ActionKind} (h : kind.event? = none) :
    kind.Placed allowed := fun event he => by
  rw [h] at he
  cases he

/-- What calls make is placed: of the positions the builder sees to that. -/
theorem Call.Makes.placed {c : Call} {kind : ActionKind} (h : c.Makes kind) (hc : c.HandsOnly allowed) :
    kind.Placed allowed := by
  cases c with
  | append e kind' =>
    obtain ⟨rfl, hchecked⟩ := h
    intro event he
    refine ⟨fun p hp => ?_, hc event he⟩
    -- only the actions that say something of an image have a transform
    cases kind with
    | setPosition q t =>
      obtain rfl := Option.some.inj he
      obtain rfl := Option.some.inj hp
      exact (Position.problem?_eq_none_iff _).1 (hchecked rfl)
    | showImage | hideImage | applyTransform =>
      obtain rfl := Option.some.inj he
      cases hp
    | _ => cases he
  | newAction e kind' =>
    obtain rfl := h
    exact hc
  | sceneAction | storyAction =>
    obtain ⟨chain, rfl⟩ := h
    exact ActionKind.placed_of_event?_eq_none rfl
  | toAction =>
    rcases h with rfl | rfl | rfl <;> exact ActionKind.placed_of_event?_eq_none rfl
  | _ => exact h.elim

namespace World.Placed

variable {w w' : World}

theorem new : World.new.Placed allowed := by
  refine ⟨fun n a ha => ?_, fun e x hx => ?_⟩
  · unfold World.new World.action? Graph.content? at ha
    rw [Graph.get?_withRoot] at ha
    split at ha <;> simp at ha
  · simp [World.new, Elements.get?] at hx

theorem of_sameNodes (h : w.Placed allowed) {g : Graph Action} (hg : w.graph.SameNodes g) :
    ({ w with graph := g } : World).Placed allowed :=
  ⟨fun n a ha => h.kind n a ((hg.content? n).symm.trans ha), h.elements⟩

theorem put (h : w.Placed allowed) {x : Element} (hx : x.Placed allowed) :
    ({ w with elements := w.elements.put x } : World).Placed allowed :=
  ⟨h.kind, h.elements.put hx⟩

theorem spend (h : w.Placed allowed) : ({ w with ids := w.ids.take.2 } : World).Placed allowed :=
  ⟨h.kind, h.elements⟩

/-- **Calls keep all images on the stage**, if the transforms fit that are handed to them. -/
theorem stroke {c : Call} {start : Graph Action} (hs : c.Stroke start w w') (hc : c.HandsOnly allowed)
    (h : w.Placed allowed) : w'.Placed allowed := by
  cases hs with
  | spend => exact h.spend
  | @add x _ hx =>
    refine h.spend.put ?_
    cases x with
    | image i => exact Image.placed_of_new (hx.checked i rfl)
    | _ => trivial
  | revise hx hy => exact h.put ((h.elements _ _ hx).of_bare hy.bare)
  | insert hg hk =>
    obtain ⟨-, -, -, hget⟩ := Graph.insert_eq_ok hg
    refine ⟨fun n a ha => ?_, h.elements⟩
    unfold World.action? Graph.content? at ha
    rw [hget] at ha
    split at ha
    · obtain rfl := Option.some.inj ha
      exact hk.placed hc
    · exact h.kind n a ha
  | child _ hg => exact h.of_sameNodes (Graph.rewired_of_setChild hg).toSameNodes
  | parent _ _ _ hg => exact h.of_sameNodes (Graph.sameEdges_of_setParent hg).toSameNodes
  | root _ hg => exact h.of_sameNodes (Graph.rewired_of_setChild hg).toSameNodes

theorem call (h : w.Placed allowed) {c : Call} (hc : c.HandsOnly allowed) :
    (left (c.run w)).Placed allowed :=
  kept_of_steps (c.strokes w) (fun _ _ hs hw => hw.stroke hs hc) h

theorem graft (h : w.Placed allowed) (n : NodeId) (chain : Option Chain) :
    (left (Build.ofEdit (Graph.splice n chain) w)).Placed allowed := by
  rw [World.left_ofEdit]
  exact h.of_sameNodes (Graph.resumes_left_splice w.graph n chain).1

theorem record (h : w.Placed allowed) (hw : w.Sound) {a : Action} {x y : Element}
    (ha : a.kind.Placed allowed) (hx : w.elements.get? a.callee = some x) (hy : x.Acted y)
    (hi : ∀ i, x = .image i → y = .image (a.kind.change i)) :
    ({ w with elements := w.elements.put y } : World).Placed allowed := by
  refine h.put ?_
  have hplaced := h.elements _ _ hx
  have hset := hw.settled _ _ hx
  cases x with
  | image i =>
    obtain rfl := hi i rfl
    exact Image.Placed.change hplaced hset ha
  | _ => exact Element.placed_of_written (by simp [Element.kind]) hy.written

theorem choose (h : w.Placed allowed) (n : NodeId) (i : Nat) :
    (left (Build.choose n i w)).Placed allowed := by
  unfold Build.choose
  rw [bind_get_apply]
  cases hc : w.calleeOf n with
  | error e => exact h
  | ok callee =>
    rw [bind_of_ok (Build.ofExcept_eq_ok_iff.2 ⟨rfl, rfl⟩)]
    refine left_bind (P := World.Placed allowed) (by rwa [World.left_find]) fun m w₁ hm => ?_
    obtain ⟨-, rfl⟩ := Build.find_eq_ok_iff.1 hm
    cases m.pick? i with
    | none => exact h.graft n none
    | some pick => exact (h.put (x := .menu pick.2) trivial).graft n pick.1

theorem undoAction (h : w.Placed allowed) {n : NodeId} {store store' : Store} {count : Nat}
    (hu : w.undoAction n store = .ok (count, w', store')) : w'.Placed allowed := by
  obtain ⟨e, x, y, hx, hundo, rfl⟩ := undoAction_eq_ok hu
  exact h.put ((h.elements _ _ hx).undo hundo)

end World.Placed

end Storyline
