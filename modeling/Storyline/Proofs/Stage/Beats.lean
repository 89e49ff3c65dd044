import Storyline.Proofs.Stage.Execute
import Storyline.Proofs.World.Strokes

/-!
# What executing an action is made of

* `ActionKind.change`, `ActionKind.event?`: what an action does to an image, and what the screen is told;
* `Stage.Beat screen a`: all that executing an action may do to a stage at a time: graft a chain in,
  record a change of its element, change the store, make a future, tell the screen something, give an
  image its name on the screen, or animate an image that has one;
* `Perform.beats_executeAction`: every action is a sequence of beats, also one that fails;
* `Perform.presented_of_executeAction`: an action on an image leaves the image with a name.
-/

namespace Storyline

open Effect
open Relation (ReflTransGen)

/-! ### What actions do to images -/

namespace ActionKind

/-- What an action does to an image. -/
def change : ActionKind → Image → Image
  | setSrc src => (·.setSrc src)
  | setPosition p _ => (·.setPosition p)
  | showImage _ => (·.setDisplayed true)
  | hideImage _ => (·.setDisplayed false)
  | applyTransform t => (·.applyTransform t)
  | _ => id

/-- What the screen is told to do with an image. -/
def event? : ActionKind → Option ImageEvent
  | setPosition p t => some (.setPosition p t)
  | showImage t => some (.show t)
  | hideImage t => some (.hide t)
  | applyTransform t => some (.applyTransform t)
  | _ => none

variable {kind : ActionKind}

theorem imageChange_change (hk : kind.writer? = some .image) : Element.ImageChange kind.change := by
  cases kind with
  | setSrc src => exact Element.imageChange_setSrc src
  | setPosition p t => exact Element.imageChange_setPosition p
  | showImage t => exact Element.imageChange_setDisplayed true
  | hideImage t => exact Element.imageChange_setDisplayed false
  | applyTransform t => exact Element.imageChange_applyTransform t
  | _ => cases hk

theorem presented_change (kind : ActionKind) (i : Image) : (kind.change i).presented = i.presented := by
  cases kind <;> rfl

end ActionKind

theorem Perform.executeAction_image {σ : Type} {a : Action} (screen : Screen σ)
    (hk : a.kind.writer? = some .image) :
    executeAction screen a = image screen a a.kind.change a.kind.event? := by
  unfold executeAction
  generalize a.kind = kind at hk ⊢
  cases kind with
  | setSrc | setPosition | showImage | hideImage | applyTransform => rfl
  | _ => cases hk

/-! ### Beats -/

/-- What play may change of an element: nothing that was written, nor its name on the screen. -/
structure Element.Acted (x y : Element) : Prop where
  written : y.written = x.written
  settled : x.Settled → y.Settled
  presented? : y.presented? = x.presented?

theorem Element.Recorded.acted {x y : Element} {cleaners : List Cleaner} (h : x.Recorded y cleaners)
    (hp : y.presented? = x.presented?) : x.Acted y :=
  ⟨h.written, fun _ => h.settled, hp⟩

/-- Cues that neither announce an action nor speak of an image. -/
def Cue.IsPlain : Cue → Prop
  | .handle _ | .addImage .. | .animate .. => False
  | _ => True

variable {σ : Type}

/-- One beat of executing an action. -/
inductive Stage.Beat (screen : Screen σ) (a : Action) : Stage σ → Stage σ → Prop
  | graft (s : Stage σ) (chain : Option Chain) : Beat screen a s
      { s with world := left (Build.ofEdit (Graph.splice a.node chain) s.world) }
  | record {s : Stage σ} {x y : Element} (hx : s.world.elements.get? a.callee = some x)
      (hy : x.Acted y) (hi : ∀ i, x = .image i → y = .image (a.kind.change i)) : Beat screen a s
        { s with world := { s.world with elements := s.world.elements.put y } }
  | store (s : Stage σ) (store : Store) : Beat screen a s { s with store }
  | future (s : Stage σ) (receive : Resolution → Outcome) :
      Beat screen a s { s with futures := (s.futures.add receive).2 }
  | tell (s : Stage σ) {cue : Cue} (hc : cue.IsPlain) : Beat screen a s (s.sent screen cue)
  | name {s : Stage σ} {i : Image} (hi : s.world.elements.get? a.callee = some (.image i))
      (hn : i.presented = none) : Beat screen a s
        (Stage.sent screen (.addImage (Image.screenName s.world.ids.next) (s.world.naming i))
          { s with world := s.world.named i })
  | animate {s : Stage σ} {i : Image} {name : String} {event : ImageEvent} (f : FutureId)
      (hi : s.world.elements.get? a.callee = some (.image i)) (hn : i.presented = some name)
      (he : a.kind.event? = some event) : Beat screen a s (s.sent screen (.animate name event f))

/-- Beats of an action lead from one stage to another. -/
abbrev Stage.Beats (screen : Screen σ) (a : Action) : Stage σ → Stage σ → Prop :=
  ReflTransGen (Stage.Beat screen a)

/-- Looking an element up changes nothing, whether it is found or not. -/
theorem Perform.left_find {α : Type} [Elemental α] (e : ElementId) (s : Stage σ) :
    left (build (Build.find α e) s) = s := by
  unfold build
  have hfind := World.left_find (w := s.world) (α := α) e
  cases hf : Build.find α e s.world <;> rw [hf] at hfind <;> obtain rfl := hfind <;> rfl

namespace Stage.Beats

variable {screen : Screen σ} {a : Action} {s₀ s : Stage σ} {α : Type}

/-! ### Parts of actions -/

theorem bind_find [Elemental α] [LawfulElemental α] {β : Type} {k : α → Perform σ β}
    (h : Beats screen a s₀ s)
    (hk : ∀ x, s.world.elements.get? a.callee = some (Elemental.toElement x) →
      Beats screen a s₀ (left (k x s))) :
    Beats screen a s₀ (left ((Perform.build (Build.find α a.callee) >>= k) s)) := by
  refine left_bind (by rw [Perform.left_find]; exact h) fun x s' hx => ?_
  obtain ⟨hx, rfl⟩ := Perform.build_find_eq_ok_iff.1 hx
  exact hk x hx

theorem bind_discard_find [Elemental α] [LawfulElemental α] {β : Type} {k : PUnit → Perform σ β}
    (h : Beats screen a s₀ s) (hk : Beats screen a s₀ (left (k ⟨⟩ s))) :
    Beats screen a s₀
      (left ((discard (Perform.build (Build.find α a.callee)) >>= k) s)) := by
  rw [discard_bind_apply]
  exact h.bind_find fun _ _ => hk

theorem graft_end (h : Beats screen a s₀ s) (chain : Option Chain) (o : Outcome) :
    Beats screen a s₀ (left ((do
      Perform.build (Build.ofEdit (Graph.splice a.node chain))
      return .immediate o : Perform σ Executed) s)) := by
  have hgraft : Beats screen a s₀ (left (Perform.build (Build.ofEdit (Graph.splice a.node chain)) s)) := by
    refine h.tail (?_ : Beat screen a s _)
    have hb : Beat screen a s
        { s with world := left (Build.ofEdit (Graph.splice a.node chain) s.world) } := .graft s chain
    unfold Perform.build
    cases hs : Build.ofEdit (Graph.splice a.node chain) s.world <;> rw [hs] at hb <;> exact hb
  refine left_bind hgraft fun u s' hs => ?_
  rwa [hs] at hgraft

theorem record [Elemental α] [LawfulElemental α] {x y : α} (h : Beats screen a s₀ s)
    (hα : Elemental.kind α ≠ .image)
    (hx : s.world.elements.get? a.callee = some (Elemental.toElement x))
    (hy : (Elemental.toElement x).Acted (Elemental.toElement y)) :
    Beats screen a s₀ { s with world := s.world.put y } := by
  refine h.tail (.record hx hy fun i hi => ?_)
  have hkind := (LawfulElemental.kind_eq_iff (Elemental.toElement x)).2 ⟨x, rfl⟩
  rw [hi] at hkind
  exact absurd hkind.symm hα

theorem ask (h : Beats screen a s₀ s) (receive : Resolution → Outcome) {cue : Cue}
    (hc : cue.IsPlain) :
    Beats screen a s₀ (Stage.sent screen cue { s with futures := (s.futures.add receive).2 }) :=
  (h.tail (.future s receive)).tail (.tell _ hc)

end Stage.Beats

open Stage (Beats)

namespace Perform

variable {screen : Screen σ} {a : Action} {s₀ s : Stage σ}

theorem beats_actOn {name : String} {i : Image} (h : Beats screen a s₀ s) (hw : s.world.Sound)
    (hi : s.world.elements.get? a.callee = some (.image i)) (hn : i.presented = some name)
    (hk : a.kind.writer? = some .image) :
    Beats screen a s₀ (left (actOn screen a a.kind.event? name (a.kind.change i) s)) := by
  have hi' : (Element.image i).Acted (.image (a.kind.change i)) :=
    (ActionKind.imageChange_change hk i (hw.settled _ _ hi)).acted (ActionKind.presented_change _ i)
  have hrecord : Beats screen a s₀ { s with world := s.world.put (a.kind.change i) } :=
    h.tail (.record hi hi' fun j hj =>
      congrArg (fun i => Element.image (a.kind.change i)) (Element.image.inj hj))
  unfold actOn
  rw [bind_put_apply]
  cases he : a.kind.event? with
  | none => exact hrecord
  | some event =>
    simp only [bind_suspend_apply, bind_send_apply]
    have hfuture := hrecord.tail (.future _ fun _ => a.outcome)
    have hget := World.get?_put (a := a.kind.change i) hw hi hi'.written a.callee
    rw [if_pos rfl] at hget
    exact hfuture.tail (.animate _ hget (hi'.presented?.trans hn) he)

theorem beats_image (h : Beats screen a s₀ s) (hw : s.world.Sound) (hk : a.kind.writer? = some .image) :
    Beats screen a s₀ (left (image screen a a.kind.change a.kind.event? s)) := by
  unfold image
  refine h.bind_find fun i hi => ?_
  cases hp : i.presented with
  | some name => exact beats_actOn h hw hi hp hk
  | none =>
    simp only [bind_get_apply, bind_modify_apply, bind_put_apply, bind_send_apply]
    exact beats_actOn (i := s.world.naming i) (h.tail (.name hi hp))
      ((World.quiet_named hw hi).sound hw) ((World.get?_named hw hi _).trans (if_pos rfl)) rfl hk

/-- **Every action is a sequence of beats**, also one that fails. -/
theorem beats_executeAction (screen : Screen σ) (a : Action) (hw : s.world.Sound) :
    Beats screen a s (left (executeAction screen a s)) := by
  have himage : a.kind.writer? = some .image → Beats screen a s (left (executeAction screen a s)) := by
    intro hk
    rw [executeAction_image screen hk]
    exact beats_image .refl hw hk
  unfold executeAction at himage ⊢
  cases hkind : a.kind with
  | say line =>
    refine Beats.bind_find (α := Character) .refl fun c hc => ?_
    have hr := Element.recorded_say (hw.settled _ _ hc) a.node
    simp only [bind_put_apply, bind_suspend_apply, bind_send_apply]
    exact (Beats.record .refl (by decide) hc (hr.acted rfl)).ask (fun _ => a.outcome) trivial
  | hideLine line =>
    refine Beats.bind_find (α := Character) .refl fun c hc => ?_
    cases hhide : c.hide? line with
    | none => exact .refl
    | some c' =>
      have hr := Element.recorded_hide (hw.settled _ _ hc) hhide
      exact (Beats.record .refl (by decide) hc (hr.acted rfl)).tail (.tell _ trivial)
  | scene chain =>
    refine Beats.bind_find (α := Scene) .refl fun c _ => ?_
    rw [bind_send_apply]
    have htell : Beats screen a s (s.sent screen (.scene c)) :=
      ReflTransGen.single (.tell s trivial)
    exact htell.graft_end chain _
  | setBackground src =>
    refine Beats.bind_find (α := Scene) .refl fun c hc => ?_
    have hr := Element.recorded_setBackground (hw.settled _ _ hc) src
    simp only [bind_put_apply, bind_suspend_apply, bind_send_apply]
    exact (Beats.record .refl (by decide) hc (hr.acted rfl)).ask (fun _ => a.outcome) trivial
  | sleep d =>
    have hask : Beats screen a s (Stage.sent screen
        (.sleep d (s.futures.add fun _ => a.outcome).1)
          { s with futures := (s.futures.add fun _ => a.outcome).2 }) :=
      Beats.ask .refl _ trivial
    exact Beats.bind_discard_find (α := Scene) .refl hask
  | story chain => exact Beats.graft_end .refl chain _
  | setSrc | setPosition | showImage | hideImage | applyTransform =>
    rw [hkind] at himage
    exact himage rfl
  | condition =>
    refine Beats.bind_find (α := Condition) .refl fun c hc => ?_
    have hr := Element.recorded_condition (hw.settled _ _ hc) s.store
    simp only [bind_get_apply, bind_modify_apply, bind_put_apply]
    have hstore : Beats screen a s { s with store := (c.run s.store).2.2 } :=
      ReflTransGen.single (.store s _)
    exact (hstore.record (by decide) hc (hr.acted rfl)).graft_end _ _
  | script =>
    refine Beats.bind_find (α := Script) .refl fun c hc => ?_
    have hr := Element.recorded_script (hw.settled _ _ hc) a.node s.store
    simp only [bind_get_apply, bind_modify_apply, bind_put_apply]
    have hstore : Beats screen a s { s with store := (c.run a.node s.store).2 } :=
      ReflTransGen.single (.store s _)
    exact hstore.record (by decide) hc (hr.acted rfl)
  | menu =>
    refine Beats.bind_find (α := Menu) .refl fun m _ => ?_
    exact Beats.ask .refl a.outcome.answered trivial
  | play =>
    refine Beats.bind_find (α := Sound) .refl fun c hc => ?_
    have hr := (Element.recorded_play (hw.settled _ _ hc)).acted rfl
    rw [bind_put_apply]
    split
    · simp only [bind_suspend_apply, bind_send_apply]
      exact (Beats.record .refl (by decide) hc hr).ask (fun _ => a.outcome) trivial
    · exact (Beats.record .refl (by decide) hc hr).tail (.tell _ trivial)
  | stop =>
    refine Beats.bind_find (α := Sound) .refl fun c hc => ?_
    have hr := (Element.recorded_stop (hw.settled _ _ hc)).acted rfl
    exact (Beats.record .refl (by decide) hc hr).tail (.tell _ trivial)

/-! ### Names on the screen -/

theorem world_left_actOn (event : Option ImageEvent) (name : String) (i : Image) :
    (left (actOn screen a event name i s)).world = s.world.put i := by
  unfold actOn
  rw [bind_put_apply]
  cases event <;> rfl

theorem presented_of_image {change : Image → Image} {event : Option ImageEvent} {i : Image}
    (hw : s.world.Sound) (hi : s.world.elements.get? a.callee = some (.image i))
    (hchange : Element.ImageChange change) (hp : ∀ i, (change i).presented = i.presented) :
    ∃ i', (left (image screen a change event s)).world.elements.get? a.callee = some (.image i') ∧
      i'.presented.isSome := by
  have hset := hw.settled _ _ hi
  have hid := hw.id _ _ hi
  have hfind : build (Build.find Image a.callee) s = .ok i s := build_find_eq_ok_iff.2 ⟨hi, rfl⟩
  have hput : ∀ (w : World) (j : Image), (Element.image j).Settled → j.id = a.callee →
      (w.put (change j)).elements.get? a.callee = some (.image (change j)) := by
    intro w j hj hja
    have hget := Elements.get?_put w.elements (.image (change j)) a.callee
    rw [if_pos ((Element.id_eq_of_written (hchange j hj).written).trans hja)] at hget
    exact hget
  unfold image
  rw [bind_of_ok hfind]
  -- an image without a name is given one before it is changed
  cases hn : i.presented with
  | some name =>
    refine ⟨change i, ?_, by rw [hp, hn]; rfl⟩
    simp only
    refine (congrArg (fun w : World => w.elements.get? a.callee) (world_left_actOn _ _ _)).trans ?_
    exact hput _ i hset hid
  | none =>
    refine ⟨change (s.world.naming i), ?_, by rw [hp]; rfl⟩
    simp only [bind_get_apply, bind_modify_apply, bind_put_apply, bind_send_apply]
    refine (congrArg (fun w : World => w.elements.get? a.callee) (world_left_actOn _ _ _)).trans ?_
    exact hput _ (s.world.naming i) hset hid

/-- **An action on an image** leaves the image with a name on the screen. -/
theorem presented_of_executeAction {i : Image} (screen : Screen σ) (hw : s.world.Sound)
    (hi : s.world.elements.get? a.callee = some (.image i)) (hk : a.kind.writer? = some .image) :
    ∃ i', (left (executeAction screen a s)).world.elements.get? a.callee = some (.image i') ∧
      i'.presented.isSome := by
  rw [executeAction_image screen hk]
  exact presented_of_image hw hi (ActionKind.imageChange_change hk) (ActionKind.presented_change _)

end Perform

end Storyline
