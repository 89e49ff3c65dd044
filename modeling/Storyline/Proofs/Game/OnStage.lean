import Storyline.Proofs.Element.Placed
import Storyline.Proofs.Game.Handled
import Storyline.Proofs.World.Stint

/-!
# Where images are placed in a game

* `Stage.Placed allowed`: all images are placed, and so is what the screen was told of them;
* `Game.Arranged allowed g`: a host comes to `g` by any calls, on a screen that keeps a log, and all
  transforms fit that it hands to the builder;
* `Arranged.placed`: the stage of such a game is placed;
* `Arranged.lets_through`: whatever transform the builder is handed gets to the screen as it is;
* `Arranged.onStage`: **positions are checked, transforms are not**.
-/

namespace Storyline

open Effect

variable {σ : Type} {allowed : Transform → Prop}

/-! ### Stages -/

/-- All images are placed, and so is what the screen was told of them. -/
structure Stage.Placed (allowed : Transform → Prop) (s : Stage (σ × List Cue)) : Prop where
  world : s.world.Placed allowed
  log : ∀ cue ∈ s.screen.2, cue.Placed allowed

namespace Stage.Placed

variable {s s' : Stage (σ × List Cue)} {screen : Screen σ} {a : Action}

theorem sent (h : s.Placed allowed) {cue : Cue} (hc : cue.Placed allowed) :
    (s.sent screen.logging cue).Placed allowed :=
  ⟨h.world, List.forall_mem_cons.2 ⟨hc, h.log⟩⟩

theorem congr (h : s.Placed allowed) (hw : s'.world = s.world) (hs : s'.screen = s.screen) :
    s'.Placed allowed :=
  ⟨hw ▸ h.world, hs ▸ h.log⟩

theorem beat (h : s.Placed allowed) (hw : s.world.Sound) (ha : a.kind.Placed allowed)
    (hb : Stage.Beat screen.logging a s s') : s'.Placed allowed := by
  cases hb with
  | graft chain => exact ⟨h.world.graft a.node chain, h.log⟩
  | record hx hy hi => exact ⟨h.world.record hw ha hx hy hi, h.log⟩
  | store | future => exact h.congr rfl rfl
  | @tell cue hc =>
    refine h.sent ?_
    cases cue with
    | handle | addImage | animate => exact hc.elim
    | _ => trivial
  | @name i hi hn =>
    have hi : i.Placed allowed := h.world.elements _ _ hi
    have hworld : (s.world.named i).Placed allowed := (h.world.spend).put (x := .image (s.world.naming i)) hi
    exact Stage.Placed.sent (s := { s with world := s.world.named i }) ⟨hworld, h.log⟩ hi.state
  | animate f hi hn he => exact h.sent (ha _ he)

theorem executeAction (h : s.Placed allowed) (hw : s.world.Sound) (ha : a.kind.Placed allowed) :
    (left (Perform.executeAction screen.logging a s)).Placed allowed :=
  (kept_of_steps (P := fun s => s.world.Sound ∧ s.Placed allowed)
    (Perform.beats_executeAction screen.logging a hw)
    (fun _ _ hb hs => ⟨(World.Touches.beat hb hs.1).keeps.sound hs.1, hs.2.beat hs.1 ha hb⟩) ⟨hw, h⟩).2

theorem execute (h : s.Placed allowed) (hw : s.world.Sound) (n : NodeId) :
    (left (Perform.execute screen.logging n s)).Placed allowed := by
  rw [Perform.left_execute]
  cases ha : s.world.action? n with
  | none => exact h
  | some a =>
    have hsent : (s.sent screen.logging (.handle a)).Placed allowed := h.sent trivial
    exact hsent.executeAction hw (h.world.kind n a ha)

theorem undoAction (h : s.Placed allowed) (n : NodeId) :
    (left (Perform.undoAction n s)).Placed allowed := by
  unfold Perform.undoAction
  cases hu : s.world.undoAction n s.store with
  | error e => exact h
  | ok q => exact ⟨h.world.undoAction hu, h.log⟩

end Stage.Placed

/-! ### Hosts -/

/-- A call on a screen that keeps a log. -/
def Handling.logging : Handling σ → Handling (σ × List Cue)
  | write c => .write c
  | register e => .register e
  | load e units => .load e units
  | newGame now => .newGame now
  | next screen => .next screen.logging
  | undo => .undo
  | answer a => .answer a
  | execute screen node => .execute screen.logging node
  | perform screen a => .perform screen.logging a
  | pick node index => .pick node index
  | takeBack node => .takeBack node
  | addNamespace key => .addNamespace key
  | restore saved store => .restore saved store

/-- The transforms fit that a call hands to the builder. An action that is executed without a node has
to be placed as it is. -/
def Handling.HandsOnly (allowed : Transform → Prop) : Handling σ → Prop
  | write c => c.HandsOnly allowed
  | perform _ a => a.kind.Placed allowed
  | _ => True

/-- A host comes to a game by calls that hand over transforms that fit, whether or not they succeed. -/
inductive Game.Arranged (allowed : Transform → Prop) : Game (σ × List Cue) → Prop
  | new (config : GameConfig) (screen : σ) : Arranged allowed (Game.new config (screen, []))
  | call {g : Game (σ × List Cue)} (h : Arranged allowed g) {c : Handling σ} (hc : c.HandsOnly allowed) :
      Arranged allowed (c.logging.run g)

section

variable {α : Type} {g : Game (σ × List Cue)}

theorem Play.stage_left_build (change : Build α) (g : Game σ) :
    (left (build change g)).stage = { g.stage with world := left (change g.world) } := by
  unfold build
  rw [stage_left_perform]
  unfold Perform.build
  cases hc : change g.stage.world <;> simp [Game.world, hc, left]

theorem Play.stage_left_registerStory (h : Handle Story) (g : Game σ) :
    (left (registerStory h g)).stage =
      { g.stage with world := left (Build.setRoot h g.world) } := by
  unfold registerStory
  cases hb : Build.setRoot h g.world with
  | error e w =>
    rw [bind_of_error (build_of_error hb)]
    rfl
  | ok units w =>
    rw [bind_of_ok (build_eq_ok_iff.2 ⟨w, hb, rfl⟩)]
    rfl

theorem Game.stage_new (config : GameConfig) (screen : σ) :
    (Game.new config screen).stage.world = World.new ∧ (Game.new config screen).stage.screen = screen := by
  unfold Game.new
  generalize hg : (⟨config, {}, {}, _⟩ : Game σ) = g
  have h : g.stage.world = World.new ∧ g.stage.screen = screen := by
    rw [← hg]
    exact ⟨rfl, rfl⟩
  clear hg
  induction config.namespaces generalizing g with
  | nil => exact h
  | cons key rest ih => exact ih (g.registerNamespace key) h

/-- **Every call** keeps the stage placed, if it hands over transforms that fit. -/
theorem Handling.placed {c : Handling σ} (hc : c.HandsOnly allowed) (hw : g.world.Sound)
    (h : g.stage.Placed allowed) : (c.logging.run g).stage.Placed allowed := by
  cases c with
  | write c =>
    show (left (Play.build c.run g)).stage.Placed allowed
    rw [Play.stage_left_build]
    exact ⟨h.world.call hc, h.log⟩
  | register e =>
    show (left (Play.registerStory ⟨e⟩ g)).stage.Placed allowed
    rw [Play.stage_left_registerStory]
    exact ⟨h.world.call (c := .setRoot e) trivial, h.log⟩
  | load | newGame | answer | addNamespace | restore => exact h.congr rfl rfl
  | next screen =>
    show (left (Play.next screen.logging g)).stage.Placed allowed
    rcases Play.stage_left_next screen.logging g with hs | ⟨n, i, hs⟩ | ⟨n, hs⟩
    · exact hs ▸ h
    · exact hs ▸ ⟨h.world.choose n i, h.log⟩
    · exact hs ▸ h.execute hw n
  | undo =>
    refine Play.left_undoLast (P := fun k => k.stage.Placed allowed) h (fun _ hk => hk) fun n hk => ?_
    rw [Play.stage_left_perform]
    exact hk.undoAction n
  | execute screen n =>
    show (left (Play.perform (Perform.execute screen.logging n) g)).stage.Placed allowed
    rw [Play.stage_left_perform]
    exact h.execute hw n
  | perform screen a =>
    show (left (Play.perform (Perform.executeAction screen.logging a) g)).stage.Placed allowed
    rw [Play.stage_left_perform]
    exact h.executeAction hw hc
  | pick n i =>
    show (left (Play.build (Build.choose n i) g)).stage.Placed allowed
    rw [Play.stage_left_build]
    exact ⟨h.world.choose n i, h.log⟩
  | takeBack n =>
    show (left (Play.perform (Perform.undoAction n) g)).stage.Placed allowed
    rw [Play.stage_left_perform]
    exact h.undoAction n

namespace Game.Arranged

theorem handled (h : g.Arranged allowed) : g.Handled := by
  induction h with
  | new config screen => exact .new config (screen, [])
  | call h hc ih => exact ih.call _

theorem placed (h : g.Arranged allowed) : g.stage.Placed allowed := by
  induction h with
  | new config screen =>
    obtain ⟨hw, hs⟩ := Game.stage_new config (screen, ([] : List Cue))
    refine ⟨hw ▸ .new, fun cue hcue => ?_⟩
    rw [hs] at hcue
    cases hcue
  | call h hc ih => exact Handling.placed hc h.handled.sound ih

theorem handle (h : g.Arranged allowed) {calls : List (Handling σ)} (hc : ∀ c ∈ calls, c.HandsOnly allowed) :
    (g.handle (calls.map Handling.logging)).Arranged allowed := by
  induction calls generalizing g with
  | nil => exact h
  | cons c rest ih =>
    obtain ⟨hfirst, hrest⟩ := List.forall_mem_cons.1 hc
    exact ih (h.call hfirst) hrest

end Game.Arranged

end

/-! ### What is let through -/

theorem ActionKind.writer?_of_event? {kind : ActionKind} {event : ImageEvent}
    (h : kind.event? = some event) : kind.writer? = some .image := by
  cases kind with
  | setPosition | showImage | hideImage | applyTransform => rfl
  | _ => cases h

/-- Of what the screen is told of an image the builder looks at the position alone. -/
theorem Gathering.problem?_eq_none {kind : ActionKind}
    (hp : ∀ p t, kind = .setPosition p t → p.OnStage) : problem? Image kind = none := by
  cases kind with
  | setPosition p t => exact (Position.problem?_eq_none_iff p).2 (hp p t rfl)
  | _ => rfl

/-- An action that nothing speaks against is appended for an image. -/
theorem Call.run_append_image {w : World} (hw : w.Sound) (hahead : w.Ahead) {e : ElementId} {i : Image}
    {kind : ActionKind} (hi : w.elements.get? e = some (.image i)) (hk : kind.writer? = some .image)
    (hp : Gathering.problem? Image kind = none) :
    ∃ w', (Call.append e kind).run w = .ok [] w' ∧ w'.Sound ∧
      w'.action? ⟨w.ids.next⟩ = some ⟨⟨w.ids.next⟩, e, kind⟩ ∧
      w'.elements.get? e = some (.image { i with pending := ⟨w.ids.next⟩ :: i.pending }) := by
  obtain ⟨g, hg⟩ := hahead.exists_insert e kind
  let i' : Image := { i with pending := ⟨w.ids.next⟩ :: i.pending }
  let w₀ : World := { w with ids := w.ids.take.2, graph := g }
  have hsound : w₀.Sound :=
    World.Sound.of_insertContent (a := ⟨⟨w.ids.next⟩, e, kind⟩) ((World.quiet_take w).sound hw) rfl hg
  have hnew : Build.newAction e kind w = .ok ⟨w.ids.next⟩ w₀ := by rw [Build.newAction_apply, hg]
  have hget := World.get?_withPending (x := i) hsound hi (⟨w.ids.next⟩ :: i.pending) e
  rw [if_pos rfl] at hget
  have hsettled : (Element.image i').Settled := hsound.settled e (.image i) hi
  refine ⟨_, ?_, hsound.replace hsettled, ?_, hget⟩
  · simp only [Call.run, hk]
    unfold Author.append
    rw [Build.author_apply, World.find_eq_ok_iff.2 hi]
    simp only [hp]
    refine bind_of_ok (a := ()) (?_ : (Build.newAction e kind >>= _) w = _)
    rw [bind_of_ok hnew]
    exact bind_of_ok (Build.find_eq_ok_iff (w := w₀) (a := i).2 ⟨hi, rfl⟩)
  · exact (World.action?_insert hg _).trans (if_pos rfl)

namespace Perform

variable {s : Stage (σ × List Cue)} {screen : Screen σ} {a : Action} {i : Image} {event : ImageEvent}

/-- The screen is told last to animate the image that was changed. -/
structure Animated (e : ElementId) (event : ImageEvent) (state : ImageState) (s : Stage (σ × List Cue)) :
    Prop where
  told : ∃ name f, s.screen.2.head? = some (.animate name event f)
  state : ∃ i, s.world.elements.get? e = some (.image i) ∧ i.state = state

theorem animated_actOn (hw : s.world.Sound) (hi : s.world.elements.get? a.callee = some (.image i))
    (hk : a.kind.writer? = some .image) (event : ImageEvent) (name : String) :
    Animated a.callee event (a.kind.change i).state
      (left (actOn screen.logging a (some event) name (a.kind.change i) s)) := by
  have hr := ActionKind.imageChange_change hk i (hw.settled _ _ hi)
  have hget := World.get?_put (a := a.kind.change i) hw hi hr.written a.callee
  rw [if_pos rfl] at hget
  exact ⟨⟨name, _, rfl⟩, _, hget, rfl⟩

/-- **An action on an image** hands its event to the screen as it is. -/
theorem animated_executeAction (screen : Screen σ) (hw : s.world.Sound)
    (hi : s.world.elements.get? a.callee = some (.image i)) (he : a.kind.event? = some event) :
    Animated a.callee event (a.kind.change i).state (left (executeAction screen.logging a s)) := by
  have hk := ActionKind.writer?_of_event? he
  have hfind : build (Build.find Image a.callee) s = .ok i s := build_find_eq_ok_iff.2 ⟨hi, rfl⟩
  rw [executeAction_image screen.logging hk, he]
  unfold image
  rw [bind_of_ok hfind]
  cases hp : i.presented with
  | some name => exact animated_actOn hw hi hk event name
  | none =>
    simp only [bind_get_apply, bind_modify_apply, bind_put_apply, bind_send_apply]
    have hnamed := (World.get?_named hw hi a.callee).trans (if_pos rfl)
    have hstate : (a.kind.change (s.world.naming i)).state = (a.kind.change i).state := by
      cases a.kind <;> rfl
    rw [← hstate]
    exact animated_actOn (s := Stage.sent screen.logging _ { s with world := s.world.named i })
      ((World.quiet_named hw hi).sound hw) hnamed hk event _

end Perform

namespace Game.Arranged

variable {g : Game (σ × List Cue)}

/-- **Whatever transform an author hands over** gets to the screen, and from there into the state. -/
theorem lets_through (h : g.Arranged allowed) (screen : Screen σ) {e : ElementId} {i : Image}
    {kind : ActionKind} {event : ImageEvent} (hi : g.world.elements.get? e = some (.image i))
    (he : kind.event? = some event) (hp : ∀ p t, kind = .setPosition p t → p.OnStage) :
    ∃ n, (g.handle [.write (.append e kind)]).world.action? n = some ⟨n, e, kind⟩ ∧
      Perform.Animated e event (kind.change i).state
        (g.handle [.write (.append e kind), .execute screen.logging n]).stage := by
  obtain ⟨use, hl⟩ := h.handled.lived.ledger
  obtain ⟨w, hrun, hw, ha, hget⟩ := Call.run_append_image h.handled.sound hl.ahead hi
    (ActionKind.writer?_of_event? he) (Gathering.problem?_eq_none hp)
  have hstage : (g.handle [.write (.append e kind)]).stage = { g.stage with world := w } := by
    refine (Play.stage_left_build _ g).trans ?_
    rw [hrun]
    rfl
  refine ⟨⟨g.world.ids.next⟩, (congrArg (fun s => s.world.action? ⟨g.world.ids.next⟩) hstage).trans ha, ?_⟩
  have hexecuted : (g.handle [.write (.append e kind), .execute screen.logging ⟨g.world.ids.next⟩]).stage =
      left (Perform.execute screen.logging ⟨g.world.ids.next⟩ { g.stage with world := w }) := by
    rw [← hstage]
    exact Play.stage_left_perform _ _
  have hstate : (kind.change { i with pending := ⟨g.world.ids.next⟩ :: i.pending }).state =
      (kind.change i).state := by
    cases kind <;> rfl
  rw [hexecuted, Perform.execute_apply (s := { g.stage with world := w }) ha, ← hstate]
  exact Perform.animated_executeAction (a := ⟨⟨g.world.ids.next⟩, e, kind⟩) screen hw hget he

/-- **Positions are checked, transforms are not.** In every game every image stands on the stage, now
and after any undoing, and moves to positions on the stage only. Its transform, and all that the
screen is told of, are among the transforms that were handed to the builder; and any of these gets
there, wherever it leads. So images move to valid fractions only if those do that the builder was
handed. -/
theorem onStage (h : g.Arranged allowed) :
    (∀ e i, g.world.elements.get? e = some (.image i) → i.state.Placed allowed) ∧
    (∀ name event f, .animate name event f ∈ g.log → event.Placed allowed) ∧
    ∀ (screen : Screen σ) (e : ElementId) (i : Image) (kind : ActionKind) (event : ImageEvent),
      g.world.elements.get? e = some (.image i) → kind.event? = some event →
      (∀ p t, kind = .setPosition p t → p.OnStage) →
        ∃ n, (g.handle [.write (.append e kind)]).world.action? n = some ⟨n, e, kind⟩ ∧
          Perform.Animated e event (kind.change i).state
            (g.handle [.write (.append e kind), .execute screen.logging n]).stage :=
  ⟨fun e _ hi => Tracked.Upholds.state (h.placed.world.elements e _ hi),
    fun _ _ _ hcue => h.placed.log _ hcue,
    fun screen _ _ _ _ hi he hp => h.lets_through screen hi he hp⟩

end Game.Arranged

/-! ### A tiger -/

/-- Moves a tiger to the corner and back to where it was. -/
def tigerCalls : List (Handling Headless) := [
  .write (.image "tiger" { src := "tiger.png" }),
  .write (.append ⟨1⟩ (.setPosition (.align .one .zero) { position := some (.align .zero .one) })),
  .execute Headless.screen ⟨2⟩,
  .takeBack ⟨2⟩]

def tigerGame : Game (Headless × List Cue) :=
  (Game.new {} (({} : Headless), [])).handle (tigerCalls.map Handling.logging)

/-- A transform to a place outside the stage. -/
def pounce : Transform := { position := some (.align ⟨0x4000000000000000⟩ .zero) }

theorem Number.withinUnit_zero : Number.zero.WithinUnit := (Number.inUnit_iff _).1 (by decide)

theorem Number.withinUnit_one : Number.one.WithinUnit := (Number.inUnit_iff _).1 (by decide)

theorem not_onStage_pounce : ¬pounce.OnStage := fun h =>
  Bool.false_ne_true ((Number.inUnit_iff _).2 (h _ rfl).1)

theorem onStage_tiger : tigerGame.Arranged Transform.OnStage ∧ ¬pounce.OnStage ∧
    (∃ i, tigerGame.world.elements.get? ⟨1⟩ = some (.image i) ∧ i.state.Placed Transform.OnStage) ∧
    ∃ n, Perform.Animated ⟨1⟩ (.applyTransform pounce) ⟨"tiger.png", .center, false, some pounce⟩
      (tigerGame.handle [.write (.append ⟨1⟩ (.applyTransform pounce)),
        .execute Headless.screen.logging n]).stage := by
  have harranged : tigerGame.Arranged Transform.OnStage := by
    refine (Game.Arranged.new {} ({} : Headless)).handle fun c hc => ?_
    simp only [tigerCalls, List.mem_cons, List.not_mem_nil, or_false] at hc
    rcases hc with rfl | rfl | rfl | rfl
    · trivial
    · rintro _ ⟨⟩ _ ⟨⟩
      exact ⟨Number.withinUnit_zero, Number.withinUnit_one⟩
    · trivial
    · trivial
  obtain ⟨hstate, -, hthrough⟩ := harranged.onStage
  obtain ⟨i, hi, hplain, hbuffer⟩ : ∃ i, tigerGame.world.elements.get? ⟨1⟩ = some (.image i) ∧
      i.state = ⟨"tiger.png", .center, false, none⟩ ∧ i.tracked.log.buffer = none := ⟨_, rfl, rfl, rfl⟩
  obtain ⟨n, -, hn⟩ := hthrough Headless.screen ⟨1⟩ i (.applyTransform pounce) _ hi rfl nofun
  refine ⟨harranged, not_onStage_pounce, ⟨i, hi, hstate _ _ hi⟩, n, ?_⟩
  have hpounced : (ActionKind.change (.applyTransform pounce) i).state =
      { i.state with transform := some pounce } :=
    congrArg Tracked.state (Tracked.change_eq hbuffer _ _)
  rwa [hpounced, hplain] at hn

end Storyline
