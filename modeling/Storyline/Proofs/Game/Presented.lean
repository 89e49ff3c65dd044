import Storyline.Proofs.Game.Residue
import Storyline.Proofs.Stage.Numbered
import Storyline.Proofs.World.Unplayed

/-!
# What the screen is told of images

* `Screen.logging`: a screen with a log of the cues that it was given, the last one first;
* `Cue.Orderly w log`: every cue was due when it came. An image is added once, under a name of its own;
  it is animated under that name, by its own action; and when an action is announced, all images that
  actions were executed on have been added;
* `Game.Goes`, `Game.Runs`: next steps, nodes that are executed, undoing, and new games, in any order and
  whether or not they succeed;
* `Stage.Presents`: what all of these keep: the images that were added are those that have a name;
* `Game.Runs.presented`: the log of a run is orderly, and names last.
-/

namespace Storyline

open Effect
open Relation (ReflTransGen)

variable {σ : Type}

/-- A screen with a log of the cues that it was given, the last one first. -/
def Screen.logging (screen : Screen σ) : Screen (σ × List Cue) where
  receive cue s := (((screen.receive cue s.1).1, cue :: s.2), (screen.receive cue s.1).2)

/-! ### Logs -/

/-- An action of an image of a world. -/
def Action.OnImage (w : World) (a : Action) : Prop :=
  a.kind.writer? = some .image ∧ ∃ i, w.elements.get? a.callee = some (.image i)

namespace Cue

/-- The image that a cue adds, and its name. -/
def added? : Cue → Option (ElementId × String)
  | addImage name i => some (i.id, name)
  | _ => none

/-- The action that a cue announces. -/
def begun? : Cue → Option Action
  | handle a => some a
  | _ => none

/-- The images that a log has added, with their names. -/
def added (log : List Cue) : List (ElementId × String) := log.filterMap added?

/-- The actions that a log has announced, the last one first. -/
def begun (log : List Cue) : List Action := log.filterMap begun?

/-- All images have been added whose actions have been announced. -/
def Complete (w : World) (log : List Cue) : Prop :=
  ∀ a ∈ begun log, a.OnImage w → ∃ name, (a.callee, name) ∈ added log

/-- What is required of a cue that comes after those of a log. -/
def Due (w : World) (log : List Cue) : Cue → Prop
  | handle _ => Complete w log
  | addImage name i => (∀ other, (i.id, other) ∉ added log) ∧ ∀ e, (e, name) ∉ added log
  | animate name _ _ => ∃ a, (begun log).head? = some a ∧ (a.callee, name) ∈ added log
  | _ => True

/-- Every cue of a log was due when it came. -/
def Orderly (w : World) : List Cue → Prop
  | [] => True
  | cue :: log => cue.Due w log ∧ Orderly w log

section Plain

variable {w : World} {log : List Cue} {cue : Cue}

theorem IsPlain.added? (h : cue.IsPlain) : cue.added? = none := by
  cases cue with
  | addImage => exact h.elim
  | _ => rfl

theorem IsPlain.begun? (h : cue.IsPlain) : cue.begun? = none := by
  cases cue with
  | handle => exact h.elim
  | _ => rfl

theorem IsPlain.due (h : cue.IsPlain) : cue.Due w log := by
  cases cue with
  | handle | addImage | animate => exact h.elim
  | _ => trivial

end Plain

/-- In an orderly log no image is added twice and no name is given twice. -/
theorem Orderly.nodup {w : World} {log : List Cue} (h : Orderly w log) :
    ((added log).map (·.1)).Nodup ∧ ((added log).map (·.2)).Nodup := by
  induction log with
  | nil => exact ⟨.nil, .nil⟩
  | cons cue log ih =>
    obtain ⟨hdue, hlog⟩ := h
    obtain ⟨hids, hnames⟩ := ih hlog
    cases cue with
    | addImage name i =>
      obtain ⟨hid, hname⟩ := hdue
      refine ⟨List.nodup_cons.2 ⟨fun hmem => ?_, hids⟩, List.nodup_cons.2 ⟨fun hmem => ?_, hnames⟩⟩
      · obtain ⟨⟨e, other⟩, hp, rfl⟩ := List.mem_map.1 hmem
        exact hid other hp
      · obtain ⟨⟨e, other⟩, hp, rfl⟩ := List.mem_map.1 hmem
        exact hname e hp
    | _ => exact ⟨hids, hnames⟩

end Cue

/-! ### What every change of a stage keeps -/

open Cue (added begun Complete Orderly)

/-- The stage has an orderly log, whose images are those that the screen knows, by the names that they
were added under. What is an image is that in the world `w₀` of the beginning. -/
structure Stage.Presents (w₀ : World) (s : Stage (σ × List Cue)) : Prop where
  sound : s.world.Sound
  keeps : w₀.Keeps s.world
  ledger : ∃ use, s.world.Ledger use
  shown : ∀ e name, (e, name) ∈ added s.screen.2 ↔ s.world.shown? e = some name
  orderly : Orderly w₀ s.screen.2

namespace Stage.Presents

variable {w₀ : World} {s s' : Stage (σ × List Cue)} {screen : Screen σ} {a : Action}

theorem shift (h : Presents w₀ s) (hs : s.world.Shift s'.world) (hlog : s'.screen.2 = s.screen.2) :
    Presents w₀ s' := by
  obtain ⟨use, hl⟩ := h.ledger
  have hkeeps := hs.keeps h.sound
  refine ⟨hkeeps.sound h.sound, h.keeps.trans hkeeps, hl.turn (.shift hs) h.sound,
    fun e name => ?_, by rw [hlog]; exact h.orderly⟩
  rw [hlog, hs.shown? h.sound]
  exact h.shown e name

theorem shifts (h : Presents w₀ s) {w : World} (hs : ReflTransGen World.Shift s.world w) :
    Presents w₀ { s with world := w } := by
  induction hs with
  | refl => exact h
  | tail _ hlast ih => exact ih.shift hlast rfl

theorem congr (h : Presents w₀ s) (hw : s'.world = s.world) (hs : s'.screen = s.screen) :
    Presents w₀ s' :=
  ⟨hw ▸ h.sound, hw ▸ h.keeps, hw ▸ h.ledger, by rw [hw, hs]; exact h.shown,
    by rw [hs]; exact h.orderly⟩

theorem sent {cue : Cue} (h : Presents w₀ s) (ha : cue.added? = none) (hdue : cue.Due w₀ s.screen.2) :
    Presents w₀ (s.sent screen.logging cue) := by
  refine ⟨h.sound, h.keeps, h.ledger, fun e name => ?_, hdue, h.orderly⟩
  have hadded : added (cue :: s.screen.2) = added s.screen.2 := List.filterMap_cons_none ha
  exact (by rw [hadded] : (e, name) ∈ added (cue :: s.screen.2) ↔ _).trans (h.shown e name)

/-- An image gets a name that no other has ever had, and is added under it. -/
theorem name {i : Image} (h : Presents w₀ s) (hi : s.world.elements.get? i.id = some (.image i))
    (hn : i.presented = none) : Presents w₀
      (Stage.sent screen.logging
        (.addImage (Image.screenName s.world.ids.next) (s.world.naming i))
        { s with world := s.world.named i }) := by
  obtain ⟨use, hl⟩ := h.ledger
  have hturn : s.world.Turn (s.world.named i) := .name hi hn
  have hkeeps := hturn.keeps h.sound
  have hnone : s.world.shown? i.id = none := by
    rw [World.shown?, hi]
    exact hn
  refine ⟨hkeeps.sound h.sound, h.keeps.trans hkeeps, hl.turn hturn h.sound, fun e name => ?_,
    -- the image that gets its name is the one that is added; the other images are as before
    ⟨fun other hother => ?_, fun e he => ?_⟩, h.orderly⟩
  · show (e, name) ∈ (i.id, Image.screenName s.world.ids.next) :: added s.screen.2 ↔
      (s.world.named i).shown? e = some name
    rw [List.mem_cons, h.shown, World.shown?_named h.sound hi, Prod.mk.injEq]
    split
    · subst e
      rw [hnone]
      simp [eq_comm]
    · simp [*]
  · have hshown := (h.shown i.id other).1 hother
    rw [hnone] at hshown
    cases hshown
  · -- a name is taken from the counter, so that no image had this one before
    obtain ⟨k, hk, huse⟩ := hl.name e _ ((h.shown _ _).1 he)
    rw [Image.screenName_inj] at hk
    exact absurd (hl.lt huse) (hk ▸ Nat.lt_irrefl _)

/-! #### Executing a node -/

theorem beat (h : Presents w₀ s) (hrun : (begun s.screen.2).head? = some a)
    (hb : Stage.Beat screen.logging a s s') :
    Presents w₀ s' ∧ begun s'.screen.2 = begun s.screen.2 ∧ s.screen.2 <:+ s'.screen.2 := by
  cases hb with
  | graft chain => exact ⟨h.shift (.graft _ a.node chain) rfl, rfl, List.suffix_rfl⟩
  | record hx hy => exact ⟨h.shift (.record hx hy) rfl, rfl, List.suffix_rfl⟩
  | store | future => exact ⟨h.congr rfl rfl, rfl, List.suffix_rfl⟩
  | tell hc =>
    exact ⟨h.sent hc.added? hc.due, List.filterMap_cons_none hc.begun?, List.suffix_cons _ _⟩
  | @name i hi hn =>
    obtain hid : i.id = a.callee := h.sound.id _ _ hi
    exact ⟨h.name (hid ▸ hi) hn, rfl, List.suffix_cons _ _⟩
  | @animate i name event f hi hn =>
    refine ⟨h.sent rfl ⟨a, hrun, (h.shown _ _).2 ?_⟩, rfl, List.suffix_cons _ _⟩
    rw [World.shown?, hi]
    exact hn

theorem beats (h : Presents w₀ s) (hrun : (begun s.screen.2).head? = some a)
    (hb : Stage.Beats screen.logging a s s') :
    Presents w₀ s' ∧ begun s'.screen.2 = begun s.screen.2 ∧ s.screen.2 <:+ s'.screen.2 := by
  induction hb with
  | refl => exact ⟨h, rfl, List.suffix_rfl⟩
  | tail _ hlast ih =>
    obtain ⟨hp, hbegun, hsuffix⟩ := ih
    obtain ⟨hp', hbegun', hsuffix'⟩ := hp.beat (hbegun ▸ hrun) hlast
    exact ⟨hp', hbegun'.trans hbegun, hsuffix.trans hsuffix'⟩

theorem added_of_suffix {log log' : List Cue} {p : ElementId × String} (h : log <:+ log')
    (hp : p ∈ added log) : p ∈ added log' := (h.filterMap _).subset hp

/-- Executing a node announces its action. In the end its image has been added, if it has one. -/
theorem execute (screen : Screen σ) (h : Presents w₀ s) (hc : Complete w₀ s.screen.2) (n : NodeId) :
    Presents w₀ (left (Perform.execute screen.logging n s)) ∧
      Complete w₀ (left (Perform.execute screen.logging n s)).screen.2 ∧
      s.screen.2 <:+ (left (Perform.execute screen.logging n s)).screen.2 := by
  rw [Perform.left_execute]
  cases ha : s.world.action? n with
  | none => exact ⟨h, hc, List.suffix_rfl⟩
  | some a =>
    simp only
    have hsent : Presents w₀ (s.sent screen.logging (.handle a)) := h.sent rfl hc
    obtain ⟨hp, hbegun, hsuffix⟩ := hsent.beats (a := a) rfl
      (Perform.beats_executeAction screen.logging a hsent.sound)
    have hgrown : s.screen.2 <:+ _ := (List.suffix_cons _ _).trans hsuffix
    refine ⟨hp, fun b hb himage => ?_, hgrown⟩
    rw [hbegun] at hb
    -- the action announced just now has shown its image; for those before, what was added stays
    rcases List.mem_cons.1 hb with rfl | hb
    · obtain ⟨hk, i, hi⟩ := himage
      obtain ⟨i₁, hi₁⟩ := h.keeps.image hi
      obtain ⟨i₂, hi₂, hsome⟩ := Perform.presented_of_executeAction screen.logging hsent.sound
        (s := s.sent screen.logging (.handle b)) hi₁ hk
      obtain ⟨name, hname⟩ := Option.isSome_iff_exists.1 hsome
      refine ⟨name, (hp.shown _ _).2 ?_⟩
      rw [World.shown?, hi₂]
      exact hname
    · obtain ⟨name, hname⟩ := hc b hb himage
      exact ⟨name, added_of_suffix hgrown hname⟩

theorem undoAction (h : Presents w₀ s) (n : NodeId) :
    Presents w₀ (left (Perform.undoAction n s)) ∧
      (left (Perform.undoAction n s)).screen = s.screen := by
  unfold Perform.undoAction
  cases hu : s.world.undoAction n s.store with
  | error e => exact ⟨h, rfl⟩
  | ok q =>
    obtain ⟨count, w, store⟩ := q
    exact ⟨h.shift (World.shift_undoAction hu) rfl, rfl⟩

end Stage.Presents

/-! ### Runs -/

/-- One call of a run. Between the calls the host may answer futures and use the store. -/
inductive Game.Goes (screen : Screen σ) : Game σ → Game σ → Prop
  | next (g : Game σ) : Goes screen g (left (Play.next screen g))
  | execute (g : Game σ) (n : NodeId) :
      Goes screen g (left (Play.perform (Perform.execute screen n) g))
  | undoLast (g : Game σ) : Goes screen g (left (Play.undoLast g))
  | undoAction (g : Game σ) (n : NodeId) :
      Goes screen g (left (Play.perform (Perform.undoAction n) g))
  | newGame (g : Game σ) (now : Instant) : Goes screen g (g.newGame now)
  | host {g g' : Game σ} (hw : g'.world = g.world) (hs : g'.stage.screen = g.stage.screen) :
      Goes screen g g'

/-- Runs lead from one game to another. -/
abbrev Game.Runs (screen : Screen σ) : Game σ → Game σ → Prop := ReflTransGen (Game.Goes screen)

/-- The log of a game on a screen that keeps one. -/
def Game.log (g : Game (σ × List Cue)) : List Cue := g.stage.screen.2

theorem Play.stage_left_perform {α : Type} (p : Perform σ α) (g : Game σ) :
    (left (perform p g)).stage = left (p g.stage) := by
  unfold perform
  cases p g.stage <;> rfl

namespace Game

variable {w₀ : World} {g g' : Game (σ × List Cue)} {screen : Screen σ}

/-- What holds between the calls of a run: the log is in order and complete. -/
def Tells (w₀ : World) (g : Game (σ × List Cue)) : Prop :=
  g.stage.Presents w₀ ∧ Complete w₀ g.log

theorem Tells.congr (h : g.Tells w₀) (hp : g'.stage.Presents w₀) (hs : g'.stage.screen = g.stage.screen) :
    g'.Tells w₀ ∧ g.log <:+ g'.log := by
  have hlog : g'.log = g.log := congrArg Prod.snd hs
  exact ⟨⟨hp, hlog ▸ h.2⟩, hlog ▸ List.suffix_rfl⟩

theorem Tells.execute (h : g.Tells w₀) {n : NodeId}
    (hs : g'.stage = left (Perform.execute screen.logging n g.stage)) :
    g'.Tells w₀ ∧ g.log <:+ g'.log := by
  obtain ⟨hp, hc, hsuffix⟩ := h.1.execute screen h.2 n
  rw [← hs] at hp hc hsuffix
  exact ⟨⟨hp, hc⟩, hsuffix⟩

/-- **Every call of a run** keeps the log in order and complete, and only adds to it. -/
theorem Goes.tells (hg : Goes screen.logging g g') (h : g.Tells w₀) :
    g'.Tells w₀ ∧ g.log <:+ g'.log := by
  cases hg with
  | next =>
    rcases Play.stage_left_next screen.logging g with hs | ⟨n, i, hs⟩ | ⟨n, hs⟩
    · exact h.congr (hs ▸ h.1) (congrArg Stage.screen hs)
    · exact h.congr (hs ▸ h.1.shifts (Build.shifts_choose h.1.sound n i)) (by rw [hs])
    · exact h.execute hs
  | execute n => exact h.execute (Play.stage_left_perform _ g)
  | undoLast =>
    obtain ⟨hp, hs⟩ := Play.left_undoLast (g := g)
      (P := fun k => k.stage.Presents w₀ ∧ k.stage.screen = g.stage.screen) ⟨h.1, rfl⟩
      (fun _ hk => hk) fun n ⟨hp, hs⟩ => by
        rw [Play.stage_left_perform]
        exact ⟨(hp.undoAction n).1, (hp.undoAction n).2.trans hs⟩
    exact h.congr hp hs
  | undoAction n =>
    have hs := Play.stage_left_perform (Perform.undoAction n) g
    exact h.congr (hs ▸ (h.1.undoAction n).1) (hs ▸ (h.1.undoAction n).2)
  | newGame now => exact h.congr (h.1.congr rfl rfl) rfl
  | host hw hs => exact h.congr (h.1.congr hw hs) hs

theorem Runs.tells (hr : g.Runs screen.logging g') (h : g.Tells w₀) :
    g'.Tells w₀ ∧ g.log <:+ g'.log := by
  induction hr with
  | refl => exact ⟨h, List.suffix_rfl⟩
  | tail _ hlast ih =>
    obtain ⟨hk, hsuffix⟩ := ih
    obtain ⟨hk', hsuffix'⟩ := hlast.tells hk
    exact ⟨hk', hsuffix.trans hsuffix'⟩

theorem tells_of_authored (hw : g.world.Authored) (hlog : g.log = []) : g.Tells g.world := by
  have hnone : ∀ e, g.world.shown? e = none := by
    intro e
    cases hx : g.world.elements.get? e with
    | none => rw [World.shown?, hx]; rfl
    | some x =>
      rw [World.shown?, hx]
      exact hw.unnamed e x hx
  refine ⟨⟨hw.sound, .refl _, (World.Lived.of_authored hw).ledger, fun e name => ?_, ?_⟩, ?_⟩
  · rw [show g.stage.screen.2 = [] from hlog, show g.stage.world.shown? e = none from hnone e]
    constructor
    · intro hmem
      cases hmem
    · intro hname
      cases hname
  · rw [show g.stage.screen.2 = [] from hlog]
    trivial
  · intro a ha
    rw [hlog] at ha
    cases ha

/-- **Every image is added once**, before or during the first of its actions, and is animated under the
name that it was added under. No two images have the same name, and nothing in a run takes a name
away. -/
theorem Runs.presented (hw : g.world.Authored) (hlog : g.log = []) (h : g.Runs screen.logging g') :
    (Orderly g.world g'.log ∧ Complete g.world g'.log) ∧
    (((added g'.log).map (·.1)).Nodup ∧ ((added g'.log).map (·.2)).Nodup) ∧
    (∀ e name, (e, name) ∈ added g'.log ↔ g'.world.shown? e = some name) ∧
    ∀ g'', g'.Runs screen.logging g'' → ∀ e name,
      g'.world.shown? e = some name → g''.world.shown? e = some name := by
  obtain ⟨⟨hp, hc⟩, -⟩ := h.tells (tells_of_authored hw hlog)
  refine ⟨⟨hp.orderly, hc⟩, hp.orderly.nodup, hp.shown, fun g'' h' e name hname => ?_⟩
  obtain ⟨⟨hp', -⟩, hsuffix⟩ := h'.tells ⟨hp, hc⟩
  exact (hp'.shown e name).1 (Stage.Presents.added_of_suffix hsuffix ((hp.shown e name).2 hname))

end Game

/-! ### A visit to the gallery -/

/-- The gallery before anyone has come. -/
def galleryGame : Game (Headless × List Cue) where
  config := {}
  stage := { world := galleryStage.world, store := {}, futures := {}, screen := ({}, []) }

/-- The gallery after the second image was seen twice and taken back, a new game was begun, and then
both were seen. -/
def galleryVisited : Game (Headless × List Cue) :=
  let see n g := left (Play.perform (Perform.execute Headless.screen.logging n) g)
  let back g := left (Play.perform (Perform.undoAction ⟨5⟩) g)
  see ⟨5⟩ (see ⟨4⟩ (Game.newGame (back (see ⟨5⟩ (see ⟨5⟩ galleryGame))) default))

theorem runs_galleryVisited : galleryGame.Runs Headless.screen.logging galleryVisited :=
  (((((ReflTransGen.single (.execute _ ⟨5⟩)).tail (.execute _ ⟨5⟩)).tail (.undoAction _ ⟨5⟩)).tail
    (.newGame _ default)).tail (.execute _ ⟨4⟩)).tail (.execute _ ⟨5⟩)

theorem presented_galleryVisited :
    galleryGame.world.Authored ∧ galleryGame.log = [] ∧
      galleryGame.Runs Headless.screen.logging galleryVisited ∧
      galleryVisited.world.shown? ⟨3⟩ = some "image:6" ∧
      galleryVisited.world.shown? ⟨2⟩ = some "image:7" ∧
      ∀ g, galleryVisited.Runs Headless.screen.logging g → g.world.shown? ⟨3⟩ = some "image:6" := by
  have hw : galleryGame.world.Authored := World.Authored.new.callAll galleryCalls
  obtain ⟨-, -, hshown, hlast⟩ := runs_galleryVisited.presented hw rfl
  have hadded : added galleryVisited.log = [(⟨2⟩, "image:7"), (⟨3⟩, "image:6")] := by
    decide +kernel
  have hrival : galleryVisited.world.shown? ⟨3⟩ = some "image:6" :=
    (hshown _ _).1 (by rw [hadded]; decide)
  exact ⟨hw, rfl, runs_galleryVisited, hrival, (hshown _ _).1 (by rw [hadded]; decide),
    fun g hg => hlast g hg _ _ hrival⟩

end Storyline
