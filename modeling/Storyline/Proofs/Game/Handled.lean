import Storyline.Proofs.Game.Playing
import Storyline.Proofs.Game.Presented

/-!
# Games in the hands of a host

* `Handling`: all that a host may do with a game, and `Handling.run`: what comes of it;
* `Game.Handled g`: a host comes from a new game to `g` by any such calls, also by some that fail;
* `Handled.lived`: the world of such a game is written and played;
* `Live.Nexts`, `Live.Undoes`: what a next step and undoing do to how far a game was played, also where
  they fail, and `Handling.does`: what any call does;
* `Live.Coherent`, `Handled.coherent`: what waits is the current node, and a game that has not begun has
  nothing played.
-/

namespace Storyline

open Effect

variable {σ : Type}

/-! ### What hosts do -/

/-- What a host may do with a game. -/
inductive Handling (σ : Type) where
  /-- Writes in the world. -/
  | write (c : Call)
  /-- Hangs a story under the root and makes it the one to play. -/
  | register (e : ElementId)
  /-- Makes a story the one to play, with units of the host's choice. -/
  | load (e : ElementId) (units : List NodeId)
  | newGame (now : Instant)
  | next (screen : Screen σ)
  | undo
  | answer (answer : FutureId × Resolution)
  /-- Executes a node apart from the story. -/
  | execute (screen : Screen σ) (node : NodeId)
  /-- Executes an action that need not belong to a node. -/
  | perform (screen : Screen σ) (a : Action)
  /-- Picks an entry of a menu apart from the story. -/
  | pick (node : NodeId) (index : Nat)
  /-- Takes a commit back apart from the story. -/
  | takeBack (node : NodeId)
  /-- Adds a namespace to those of every game. -/
  | addNamespace (key : String)
  /-- Changes the store, by hand or from a save that is held from then on. -/
  | restore (saved : Option SavedGame) (store : Store)

/-- What comes of a call, whether or not it succeeds. -/
def Handling.run : Handling σ → Game σ → Game σ
  | write c, g => left (Play.build c.run g)
  | register e, g => left (Play.registerStory ⟨e⟩ g)
  | load e units, g => g.loadStory e units
  | newGame now, g => g.newGame now
  | next screen, g => left (Play.next screen g)
  | undo, g => left (Play.undoLast g)
  | answer a, g => g.answered a
  | execute screen node, g => left (Play.perform (Perform.execute screen node) g)
  | perform screen a, g => left (Play.perform (Perform.executeAction screen a) g)
  | pick node index, g => left (Play.build (Build.choose node index) g)
  | takeBack node, g => left (Play.perform (Perform.undoAction node) g)
  | addNamespace key, g => g.registerNamespace key
  | restore saved store, g =>
    { g with live := { g.live with saved } }.mapStage ({ · with store })

/-- Calls one after the other. -/
def Game.handle (g : Game σ) (calls : List (Handling σ)) : Game σ :=
  calls.foldl (fun g c => c.run g) g

/-- **Games in the hands of a host.** -/
inductive Game.Handled : Game σ → Prop
  | new (config : GameConfig) (screen : σ) : Handled (Game.new config screen)
  | call {g : Game σ} (h : Handled g) (c : Handling σ) : Handled (c.run g)

theorem Game.Handled.handle {g : Game σ} (h : g.Handled) (calls : List (Handling σ)) :
    (g.handle calls).Handled := by
  induction calls generalizing g with
  | nil => exact h
  | cons c rest ih => exact ih (h.call c)

theorem Live.addNamespace_eq (l : Live) (key : String) :
    ∃ namespaces, l.addNamespace key = { l with namespaces } := by
  unfold addNamespace
  split
  · exact ⟨l.namespaces, rfl⟩
  · exact ⟨_, rfl⟩

theorem Game.new_spec (config : GameConfig) (screen : σ) :
    (Game.new config screen).world = World.new ∧
      ∃ namespaces, (Game.new config screen).live = { namespaces } := by
  unfold Game.new
  generalize hg : (⟨config, {}, {}, _⟩ : Game σ) = g
  have hworld : g.world = World.new := by rw [← hg]; rfl
  have hlive : ∃ namespaces, g.live = { namespaces } := ⟨[], by rw [← hg]⟩
  clear hg
  induction config.namespaces generalizing g with
  | nil => exact ⟨hworld, hlive⟩
  | cons key rest ih =>
    obtain ⟨namespaces, hlive⟩ := hlive
    obtain ⟨namespaces', hadd⟩ := g.live.addNamespace_eq key
    refine ih (g.registerNamespace key) hworld ⟨namespaces', ?_⟩
    show g.live.addNamespace key = _
    rw [hadd, hlive]

namespace Play

variable {α : Type} {g : Game σ} {screen : Screen σ}

/-! ### What the calls leave -/

theorem live_left_perform (p : Perform σ α) (g : Game σ) : (left (perform p g)).live = g.live := by
  unfold perform
  cases p g.stage <;> rfl

theorem world_left_build (change : Build α) (g : Game σ) :
    (left (build change g)).world = left (change g.world) := by
  unfold build Game.world
  rw [stage_left_perform]
  unfold Perform.build
  cases change g.stage.world <;> rfl

/-- A story is hung up, and made the one to play if that succeeds. -/
theorem left_registerStory (h : Handle Story) (g : Game σ) :
    (left (registerStory h g)).world = left (Build.setRoot h g.world) ∧
      ((left (registerStory h g)).live = g.live ∨ ∃ units,
        (left (registerStory h g)).live = { g.live with story := some h.id, units }) := by
  unfold registerStory
  cases hb : Build.setRoot h g.world with
  | error e w =>
    rw [bind_of_error (build_of_error hb)]
    exact ⟨rfl, .inl rfl⟩
  | ok units w =>
    rw [bind_of_ok (build_eq_ok_iff.2 ⟨w, hb, rfl⟩)]
    exact ⟨rfl, .inr ⟨units, rfl⟩⟩

end Play

theorem World.Lived.perform_undoAction {fair : World → Call → Prop} {g : Game σ}
    (h : g.world.Lived fair) (n : NodeId) :
    (left (Play.perform (Perform.undoAction n) g)).world.Lived fair := by
  unfold Game.world
  rw [Play.stage_left_perform]
  unfold Perform.undoAction
  cases hu : g.stage.world.undoAction n g.stage.store with
  | error e => exact h
  | ok q => exact h.undo hu

/-! ### How far a game is played -/

/-- What a next step does to how far a game was played. -/
inductive Live.Nexts (l : Live) : Live → Prop
  /-- There is no story, or a step waits on. -/
  | stands : Nexts l l
  /-- The pick of a step that waited cannot be taken over. -/
  | drops {p : Pending} (hp : l.pending = some p) : Nexts l { l with pending := none }
  /-- The wait of a step ends. -/
  | resumes {p : Pending} (hp : l.pending = some p) (o : Outcome) (committed : Bool)
      (next : Option NodeId) : Nexts l ({ l with pending := none }.adopt o committed next)
  | ends (hp : l.pending = none) (hx : l.aim.current = none) :
      Nexts l { l.aim with terminated := true }
  /-- A node is executed in vain. -/
  | fails {x : NodeId} (hp : l.pending = none) (hx : l.aim.current = some x) :
      Nexts l (l.aim.reach x)
  /-- A node is executed and done with. -/
  | executes {x : NodeId} (hp : l.pending = none) (hx : l.aim.current = some x) (o : Outcome)
      (committed : Bool) (next : Option NodeId) : Nexts l ((l.aim.reach x).adopt o committed next)
  /-- A node is executed and waits. -/
  | begins {x : NodeId} (hp : l.pending = none) (hx : l.aim.current = some x) {p : Pending}
      (hn : p.node = x) : Nexts l { l.aim.reach x with pending := some p }

theorem Live.Nexts.story {l l' : Live} (h : l.Nexts l') : l'.story = l.story := by
  cases h with
  | stands | drops | resumes => rfl
  | ends => exact l.story_aim
  | @fails x | @executes x | @begins x => exact (Live.story_reach l.aim x).trans l.story_aim

/-- What undoing does to how far a game was played. -/
inductive Live.Undoes (l : Live) : Live → Prop
  | stands : Undoes l l
  | clears {p : Pending} (hp : l.pending = some p) : Undoes l { l with pending := none }
  | returns {p : Pending} (hp : l.pending = some p) :
      Undoes l { l with pending := none, current := some p.node }
  /-- The last step is taken out of the history, but what it did cannot be taken back. -/
  | drops {l' : Live} (h : Undoes l l') {e : HistoryEntry} {rest : List HistoryEntry}
      (hh : l'.history = e :: rest) : Undoes l { l' with history := rest }
  | takes {l' : Live} (h : Undoes l l') (hp : l'.pending = none) : Undoes l l'.takenBack

namespace Play

variable {g : Game σ} {screen : Screen σ}

theorem nexts_left_execute {x : NodeId} (hp : g.live.pending = none)
    (hx : g.live.aim.current = some x) :
    g.live.Nexts (left (execute screen x { g with live := g.live.aim })).live := by
  cases hr : Perform.execute screen x g.stage with
  | error e s =>
    rw [execute_of_error (g := { g with live := g.live.aim }) hr]
    exact .fails hp hx
  | ok r s =>
    obtain ⟨a, ha, -, -⟩ := Perform.executes_of_execute hr
    rw [execute_of_perform (g := { g with live := g.live.aim }) ha hr]
    cases r with
    | immediate o => exact .executes hp hx _ _ _
    | suspended f => exact .begins hp hx rfl

theorem nexts_left_resume {p : Pending} (hp : g.live.pending = some p) (o : Outcome) :
    g.live.Nexts (left (resume p o g)).live := by
  unfold resume
  rw [bind_modifyLive_apply]
  cases o.choice with
  | none => exact .resumes hp _ _ _
  | some index =>
    simp only
    cases hb : Build.choose o.node index g.world with
    | ok u w =>
      have hbuild : build (Build.choose o.node index)
          { g with live := { g.live with pending := none } } = .ok u (g.awaited w) :=
        build_eq_ok_iff.2 ⟨w, hb, rfl⟩
      rw [bind_of_ok hbuild]
      exact .resumes hp _ _ _
    | error e w =>
      have hbuild : build (Build.choose o.node index)
          { g with live := { g.live with pending := none } } = .error e (g.awaited w) :=
        build_of_error hb
      rw [bind_of_error hbuild]
      exact .drops hp

/-- **What a next step does** to how far a game was played, also where it fails. -/
theorem nexts_left_next (screen : Screen σ) (g : Game σ) :
    g.live.Nexts (left (next screen g)).live := by
  cases hs : g.live.story with
  | none =>
    rw [next_of_no_story hs]
    exact .stands
  | some story =>
    have hs' : g.live.story.isSome := by rw [hs]; rfl
    cases hp : g.live.pending with
    | some p =>
      rw [next_of_pending hs' hp]
      cases g.stage.futures.result? p.future with
      | none => exact .stands
      | some o => exact nexts_left_resume hp o
    | none =>
      rw [next_of_idle hs' hp]
      cases hx : g.live.aim.current with
      | none => exact .ends hp hx
      | some x => exact nexts_left_execute hp hx

/-! #### Undoing -/

/-- A commit that is taken back on the way does not concern how far the game was played. -/
theorem live_left_rolling {α : Type} {P : Live → Prop} (c : Prop) [Decidable c] (n : NodeId)
    (k : Unit → Play σ α) (h : P g.live) (hk : ∀ g', g'.live = g.live → P (left (k () g')).live) :
    P (left ((if c then do
        discard (perform (Perform.undoAction n))
        k ()
      else k ()) g)).live := by
  split
  · have hlive := live_left_perform (Perform.undoAction n) g
    rw [← left_discard] at hlive
    refine left_bind (P := fun g' => P g'.live) (hlive ▸ h) fun u g' hg => hk g' ?_
    rw [hg] at hlive
    exact hlive
  · exact hk g rfl

theorem undoes_left_undoEntry {l : Live} (h : l.Undoes g.live) (hp : g.live.pending = none) :
    l.Undoes (left (undoEntry g)).live := by
  unfold undoEntry
  rw [bind_get_apply]
  cases hh : g.live.history with
  | nil => exact h
  | cons e rest =>
    simp only [bind_modifyLive_apply]
    refine live_left_rolling (P := l.Undoes) _ _ (fun _ => do
      modifyLive fun l => { l with current := some e.outcome.node, terminated := false }
      return some e.outcome) (h.drops hh) fun g' hg' => ?_
    have htaken := h.takes hp
    unfold Live.takenBack at htaken
    rw [hh] at htaken
    show l.Undoes { g'.live with current := some e.outcome.node, terminated := false }
    rw [hg']
    exact htaken

/-- **What undoing does** to how far a game was played, also where it fails. -/
theorem undoes_left_undoLast (g : Game σ) : g.live.Undoes (left (undoLast g)).live := by
  rw [undoLast_apply]
  cases hp : g.live.pending with
  | none => exact undoes_left_undoEntry .stands hp
  | some p =>
    have hpending : g.live.Undoes (left (undoPending p g)).live ∧
        (left (undoPending p g)).live.pending = none := by
      unfold undoPending
      rw [bind_modifyLive_apply, bind_get_apply]
      refine live_left_rolling (P := fun l => g.live.Undoes l ∧ l.pending = none) _ _
        (fun _ => modifyLive fun l => { l with current := some p.node }) ⟨.clears hp, rfl⟩ ?_
      intro g' hg'
      show g.live.Undoes { g'.live with current := some p.node } ∧ g'.live.pending = none
      rw [hg']
      exact ⟨.returns hp, rfl⟩
    refine left_bind (P := fun k : Game σ => g.live.Undoes k.live) hpending.1 fun u k hk => ?_
    rw [hk] at hpending
    exact undoes_left_undoEntry hpending.1 hpending.2

end Play

/-- What a call does to how far a game was played, whether or not it succeeds. -/
def Handling.Does (l l' : Live) : Handling σ → Prop
  | newGame _ => ∃ saved, l' = l.restart saved
  | next _ => l.Nexts l'
  | undo => l.Undoes l'
  | register _ | load .. => ∃ story units, l' = { l with story, units }
  | _ => ∃ namespaces saved, l' = { l with namespaces, saved }

theorem Handling.does (c : Handling σ) (g : Game σ) : c.Does g.live (c.run g).live := by
  cases c with
  | newGame now => exact ⟨_, rfl⟩
  | next screen => exact Play.nexts_left_next screen g
  | undo => exact Play.undoes_left_undoLast g
  | load e units => exact ⟨_, _, rfl⟩
  | register e =>
    rcases (Play.left_registerStory ⟨e⟩ g).2 with hlive | ⟨units, hlive⟩
    · exact ⟨_, _, hlive⟩
    · exact ⟨_, _, hlive⟩
  | addNamespace key =>
    obtain ⟨namespaces, hlive⟩ := g.live.addNamespace_eq key
    exact ⟨namespaces, _, hlive⟩
  | answer | restore => exact ⟨_, _, rfl⟩
  | write c => exact ⟨_, _, Play.live_left_perform (.build c.run) g⟩
  | execute screen n => exact ⟨_, _, Play.live_left_perform (.execute screen n) g⟩
  | perform screen a => exact ⟨_, _, Play.live_left_perform (.executeAction screen a) g⟩
  | pick n i => exact ⟨_, _, Play.live_left_perform (.build (Build.choose n i)) g⟩
  | takeBack n => exact ⟨_, _, Play.live_left_perform (.undoAction n) g⟩

/-- **What is known of every game** in the hands of a host. -/
structure Live.Coherent (l : Live) : Prop where
  /-- What waits is the current node. -/
  waits : ∀ p, l.pending = some p → l.current = some p.node
  /-- Before it has begun a game is nowhere, and nothing was played of it. -/
  unbegun : l.started = false → l.current = none ∧ l.pending = none ∧ l.history = []

namespace Live.Coherent

variable {l l' : Live}

theorem of_started (hs : l.started = true) (hw : ∀ p, l.pending = some p → l.current = some p.node) :
    l.Coherent :=
  ⟨hw, fun hn => by rw [hn] at hs; cases hs⟩

theorem waits_of_none (hp : l.pending = none) :
    ∀ p, l.pending = some p → l.current = some p.node := by
  intro p hq
  rw [hp] at hq
  cases hq

theorem started_of_pending (h : l.Coherent) {p : Pending} (hp : l.pending = some p) :
    l.started = true := by
  cases hs : l.started with
  | true => rfl
  | false => cases (h.unbegun hs).2.1.symm.trans hp

theorem started_of_history (h : l.Coherent) (hh : l.history ≠ []) : l.started = true := by
  cases hs : l.started with
  | true => rfl
  | false => exact absurd (h.unbegun hs).2.2 hh

/-- What a game goes through that only changes its story, its namespaces or its save. -/
theorem congr (h : l.Coherent) (hc : l'.current = l.current) (hp : l'.pending = l.pending)
    (hh : l'.history = l.history) (hs : l'.started = l.started) : l'.Coherent := by
  refine ⟨fun p hq => ?_, fun hn => ?_⟩
  · rw [hp] at hq
    rw [hc]
    exact h.waits p hq
  · rw [hs] at hn
    rw [hc, hp, hh]
    exact h.unbegun hn

theorem next (h : l.Coherent) (hn : l.Nexts l') : l'.Coherent := by
  cases hn with
  | stands => exact h
  | drops hp => exact of_started (h.started_of_pending hp) nofun
  | resumes hp o committed next => exact of_started (h.started_of_pending hp) nofun
  | ends hp hx =>
    refine of_started (Live.started_aim ?_) (waits_of_none ((pending_aim l).trans hp))
    exact (Option.or_eq_none_iff.1 (l.aim_current ▸ hx)).1
  | fails hp hx =>
    refine of_started (started_reach _ _) (waits_of_none ?_)
    exact (pending_reach _ _).trans ((pending_aim l).trans hp)
  | executes hp hx o committed next =>
    refine of_started (started_reach _ _) (waits_of_none ?_)
    exact (pending_reach _ _).trans ((pending_aim l).trans hp)
  | begins hp hx hnode =>
    refine of_started (started_reach _ _) ?_
    rintro _ ⟨⟩
    show (l.aim.reach _).current = _
    rw [current_reach, hx, hnode]

theorem undo (h : l.Coherent) (hu : l.Undoes l') : l'.Coherent := by
  induction hu with
  | stands => exact h
  | clears hp => exact of_started (h.started_of_pending hp) nofun
  | returns hp => exact of_started (h.started_of_pending hp) nofun
  | drops _ hh ih =>
    refine of_started (ih.started_of_history ?_) ih.waits
    rw [hh]
    exact List.cons_ne_nil _ _
  | @takes l' _ hp ih =>
    unfold takenBack
    cases hh : l'.history with
    | nil => exact ih
    | cons e rest =>
      refine of_started (ih.started_of_history ?_) (waits_of_none hp)
      rw [hh]
      exact List.cons_ne_nil _ _

end Live.Coherent

namespace Game.Handled

variable {g : Game σ}

/-- **The world of a game in the hands of a host** is written and played. -/
theorem lived (h : g.Handled) : g.world.Lived fun _ _ => True := by
  induction h with
  | new config screen =>
    rw [(Game.new_spec config screen).1]
    exact .new
  | @call g _ c ih =>
    cases c with
    | write c => exact Play.world_left_build c.run g ▸ ih.call trivial
    | register e =>
      show (left (Play.registerStory ⟨e⟩ g)).world.Lived _
      rw [(Play.left_registerStory ⟨e⟩ g).1]
      exact ih.call (c := .setRoot e) trivial
    | load | newGame | answer | addNamespace | restore => exact ih
    | next screen =>
      show World.Lived _ (left (Play.next screen g)).stage.world
      -- `next` leaves the world alone, picks an entry, or executes a node
      rcases Play.stage_left_next screen g with hs | ⟨n, i, hs⟩ | ⟨n, hs⟩
      · exact hs ▸ ih
      · exact hs ▸ ih.choose n i
      · exact hs ▸ World.Lived.execute (s := g.stage) ih screen n
    | undo =>
      refine Play.left_undoLast (P := fun k => k.world.Lived fun _ _ => True) ih (fun _ hk => hk) ?_
      intro k n hk
      exact hk.perform_undoAction n
    | execute screen n =>
      show World.Lived _ (left (Play.perform (Perform.execute screen n) g)).stage.world
      rw [Play.stage_left_perform]
      exact World.Lived.execute (s := g.stage) ih screen n
    | perform screen a =>
      show World.Lived _ (left (Play.perform (Perform.executeAction screen a) g)).stage.world
      rw [Play.stage_left_perform]
      exact World.Lived.perform (s := g.stage) ih screen a
    | pick n i => exact Play.world_left_build (Build.choose n i) g ▸ ih.choose n i
    | takeBack n => exact ih.perform_undoAction n

theorem sound (h : g.Handled) : g.world.Sound := h.lived.sound

theorem coherent (h : g.Handled) : g.live.Coherent := by
  induction h with
  | new config screen =>
    obtain ⟨namespaces, hlive⟩ := (Game.new_spec config screen).2
    rw [hlive]
    exact ⟨nofun, fun _ => ⟨rfl, rfl, rfl⟩⟩
  | @call g _ c ih =>
    have hdoes := c.does g
    generalize (c.run g).live = l at hdoes
    cases c with
    | newGame =>
      obtain ⟨saved, rfl⟩ := hdoes
      exact .of_started rfl nofun
    | next => exact ih.next hdoes
    | undo => exact ih.undo hdoes
    | _ =>
      obtain ⟨_, _, rfl⟩ := hdoes
      exact ih.congr rfl rfl rfl rfl

end Game.Handled

end Storyline
