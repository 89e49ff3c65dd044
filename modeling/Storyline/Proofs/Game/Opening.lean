import Storyline.Proofs.Game.Handled
import Storyline.Proofs.Story.Homes

/-!
# Where play begins

* `Opening`: whether play was begun before, and the first unit that was found then;
* `Game.Prelude b g`: writing, registering stories, new games and next steps that find no unit lead to
  the game `g` before any unit was executed, in any order;
* `Opening.place`: where play begins then. A game that was begun when it had no unit, or another one,
  does not look at its first unit again;
* `Prelude.opens`: where play begins; and if that is the first unit, where it goes on from there, in
  which order the units are played, and that none is left out.
-/

namespace Storyline

open Effect

variable {σ : Type}

/-! ### Before the first unit -/

/-- Whether play was begun, by a new game or by a next step. -/
inductive Opening where
  | unbegun
  /-- Play was begun, when this was the first unit, if there was one. -/
  | found (first : Option NodeId)

/-- Where play begins. -/
def Opening.place (units : List NodeId) : Opening → Option NodeId
  | unbegun => units.head?
  | found first => first.or units[1]?

/-- Play was not begun before, or this was the first unit then. -/
def Opening.Finds (u : NodeId) : Opening → Prop
  | unbegun => True
  | found first => first = some u

/-- Calls that neither begin a game nor play on. -/
def Handling.Bides : Handling σ → Prop
  | newGame _ | next _ => False
  | _ => True

theorem Game.run_next_of_no_story {g : Game σ} (hs : g.live.story = none) (screen : Screen σ) :
    (Handling.next screen).run g = g := by
  show left (Play.next screen g) = g
  rw [Play.next_of_no_story hs]
  rfl

/-- **Games of which no unit was executed** since the last new game, or ever if there was none. -/
inductive Game.Prelude : Opening → Game σ → Prop
  | new (config : GameConfig) (screen : σ) : Prelude .unbegun (Game.new config screen)
  | newGame {g : Game σ} (h : g.Handled) (now : Instant) :
      Prelude (.found g.live.units.head?) (g.newGame now)
  | call {b : Opening} {g : Game σ} (h : Prelude b g) {c : Handling σ} (hc : c.Bides) :
      Prelude b (c.run g)
  /-- There is no story yet. -/
  | refused {b : Opening} {g : Game σ} (h : Prelude b g) (screen : Screen σ)
      (hs : g.live.story = none) : Prelude b ((Handling.next screen).run g)
  /-- There is a story, but no unit to be executed. -/
  | passes {b : Opening} {g : Game σ} (h : Prelude b g) (screen : Screen σ)
      (hs : g.live.story.isSome) (hx : b.place g.live.units = none) :
      Prelude (.found none) ((Handling.next screen).run g)

/-- How far a game is of which no unit was executed. -/
structure Opening.Holds (b : Opening) (l : Live) : Prop where
  pending : l.pending = none
  history : l.history = []
  unit : l.unit = 0
  begun : match b with
    | .unbegun => l.started = false ∧ l.current = none
    | .found first => l.started = true ∧ l.current = first

namespace Opening.Holds

variable {b : Opening} {l l' : Live}

/-- What a game goes through that only changes its story, its namespaces or its save. -/
theorem congr (h : b.Holds l) (hp : l'.pending = l.pending) (hh : l'.history = l.history)
    (hu : l'.unit = l.unit) (hs : l'.started = l.started) (hc : l'.current = l.current) :
    b.Holds l' := by
  refine ⟨hp.trans h.pending, hh.trans h.history, hu.trans h.unit, ?_⟩
  have hbegun := h.begun
  cases b <;> rwa [hs, hc]

theorem place (h : b.Holds l) : l.current.or l.onward = b.place l.units := by
  have hbegun := h.begun
  unfold Live.onward
  rw [h.unit]
  cases b with
  | unbegun =>
    obtain ⟨hs, hc⟩ := hbegun
    rw [hs, hc, Option.none_or, if_neg Bool.false_ne_true]
    exact List.head?_eq_getElem?.symm
  | found first =>
    obtain ⟨hs, hc⟩ := hbegun
    rw [hs, hc, if_pos rfl]
    rfl

theorem undo (h : b.Holds l) (hu : l.Undoes l') : l' = l := by
  induction hu with
  | stands => rfl
  | clears hp => cases h.pending.symm.trans hp
  | returns hp => cases h.pending.symm.trans hp
  | drops _ hh ih =>
    subst ih
    cases h.history.symm.trans hh
  | takes _ _ ih =>
    subst ih
    unfold Live.takenBack
    rw [h.history]

theorem passes (h : b.Holds l) (hx : b.place l.units = none) :
    (Opening.found none).Holds { l.aim with terminated := true } := by
  rw [← h.place] at hx
  refine ⟨(Live.pending_aim l).trans h.pending, (Live.history_aim l).trans h.history, ?_,
    Live.started_aim (Option.or_eq_none_iff.1 hx).1, (Live.aim_current l).trans hx⟩
  obtain ⟨hc, ho⟩ := Option.or_eq_none_iff.1 hx
  unfold Live.onward at ho
  unfold Live.aim Live.nextUnit
  simp only [hc, Option.isNone_none, if_true, ho]
  exact h.unit

end Opening.Holds

namespace Game.Prelude

variable {b : Opening} {g : Game σ} {u : NodeId}

theorem handled (h : g.Prelude b) : g.Handled := by
  induction h with
  | new config screen => exact .new config screen
  | newGame h now => exact h.call (.newGame now)
  | call _ _ ih => exact ih.call _
  | refused _ screen _ ih => exact ih.call (.next screen)
  | passes _ screen _ _ ih => exact ih.call (.next screen)

theorem handle (h : g.Prelude b) {calls : List (Handling σ)} (hc : ∀ c ∈ calls, c.Bides) :
    (g.handle calls).Prelude b := by
  induction calls generalizing g with
  | nil => exact h
  | cons c rest ih =>
    exact ih (h.call (hc c List.mem_cons_self)) fun d hd => hc d (List.mem_cons_of_mem c hd)

theorem holds (h : g.Prelude b) : b.Holds g.live := by
  induction h with
  | new config screen =>
    obtain ⟨namespaces, hlive⟩ := (Game.new_spec config screen).2
    rw [hlive]
    exact ⟨rfl, rfl, rfl, rfl, rfl⟩
  | newGame h now => exact ⟨rfl, rfl, rfl, rfl, rfl⟩
  | refused h screen hs ih =>
    rw [Game.run_next_of_no_story hs]
    exact ih
  | passes h screen hs hx ih =>
    show Opening.Holds _ (left (Play.next screen _)).live
    rw [Play.next_of_idle hs ih.pending, Live.aim_current, ih.place, hx]
    exact ih.passes hx
  | @call b g _ c hc ih =>
    have hdoes := c.does g
    generalize (c.run g).live = l at hdoes
    cases c with
    | newGame | next => exact hc.elim
    | undo => exact ih.undo hdoes ▸ ih
    | _ =>
      obtain ⟨_, _, rfl⟩ := hdoes
      exact ih.congr rfl rfl rfl rfl rfl

theorem place? (h : g.Prelude b) : g.place? = b.place g.live.units := by
  unfold Game.place?
  rw [h.holds.pending]
  exact h.holds.place

theorem stepping (h : g.Prelude b) : g.Stepping :=
  ⟨h.handled.coherent.unbegun, fun p hp => by cases h.holds.pending.symm.trans hp⟩

theorem place?_of_finds (h : g.Prelude b) (hu : g.live.units.head? = some u) (hb : b.Finds u) :
    g.place? = g.live.units.head? := by
  rw [h.place?, hu]
  cases b with
  | unbegun => exact hu
  | found first =>
    obtain rfl : first = some u := hb
    rfl

end Game.Prelude

/-! ### Beginning at the first unit -/

/-- **A game that is played from its first unit on.** -/
structure Game.Opens (u : NodeId) (g : Game σ) : Prop where
  /-- The next step executes the first unit. -/
  executes : ∀ screen, Play.next screen g = Play.execute screen u { g with live := g.live.aim }
  /-- Whatever was played, play goes on where the last node led, or else at the unit behind the last
  one that was played. -/
  onward : ∀ us g', Told g us g' → g'.place? = Move.onward g.live.units us
  moves : ∀ us m vs g', Told g (us ++ m :: vs) g' → Move.onward g.live.units us = some m.node
  /-- Where no unit is listed twice, and no node leads to another unit than the next one, the units
  that were played are the first ones in their order, and all of them where the story ends. -/
  ordered : g.live.units.Nodup → ∀ us g', Told g us g' → Move.LeadOn g.live.units us →
    Move.reached g.live.units us <+: g.live.units ∧
      ∀ screen g'', Play.next screen g' = .ok .terminated g'' →
        Move.reached g.live.units us = g.live.units
  /-- That is so in every story whose nodes belong to one unit each. -/
  housed : ∀ home, g.world.Housed home g.live.units → g.live.units.Nodup ∧
    ∀ us g', Told g us g' → Move.LeadOn g.live.units us

/-- A game that stands at its first unit is played from there on. -/
theorem Game.Opens.of_going {u : NodeId} {g : Game σ} (h : g.Going g.live.units [])
    (hp : g.live.pending = none) (hx : g.place? = some u) : g.Opens u := by
  refine ⟨fun screen => ?_, fun us g' ht => (h.told ht).place, fun us m vs g' ht => h.move ht,
    fun hd us g' ht hl => ⟨?_, fun screen g'' hn => h.all hd ht hl (Poised.ends hn).1⟩,
    fun home hw => ⟨hw.nodup, fun us g' ht => ((Lodged.start h hw).told ht).leadOn⟩⟩
  · rw [Play.next_of_idle h.story hp, ← Game.place?_of_idle hp, hx]
  · obtain ⟨k, hbegun, -⟩ := h.begun hd ht hl
    exact hbegun.reached_first

/-- **Where play begins**: whatever was written and registered before, and whichever new games and next
steps there were while no unit was executed. Play begins at the first unit, unless it was begun before
when there was none, or another one; then it stays with the unit that was found, or leaves the first
one out if none was. -/
theorem Game.Prelude.opens {b : Opening} {g : Game σ} {u : NodeId} (h : g.Prelude b)
    (hs : g.live.story.isSome) (hu : g.live.units.head? = some u) :
    g.place? = b.place g.live.units ∧ (b.Finds u → g.Opens u) := by
  refine ⟨h.place?, fun hb => ?_⟩
  have hplace := h.place?_of_finds hu hb
  exact .of_going (.start h.stepping h.handled.sound hs hplace) h.holds.pending (hplace.trans hu)

/-! ### A morning at an inn -/

theorem Game.world_handle_write (g : Game σ) (calls : List Call) :
    (g.handle (calls.map .write)).world = g.world.callAll calls := by
  induction calls generalizing g with
  | nil => rfl
  | cons c rest ih =>
    show ((left (Play.build c.run g)).handle (rest.map .write)).world = _
    rw [ih, Play.world_left_build]
    rfl

theorem Game.world_newGame (g : Game σ) (now : Instant) : (g.newGame now).world = g.world := rfl

theorem Game.world_handle_register (g : Game σ) (e : ElementId) :
    (g.handle [.register e]).world = left ((Call.setRoot e).run g.world) :=
  (Play.left_registerStory ⟨e⟩ g).1

/-- A step before there is a story, and then a story with one unit. -/
def innDay : Game Headless :=
  (((Handling.next Headless.screen).run (Game.new {} { picks := [1] })).handle
    (innCalls.map .write)).handle [.register ⟨8⟩]

/-- What is written after a new game was begun, and before its first step. -/
def innMore : List Call :=
  [.append ⟨1⟩ (.setBackground "road"), .storyAction ⟨8⟩ [[⟨10⟩]]]

/-- The story gets a second unit and is registered again. -/
def innMorning : Game Headless :=
  ((innDay.newGame default).handle (innMore.map .write)).handle [.register ⟨8⟩]

theorem world_innMorning : innMorning.world =
    left ((Call.setRoot ⟨8⟩).run ((left ((Call.setRoot ⟨8⟩).run (innWorld 11))).callAll innMore)) := by
  have hnew : ((Handling.next Headless.screen).run (Game.new {} { picks := [1] })).world =
      World.new := by
    obtain ⟨hworld, namespaces, hlive⟩ := Game.new_spec {} ({ picks := [1] } : Headless)
    rw [Game.run_next_of_no_story (by rw [hlive])]
    exact hworld
  unfold innMorning innDay
  rw [Game.world_handle_register, Game.world_handle_write, Game.world_newGame,
    Game.world_handle_register, Game.world_handle_write, hnew]
  rfl

theorem drafted_innMorning : Drafted innMorning.world
    { rows := [(.unit ⟨8⟩, [innTree]), (.unit ⟨8⟩, [innLine 10])], wrapped := [⟨5⟩] } := by
  rw [world_innMorning]
  refine Registered.plain ?_ (.setRoot ⟨8⟩) trivial
  have h₁ := drafted_inn.plain (.setRoot ⟨8⟩) trivial
  generalize hw : left ((Call.setRoot ⟨8⟩).run (innWorld 11)) = w at h₁
  have h₂ : Drafted (w.callAll [.append ⟨1⟩ (.setBackground "road")])
      { free := [innLine 10], rows := [(.unit ⟨8⟩, [innTree])], wrapped := [⟨5⟩] } := by
    subst hw
    exact h₁.append ⟨1⟩ (.setBackground "road") [] rfl (ok_of_answer (by decide +kernel))
  subst hw
  exact h₂.enters (.storyAction ⟨8⟩ [[⟨10⟩]]) [⟨11⟩]
    (Draft.Enters.listed rfl (by decide) (.refl _)) (ok_of_answer (by decide +kernel))

theorem bides_write (calls : List Call) : ∀ c ∈ calls.map (Handling.write (σ := Headless)), c.Bides := by
  intro c hc
  obtain ⟨call, -, rfl⟩ := List.mem_map.1 hc
  trivial

theorem bides_register (e : ElementId) : ∀ c ∈ [Handling.register (σ := Headless) e], c.Bides := by
  intro c hc
  obtain rfl := List.mem_singleton.1 hc
  trivial

theorem prelude_innMorning : innMorning.Prelude (.found (some ⟨7⟩)) := by
  have hnew : (Game.new {} ({ picks := [1] } : Headless)).Handled := .new _ _
  have hday : innDay.Handled :=
    ((hnew.call (.next Headless.screen)).handle (innCalls.map .write)).handle [.register ⟨8⟩]
  have hfound : innDay.live.units.head? = some ⟨7⟩ := by decide +kernel
  have hevening : (innDay.newGame default).Prelude (.found (some ⟨7⟩)) := hfound ▸ .newGame hday default
  exact (hevening.handle (bides_write _)).handle (bides_register _)

/-- The same story, but the new game was begun before there was any. -/
def innHasty : Game Headless :=
  (((Game.new {} {}).newGame default).handle ((innCalls ++ innMore).map .write)).handle [.register ⟨8⟩]

theorem prelude_innHasty : innHasty.Prelude (.found none) := by
  have hempty : (Game.new {} ({} : Headless)).live.units.head? = none := by decide +kernel
  have hnew : ((Game.new {} ({} : Headless)).newGame default).Prelude (.found none) :=
    hempty ▸ .newGame (.new _ _) default
  exact (hnew.handle (bides_write _)).handle (bides_register _)

/-- Play begins at the unit that was there first, and goes through its scene to the second one. Begun
before there was any, it begins at the second one. -/
theorem opens_innMorning : (innMorning.live.units = [⟨7⟩, ⟨10⟩] ∧ innMorning.place? = some ⟨7⟩ ∧
    ∃ us g' g'', Told innMorning us g' ∧ Play.next Headless.screen g' = .ok .terminated g'' ∧
      us.map Move.node = [⟨7⟩, ⟨6⟩, ⟨3⟩, ⟨4⟩, ⟨10⟩] ∧
      Move.reached innMorning.live.units us = [⟨7⟩, ⟨10⟩]) ∧
    innHasty.live.units = [⟨7⟩, ⟨10⟩] ∧ innHasty.place? = some ⟨10⟩ := by
  have hunits : innMorning.live.units = [⟨7⟩, ⟨10⟩] := by decide +kernel
  have hfirst : innMorning.live.units.head? = some ⟨7⟩ := by rw [hunits]; rfl
  obtain ⟨hplace, hopens⟩ := prelude_innMorning.opens (by decide +kernel) hfirst
  obtain ⟨s, hs⟩ := get?_of_kind Story (w := innMorning.world) (e := ⟨8⟩) (by decide +kernel)
  have hshape : innMorning.world.shape? ⟨8⟩ = some (.story s.actions) := World.shape?_of_get? hs
  have hsame : s.actions = innMorning.live.units :=
    (drafted_innMorning.holds.units_eq hshape).trans (by rw [hunits]; decide +kernel)
  have ht := Told.tell Headless.screen innMorning 9
  have hn : Play.next Headless.screen (innMorning.tell Headless.screen 9).2 = .ok .terminated _ :=
    ok_of_answer (by decide +kernel)
  obtain ⟨hnodup, hlead⟩ := (hopens rfl).housed _ (hsame ▸ drafted_innMorning.housed hshape)
  have hhasty : innHasty.live.units = [⟨7⟩, ⟨10⟩] := by decide +kernel
  have hlate := (prelude_innHasty.opens (u := ⟨7⟩) (by decide +kernel) (by rw [hhasty]; rfl)).1
  rw [hhasty] at hlate
  refine ⟨⟨hunits, hplace, _, _, _, ht, hn, by decide +kernel, ?_⟩, hhasty, hlate⟩
  rw [((hopens rfl).ordered hnodup _ _ ht (hlead _ _ ht)).2 _ _ hn, hunits]

end Storyline
