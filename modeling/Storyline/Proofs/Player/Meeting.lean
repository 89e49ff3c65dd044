import Storyline.Player.Terminal
import Storyline.Proofs.Game.Handled
import Storyline.Proofs.Player.Loop

/-!
# The terminal player with its story

* `World.sound_of_keys`, `World.downhill_of_ids`: what is to be looked at to see that a world is sound, and
  that play goes down in it;
* `Meeting.world`: the world of the story, which is both;
* `Meeting.game`: the game that the player starts with, and `Meeting.begin_eq`: what it does first;
* `Meeting.never_hangs`: **the player never hangs, and never loses its prompt**.
-/

namespace Storyline

open Effect

/-! ### Worlds that can be looked through -/

instance : (x : Element) → Decidable x.Settled
  | .character e => inferInstanceAs (Decidable (e.tracked.log.buffer = none))
  | .image e => inferInstanceAs (Decidable (e.tracked.log.buffer = none))
  | .sound e => inferInstanceAs (Decidable (e.tracked.log.buffer = none))
  | .scene e => inferInstanceAs (Decidable (e.tracked.log.buffer = none))
  | .story _ => inferInstanceAs (Decidable True)
  | .script e => inferInstanceAs (Decidable (e.tracked.log.buffer = none))
  | .condition e => inferInstanceAs (Decidable (e.tracked.log.buffer = none))
  | .menu e => inferInstanceAs (Decidable (e.tracked.log.buffer = none))

namespace World

variable {w : World} {height floor : NodeId → Nat}

theorem mem_ids_of_action? {x : NodeId} {a : Action} (h : w.action? x = some a) :
    x ∈ w.graph.ids := by
  obtain ⟨n, hn, -⟩ := Option.bind_eq_some_iff.1 h
  refine Std.ExtTreeMap.mem_keys.2 (Std.ExtTreeMap.mem_iff_contains.2 ?_)
  exact (w.graph.contains_eq x).trans (hn ▸ rfl)

theorem mem_ids_of_mem_children {x y : NodeId} (h : y ∈ w.graph.children x) :
    x ∈ w.graph.ids := by
  refine Std.ExtTreeMap.mem_keys.2 (Std.ExtTreeMap.mem_iff_contains.2 ?_)
  refine (w.graph.contains_eq x).trans ?_
  unfold Graph.children at h
  cases hn : w.graph.get? x with
  | some n => rfl
  | none =>
    rw [hn] at h
    cases h

/-- Soundness is seen from the nodes and the elements that there are. -/
theorem sound_of_keys (hn : ∀ x ∈ w.graph.ids, ∀ a ∈ w.action? x, a.node = x)
    (he : ∀ e ∈ w.elements.table.keys, ∀ x ∈ w.elements.get? e, x.id = e ∧ x.Settled) :
    w.Sound := by
  have hkey : ∀ e x, w.elements.get? e = some x → e ∈ w.elements.table.keys := fun e x hx =>
    Std.ExtTreeMap.mem_keys.2 (Std.ExtTreeMap.mem_iff_isSome_getElem?.2 (Option.isSome_of_eq_some hx))
  exact ⟨fun x a ha => hn x (mem_ids_of_action? ha) a ha, fun e x hx => (he e (hkey e x hx) x hx).1,
    fun e x hx => (he e (hkey e x hx) x hx).2⟩

/-- That play goes down is seen from the nodes that there are. -/
theorem downhill_of_ids
    (hc : ∀ x ∈ w.graph.ids, ∀ y ∈ w.graph.children x, height y < height x)
    (hb : ∀ x ∈ w.graph.ids, ∀ a ∈ w.action? x, a.kind.grafts = true →
      floor x < height x ∧ ∀ y ∈ w.graph.behind x, height y ≤ floor x)
    (ho : ∀ x ∈ w.graph.ids, ∀ a ∈ w.action? x, ∀ c ∈ w.offers a,
      height c.head < height x ∧ floor x < height c.tail ∧ floor x ≤ floor c.tail) :
    w.Downhill height floor :=
  ⟨fun x y hy => hc x (mem_ids_of_mem_children hy) y hy,
    fun x a ha => hb x (mem_ids_of_action? ha) a ha,
    fun x a ha => ho x (mem_ids_of_action? ha) a ha⟩

end World

/-- How far up a node lies where nodes are played in some order: the last one lies lowest. -/
def NodeId.rank (order : List NodeId) (x : NodeId) : Nat := order.length - order.idxOf x

theorem NodeId.rank_le (order : List NodeId) (x : NodeId) : x.rank order ≤ order.length :=
  Nat.sub_le _ _

namespace Player.Meeting

/-! ### The story -/

/-- Writes the story and hangs it under the root. -/
def write : Build (List NodeId) := do Build.setRoot (← tale)

/-- The world of the story, before it is played. -/
@[irreducible] def world : World := left (write .new)

/-- The nodes of the story in the order in which they are played, those of the entries of the menu and of
the branches of the condition one after the other. -/
def order : List NodeId :=
  [0, 26, 24, 12, 10, 11, 8, 9, 18, 13, 15, 16, 25, 23, 22, 19, 20].map NodeId.mk

def height (x : NodeId) : Nat := x.rank order

/-- Behind all that is grafted in below the first scene, play goes on with the second one. -/
def floor (x : NodeId) : Nat :=
  if height ⟨25⟩ < height x ∧ height x ≤ height ⟨24⟩ then height ⟨25⟩ else 0

theorem height_le (x : NodeId) : height x ≤ 17 := x.rank_le order

theorem sound_world : world.Sound :=
  World.sound_of_keys (by decide +kernel) (by decide +kernel)

theorem downhill_world : world.Downhill height floor :=
  World.downhill_of_ids (by decide +kernel) (by decide +kernel) (by decide +kernel)

/-- What a program answers, if it does. -/
def answer? {ε σ α : Type} : EStateM.Result ε σ α → Option α
  | .ok a _ => some a
  | .error .. => none

theorem eq_ok_of_answer? {ε σ α : Type} {r : EStateM.Result ε σ α} {a : α}
    (h : answer? r = some a) : r = .ok a (left r) := by
  cases r with
  | ok b s =>
    obtain rfl := Option.some.inj h
    rfl
  | error e s => cases h

theorem write_new : write .new = .ok [⟨24⟩, ⟨25⟩] world := by
  unfold world
  exact eq_ok_of_answer? (by decide +kernel)

theorem tale_new : ∃ w, tale .new = .ok ⟨⟨7⟩⟩ w ∧ Build.setRoot ⟨⟨7⟩⟩ w = .ok [⟨24⟩, ⟨25⟩] world := by
  have hid : (answer? (tale .new)).map (·.id) = some ⟨7⟩ := by decide +kernel
  obtain ⟨h, hh, hid⟩ := Option.map_eq_some_iff.1 hid
  have htale := eq_ok_of_answer? hh
  have hroot := write_new
  unfold write at hroot
  rw [bind_of_ok htale] at hroot
  obtain ⟨e⟩ := h
  obtain rfl : e = ⟨7⟩ := hid
  exact ⟨_, htale, hroot⟩

/-! ### The game -/

/-- A game in which a story of some world was registered, at its start. -/
def opened (g : Game Console) (w : World) (story : ElementId) (units : List NodeId) (now : Instant) :
    Game Console :=
  (({ g with stage := { g.stage with world := w } } : Game Console).loadStory story units).newGame now

/-- The game that the player starts with. -/
def game (config : GameConfig) (c : Console) (now : Instant) : Game Console :=
  opened (Game.new config c) world ⟨7⟩ [⟨24⟩, ⟨25⟩] now

/-- What is played of the story, once it was registered in a new world. -/
theorem register_apply {g : Game Console} {h : Handle Story} {units : List NodeId} {w w' : World}
    {α : Type} (now : Instant) (p : Play Console α) (hg : g.world = .new)
    (htale : tale .new = .ok h w) (hroot : Build.setRoot h w = .ok units w') :
    (do
      Play.registerStory (← Play.build tale)
      modify (·.newGame now)
      p : Play Console α) g = p (opened g w' h.id units now) := by
  have hbuild : Play.build tale g = .ok h { g with stage := { g.stage with world := w } } :=
    Play.build_eq_ok_iff.2 ⟨w, hg ▸ htale, rfl⟩
  have hregister : Play.registerStory h { g with stage := { g.stage with world := w } } =
      .ok () (({ g with stage := { g.stage with world := w' } } : Game Console).loadStory h.id units) :=
    Play.registerStory_eq_ok_iff.2 ⟨units, w', hroot, rfl⟩
  rw [bind_of_ok hbuild, bind_of_ok hregister, bind_modify_apply]
  rfl

/-- **The player starts** by playing the game of its story. -/
theorem begin_eq (o : Options) (config : GameConfig) (now : Instant) :
    Terminal.begin o config now = Terminal.settled o.saves
      (outcome (advance stepLimit (game config { auto := o.auto } now))) := by
  obtain ⟨w, htale, hroot⟩ := tale_new
  have hworld := (Game.new_spec config ({ auto := o.auto } : Console)).1
  have hplay := register_apply now (advance stepLimit) hworld htale hroot
  unfold Terminal.begin
  simp only
  rw [hplay]
  show _ = Terminal.settled o.saves (outcome (advance stepLimit (opened _ _ _ _ _)))
  cases advance stepLimit (opened (Game.new config { auto := o.auto }) world ⟨7⟩ [⟨24⟩, ⟨25⟩] now) <;> rfl

theorem descending_game (config : GameConfig) (c : Console) (now : Instant) :
    (game config c now).Descending height floor := by
  refine ⟨.of_started rfl nofun, sound_world, downhill_world, ?_⟩
  show [(⟨24⟩ : NodeId), ⟨25⟩].Pairwise fun u v => height v < height u
  decide

/-! ### The loops -/

variable {ω : Type}

/-- The player at its start, with some input. -/
def start (o : Options) (config : GameConfig) (now : Instant) (files : ω)
    (input : List (String × Instant)) : Loop ω :=
  { game := game config { auto := o.auto } now, files, input, station := .stepping }

theorem good_start (o : Options) (config : GameConfig) (now : Instant) (files : ω)
    (input : List (String × Instant)) : (start o config now files input).Good height floor :=
  ⟨descending_game config _ now, nofun⟩

/-- The player after some passes of its loops. -/
def passed (fs : FileSystem (StateM ω)) (o : Options) (config : GameConfig) (now : Instant)
    (files : ω) (input : List (String × Instant)) (n : Nat) : Loop ω :=
  (Loop.tick fs o.saves)^[n] (start o config now files input)

/-- **The player never hangs, and never loses its prompt**: on files of any kind, with any options and any
input, its loops come to an end, which is where the player ends; and a step of the outer loop that waits for
an open future is one that the screen asks for. -/
theorem never_hangs (fs : FileSystem (StateM ω)) (o : Options) (config : GameConfig)
    (now : Instant) (files : ω) (input : List (String × Instant)) :
    (∃ n e, n ≤ 687 * (input.length + 1) ∧
      (passed fs o config now files input n).station = .ended e ∧
      (Terminal.begin o config now).takeAll fs input files =
        (passed fs o config now files input n).left o.saves e) ∧
    ∀ n f g, (passed fs o config now files input n).station = .stepping →
      Play.next Console.screen (passed fs o config now files input n).game = .ok (.suspended f) g →
      g.stage.futures.isSolved f = false → Prompts f g := by
  have hgood := good_start o config now files input
  have hmost : Game.mostSteps 17 = 685 := by decide
  have hsteps := Game.stepsLeft_le height_le (start o config now files input).game
  rw [hmost] at hsteps
  constructor
  · obtain ⟨n, e, hn, hover, hrest⟩ := hgood.finishes fs o.saves height_le (by rw [hmost]; decide)
      fun _ => Nat.lt_of_le_of_lt hsteps (by decide : 685 < stepLimit)
    refine ⟨n, e, ?_, hover, ?_⟩
    · have hweight := Loop.weight_of_stepping height 17
        (l := start o config now files input) rfl
      rw [hmost, show (start o config now files input).input = input from rfl] at hweight
      omega
    · rw [begin_eq]
      exact hrest
  · intro n f g hs hn hf
    exact (hgood.iterate height_le n).prompts hs hn hf

end Player.Meeting

end Storyline
