import Storyline.Proofs.Player.Meeting
import Storyline.Proofs.Player.Passing

/-!
# The scenes of the terminal player's story

* `Action.serves`: a check of what an action needs of its element;
* `Meeting.Prompt`: where the story waits for the player;
* `Follows s before g`: the game `g` of the story is at the spot `s`, and has played the nodes `before`,
  the last one first;
* `Follows.passes`, `Follows.stops`, `Asked.answers`, `Asked.undoes`: what the player gets through, comes
  to, answers and undoes;
* `Ahead s`: what is known of the spot `s` as long as the second scene lies ahead;
* `enters_park`, `Follows.enters_cafe`: **the start of the story**, and of its second scene.
-/

namespace Storyline

open Effect

/-! ### Checks -/

namespace Action

/-- Whether the element of an action is there and of the right kind. -/
def serves (a : Action) (w : World) : Bool :=
  match a.kind, w.shape? a.callee with
  | .story _, _ => true
  | .condition, some (.condition ..) => true
  | .script, some (.script _) => true
  | .menu, some (.menu _) => true
  | .scene _, some (.plain k) => k == .scene
  | kind, some (.plain k) => some k == kind.writer?
  | _, _ => false

theorem serves_iff {a : Action} {w : World} : a.serves w = true ↔ a.Serves w := by
  unfold serves Serves
  cases a.kind <;> rcases w.shape? a.callee with _ | (_ | _ | _ | _ | _) <;>
    simp [ActionKind.writer?]

instance (a : Action) (w : World) : Decidable (a.Serves w) := decidable_of_iff _ serves_iff

instance (a : Action) : Decidable a.Pauses :=
  match h : a.kind with
  | .say line => decidable_of_iff (line.style.pause = true) (by simp [Pauses, h])
  | .menu => .isTrue (by simp [Pauses, h])
  | .hideLine _ | .scene _ | .setBackground _ | .sleep _ | .story _ | .setSrc _ | .setPosition ..
  | .showImage _ | .hideImage _ | .applyTransform _ | .condition | .script | .play | .stop =>
    .isFalse (by simp [Pauses, h])

end Action

/-- The chains that an element of a shape turns to: those of its branches or entries, and what it falls
back to. -/
def Shape.turns : Shape → List (Option Chain)
  | condition _ chains fallback => chains ++ fallback.toList
  | menu chains => chains
  | _ => []

/-- How many predicates are tried. -/
def Shape.tries : Shape → Nat
  | condition tests .. => tests.length
  | _ => 0

theorem firstHolding_le (tests : List Predicate) (s : Store) :
    (firstHolding tests s).1 ≤ tests.length := by
  induction tests generalizing s with
  | nil => exact Nat.le_refl 0
  | cons p tests ih =>
    unfold firstHolding
    rcases p.evaluate s with ⟨_ | _, c, s'⟩
    · exact Nat.succ_le_succ (ih s')
    · exact Nat.zero_le _

/-! ### Spots -/

namespace Spot

variable {units : List NodeId} {s : Spot} {v : Visit} {x : NodeId}

theorem place?_of_current (h : s.current = some x) : s.place? = some x := by
  unfold place?
  rw [h]
  rfl

/-- A node that grafts nothing in, and is no unit, leads to its child. -/
theorem move_of_plain (hx : x ∉ units) :
    s.move units ⟨x, none⟩ = { s with current := s.child? x } := by
  refine Spot.ext rfl (funext fun y => ?_) rfl (onwardFrom_of_not_mem hx)
  exact if_neg fun h => by cases h.2

theorem current_move_of_chain {c : Chain} :
    (s.move units ⟨x, some (some c)⟩).current = some c.head :=
  Graph.redirect_self (Graph.redirect s.child? c.tail (s.continuation x)) x (some c.head)

theorem child?_tail_move_of_chain {c : Chain} (hx : c.tail ≠ x) (hc : s.continuation x ≠ some c.head) :
    (s.move units ⟨x, some (some c)⟩).child? c.tail = s.continuation x := by
  show Graph.redirect (Graph.redirect s.child? c.tail (s.continuation x)) x (some c.head) c.tail = _
  rw [Graph.redirect_other hx, Graph.redirect_self, if_neg hc]

theorem continuation_move_of_graft {c? : Option Chain} :
    (s.move units ⟨x, some c?⟩).continuation x = s.continuation x := by
  refine continuation_of_resumes ?_
  rw [resumes_move, if_pos ⟨rfl, rfl⟩]

/-- A node that is not led anew keeps its child, unless somebody is led to it. -/
theorem child?_move_of_kept (hx : x ∉ v.leads)
    (hc : s.child? x ∉ (v.edges (s.continuation v.node)).map Prod.snd) :
    (s.move units v).child? x = s.child? x := by
  show Graph.lead _ _ x = _
  rw [Graph.lead_of_not_mem (by rwa [v.map_fst_edges]), if_neg hc]

end Spot

namespace Game.At

variable {σ : Type} {g g' : Game σ} {s : Spot} {x : NodeId}

/-- **Undoing** leads to the node that was played last, and changes nothing else. What waits must not be
a unit. -/
theorem undone (h : g.At s) (hu : Undone g g')
    (hlast : g.live.history.head?.map (·.outcome.node) = some x)
    (hunit : ∀ p, g.live.pending = some p → p.node ∉ g.live.units) :
    g'.At { s with current := some x } := by
  refine .of_idle ?_ (fun n => ?_) hu.pending ?_ (hu.onward.trans ?_)
  · rw [hu.graph]
    exact h.child?
  · rw [hu.graph]
    exact h.resumes n
  · rw [hu.current, hlast]
    rfl
  · cases hp : g.live.pending with
    | none => exact (h.idle hp).2
    | some p =>
      have hplace := h.place.symm.trans (Game.place?_of_pending hp)
      have honward := h.onward p.node hplace
      rwa [Live.onwardFrom_of_not_mem (hunit p hp), Spot.onwardFrom_of_not_mem (hunit p hp)] at honward

end Game.At

theorem Game.screen_new {σ : Type} (config : GameConfig) (screen : σ) :
    (Game.new config screen).stage.screen = screen := by
  have hfold : ∀ (keys : List String) (g : Game σ),
      (keys.foldl Game.registerNamespace g).stage.screen = g.stage.screen := by
    intro keys
    induction keys with
    | nil => exact fun _ => rfl
    | cons key rest ih => exact fun g => ih _
  exact hfold config.namespaces _

namespace Player.Meeting

/-! ### The nodes of the story -/

/-- Where the story waits for the player. -/
inductive Prompt where
  /-- The first line of the greeting. -/
  | hello
  /-- The second one. -/
  | stranger
  /-- The menu. -/
  | answer
  /-- The line of the first entry. -/
  | friendly
  /-- The line of the second entry. -/
  | shy
  /-- The last line, if the answer was the friendly one. -/
  | warm
  /-- The last line, if it was not. -/
  | cold
deriving DecidableEq

namespace Prompt

def node : Prompt → NodeId
  | hello => ⟨8⟩
  | stranger => ⟨9⟩
  | answer => ⟨18⟩
  | friendly => ⟨13⟩
  | shy => ⟨16⟩
  | warm => ⟨19⟩
  | cold => ⟨20⟩

end Prompt

/-- The first scene. -/
abbrev park : NodeId := ⟨24⟩

/-- The second scene. -/
abbrev cafe : NodeId := ⟨25⟩

/-- The sound of the birds. -/
abbrev ambience : NodeId := ⟨12⟩

/-- The image gets its position. -/
abbrev placed : NodeId := ⟨10⟩

/-- The image is shown. -/
abbrev shown : NodeId := ⟨11⟩

/-- The script that remembers the friendly answer. -/
abbrev remember : NodeId := ⟨15⟩

/-- The sleep in the second scene. -/
abbrev rest : NodeId := ⟨23⟩

/-- The condition in the second scene. -/
abbrev later : NodeId := ⟨22⟩

/-- The units of the story. -/
def scenes : List NodeId := [park, cafe]

/-- The chains of the entries of the menu. -/
def entries : List Chain :=
  [⟨Prompt.friendly.node, remember⟩, ⟨Prompt.shy.node, Prompt.shy.node⟩]

/-- The nodes that neither wait nor graft anything in. -/
def plain : List NodeId := [ambience, placed, shown, remember, rest]

theorem exists_action {x : NodeId} (hx : x ∈ scenes ++ plain ++ [later]) :
    ∃ a, a ∈ world.action? x := by
  have hall : ∀ x ∈ scenes ++ plain ++ [later], (world.action? x).isSome := by decide +kernel
  exact Option.isSome_iff_exists.1 (hall x hx)

theorem Prompt.exists_action (x : Prompt) : ∃ a, a ∈ world.action? x.node := by
  have hsome : (world.action? x.node).isSome := by cases x <;> decide +kernel
  exact Option.isSome_iff_exists.1 hsome

theorem action_of_plain : ∀ x ∈ plain, ∀ a ∈ world.action? x, ¬ a.Pauses ∧ a.Serves world ∧
    a.kind.grafts = false := by
  decide +kernel

theorem action_of_prompt {x : Prompt} : ∀ a ∈ world.action? x.node, a.Pauses ∧ a.Serves world ∧
    (x ≠ .answer → a.kind ≠ .menu) := by
  cases x <;> decide +kernel

theorem action_park : ∀ a ∈ world.action? park, ¬ a.Pauses ∧ a.Serves world ∧
    a.kind = .scene (some ⟨ambience, Prompt.answer.node⟩) := by
  decide +kernel

theorem action_cafe : ∀ a ∈ world.action? cafe, ¬ a.Pauses ∧ a.Serves world ∧
    a.kind = .scene (some ⟨rest, later⟩) := by
  decide +kernel

theorem action_answer : ∀ a ∈ world.action? Prompt.answer.node, a.kind = .menu ∧
    (world.shape? a.callee).map Shape.turns = some (entries.map some) := by
  decide +kernel

/-- The condition, what it turns to, and how many predicates it tries. -/
theorem action_later : ∀ a ∈ world.action? later, ¬ a.Pauses ∧ a.Serves world ∧ a.kind = .condition ∧
    (world.shape? a.callee).map (fun s => (s.turns, s.tries)) = some
      ([Prompt.warm, Prompt.cold].map fun y => some ⟨y.node, y.node⟩, 1) := by
  decide +kernel

/-! ### What is grafted in -/

/-- A chain may be grafted in between a node and what follows it. -/
def Joinable (x : NodeId) (chain : Option Chain) (next : Option NodeId) : Prop :=
  world.graph.contains x = true ∧ ∀ e ∈ Graph.joins x chain next,
    world.graph.contains e.1 = true ∧ ∀ c ∈ e.2, c ≠ e.1 ∧ world.graph.Movable c

instance (x : NodeId) (chain : Option Chain) (next : Option NodeId) : Decidable (Joinable x chain next) :=
  inferInstanceAs (Decidable (_ ∧ _))

theorem graft?_answer {a : Action} (ha : a ∈ world.action? Prompt.answer.node) (store : Store) {i : Nat}
    (hi : i < 2) : ∃ c ∈ entries, world.graft? store a (some i) = some (some c) := by
  obtain ⟨hkind, hturns⟩ := action_answer a ha
  obtain ⟨-, hserves, -⟩ := action_of_prompt a ha
  obtain ⟨s, hs, hturns⟩ := Option.map_eq_some_iff.1 hturns
  unfold Action.Serves at hserves
  rw [hkind] at hserves
  obtain ⟨chains, hshape⟩ := hserves
  obtain rfl := Option.some.inj (hs.symm.trans hshape)
  have hgraft : world.graft? store a (some i) =
      some ((Shape.turns (.menu chains))[i]?).join := by
    unfold World.graft?
    rw [hkind, hshape]
    rfl
  rw [hgraft, hturns]
  rcases Nat.le_one_iff_eq_zero_or_eq_one.1 (Nat.le_of_lt_succ hi) with rfl | rfl
  · exact ⟨_, List.mem_cons_self, rfl⟩
  · exact ⟨_, List.mem_cons_of_mem _ List.mem_cons_self, rfl⟩

theorem graft?_later (store : Store) : ∃ y : Prompt, (y = .warm ∨ y = .cold) ∧
    ∀ a ∈ world.action? later, world.graft? store a none = some (some ⟨y.node, y.node⟩) := by
  obtain ⟨a, ha⟩ := exists_action (x := later) (by decide)
  obtain ⟨-, hserves, hkind, hturns⟩ := action_later a ha
  obtain ⟨s, hs, hturns⟩ := Option.map_eq_some_iff.1 hturns
  unfold Action.Serves at hserves
  rw [hkind] at hserves
  obtain ⟨tests, chains, fallback, hshape⟩ := hserves
  obtain rfl := Option.some.inj (hs.symm.trans hshape)
  obtain ⟨hchains, htests⟩ := Prod.mk.inj hturns
  have hgraft : ∀ a' ∈ world.action? later, world.graft? store a' none =
      some ((Shape.turns (.condition tests chains fallback))[(firstHolding tests store).1]?).join := by
    intro a' ha'
    obtain rfl := Option.some.inj (ha.symm.trans ha')
    unfold World.graft?
    rw [hkind, hshape]
    rfl
  rw [hchains] at hgraft
  have hle : (firstHolding tests store).1 ≤ 1 := htests ▸ firstHolding_le tests store
  rcases Nat.le_one_iff_eq_zero_or_eq_one.1 hle with h | h
  · rw [h] at hgraft
    exact ⟨.warm, .inl rfl, hgraft⟩
  · rw [h] at hgraft
    exact ⟨.cold, .inr rfl, hgraft⟩

/-! ### Games of the story -/

/-- **A game of the story** that the player attends to, at a spot, with the nodes that it has played. -/
structure Follows (s : Spot) (before : List NodeId) (g : Game Console) : Prop where
  attended : g.Attended
  keeps : world.Keeps g.world
  units : g.live.units = scenes
  spot : g.At s
  history : g.live.history.map (·.outcome.node) = before

/-- A game of the story that waits at a node for an answer. -/
structure Asked (q : Player.Waiting) (x : NodeId) (s : Spot) (before : List NodeId) (g : Game Console) :
    Prop extends Follows s before g where
  awaits : ∃ a ∈ world.action? x, Player.Awaits q a g

section Legs

variable {g g' : Game Console} {s : Spot} {before : List NodeId} {x : NodeId} {a : Action}
  {c? : Option (Option Chain)} {o : Outcome} {q : Player.Waiting}

namespace Follows

theorem action? (h : Follows s before g) (ha : a ∈ world.action? x) : g.world.action? x = some a :=
  (h.keeps.action? x).trans ha

theorem node (h : Follows s before g) (ha : a ∈ world.action? x) : a.node = x :=
  h.attended.sound.node x a (h.action? ha)

theorem graft? (h : Follows s before g) (store : Store) (a : Action) (choice : Option Nat) :
    g.world.graft? store a choice = world.graft? store a choice := by
  unfold World.graft?
  rw [h.keeps.shape?]

theorem splice (h : Follows s before g) {chain : Option Chain}
    (hj : Joinable x chain (s.continuation x)) :
    ∃ k, Graph.splice x chain g.world.graph = .ok () k := by
  rw [Graph.splice_eq_ok_iff, h.spot.continuation, h.keeps.nodes.contains]
  refine ⟨hj.1, fun e he => ?_⟩
  obtain ⟨hcontains, hmovable⟩ := hj.2 e he
  refine ⟨(h.keeps.nodes.contains _).trans hcontains, fun c hc => ?_⟩
  exact ⟨(hmovable c hc).1, (h.keeps.nodes.movable_iff c).2 (hmovable c hc).2⟩

theorem advance (h : Follows s before g) (hg : g'.Attended) (ha : Advances g o g') (hx : o.node = x)
    (hc : g.graft? o = c?) : Follows (s.move scenes ⟨x, c?⟩) (x :: before) g' := by
  obtain ⟨c, hhistory⟩ := ha.history
  have hspot := (h.spot.advances h.attended.singlyLinked ha).2
  rw [h.units] at hspot
  subst hx hc
  refine ⟨hg, h.keeps.trans ha.keeps, ha.units.trans h.units, hspot, ?_⟩
  rw [hhistory, List.map_cons, h.history]

/-- **An action that does not wait** is passed. -/
theorem passes (h : Follows s before g) (hp : g.live.pending = none) (hx : s.place? = some x)
    (ha : a ∈ world.action? x) (hpass : ¬ a.Pauses) (hserves : a.Serves world)
    (hgraft : world.graft? g.store a none = c?)
    (hj : ∀ chain, c? = some chain → Joinable x chain (s.continuation x)) :
    ∃ g', Goes 2 g g' ∧ Follows (s.move scenes ⟨x, c?⟩) (x :: before) g' ∧ g'.live.pending = none ∧
      (a.kind ≠ .script → g'.store = g.store) := by
  have haction := h.action? ha
  have hable : a.Able g.world g.store := by
    refine ⟨hserves.keeps h.keeps, fun chain hchain => ?_⟩
    rw [h.graft?, hgraft] at hchain
    rw [h.node ha]
    exact h.splice (hj chain hchain)
  obtain ⟨g', hgoes, hattended, hadvances, hstore⟩ :=
    h.attended.passes hp (h.spot.place.trans hx) haction hpass hable
  have hgraft' : g.graft? a.outcome = c? := by
    unfold Game.graft?
    rw [show a.outcome.node = x from h.node ha, haction, Option.bind_some, h.graft?]
    exact hgraft
  refine ⟨g', hgoes, h.advance hattended hadvances (h.node ha) hgraft', hadvances.pending,
    fun hk => ?_⟩
  rw [hstore, Action.host_of_looking h.attended.looking hk]

/-- A node that neither waits nor grafts anything in leads to its child. -/
theorem passes_plain (h : Follows s before g) (hp : g.live.pending = none) (hc : s.current = some x)
    (hx : x ∈ plain) :
    ∃ g', Goes 2 g g' ∧ Follows { s with current := s.child? x } (x :: before) g' ∧
      g'.live.pending = none := by
  have hreached : ∀ x ∈ plain, x ∈ scenes ++ plain ++ [later] := by decide
  obtain ⟨a, ha⟩ := exists_action (hreached x hx)
  obtain ⟨hpass, hserves, hkind⟩ := action_of_plain x hx a ha
  have hunit : ∀ x ∈ plain, x ∉ scenes := by decide
  obtain ⟨g', hgoes, hfollows, hpending, -⟩ := h.passes hp (Spot.place?_of_current hc) ha hpass
    hserves (World.graft?_of_not_grafts hkind _ _ _) nofun
  rw [Spot.move_of_plain (hunit x hx)] at hfollows
  exact ⟨g', hgoes, hfollows, hpending⟩

/-- **An action that waits** is stopped at. -/
theorem stops (h : Follows s before g) (hp : g.live.pending = none) {x : Prompt}
    (hx : s.current = some x.node) :
    ∃ q g', Stops g q g' ∧ Asked q x.node s before g' ∧ g'.store = g.store := by
  obtain ⟨a, ha⟩ := x.exists_action
  obtain ⟨hpause, hserves, -⟩ := action_of_prompt a ha
  have hplace : g.place? = some x.node := h.spot.place.trans (Spot.place?_of_current hx)
  obtain ⟨q, g', hstops, hattended, hhalts, hawaits, hstore⟩ :=
    h.attended.stops hp hplace (h.action? ha) hpause (hserves.keeps h.keeps)
  exact ⟨q, g', hstops, ⟨⟨hattended, h.keeps.trans hhalts.keeps, hhalts.units.trans h.units,
    h.spot.halts hhalts, (congrArg _ hhalts.history).trans h.history⟩, a, ha, hawaits⟩, hstore⟩

end Follows

namespace Asked

/-- **An answer** is taken over. -/
theorem answers (h : Asked q x s before g) (r : Resolution)
    (hgraft : ∀ a ∈ world.action? x, a.Serves world ∧
      world.graft? g.store a (a.receive r).choice = c?)
    (hj : ∀ chain, c? = some chain → Joinable x chain (s.continuation x)) :
    ∃ g', Goes 1 (g.answered (q.future, r)) g' ∧ Follows (s.move scenes ⟨x, c?⟩) (x :: before) g' ∧
      g'.live.pending = none := by
  obtain ⟨a, ha, hawaits⟩ := h.awaits
  obtain ⟨hserves, hgraft⟩ := hgraft a ha
  have hnode := h.node ha
  have haction := h.action? ha
  obtain ⟨g', hgoes, hattended, hadvances⟩ := h.attended.answers (hnode ▸ haction) hawaits
    (hserves.keeps h.keeps) r fun chain hchain => by
      rw [h.graft?, hgraft] at hchain
      rw [hnode]
      exact h.splice (hj chain hchain)
  have hreceive : (a.receive r).node = x := (a.receive_node r).trans hnode
  refine ⟨g', hgoes, h.advance hattended hadvances hreceive ?_, hadvances.pending⟩
  unfold Game.graft?
  rw [hreceive, haction, Option.bind_some, h.graft?]
  exact hgraft

/-- **Undoing** leads to the node that was played last. -/
theorem undoes {y : NodeId} {l : List NodeId} (h : Asked q x s (y :: l) g)
    (hunit : x ∉ scenes) (hscripts : ∀ z ∈ [x, y], ∀ a ∈ world.action? z, a.kind ≠ .script) :
    ∃ e rest g', g.live.history = e :: rest ∧ e.outcome.node = y ∧
      Play.undoLast g = .ok (some e.outcome) g' ∧ Follows { s with current := some y } l g' ∧
      g'.live.pending = none ∧ g'.stage.screen = g.stage.screen ∧ g'.store = g.store := by
  obtain ⟨e, rest, hhistory, hnode, hrest⟩ := List.map_eq_cons_iff.1 h.history
  obtain ⟨a, ha, hawaits⟩ := h.awaits
  obtain ⟨p, hp, hpnode, -⟩ := hawaits.pending
  rw [h.node ha] at hpnode
  have hlatest : Game.Attended.latest g = [x, y] := by
    unfold Game.Attended.latest
    rw [hp, hhistory]
    show [p.node, e.outcome.node] = [x, y]
    rw [hpnode, hnode]
  obtain ⟨g', hundo, hattended, hundone, hscreen, hstore⟩ := h.attended.undoes fun z hz a ha => by
    rw [hlatest] at hz
    exact hscripts z hz a ((h.keeps.action? z).symm.trans ha)
  rw [hhistory] at hundo
  refine ⟨e, rest, g', hhistory, hnode, hundo, ⟨hattended, h.keeps.trans hundone.keeps,
    hundone.units.trans h.units, h.spot.undone hundone ?_ ?_, ?_⟩, hundone.pending, hscreen, hstore⟩
  · rw [hhistory]
    exact congrArg some hnode
  · intro p' hp'
    obtain rfl := Option.some.inj (hp.symm.trans hp')
    rwa [hpnode, h.units]
  · rw [hundone.history, hhistory]
    exact hrest

end Asked

end Legs

/-! ### The second scene -/

section Cafe

variable {g : Game Console} {s : Spot} {before : List NodeId} {y : Prompt}

/-- What is known of the spot of a game that waits at a last line: behind it the story ends, and the
condition grafts it in again. -/
structure Behind (y : Prompt) (store : Store) (s : Spot) : Prop where
  last : y = .warm ∨ y = .cold
  ends : s.child? y.node = none
  onward : s.onward = none
  resumes : s.continuation later = none
  graft : ∀ a ∈ world.action? later, world.graft? store a none = some (some ⟨y.node, y.node⟩)

/-- **The condition** leads to the last line that it grafts in. -/
theorem Follows.plays_later (h : Follows s before g) (hp : g.live.pending = none)
    (hc : s.current = some later) (hresumes : s.continuation later = none) (honward : s.onward = none)
    (hlast : y = .warm ∨ y = .cold)
    (hgraft : ∀ a ∈ world.action? later, world.graft? g.store a none = some (some ⟨y.node, y.node⟩)) :
    ∃ g₁ q g' s', Goes 2 g g₁ ∧ Stops g₁ q g' ∧ Asked q y.node s' (later :: before) g' ∧
      Behind y g'.store s' := by
  obtain ⟨a, ha⟩ := exists_action (x := later) (by decide)
  obtain ⟨hpass, hserves, hkind, -⟩ := action_later a ha
  have hne : y.node ≠ later := by
    rcases hlast with rfl | rfl <;> decide
  have hj : Joinable later (some ⟨y.node, y.node⟩) none := by
    rcases hlast with rfl | rfl <;> decide +kernel
  obtain ⟨g₁, hgoes, hfollows, hpending, hstore⟩ := h.passes hp (Spot.place?_of_current hc) ha hpass
    hserves (hgraft a ha) fun chain hchain => by
      rw [hresumes, ← Option.some.inj hchain]
      exact hj
  obtain ⟨q, g', hstops, hasked, hstore'⟩ := hfollows.stops hpending Spot.current_move_of_chain
  have hkept : g'.store = g.store := hstore'.trans (hstore (by rw [hkind]; nofun))
  have hunit : later ∉ scenes := by decide
  exact ⟨g₁, q, g', _, hgoes, hstops, hasked, hlast,
    (Spot.child?_tail_move_of_chain hne (by rw [hresumes]; nofun)).trans hresumes,
    (Spot.onwardFrom_of_not_mem hunit).trans honward,
    Spot.continuation_move_of_graft.trans hresumes, hkept ▸ hgraft⟩

end Cafe

/-! ### The first scene -/

/-- The edges that lead through the first scene and to the condition, and that nobody sets anew. -/
def paths : List (NodeId × NodeId) :=
  [(shown, Prompt.hello.node), (Prompt.hello.node, Prompt.stranger.node),
    (Prompt.stranger.node, Prompt.answer.node), (Prompt.friendly.node, remember), (rest, later)]

/-- **What is known of a spot** as long as the second scene lies ahead. -/
structure Ahead (s : Spot) : Prop where
  paths : ∀ e ∈ paths, s.child? e.1 = some e.2
  bare : ∀ x ∈ [cafe, later], s.child? x = none ∧ s.resumes x = none
  answer : s.continuation Prompt.answer.node = some cafe

/-- The edges that are set for an entry have nothing to do with those that stay. -/
theorem apart_of_entry : ∀ c ∈ entries, c.tail ≠ Prompt.answer.node ∧ c.head ≠ cafe ∧
    (∀ x ∈ [cafe, later], x ≠ Prompt.answer.node ∧ x ∉ [c.tail, Prompt.answer.node]) ∧
    ∀ e ∈ paths, e.1 ∉ [c.tail, Prompt.answer.node] ∧ some e.2 ∉ [some cafe, some c.head] := by
  decide

section Park

variable {g : Game Console} {s : Spot} {before : List NodeId}

namespace Ahead

theorem current (h : Ahead s) (x : Option NodeId) : Ahead { s with current := x } :=
  ⟨h.paths, h.bare, h.answer⟩

theorem continuation_cafe (h : Ahead s) : s.continuation cafe = none := by
  obtain ⟨hchild, hresumes⟩ := h.bare cafe (by decide)
  unfold Spot.continuation
  rw [hresumes]
  exact hchild

/-- **Picking an entry** leads to it, and behind it to the second scene. -/
theorem pick (h : Ahead s) {c : Chain} (hc : c ∈ entries) :
    Ahead (s.move scenes ⟨Prompt.answer.node, some (some c)⟩) ∧
      (s.move scenes ⟨Prompt.answer.node, some (some c)⟩).current = some c.head ∧
      (s.move scenes ⟨Prompt.answer.node, some (some c)⟩).child? c.tail = some cafe := by
  have hkept : ∀ x, x ∉ [c.tail, Prompt.answer.node] → s.child? x ∉ [some cafe, some c.head] →
      (s.move scenes ⟨Prompt.answer.node, some (some c)⟩).child? x = s.child? x := fun x hx hs =>
    Spot.child?_move_of_kept hx (by rw [← h.answer] at hs; exact hs)
  obtain ⟨htail, hhead, hbare, hpaths⟩ := apart_of_entry c hc
  refine ⟨⟨fun e he => ?_, fun x hx => ⟨?_, ?_⟩, Spot.continuation_move_of_graft.trans h.answer⟩,
    Spot.current_move_of_chain, ?_⟩
  · have hstays := h.paths e he
    rw [hkept e.1 (hpaths e he).1 (by rw [hstays]; exact (hpaths e he).2), hstays]
  · have hstays := (h.bare x hx).1
    rw [hkept x (hbare x hx).2 (by rw [hstays]; simp), hstays]
  · rw [Spot.resumes_move, if_neg fun he => (hbare x hx).1 he.1]
    exact (h.bare x hx).2
  · refine (Spot.child?_tail_move_of_chain htail ?_).trans h.answer
    rw [h.answer]
    exact fun he => hhead (Option.some.inj he).symm

end Ahead

/-- **Where the second scene begins**, play goes on up to one of the last lines. -/
theorem Follows.enters_cafe (h : Follows s before g) (hs : Ahead s) (hp : g.live.pending = none)
    (hc : s.current = some cafe) :
    ∃ y g₁ q g' s', Goes 6 g g₁ ∧ Stops g₁ q g' ∧
      Asked q (Prompt.node y) s' (later :: rest :: cafe :: before) g' ∧ Behind y g'.store s' := by
  obtain ⟨a, ha⟩ := exists_action (x := cafe) (by decide)
  obtain ⟨hpass, hserves, hkind⟩ := action_cafe a ha
  have hgraft : world.graft? g.store a none = some (some ⟨rest, later⟩) := by
    unfold World.graft?
    rw [hkind]
  have hj : Joinable cafe (some ⟨rest, later⟩) none := by decide +kernel
  obtain ⟨g₁, hgoes₁, h₁, hp₁, -⟩ := h.passes hp (Spot.place?_of_current hc) ha hpass hserves hgraft
    fun chain hchain => by
      rw [hs.continuation_cafe, ← Option.some.inj hchain]
      exact hj
  -- where the café leads to: to the rest of it, and from there to what comes later
  generalize hs₁ : s.move scenes ⟨cafe, some (some ⟨rest, later⟩)⟩ = s₁ at h₁
  have hcurrent : s₁.current = some rest := hs₁ ▸ Spot.current_move_of_chain
  have hrest : s₁.child? rest = some later := by
    have hstays := hs.paths (rest, later) (by decide)
    rw [← hs₁, Spot.child?_move_of_kept (by decide) ?_, hstays]
    rw [hstays]
    show some later ∉ [s.continuation cafe, some rest]
    rw [hs.continuation_cafe]
    decide
  have hlater : s₁.continuation later = none := by
    have hresumes : s₁.resumes later = none := by
      rw [← hs₁, Spot.resumes_move, if_neg (by decide)]
      exact (hs.bare later (by decide)).2
    have hchild : (s.move scenes ⟨cafe, some (some ⟨rest, later⟩)⟩).child? later =
        s.continuation cafe :=
      Spot.child?_tail_move_of_chain (c := ⟨rest, later⟩) (by decide)
        (by rw [hs.continuation_cafe]; nofun)
    unfold Spot.continuation
    rw [hresumes, ← hs₁]
    exact hchild.trans hs.continuation_cafe
  have honward : s₁.onward = none := by
    rw [← hs₁]
    rfl
  obtain ⟨g₂, hgoes₂, h₂, hp₂⟩ := h₁.passes_plain hp₁ hcurrent (by decide)
  obtain ⟨y, hlast, hgraft⟩ := graft?_later g₂.store
  obtain ⟨g₃, q, g', s', hgoes₃, hstops, hasked, hbehind⟩ := h₂.plays_later hp₂ hrest hlater honward
    hlast hgraft
  exact ⟨y, g₃, q, g', s', (hgoes₁.trans hgoes₂).trans hgoes₃, hstops, hasked, hbehind⟩

end Park

/-! ### The start -/

/-- That every node leads to one other at most is seen from the nodes that there are. -/
theorem singlyLinked_of_ids {w : World} (h : ∀ x ∈ w.graph.ids, (w.graph.children x).length ≤ 1 ∧
    ∀ y ∈ w.graph.children x, w.graph.parent? y = some x) : w.graph.SinglyLinked := by
  refine ⟨fun x => ?_, fun x y hy => (h x (World.mem_ids_of_mem_children hy)).2 y hy⟩
  cases hc : w.graph.children x with
  | nil => exact Nat.zero_le _
  | cons y ys =>
    have hmem : y ∈ w.graph.children x := hc ▸ List.mem_cons_self
    exact hc ▸ (h x (World.mem_ids_of_mem_children hmem)).1

theorem singlyLinked_world : world.graph.SinglyLinked := singlyLinked_of_ids (by decide +kernel)

open Build Author in
theorem looking_tale : Upholds World.Looking tale := by
  have hc : ∀ x : Character, (Elemental.toElement x).shape.Looks := fun _ => trivial
  have hi : ∀ x : Image, (Elemental.toElement x).shape.Looks := fun _ => trivial
  have hs : ∀ x : Sound, (Elemental.toElement x).shape.Looks := fun _ => trivial
  have hn : ∀ x : Scene, (Elemental.toElement x).shape.Looks := fun _ => trivial
  have ht : ∀ x : Story, (Elemental.toElement x).shape.Looks := fun _ => trivial
  unfold tale
  refine .bind (looking_new _ fun _ => trivial) fun alice => ?_
  refine .bind (looking_new _ fun _ => trivial) fun bob => ?_
  refine .bind (looking_new _ fun _ => trivial) fun park => ?_
  refine .bind (looking_new _ fun _ => trivial) fun cafe => ?_
  refine .bind (looking_new _ fun _ => trivial) fun birds => .bind (looking_image _ _) fun portrait => ?_
  refine .bind (looking_new _ fun _ => trivial) fun story => ?_
  refine .bind (looking_author fun a ha => ?_) fun greeting => ?_
  · exact looking_takeActions hc (looking_append hc _ (looking_append hc _ ha))
  refine .bind (looking_author fun a ha => ?_) fun entrance => ?_
  · exact looking_takeActions hi (looking_append hi _ (looking_append hi _ ha))
  refine .bind (looking_author fun a ha => ?_) fun ambience => ?_
  · exact looking_takeActions hs (looking_append hs _ ha)
  refine .bind (looking_author fun a ha => ?_) fun friendly => ?_
  · exact looking_takeActions hc (looking_append hc _ ha)
  refine .bind (looking_new _ fun _ => trivial) fun flag => ?_
  refine .bind (looking_author fun a ha => looking_toAction ha) fun remember => ?_
  refine .bind (looking_author fun a ha => ?_) fun shy => ?_
  · exact looking_takeActions hc (looking_append hc _ ha)
  refine .bind (looking_new _ fun _ => trivial) fun menu => ?_
  refine .bind (looking_author fun a ha => ?_) fun answer => ?_
  · exact looking_toAction (looking_choose _ _ (looking_choose _ _ ha))
  refine .bind (looking_author fun a ha => ?_) fun warm => ?_
  · exact looking_takeActions hc (looking_append hc _ ha)
  refine .bind (looking_author fun a ha => ?_) fun cold => ?_
  · exact looking_takeActions hc (looking_append hc _ ha)
  refine .bind (looking_new _ fun _ => nofun) fun mood => ?_
  refine .bind (looking_author fun a ha => ?_) fun later => ?_
  · exact looking_toAction (looking_otherwise _ (looking_when (Predicate.looks_flag _ _) _ ha))
  refine .bind (looking_author fun a ha => ?_) fun rest => ?_
  · exact looking_takeActions hn (looking_append hn _ ha)
  refine .bind (looking_author fun a ha => looking_action hn _ ha) fun first => ?_
  refine .bind (looking_author fun a ha => looking_action hn _ ha) fun second => ?_
  exact .bind (.discard (looking_author fun a ha => looking_action ht _ ha)) fun _ => .pure _

theorem looking_world : world.Looking := by
  have hroot : ∀ h : Handle Story, Upholds World.Looking (Build.setRoot h) := fun h =>
    .bind Build.looking_find fun _ => .bind (fun _ hw => hw) fun _ =>
      .bind (Build.looking_ofEdit _) fun _ => .pure _
  have hwrite : Upholds World.Looking write := .bind looking_tale hroot
  have hleft := hwrite .new World.looking_new
  unfold world
  exact hleft

/-- The spot at which the story starts. -/
def dawn : Spot where
  child? := world.graph.child?
  resumes x := world.graph.resumes[x]?
  current := some park
  onward := some cafe

theorem follows_game (config : GameConfig) (c : Console) (hc : c.auto = false) (now : Instant) :
    Follows dawn [] (game config c now) := by
  have hd := descending_game config c now
  have haligned : Aligned (game config c now) (({ opening := world } : Account Console).reopen world) :=
    .opened (g := game config c now) sound_world rfl rfl _
  have hscreen : (game config c now).stage.screen = c := Game.screen_new config c
  have hattended : (game config c now).Attended := ⟨hd.stepping, singlyLinked_world, looking_world, rfl,
    ⟨_, haligned⟩, (congrArg Console.auto hscreen).trans hc⟩
  exact ⟨hattended, .refl _, rfl, .of_idle rfl (fun _ => rfl) rfl rfl rfl, rfl⟩

theorem ahead_dawn :
    Ahead (dawn.move scenes ⟨park, some (some ⟨ambience, Prompt.answer.node⟩)⟩) := by
  refine ⟨?_, ?_, ?_⟩ <;> decide +kernel

/-- **The story starts** with the sound and the image, and comes to the first line. -/
theorem enters_park (config : GameConfig) (c : Console) (hc : c.auto = false) (now : Instant) :
    ∃ g₁ q g' s', Goes 8 (game config c now) g₁ ∧ Stops g₁ q g' ∧
      Asked q Prompt.hello.node s' [shown, placed, ambience, park] g' ∧ Ahead s' := by
  have h := follows_game config c hc now
  obtain ⟨a, ha⟩ := exists_action (x := park) (by decide)
  obtain ⟨hpass, hserves, hkind⟩ := action_park a ha
  have hgraft : world.graft? (game config c now).store a none =
      some (some ⟨ambience, Prompt.answer.node⟩) := by
    unfold World.graft?
    rw [hkind]
  have hj : Joinable park (some ⟨ambience, Prompt.answer.node⟩) (dawn.continuation park) := by
    decide +kernel
  obtain ⟨g₁, hgoes₁, h₁, hp₁, -⟩ := h.passes rfl rfl ha hpass hserves hgraft fun chain hchain => by
    rw [← Option.some.inj hchain]
    exact hj
  have hahead := ahead_dawn
  have hcurrent : (dawn.move scenes ⟨park, some (some ⟨ambience, Prompt.answer.node⟩)⟩).current =
      some ambience := Spot.current_move_of_chain
  have hambience : (dawn.move scenes ⟨park, some (some ⟨ambience, Prompt.answer.node⟩)⟩).child?
      ambience = some placed := by decide +kernel
  have hplaced : (dawn.move scenes ⟨park, some (some ⟨ambience, Prompt.answer.node⟩)⟩).child?
      placed = some shown := by decide +kernel
  generalize dawn.move scenes ⟨park, some (some ⟨ambience, Prompt.answer.node⟩)⟩ = s at *
  obtain ⟨g₂, hgoes₂, h₂, hp₂⟩ := h₁.passes_plain hp₁ hcurrent (by decide)
  obtain ⟨g₃, hgoes₃, h₃, hp₃⟩ := h₂.passes_plain hp₂ hambience (by decide)
  obtain ⟨g₄, hgoes₄, h₄, hp₄⟩ := h₃.passes_plain hp₃ hplaced (by decide)
  -- the first line is the first node on the way that pauses
  have hhello : s.child? shown = some Prompt.hello.node :=
    hahead.paths (shown, Prompt.hello.node) (by decide)
  obtain ⟨q, g', hstops, hasked, -⟩ := h₄.stops (x := Prompt.hello) hp₄ hhello
  exact ⟨g₄, q, g', _, ((hgoes₁.trans hgoes₂).trans hgoes₃).trans hgoes₄, hstops, hasked,
    hahead.current _⟩

end Player.Meeting

end Storyline
