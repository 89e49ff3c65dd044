import Storyline.Proofs.Game.Undo
import Storyline.Proofs.Stage.Grafts
import Storyline.Proofs.Story.Sheet
import Storyline.Proofs.Story.Standing

/-!
# Where play is and goes on

* `Game.place?`: the node that play is at: the one that waits, or the one to be executed next;
* `Live.onward`, `Live.onwardFrom`: the unit that follows, and the one that follows once a node was
  reached;
* `Advances g o g'`: all that taking over an outcome does to where play is and goes on;
* `Halts g f g'`: the same of a step that waits;
* `Pending.Stands p g`: what is known of a step that waits;
* `Game.Stepping g`: what waits stands still, and nothing was played of a game that has not begun;
* `Stepping.advances`, `Stepping.halts`, `Poised.ends`: what the next step does;
* `Poised d g`: such a game in which play follows the lists of the graph, and is at a node of one of
  them;
* `Poised.advance`, `Poised.halt`, `Poised.ended`, `Poised.newGame`, `Poised.answer`: the invariant is
  kept.
-/

namespace Storyline

open Effect

variable {σ : Type}

/-! ### Where play goes on -/

namespace Live

variable {l : Live} {x : NodeId}

/-- The unit that comes next. -/
def onward (l : Live) : Option NodeId := l.units[if l.started then l.unit + 1 else 0]?

/-- The unit that comes next once a node was reached. -/
def onwardFrom (l : Live) (x : NodeId) : Option NodeId :=
  (l.units.findIdx? (· = x)).elim l.onward fun i => l.units[i + 1]?

theorem aim_current (l : Live) : l.aim.current = l.current.or l.onward := by
  unfold aim nextUnit onward
  cases hc : l.current with
  | none =>
    simp only [Option.isNone_none, if_true, Option.none_or]
    cases l.units[if l.started then l.unit + 1 else 0]? <;> rfl
  | some x => simpa using hc

theorem started_aim (hc : l.current = none) : l.aim.started = true := by
  unfold aim nextUnit
  rw [hc]
  simp only [Option.isNone_none, if_true]
  split <;> rfl

theorem onward_aim_of_none (h : l.current.or l.onward = none) : l.aim.onward = none := by
  obtain ⟨hc, ho⟩ := Option.or_eq_none_iff.1 h
  unfold onward at ho ⊢
  rw [started_aim hc, units_aim]
  unfold aim nextUnit
  simp only [hc, Option.isNone_none, if_true, ho]
  cases hs : l.started with
  | true => rwa [hs] at ho
  | false =>
    rw [hs] at ho
    rw [List.getElem?_eq_none_iff] at ho ⊢
    simp only [Bool.false_eq_true, if_false] at ho
    omega

/-- A game that goes on at a node has begun. Reaching a unit again changes nothing. -/
theorem onward_reach_aim (hb : l.started = false → l.current = none) (hx : l.aim.current = some x) :
    (l.aim.reach x).onward = l.onwardFrom x := by
  have hunits := l.units_aim
  unfold reach onwardFrom
  rw [hunits]
  cases hi : l.units.findIdx? (· = x) with
  | some i =>
    simp only [Option.elim_some]
    unfold onward
    simp
  -- a node that is no unit can be at hand only as the current one, so that the game was started
  | none =>
    simp only [Option.elim_none]
    have hcurrent : l.current = some x := by
      rcases aim_cases hx with hc | hmem
      · exact hc
      · rw [List.findIdx?_eq_none_iff] at hi
        simpa using hi x hmem
    have hstarted : l.started = true := by
      cases hs : l.started with
      | true => rfl
      | false =>
        rw [hb hs] at hcurrent
        cases hcurrent
    unfold aim onward
    simp [hcurrent, hstarted]

end Live

namespace Game

/-- The node that play is at: the one that waits, or the one to be executed next. -/
def place? (g : Game σ) : Option NodeId :=
  match g.live.pending with
  | some p => some p.node
  | none => g.live.current.or g.live.onward

/-- The game after a future was answered, unless it was before. -/
def answered (g : Game σ) (answer : FutureId × Resolution) : Game σ :=
  g.mapStage fun s => { s with futures := s.futures.settle answer }

/-- The chain that the node of an outcome grafts in, if it grafts anything in. -/
def graft? (g : Game σ) (o : Outcome) : Option (Option Chain) :=
  (g.world.action? o.node).bind fun a => g.world.graft? g.store a o.choice

end Game

/-! ### What next steps do -/

/-- What a step leaves as it is. -/
structure Stays (g g' : Game σ) : Prop where
  keeps : g.world.Keeps g'.world
  story : g'.live.story = g.live.story
  units : g'.live.units = g.live.units

/-- A step stands still: its action never grafts anything in, or is that of a menu. -/
structure Pending.Stands (p : Pending) (g : Game σ) : Prop where
  action : ∃ a, g.world.action? p.node = some a ∧ a.Serves g.world ∧
    (a.kind.grafts = false ∨ a.kind = .menu) ∧ g.stage.futures.Asks p.future a.receive
  onward : g.live.onwardFrom p.node = g.live.onward

/-- Taking over an outcome. -/
structure Advances (g : Game σ) (o : Outcome) (g' : Game σ) : Prop extends Stays g g' where
  place : g.place? = some o.node
  action : ∃ a, g.world.action? o.node = some a ∧ a.Serves g.world ∧ ∃ r, o = a.receive r
  graph : g.world.graph.Gets o.node (g.graft? o) g'.world.graph
  current : g'.live.current = g'.world.graph.child? o.node
  onward : g'.live.onward = g.live.onwardFrom o.node
  started : g'.live.started = true
  pending : g'.live.pending = none
  history : ∃ c, g'.live.history = ⟨o, c⟩ :: g.live.history

/-- A step that waits for a future. -/
structure Halts (g : Game σ) (f : FutureId) (g' : Game σ) : Prop extends Stays g g' where
  place : g'.place? = g.place?
  graph : g'.world.graph = g.world.graph
  current : ∀ n, g'.live.current = some n → g.live.current = some n ∨ g.place? = some n
  onward : ∀ x, g.place? = some x → g'.live.onward = g.live.onwardFrom x
  started : g'.live.started = true
  pending : ∃ p, g'.live.pending = some p ∧ p.future = f ∧ p.Stands g'
  history : g'.live.history = g.live.history

/-- **What holds of every game** that is stepped through: what waits stands still, and before it has
begun a game is nowhere, and nothing was played of it. -/
structure Game.Stepping (g : Game σ) : Prop where
  unbegun : g.live.started = false →
    g.live.current = none ∧ g.live.pending = none ∧ g.live.history = []
  waits : ∀ p, g.live.pending = some p → p.Stands g

/-- **What holds of every game with every node in one list at most.** All that an element or an action
turns to is a list, and play is at nodes of lists only. -/
structure Poised (d : Sheet) (g : Game σ) : Prop where
  inSequence : ListsInSequence d.lists g.world.graph
  kinds : ∀ n ∈ d.nodes, ∀ a, g.world.action? n = some a → a.kind.Turns d.rows
  shapes : ∀ e s, g.world.shape? e = some s → s.Turns d.rows
  /-- A node that never grafts anything in remembers nothing. -/
  plain : ∀ n a, g.world.action? n = some a → a.kind.grafts = false →
    g.world.graph.resumes[n]? = none
  units : ∀ u ∈ g.live.units, u ∈ d.nodes
  current : ∀ n, g.live.current = some n → n ∈ d.nodes
  history : ∀ e ∈ g.live.history, e.outcome.node ∈ d.nodes
  unbegun : g.live.started = false →
    g.live.current = none ∧ g.live.pending = none ∧ g.live.history = []
  waits : ∀ p, g.live.pending = some p → p.node ∈ d.nodes ∧ p.Stands g

/-! ### What is grafted in -/

section Graft

variable {a : Action} {w w' : World} {store : Store} {choice : Option Nat} {chain : Option Chain}
  {d : Sheet}

theorem World.runs_of_graft? (hkind : a.kind.Turns d.rows)
    (hshape : ∀ e s, w.shape? e = some s → s.Turns d.rows)
    (h : w.graft? store a choice = some chain) : ∀ c, chain = some c → c.Runs d.rows := by
  rintro c rfl
  have hget : ∀ {chains : List (Option Chain)} {i : Nat}, (chains[i]?).join = some c →
      some c ∈ chains := by
    intro chains i hi
    cases hc : chains[i]? with
    | none => simp [hc] at hi
    | some c' =>
      obtain rfl : c' = some c := by simpa [hc] using hi
      exact List.mem_of_getElem? hc
  -- one case for each kind of action that grafts, and nothing is grafted by the others
  unfold World.graft? at h
  split at h
  · rename_i hk
    rw [hk] at hkind
    exact hkind c (Option.some.inj h)
  · rename_i hk
    rw [hk] at hkind
    exact hkind c (Option.some.inj h)
  · rename_i tests chains fallback hk hs
    exact hshape _ _ hs c (hget (Option.some.inj h))
  · rename_i chains hk hs
    obtain ⟨i, -, hi⟩ := Option.map_eq_some_iff.1 h
    exact hshape _ _ hs c (hget hi)
  · cases h

theorem Build.gets_of_choose {i : Nat} (hw : w.Sound) (ha : w.action? a.node = some a)
    (hs : a.Serves w) (hk : a.kind = .menu) (h : Build.choose a.node i w = .ok () w') :
    w.graph.Gets a.node (w.graft? store a (some i)) w'.graph := by
  unfold Action.Serves at hs
  rw [hk] at hs
  obtain ⟨chains, hs⟩ := hs
  obtain ⟨m, hm, hshape⟩ := World.get?_of_shape Menu hs rfl
  obtain rfl : m.choices.map (·.chain) = chains := by injection hshape
  obtain ⟨w₁, hgraph, -, hchoose⟩ := Build.choose_menu (i := i) ha hm (hw.id _ _ hm)
  obtain ⟨g, hg, rfl⟩ := Build.ofEdit_eq_ok_iff.1 (hchoose.symm.trans h)
  have hgraft : w.graft? store a (some i) = some ((m.choices.map (·.chain))[i]?).join := by
    unfold World.graft?
    rw [hk, hs]
    rfl
  rw [hgraft, ← hgraph]
  exact hg

theorem Build.choose_of_splice {i : Nat} (hw : w.Sound) (ha : w.action? a.node = some a)
    (hs : a.Serves w) (hk : a.kind = .menu)
    (h : ∀ chain, w.graft? store a (some i) = some chain →
      ∃ g, Graph.splice a.node chain w.graph = .ok () g) :
    ∃ w', Build.choose a.node i w = .ok () w' := by
  unfold Action.Serves at hs
  rw [hk] at hs
  obtain ⟨chains, hs⟩ := hs
  obtain ⟨m, hm, hshape⟩ := World.get?_of_shape Menu hs rfl
  obtain rfl : m.choices.map (·.chain) = chains := by injection hshape
  obtain ⟨w₁, hgraph, -, hchoose⟩ := Build.choose_menu (i := i) ha hm (hw.id _ _ hm)
  obtain ⟨g, hg⟩ := h _ (by unfold World.graft?; rw [hk, hs]; rfl)
  rw [← hgraph] at hg
  exact ⟨_, hchoose.trans (Build.ofEdit_eq_ok_iff.2 ⟨g, hg, rfl⟩)⟩

end Graft

/-! ### Next steps -/

variable {g g' : Game σ} {d : Sheet} {screen : Screen σ} {step : Step} {o : Outcome} {f : FutureId}
  {x : NodeId} {acc : Account σ}

theorem Game.place?_of_pending {p : Pending} (hp : g.live.pending = some p) :
    g.place? = some p.node := by
  unfold place?
  rw [hp]

theorem Game.place?_of_idle (hp : g.live.pending = none) : g.place? = g.live.aim.current := by
  unfold place?
  rw [hp, Live.aim_current]

theorem Live.onwardFrom_of_onward {l l' : Live} (hu : l'.units = l.units)
    (h : l'.onward = l.onwardFrom x) : l'.onwardFrom x = l'.onward := by
  rw [h]
  unfold onwardFrom
  rw [hu, h]
  unfold onwardFrom
  cases l.units.findIdx? (· = x) <;> rfl

theorem Game.stays_executed (hw : g.world.Sound) {s : Stage σ} {r : Executed}
    (hs : Perform.execute screen x g.stage = .ok r s) :
    ∃ a, g.world.action? x = some a ∧ a.node = x ∧ a.Serves g.world ∧ Executes a g.stage s r ∧
      Stays g ({ g with live := g.live.aim }.executed x s) := by
  obtain ⟨a, ha, hable, he⟩ := Perform.executes_of_execute hs
  obtain ⟨b, commit, -, hdone⟩ := Perform.execute_spec hw hs
  refine ⟨a, ha, hw.node x a ha, hable.serves, he, hdone.did.keeps, ?_, ?_⟩
  · exact (Live.story_reach _ _).trans (Live.story_aim _)
  · exact (Live.units_reach _ _).trans (Live.units_aim _)

/-- The answer of a step that waits is grafted in if it is a pick, and changes nothing else. -/
theorem Game.gets_of_resume {a : Action} {r : Resolution} {w : World}
    (hw : g.world.Sound) (ha : g.world.action? x = some a) (hs : a.Serves g.world)
    (hkind : a.kind.grafts = false ∨ a.kind = .menu)
    (hchoose : match (a.receive r).choice with
      | some index => Build.choose (a.receive r).node index g.world = .ok () w
      | none => w = g.world) :
    g.world.graph.Gets x (g.world.graft? g.store a (a.receive r).choice) w.graph := by
  obtain rfl : a.node = x := hw.node _ a ha
  rw [Action.receive_node] at hchoose
  rcases hkind with hkind | hmenu
  · have hne : a.kind ≠ .menu := by
      intro hmenu
      rw [hmenu] at hkind
      cases hkind
    rw [Action.receive_of_ne hne] at hchoose ⊢
    rw [World.graft?_of_not_grafts hkind]
    exact congrArg World.graph hchoose
  · rw [Action.receive_of_menu hmenu] at hchoose ⊢
    cases r with
    | proceed =>
      rw [show (a.outcome.answered .proceed).choice = none from rfl, World.graft?_menu hmenu]
      exact congrArg World.graph hchoose
    | choose i => exact Build.gets_of_choose hw ha hs hmenu hchoose

namespace Game.Stepping

theorem reached (h : Stepping g) (hx : g.live.aim.current = some x) :
    (g.live.aim.reach x).onward = g.live.onwardFrom x :=
  Live.onward_reach_aim (fun hb => (h.unbegun hb).1) hx

theorem started_of_pending (h : Stepping g) {p : Pending} (hp : g.live.pending = some p) :
    g.live.started = true := by
  cases hb : g.live.started with
  | true => rfl
  | false =>
    rw [(h.unbegun hb).2.1] at hp
    cases hp

theorem advances_of_pending (h : Stepping g) (hw : g.world.Sound) {p : Pending}
    (hp : g.live.pending = some p) (hn : Play.next screen g = .ok (.advanced o) g') :
    Advances g o g' := by
  -- what was pending is known from the invariant: the action, what it asks and the units behind it
  obtain ⟨⟨a, ha, hs, hkind, hasks⟩, honward⟩ := h.waits p hp
  have hkeeps := Play.keeps_of_next hw hn
  rw [Play.next_of_pending (Play.next_eq_ok_story hn) hp] at hn
  cases hf : g.stage.futures.result? p.future with
  | none =>
    rw [hf] at hn
    cases (EStateM.Result.ok.inj hn).1
  | some o' =>
    rw [hf] at hn
    obtain ⟨w, hchoose, hstep, rfl⟩ := Play.resume_eq_ok hn
    obtain rfl := Step.advanced.inj hstep
    obtain ⟨r, rfl⟩ := hasks.result hf
    have hnode : (a.receive r).node = p.node := by
      rw [Action.receive_node, hw.node _ a ha]
    have hgraph : g.world.graph.Gets p.node (g.world.graft? g.store a (a.receive r).choice)
        w.graph := Game.gets_of_resume hw ha hs hkind hchoose
    refine ⟨⟨hkeeps, rfl, rfl⟩, ?_, ⟨a, ?_, hs, r, rfl⟩, ?_, rfl, ?_, ?_, rfl, ⟨_, rfl⟩⟩
    · rw [Game.place?_of_pending hp, hnode]
    · rw [hnode, ha]
    · unfold Game.graft?
      rw [hnode, ha]
      exact hgraph
    · rw [hnode]
      exact honward.symm
    · exact h.started_of_pending hp

/-- Where no step waits, a node is executed, or the story ends. -/
theorem executes_of_idle (hp : g.live.pending = none) (hn : Play.next screen g = .ok step g') :
    (step = .terminated ∧ g.live.aim.current = none ∧
        g' = { g with live := { g.live.aim with terminated := true } }) ∨
      ∃ x, g.live.aim.current = some x ∧
        Play.execute screen x { g with live := g.live.aim } = .ok step g' := by
  rw [Play.next_of_idle (Play.next_eq_ok_story hn) hp] at hn
  cases hx : g.live.aim.current with
  | none =>
    rw [hx] at hn
    obtain ⟨hstep, hg⟩ := EStateM.Result.ok.inj hn
    exact .inl ⟨hstep.symm, rfl, hg.symm⟩
  | some x =>
    rw [hx] at hn
    exact .inr ⟨x, rfl, hn⟩

/-- The outcome of a node that does not wait is taken over at once. -/
theorem advances_of_idle (h : Stepping g) (hw : g.world.Sound) (hp : g.live.pending = none)
    (hn : Play.next screen g = .ok (.advanced o) g') : Advances g o g' := by
  have hkeeps := Play.keeps_of_next hw hn
  rcases executes_of_idle hp hn with ⟨hend, -⟩ | ⟨x, hx, hrun⟩
  · cases hend
  · obtain ⟨a', r, s, ha', hs, hstep⟩ := Play.execute_eq_ok hrun
    obtain ⟨a, ha, rfl, hserves, he, hstays⟩ := Game.stays_executed hw hs
    cases r with
    | suspended f => cases hstep.1
    | immediate o' =>
      obtain ⟨ho, rfl⟩ := hstep
      obtain rfl := Step.advanced.inj ho
      obtain ⟨rfl, hmenu⟩ := he.closes
      refine ⟨⟨hkeeps, hstays.story, hstays.units⟩, ?_, ⟨a, ha, hserves, .proceed, ?_⟩, ?_, rfl,
        h.reached hx, Live.started_reach _ _, ?_, ?_⟩
      · exact (Game.place?_of_idle hp).trans hx
      · rw [Action.receive_of_ne hmenu]
      · unfold Game.graft?
        rw [show g.world.action? a.outcome.node = some a from ha]
        exact he.graph
      · exact (Live.pending_reach _ _).trans ((Live.pending_aim _).trans hp)
      · exact ⟨_, congrArg (_ :: ·) ((Live.history_reach _ _).trans (Live.history_aim _))⟩

/-- **What taking over an outcome does.** -/
theorem advances (h : Stepping g) (hw : g.world.Sound)
    (hn : Play.next screen g = .ok (.advanced o) g') : Advances g o g' := by
  cases hp : g.live.pending with
  | some p => exact h.advances_of_pending hw hp hn
  | none => exact h.advances_of_idle hw hp hn

theorem halts_of_pending (h : Stepping g) (hw : g.world.Sound) {p : Pending}
    (hp : g.live.pending = some p) (hn : Play.next screen g = .ok (.suspended f) g') :
    Halts g f g' := by
  have hstands := h.waits p hp
  have hkeeps := Play.keeps_of_next hw hn
  rw [Play.next_of_pending (Play.next_eq_ok_story hn) hp] at hn
  cases hf : g.stage.futures.result? p.future with
  | some o' =>
    rw [hf] at hn
    obtain ⟨w, -, hstep, -⟩ := Play.resume_eq_ok hn
    cases hstep
  | none =>
    rw [hf] at hn
    obtain ⟨hstep, rfl⟩ := EStateM.Result.ok.inj hn
    refine ⟨⟨hkeeps, rfl, rfl⟩, rfl, rfl, fun n => .inl, fun x hx => ?_, ?_,
      ⟨p, hp, Step.suspended.inj hstep, hstands⟩, rfl⟩
    · rw [Game.place?_of_pending hp] at hx
      obtain rfl := Option.some.inj hx
      exact hstands.onward.symm
    · exact h.started_of_pending hp

theorem halts_of_idle (h : Stepping g) (hw : g.world.Sound) (hp : g.live.pending = none)
    (hn : Play.next screen g = .ok (.suspended f) g') : Halts g f g' := by
  have hkeeps := Play.keeps_of_next hw hn
  -- a step that ends the play is no suspension, so that a node was executed
  rcases executes_of_idle hp hn with ⟨hend, -⟩ | ⟨x, hx, hrun⟩
  · cases hend
  · obtain ⟨a', r, s, ha', hs, hstep⟩ := Play.execute_eq_ok hrun
    obtain ⟨a, ha, rfl, hserves, he, hstays⟩ := Game.stays_executed hw hs
    have hplace := (Game.place?_of_idle hp).trans hx
    cases r with
    | immediate o' => cases hstep.1
    | suspended f' =>
      obtain ⟨hf, rfl⟩ := hstep
      obtain rfl := Step.suspended.inj hf
      have hgraft := he.waits f rfl
      have hgraph := he.graph
      rw [hgraft] at hgraph
      have honward := h.reached hx
      refine ⟨⟨hkeeps, hstays.story, hstays.units⟩, hplace.symm, hgraph, fun n hn => .inr ?_,
        fun x hx' => ?_, Live.started_reach _ _, ⟨_, rfl, rfl, ⟨a, ?_, ?_, ?_, he.closes⟩, ?_⟩, ?_⟩
      · rw [hplace, ← hn, ← hx]
        exact (Live.current_reach _ _).symm
      · obtain rfl := Option.some.inj (hplace.symm.trans hx')
        exact honward
      · exact (hkeeps.action? _).trans ha
      · exact hserves.keeps hkeeps
      · exact (hserves.grafts hgraft).imp_right And.left
      · exact Live.onwardFrom_of_onward hstays.units honward
      · exact (Live.history_reach _ _).trans (Live.history_aim _)

/-- **What a step does that waits.** -/
theorem halts (h : Stepping g) (hw : g.world.Sound)
    (hn : Play.next screen g = .ok (.suspended f) g') : Halts g f g' := by
  cases hp : g.live.pending with
  | some p => exact h.halts_of_pending hw hp hn
  | none => exact h.halts_of_idle hw hp hn

end Game.Stepping

namespace Poised

theorem stepping (h : Poised d g) : g.Stepping := ⟨h.unbegun, fun p hp => (h.waits p hp).2⟩

/-- **What taking over an outcome does.** -/
theorem advances (h : Poised d g) (hw : g.world.Sound)
    (hn : Play.next screen g = .ok (.advanced o) g') : Advances g o g' := h.stepping.advances hw hn

/-- **What a step does that waits.** -/
theorem halts (h : Poised d g) (hw : g.world.Sound)
    (hn : Play.next screen g = .ok (.suspended f) g') : Halts g f g' := h.stepping.halts hw hn

/-- **Where a story ends**, play is at no node. -/
theorem ends (hn : Play.next screen g = .ok .terminated g') :
    g.place? = none ∧ g.live.pending = none ∧
      g' = { g with live := { g.live.aim with terminated := true } } := by
  cases hp : g.live.pending with
  | some p =>
    rw [Play.next_of_pending (Play.next_eq_ok_story hn) hp] at hn
    cases hf : g.stage.futures.result? p.future with
    | some o' =>
      rw [hf] at hn
      obtain ⟨w, -, hstep, -⟩ := Play.resume_eq_ok hn
      cases hstep
    | none =>
      rw [hf] at hn
      cases (EStateM.Result.ok.inj hn).1
  | none =>
    rcases Game.Stepping.executes_of_idle hp hn with ⟨-, hx, hg⟩ | ⟨x, -, he⟩
    · exact ⟨(Game.place?_of_idle hp).trans hx, rfl, hg⟩
    · obtain ⟨a, r, s, -, -, hstep⟩ := Play.execute_eq_ok he
      cases r <;> cases hstep.1

/-! ### What keeps the invariant -/

theorem mem_of_place? (h : Poised d g) (hx : g.place? = some x) : x ∈ d.nodes := by
  unfold Game.place? at hx
  cases hp : g.live.pending with
  | some p =>
    rw [hp] at hx
    exact Option.some.inj hx ▸ (h.waits p hp).1
  | none =>
    rw [hp] at hx
    simp only at hx
    rcases Option.or_eq_some_iff.1 hx with hc | ⟨-, ho⟩
    · exact h.current x hc
    · exact h.units x (List.mem_of_getElem? ho)

theorem runs_of_graft? (h : Poised d g) {chain : Option Chain} (hx : o.node ∈ d.nodes)
    (hg : g.graft? o = some chain) : ∀ c, chain = some c → c.Runs d.rows := by
  obtain ⟨a, ha, hgraft⟩ := Option.bind_eq_some_iff.1 hg
  exact World.runs_of_graft? (h.kinds o.node hx a ha) h.shapes hgraft

theorem advance (h : Poised d g) (ha : Advances g o g') : Poised d g' := by
  have hx := h.mem_of_place? ha.place
  obtain ⟨c, hhistory⟩ := ha.history
  -- what is grafted in is a list, and who grafts nothing in remembers nothing
  have hgraph : ListsInSequence d.lists g'.world.graph ∧ ∀ n a, g.world.action? n = some a →
      a.kind.grafts = false → g'.world.graph.resumes[n]? = none := by
    have hgets := ha.graph
    cases hgraft : g.graft? o with
    | none =>
      rw [hgraft] at hgets
      rw [show g'.world.graph = g.world.graph from hgets]
      exact ⟨h.inSequence, h.plain⟩
    | some chain =>
      rw [hgraft] at hgets
      refine ⟨h.inSequence.splice hx (fun c hc => ?_) hgets, fun n a hn hk => ?_⟩
      · obtain ⟨r, hr, hrc⟩ := h.runs_of_graft? hx hgraft c hc
        exact ⟨r, List.mem_append_right _ hr, hrc⟩
      · obtain ⟨-, -, hres⟩ := h.inSequence.toSinglyLinked.splice hgets
        rw [hres, if_neg, h.plain n a hn hk]
        rintro rfl
        unfold Game.graft? at hgraft
        rw [hn, Option.bind_some, World.graft?_of_not_grafts hk] at hgraft
        cases hgraft
  refine ⟨hgraph.1, fun n hn a hna => h.kinds n hn a ?_, fun e s he => h.shapes e s ?_,
    fun n a hna => hgraph.2 n a ?_, ?_, fun n hn => ?_, fun e he => ?_, fun hb => ?_, fun p hp => ?_⟩
  · rwa [← ha.keeps.action?]
  · rwa [← ha.keeps.shape?]
  · rwa [← ha.keeps.action?]
  · rw [ha.units]
    exact h.units
  · rw [ha.current] at hn
    exact hgraph.1.inside o.node hx n hn
  · rw [hhistory] at he
    rcases List.mem_cons.1 he with rfl | he
    · exact hx
    · exact h.history e he
  · rw [ha.started] at hb
    cases hb
  · rw [ha.pending] at hp
    cases hp

/-- A game with the same graph, in which all that was written stays. -/
theorem congr (h : Poised d g) (hk : g.world.Keeps g'.world)
    (hg : g'.world.graph = g.world.graph) (hu : g'.live.units = g.live.units)
    (hc : ∀ n, g'.live.current = some n → n ∈ d.nodes)
    (hh : ∀ e ∈ g'.live.history, e.outcome.node ∈ d.nodes)
    (hb : g'.live.started = false →
      g'.live.current = none ∧ g'.live.pending = none ∧ g'.live.history = [])
    (hp : ∀ p, g'.live.pending = some p → p.node ∈ d.nodes ∧ p.Stands g') : Poised d g' := by
  refine ⟨?_, fun n hn a ha => h.kinds n hn a ?_, fun e s he => h.shapes e s ?_,
    fun n a ha => ?_, ?_, hc, hh, hb, hp⟩
  · rw [hg]
    exact h.inSequence
  · rwa [← hk.action?]
  · rwa [← hk.shape?]
  · rw [hg]
    exact h.plain n a (by rwa [← hk.action?])
  · rw [hu]
    exact h.units

theorem halt (h : Poised d g) (ha : Halts g f g') : Poised d g' := by
  refine h.congr ha.keeps ha.graph ha.units (fun n hn => ?_) ?_ (fun hb => ?_) (fun p hp => ?_)
  · rcases ha.current n hn with hc | hplace
    · exact h.current n hc
    · exact h.mem_of_place? hplace
  · rw [ha.history]
    exact h.history
  · rw [ha.started] at hb
    cases hb
  · obtain ⟨q, hq, -, hstands⟩ := ha.pending
    obtain rfl := Option.some.inj (hq.symm.trans hp)
    exact ⟨h.mem_of_place? (ha.place ▸ Game.place?_of_pending hp), hstands⟩

theorem ended (h : Poised d g) (hx : g.place? = none) (hp : g.live.pending = none) :
    Poised d { g with live := { g.live.aim with terminated := true } } := by
  have hcurrent : g.live.aim.current = none := (Game.place?_of_idle hp).symm.trans hx
  refine h.congr (.refl _) rfl g.live.units_aim (fun n hn => ?_) (fun e he => ?_) (fun hb => ?_)
    (fun p hq => ?_)
  · cases hcurrent.symm.trans hn
  · exact h.history e (g.live.history_aim ▸ he)
  · have hstarted := Live.started_aim (Option.or_eq_none_iff.1 (g.live.aim_current ▸ hcurrent)).1
    cases hstarted.symm.trans hb
  · cases ((Live.pending_aim _).trans hp).symm.trans hq

theorem place?_ended (hx : g.place? = none) (hp : g.live.pending = none) :
    ({ g with live := { g.live.aim with terminated := true } } : Game σ).place? = none := by
  have haim : g.live.aim.current = none := (Game.place?_of_idle hp).symm.trans hx
  unfold Game.place?
  simp only [Live.pending_aim, hp]
  show g.live.aim.current.or g.live.aim.onward = none
  rw [haim, Option.none_or]
  exact Live.onward_aim_of_none (g.live.aim_current ▸ haim)

theorem newGame (h : Poised d g) (now : Instant) : Poised d (g.newGame now) := by
  refine h.congr (.refl _) rfl rfl (fun n hn => ?_) (fun e he => absurd he List.not_mem_nil) nofun nofun
  exact h.units n (List.mem_of_head? hn)

theorem answer (h : Poised d g) (answer : FutureId × Resolution) :
    Poised d (g.answered answer) := by
  refine h.congr (.refl _) rfl rfl h.current h.history h.unbegun fun p hp => ?_
  obtain ⟨hnode, ⟨a, ha, hs, hk, hasks⟩, honward⟩ := h.waits p hp
  exact ⟨hnode, ⟨a, ha, hs, hk, hasks.settle answer⟩, honward⟩

end Poised

end Storyline
