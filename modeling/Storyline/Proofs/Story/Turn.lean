import Storyline.Proofs.Story.Statement

/-!
# The turn of a tree

* `Tree.Turned`: a stage after the turn of the first tree of an agenda. The outlook is the one that
  the tree turns to, and its row stands ahead of the rest of the agenda in the graph;
* `Perform.execute_tree`: executing the node of a tree that stands in the world does not fail and is
  answered at once. What is left is its turn, for a menu after its pick is grafted in.
-/

namespace Storyline

open Effect

namespace Tree

/-- A stage after the turn of the first tree of an agenda. -/
structure Turned (F : List (List Tree)) (t : Tree) (rest : List Tree) (s s' : Stage Headless) :
    Prop where
  keeps : s.world.Keeps s'.world
  outlook : s'.outlook = (t.turn s.outlook).2
  inSequence : RowsInSequence F s'.world.graph
  ready : Ready F s'.world.graph ((t.turn s.outlook).1 ++ rest)
  next : s'.world.graph.child? t.node = (nodes ((t.turn s.outlook).1 ++ rest)).head?

variable {F : List (List Tree)} {t : Tree} {rest row : List Tree} {s s' : Stage Headless} {w : World}

/-- Statements and scripts are turned without a change of the graph. -/
theorem Turned.of_plain (h : RowsInSequence F s.world.graph) (ha : Ready F s.world.graph (t :: rest))
    (hrole : t.role.IsPlain) (hrows : t.rows = []) (hk : s.world.Keeps s'.world)
    (hg : s'.world.graph = s.world.graph) (ho : s'.outlook = (t.turn s.outlook).2) :
    Turned F t rest s s' := by
  have hrow : (t.turn s.outlook).1 = [] := by
    rcases t.turn_row s.outlook with he | he
    · exact he
    · rw [hrows] at he
      cases he
  refine ⟨hk, ho, hg ▸ h, ?_, ?_⟩
  · rw [hrow, hg]
    exact ha.tail
  · rw [hrow, hg]
    exact ha.edge_head (h.plain t ha.head_mem hrole)

theorem RowsInSequence.ofEdit_graft (h : RowsInSequence F w.graph) (ha : Ready F w.graph (t :: rest))
    (hrow : row = [] ∨ row ∈ t.rows) (hrole : ¬ t.role.IsPlain) :
    ∃ g, Build.ofEdit (Graph.splice t.node (chain row)) w = .ok () { w with graph := g } ∧
      RowsInSequence F g ∧ Ready F g (row ++ rest) ∧ g.child? t.node = (nodes (row ++ rest)).head? := by
  obtain ⟨g, hsplice, hg⟩ := h.graft ha hrow hrole
  exact ⟨g, Build.ofEdit_eq_ok_iff.2 ⟨g, hsplice, rfl⟩, hg⟩

/-- How executing the node of a tree ends: with an answer that is there at once, after the turn of
the tree, or for a menu ahead of it, where the turn is over once the pick is grafted in. -/
def Ended (F : List (List Tree)) (t : Tree) (rest : List Tree) (s s' : Stage Headless)
    (r : Executed) : Prop :=
  ∃ o, Answered o s'.futures r ∧ o.node = t.node ∧
    match o.choice with
    | none => Turned F t rest s s'
    | some i => (∃ f, r = .suspended f) ∧ s'.world = s.world ∧
        ∃ w, Build.choose t.node i s'.world = .ok () w ∧ Turned F t rest s { s' with world := w }

end Tree

theorem Build.choose_menu {w : World} {a : Action} {m : Menu} {i : Nat} (ha : w.action? a.node = some a)
    (hm : w.elements.get? a.callee = some (.menu m)) (hid : m.id = a.callee) :
    ∃ w', w'.graph = w.graph ∧ w'.calls = w.calls ∧ Build.choose a.node i w =
      Build.ofEdit (Graph.splice a.node ((m.choices.map (·.chain))[i]?).join) w' := by
  unfold choose
  rw [bind_get_apply, bind_of_ok (ofExcept_eq_ok_iff.2 ⟨World.calleeOf_eq_ok_iff.2 ⟨a, ha, rfl⟩, rfl⟩),
    bind_of_ok (find_eq_ok_iff.2 ⟨hm, rfl⟩), List.getElem?_map]
  unfold Menu.pick?
  cases m.choices[i]? with
  | none => exact ⟨w, rfl, rfl, rfl⟩
  | some c =>
    refine ⟨w.put { m with tracked := m.tracked.change ⟨some i⟩ ⟨i, m.chosen⟩ }, rfl, ?_, rfl⟩
    exact World.calls_put hm (show m.id = _ from hid) rfl

namespace Perform

open Storyline.Tree

variable {F : List (List Tree)} {t : Tree} {rest : List Tree} {s : Stage Headless} {a : Action}

theorem execute_scene {chain : Option Chain} {w : World} (hk : a.kind = .scene chain)
    (hs : s.world.shape? a.callee = some (.plain .scene))
    (hg : Build.ofEdit (Graph.splice a.node chain) s.world = .ok () w) :
    ∃ s', executeAction Headless.screen a s = .ok (.immediate a.outcome) s' ∧ s'.world = w ∧
      s'.store = s.store ∧ s'.screen.picks = s.screen.picks := by
  obtain ⟨c, hx, -⟩ := World.get?_of_shape Scene hs rfl
  unfold executeAction
  simp only [hk]
  rw [bind_of_ok (build_find_eq_ok_iff.2 ⟨hx, rfl⟩), bind_send_apply]
  have hbuild : build (Build.ofEdit (Graph.splice a.node chain))
      (s.sent Headless.screen (.scene c)) =
        .ok () { s.sent Headless.screen (.scene c) with world := w } :=
    build_eq_ok_iff.2 ⟨w, hg, rfl⟩
  exact ⟨_, bind_of_ok hbuild, rfl, rfl, rfl⟩

theorem execute_script {handler : Handler} (hw : s.world.Sound) (hk : a.kind = .script)
    (hs : s.world.shape? a.callee = some (.script handler)) :
    ∃ s', executeAction Headless.screen a s = .ok (.immediate a.outcome) s' ∧
      s'.world.graph = s.world.graph ∧
        s'.outlook = ((Role.script a.callee handler).turn a.node s.outlook).2 := by
  obtain ⟨c, hx, hshape⟩ := World.get?_of_shape Script hs rfl
  obtain rfl : c.handler = handler := by injection hshape
  have hid : (Element.script (c.run a.node s.store).1).id = a.callee := hw.id _ (.script c) hx
  have hcalls : s.world.calls a.callee = c.calls := by
    rw [World.calls, hx]
    rfl
  unfold executeAction
  simp only [hk]
  rw [bind_of_ok (build_find_eq_ok_iff.2 ⟨hx, rfl⟩)]
  simp only [bind_get_apply, bind_modify_apply, bind_put_apply]
  refine ⟨_, rfl, rfl, ?_⟩
  show (⟨(c.handler c.calls a.node s.store).1, s.screen.picks,
    World.calls (s.world.put (c.run a.node s.store).1)⟩ : Outlook) = _
  -- the call is counted for this script alone
  have hput : World.calls (s.world.put (c.run a.node s.store).1) =
      Function.update s.world.calls a.callee (c.calls + 1) := by
    funext e
    show (((s.world.elements.put (.script (c.run a.node s.store).1)).get? e).map
      Element.calls).getD 0 = _
    rw [Elements.get?_put, hid]
    by_cases he : a.callee = e
    · subst he
      rw [if_pos rfl, Function.update_self]
      rfl
    · rw [if_neg he, Function.update_of_ne (Ne.symm he)]
      rfl
  rw [hput]
  show _ = (⟨(c.handler (s.world.calls a.callee) a.node s.store).1, s.screen.picks,
    Function.update s.world.calls a.callee (s.world.calls a.callee + 1)⟩ : Outlook)
  rw [hcalls]

/-- A condition grafts in the branch of the first predicate that holds. -/
theorem execute_condition {tests : List Predicate} {branches : List (Option Chain)}
    {fallback : Option (Option Chain)} (hw : s.world.Sound) (hk : a.kind = .condition)
    (hs : s.world.shape? a.callee = some (.condition tests branches fallback)) :
    ∃ w, w.graph = s.world.graph ∧ w.calls = s.world.calls ∧
      ∀ g, Build.ofEdit (Graph.splice a.node
          ((branches ++ fallback.toList)[(firstHolding tests s.store).1]?).join) w =
            .ok () { w with graph := g } →
        ∃ s', executeAction Headless.screen a s = .ok (.immediate a.outcome) s' ∧
          s'.world = { w with graph := g } ∧ s'.store = (firstHolding tests s.store).2 ∧
            s'.screen.picks = s.screen.picks := by
  obtain ⟨c, hx, hshape⟩ := World.get?_of_shape Condition hs rfl
  obtain ⟨rfl, rfl, rfl⟩ := Shape.condition.inj hshape
  obtain ⟨hchain, hstore⟩ := c.run_eq s.store
  have hid : (Element.condition (c.run s.store).2.1).id = a.callee :=
    hw.id _ (.condition c) hx
  refine ⟨s.world.put (c.run s.store).2.1, rfl,
    World.calls_put (a := (c.run s.store).2.1) hx hid rfl, fun g hg => ?_⟩
  rw [← hchain] at hg
  unfold executeAction
  simp only [hk]
  rw [bind_of_ok (build_find_eq_ok_iff.2 ⟨hx, rfl⟩)]
  simp only [bind_get_apply, bind_modify_apply, bind_put_apply]
  rw [bind_of_ok (build_eq_ok_iff.2 ⟨_, hg, rfl⟩)]
  exact ⟨_, rfl, rfl, hstore, rfl⟩

theorem execute_menu {chains : List (Option Chain)} (hk : a.kind = .menu)
    (hs : s.world.shape? a.callee = some (.menu chains)) :
    ∃ f s', executeAction Headless.screen a s = .ok (.suspended f) s' ∧ s'.world = s.world ∧
      s'.store = s.store ∧ s'.screen.picks = s.screen.picks.tail ∧
        s'.futures.result? f = some (a.outcome.withChoice (s.screen.picks.headD 0)) := by
  obtain ⟨m, hx, -⟩ := World.get?_of_shape Menu hs rfl
  unfold executeAction
  simp only [hk]
  rw [bind_of_ok (build_find_eq_ok_iff.2 ⟨hx, rfl⟩)]
  exact ⟨_, _, rfl, rfl, rfl, rfl, s.futures.result?_settle_add _ _⟩

/-! ### Every role of a tree -/

section Roles

variable {rows : List (List Tree)}

theorem keeps_of_executeAction (hw : s.world.Sound) {r : Executed} {s' : Stage Headless}
    (hr : executeAction Headless.screen a s = .ok r s') : s.world.Keeps s'.world := by
  obtain ⟨commit, hp⟩ := executeAction_spec hw hr
  exact hp.did.keeps

theorem ended_statement (hw : s.world.Sound) (h : RowsInSequence F s.world.graph)
    (ha : Ready F s.world.graph (.mk a.node .statement rows :: rest))
    (hacts : ActsAs s.world a (rows.map Tree.chain) .statement) :
    ∃ r s', executeAction Headless.screen a s = .ok r s' ∧
      Ended F (.mk a.node .statement rows) rest s s' r := by
  obtain ⟨hrows, kind, hk, hs⟩ := hacts
  obtain ⟨r, s', hr, hst⟩ := execute_statement hw hk hs
  refine ⟨r, s', hr, a.outcome, hst.answered, rfl, ?_⟩
  exact .of_plain h ha trivial (List.map_eq_nil_iff.1 hrows) (keeps_of_executeAction hw hr) hst.graph
    hst.outlook

theorem ended_script {e : ElementId} {handler : Handler} (hw : s.world.Sound)
    (h : RowsInSequence F s.world.graph)
    (ha : Ready F s.world.graph (.mk a.node (.script e handler) rows :: rest))
    (hacts : ActsAs s.world a (rows.map Tree.chain) (.script e handler)) :
    ∃ r s', executeAction Headless.screen a s = .ok r s' ∧
      Ended F (.mk a.node (.script e handler) rows) rest s s' r := by
  obtain ⟨hrows, hk, rfl, hs⟩ := hacts
  obtain ⟨s', hr, hg, ho⟩ := execute_script hw hk hs
  refine ⟨_, s', hr, a.outcome, rfl, rfl, ?_⟩
  exact .of_plain h ha trivial (List.map_eq_nil_iff.1 hrows) (keeps_of_executeAction hw hr) hg ho

/-- A scene has a single row, which is grafted in. -/
theorem ended_scene (hw : s.world.Sound) (h : RowsInSequence F s.world.graph)
    (ha : Ready F s.world.graph (.mk a.node .scene rows :: rest))
    (hacts : ActsAs s.world a (rows.map Tree.chain) .scene) :
    ∃ r s', executeAction Headless.screen a s = .ok r s' ∧
      Ended F (.mk a.node .scene rows) rest s s' r := by
  obtain ⟨chain, hrows, hk, hs⟩ := hacts
  obtain ⟨row, rfl, rfl⟩ : ∃ row, rows = [row] ∧ Tree.chain row = chain := by
    obtain ⟨row, hrow, hc⟩ := List.map_eq_singleton_iff.1 hrows
    exact ⟨row, hrow, hc⟩
  obtain ⟨g, hg, hsequence, hready, hnext⟩ := h.ofEdit_graft ha (.inr List.mem_cons_self) not_false
  obtain ⟨s', hr, hworld, hstore, hpicks⟩ := execute_scene hk hs hg
  refine ⟨_, s', hr, a.outcome, rfl, rfl, keeps_of_executeAction hw hr, ?_, ?_, ?_, ?_⟩
  · unfold Stage.outlook
    rw [hstore, hpicks, hworld]
    rfl
  · rw [hworld]
    exact hsequence
  · rw [hworld]
    exact hready
  · rw [hworld]
    exact hnext

theorem ended_condition {tests : List Predicate} (hw : s.world.Sound)
    (h : RowsInSequence F s.world.graph)
    (ha : Ready F s.world.graph (.mk a.node (.condition tests) rows :: rest))
    (hacts : ActsAs s.world a (rows.map Tree.chain) (.condition tests)) :
    ∃ r s', executeAction Headless.screen a s = .ok r s' ∧
      Ended F (.mk a.node (.condition tests) rows) rest s s' r := by
  obtain ⟨hk, branches, fallback, hrows, hs⟩ := hacts
  obtain ⟨w, hgraph, hcalls, hrun⟩ := execute_condition hw hk hs
  have hrow := turn_row (.mk a.node (.condition tests) rows) s.outlook
  rw [← hgraph] at h ha
  obtain ⟨g, hg, hsequence, hready, hnext⟩ := h.ofEdit_graft ha hrow not_false
  obtain ⟨s', hr, hworld, hstore, hpicks⟩ := hrun g (by
    rw [← hrows]
    exact (congrArg (fun c => Build.ofEdit (Graph.splice a.node c) w)
      (chain_getD rows _)).trans hg)
  refine ⟨_, s', hr, a.outcome, rfl, rfl, keeps_of_executeAction hw hr, ?_, ?_, ?_, ?_⟩
  · show (⟨s'.store, s'.screen.picks, s'.world.calls⟩ : Outlook) = _
    rw [hstore, hpicks, hworld, show World.calls { w with graph := g } = w.calls from rfl, hcalls]
    rfl
  · rw [hworld]
    exact hsequence
  · rw [hworld]
    exact hready
  · rw [hworld]
    exact hnext

/-- A menu waits, and grafts a row in only when the pick that it is answered with is adopted. -/
theorem ended_menu (hw : s.world.Sound) (h : RowsInSequence F s.world.graph)
    (ha : Ready F s.world.graph (.mk a.node .menu rows :: rest))
    (hact : s.world.action? a.node = some a)
    (hacts : ActsAs s.world a (rows.map Tree.chain) .menu) :
    ∃ r s', executeAction Headless.screen a s = .ok r s' ∧
      Ended F (.mk a.node .menu rows) rest s s' r := by
  obtain ⟨hk, hs⟩ := hacts
  obtain ⟨f, s', hr, hworld, hstore, hpicks, hresult⟩ := execute_menu hk hs
  obtain ⟨m, hx, hshape⟩ := World.get?_of_shape Menu hs rfl
  obtain hm : m.choices.map (·.chain) = rows.map Tree.chain := by injection hshape
  obtain ⟨w, hgraph, hcalls, hchoose⟩ := Build.choose_menu (i := s.screen.picks.headD 0)
    hact hx (hw.id _ _ hx)
  have hrow := turn_row (.mk a.node .menu rows) s.outlook
  rw [← hgraph] at h ha
  obtain ⟨g, hg, hsequence, hready, hnext⟩ := h.ofEdit_graft ha hrow not_false
  have hdone : Build.choose a.node (s.screen.picks.headD 0) s.world =
      .ok () { w with graph := g } := by
    rw [hchoose, hm]
    exact (congrArg (fun c => Build.ofEdit (Graph.splice a.node c) w)
      (chain_getD rows _)).trans hg
  refine ⟨_, s', hr, _, hresult, rfl, ⟨f, rfl⟩, hworld, { w with graph := g }, ?_, ?_, ?_,
    hsequence, hready, hnext⟩
  · rw [hworld]
    exact hdone
  · obtain ⟨b, commit, -, -, hdid⟩ := Build.choose_spec hw hdone
    exact hdid.keeps
  · show (⟨s'.store, s'.screen.picks, World.calls { w with graph := g }⟩ : Outlook) = _
    rw [hstore, hpicks, show World.calls { w with graph := g } = w.calls from rfl, hcalls]
    rfl

end Roles

/-- **The turn of a tree** that stands in the world comes without a failure, and at once. -/
theorem execute_tree (hw : s.world.Sound) (h : RowsInSequence F s.world.graph)
    (ha : Ready F s.world.graph (t :: rest)) (ht : t.Stands s.world) :
    ∃ r s', execute Headless.screen t.node s = .ok r s' ∧ Ended F t rest s s' r := by
  obtain ⟨a, hact, hacts⟩ := ht
  have hexec : execute Headless.screen t.node s = executeAction Headless.screen a s := by
    unfold execute
    rw [bind_get_apply]
    simp only [hact]
    rfl
  rw [hexec]
  obtain ⟨node, role, rows⟩ := t
  obtain rfl : a.node = node := hw.node _ _ hact
  cases role with
  | statement => exact ended_statement hw h ha hacts
  | script e handler => exact ended_script hw h ha hacts
  | scene => exact ended_scene hw h ha hacts
  | condition tests => exact ended_condition hw h ha hacts
  | menu => exact ended_menu hw h ha hact hacts

end Perform

end Storyline
