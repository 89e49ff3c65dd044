import Storyline.Proofs.Graph.Aborted
import Storyline.Proofs.World.Stint

/-!
# Calls that fail half way

Some calls of an author hand over nodes: composites link them and list them, branches and menu entries
link them and keep them. Each of these changes the world in several steps, and no step is taken back
where a later one fails.

* `Call.HalfDone c w x done w'`: such a call fails for `x` where `done` was set of the edges between
  its nodes, and leaves `w'`;
* `Build.action_eq_error_iff`, `Build.declare_eq_error_iff`: where composing and declaring fail, and
  `Call.run_eq_error_iff`: so do the calls, and not otherwise;
* `Graph.Steady g g'`: the nodes of `g` have their edges in `g'` and go on as they did;
* `HalfDone.steady`, `HalfDone.inPlace`: they do after a call that failed if all edges that it set had
  been in place, and only then, unless nodes are named twice;
* `World.Lived.half_done`: **what such a call leaves where it fails**.
-/

namespace Storyline

open Effect
open Storyline.Graph (setAll hops)

/-! ### Elements as they are expected -/

namespace Elements

variable {es : Elements} {α : Type} [Elemental α] [LawfulElemental α] {e : ElementId}

theorem expect_eq_ok_iff {k : Kind} {y : Element} :
    es.expect k e = .ok y ↔ es.get? e = some y ∧ y.kind = k := by
  unfold expect
  cases hy : es.get? e with
  | none => simp
  | some y' =>
    simp only [Option.some_inj]
    split
    · rename_i hk
      rw [Except.ok.injEq]
      exact ⟨fun h => ⟨h, h ▸ hk⟩, And.left⟩
    · rename_i hk
      refine ⟨nofun, ?_⟩
      rintro ⟨rfl, hk'⟩
      exact absurd hk' hk

/-- An element of another kind is not found, and what is said of it is the same. -/
theorem find_eq_error_iff {x : ElementError} :
    es.find α e = .error x ↔ es.expect (Elemental.kind α) e = .error x := by
  unfold find expect
  cases hy : es.get? e with
  | none => simp
  | some y =>
    simp only
    cases ha : Elemental.ofElement? (α := α) y with
    | some a =>
      have hk := (LawfulElemental.kind_eq_iff (α := α) y).2
        ⟨a, (LawfulElemental.ofElement?_eq_some_iff y a).1 ha⟩
      rw [if_pos hk]
      exact ⟨nofun, nofun⟩
    | none =>
      have hk : y.kind ≠ Elemental.kind α := fun hk => by
        obtain ⟨a, rfl⟩ := (LawfulElemental.kind_eq_iff (α := α) y).1 hk
        cases ha.symm.trans ((LawfulElemental.ofElement?_eq_some_iff _ a).2 rfl)
      simp [hk]

theorem put_self {y : Element} (h : es.get? e = some y) (hid : y.id = e) : es.put y = es := by
  have htable : (es.put y).table = es.table := by
    refine Std.ExtTreeMap.ext_getElem? fun z => ?_
    refine (get?_put es y z).trans ?_
    split
    · rename_i hz
      rw [← hz, hid]
      exact h.symm
    · rfl
  exact congrArg Elements.mk htable

end Elements

/-! ### Calls that hand over nodes -/

/-- A scene or a story that lists further nodes. Other elements list none. -/
def Element.listing (nodes : List NodeId) : Element → Element
  | scene s => scene { s with actions := s.actions ++ nodes }
  | story s => story { s with actions := s.actions ++ nodes }
  | x => x

theorem Element.id_listing (nodes : List NodeId) (y : Element) : (y.listing nodes).id = y.id := by
  cases y <;> rfl

namespace Call

/-- The element that nodes are handed to, and its kind. -/
def target? : Call → Option (Kind × ElementId)
  | sceneAction e _ => some (.scene, e)
  | storyAction e _ => some (.story, e)
  | when e _ _ | elseWhen e _ _ | otherwise e _ => some (.condition, e)
  | choose e _ _ => some (.menu, e)
  | _ => none

/-- The composite action that runs the nodes. -/
def composite? : Call → Option (Option Chain → ActionKind)
  | sceneAction .. => some .scene
  | storyAction .. => some .story
  | _ => none

/-- What a condition says against one more branch. -/
def objection? : Call → Element → Option String
  | when .., .condition c =>
    if c.branches.isEmpty then none else some "condition already has an If branch"
  | elseWhen .., .condition c => if c.branches.isEmpty then some "ElseIf declared before If" else none
  | otherwise .., .condition c => c.fallback.map fun _ => "condition already has an Else branch"
  | _, _ => none

/-- The element that nodes are handed to is there. -/
def Finds (c : Call) (w : World) (y : Element) : Prop :=
  ∃ k e, c.target? = some (k, e) ∧ w.elements.expect k e = .ok y

/-- A call that hands over nodes fails where `done` was set of the edges between them. -/
inductive HalfDone (c : Call) (w : World) :
    GameError → List (NodeId × Option NodeId) → World → Prop
  | element {k : Kind} {e : ElementId} {x : ElementError} (hc : c.target? = some (k, e))
      (hx : w.elements.expect k e = .error x) : HalfDone c w (.element x) [] w
  /-- An edge is refused. By then the nodes are listed. -/
  | edge {y : Element} {done rest : List (NodeId × Option NodeId)} {a : NodeId} {b? : Option NodeId}
      {x : GraphError} {g : Graph Action} (hy : c.Finds w y)
      (hedges : hops c.nodes = done ++ (a, b?) :: rest) (hdone : setAll done w.graph = .ok () g)
      (hx : w.graph.setChild a b? = .error x) :
      HalfDone c w (.graph x) done
        { w with graph := g, elements := w.elements.put (y.listing c.nodes) }
  /-- The nodes are linked, and then the condition objects to the branch. -/
  | branch {y : Element} {problem : String} {g : Graph Action} (hy : c.Finds w y)
      (hdone : setAll (hops c.nodes) w.graph = .ok () g) (hp : c.objection? y = some problem) :
      HalfDone c w (.element (.invalidConfig problem)) (hops c.nodes) { w with graph := g }
  /-- The nodes are linked and the composite is there, but the first node may not refer back to it. -/
  | head {y : Element} {kind : Option Chain → ActionKind} {a : NodeId} {x : GraphError}
      {g g' : Graph Action} (hy : c.Finds w y) (hkind : c.composite? = some kind)
      (hdone : setAll (hops c.nodes) w.graph = .ok () g)
      (hg : g.insertContent ⟨w.ids.next⟩
        { node := ⟨w.ids.next⟩, callee := y.id, kind := kind (Chain.ofNodes? c.nodes) } = .ok g')
      (ha : c.nodes.head? = some a) (hx : g'.setParent a (some ⟨w.ids.next⟩) = .error x) :
      HalfDone c w (.graph x) (hops c.nodes)
        { w with
          ids := w.ids.take.2, graph := g', elements := w.elements.put (y.listing c.nodes) }

end Call

/-! ### What the calls do -/

namespace Build

variable {w w' : World} {e : ElementId} {lists : List (List NodeId)} {nodes : List NodeId} {x : GameError}
  {chain : Option Chain}

theorem construct_apply (nodes : List NodeId) (w : World) :
    construct nodes w = match setAll (hops nodes) w.graph with
      | .ok _ g => .ok (Chain.ofNodes? nodes) { w with graph := g }
      | .error y g => .error (.graph y) { w with graph := g } := by
  unfold construct ofEdit Graph.link
  rw [Graph.linkAll_eq_setAll]
  cases hg : setAll (hops nodes) w.graph with
  | ok u g => rw [bind_of_ok hg]; rfl
  | error y g => rw [bind_of_error hg]

theorem construct_eq_ok_iff : construct nodes w = .ok chain w' ↔
    ∃ g, setAll (hops nodes) w.graph = .ok () g ∧ chain = Chain.ofNodes? nodes ∧
      w' = { w with graph := g } := by
  rw [construct_apply]
  cases setAll (hops nodes) w.graph <;> simp [eq_comm]

theorem construct_eq_error_iff : construct nodes w = .error x w' ↔
    ∃ y g, setAll (hops nodes) w.graph = .error y g ∧ x = .graph y ∧ w' = { w with graph := g } := by
  rw [construct_apply]
  cases setAll (hops nodes) w.graph <;> simp [eq_comm]

/-- Numbers that were not handed out stay free while edges are set. -/
theorem exists_insert_of_setAll {g : Graph Action} (hahead : w.Ahead)
    (hg : setAll (hops nodes) w.graph = .ok () g) (e : ElementId) (kind : ActionKind) :
    ∃ g', g.insertContent ⟨w.ids.next⟩ { node := ⟨w.ids.next⟩, callee := e, kind } = .ok g' := by
  have hahead' : ({ w with graph := g } : World).Ahead := fun k hk =>
    ((Graph.keeps_of_setAll hg).1.contains ⟨k⟩).trans (hahead k hk)
  exact hahead'.exists_insert e kind

theorem newAction_of_insert {kind : ActionKind} {g : Graph Action}
    (hg : w.graph.insertContent ⟨w.ids.next⟩ ⟨⟨w.ids.next⟩, e, kind⟩ = .ok g) :
    newAction e kind w = .ok ⟨w.ids.next⟩ { w with ids := w.ids.take.2, graph := g } := by
  rw [newAction_apply, hg]

/-- The head of a chain fails to refer back if the graph does not let it. -/
theorem refer_eq_error_iff {node : NodeId} :
    (match chain with
      | some c => do
        ofEdit (Graph.attempt (·.setParent c.head (some node)))
        return node
      | none => return node : Build NodeId) w = .error x w' ↔
    ∃ c y, chain = some c ∧ w.graph.setParent c.head (some node) = .error y ∧ x = .graph y ∧ w' = w := by
  cases chain with
  | none => simp
  | some c =>
    simp only
    cases hs : w.graph.setParent c.head (some node) with
    | ok g =>
      have hedit : ofEdit (Graph.attempt (·.setParent c.head (some node))) w =
          .ok () { w with graph := g } := ofEdit_eq_ok_iff.2 ⟨g, Graph.attempt_of_ok hs, rfl⟩
      rw [bind_of_ok hedit]
      simp [hs]
    | error y =>
      have hedit : ofEdit (Graph.attempt (·.setParent c.head (some node))) w = .error (.graph y) w := by
        simp only [ofEdit, Graph.attempt, hs]
      rw [bind_of_error hedit]
      simp [hs, eq_comm]

theorem head?_eq_some_iff_chain {n : NodeId} :
    nodes.head? = some n ↔ ∃ c, Chain.ofNodes? nodes = some c ∧ c.head = n := by
  cases nodes <;> simp [Chain.ofNodes?]

section Composing

variable {α : Type} [Composing α] [LawfulElemental α] {a : α}

/-- **A composite fails** where its nodes cannot be linked, or where the first of them may not refer
back to it. -/
theorem action_eq_error_iff (hahead : w.Ahead)
    (ha : w.elements.get? e = some (Elemental.toElement a)) :
    author (⟨e⟩ : Handle α) (·.action lists) w = .error x w' ↔
      (∃ y g, setAll (hops lists.flatten) w.graph = .error y g ∧ x = .graph y ∧
        w' = { w.put (Composing.withActions a (Composing.actions a ++ lists.flatten)) with
          graph := g }) ∨
      ∃ g g' n y, setAll (hops lists.flatten) w.graph = .ok () g ∧
        g.insertContent ⟨w.ids.next⟩
          ⟨⟨w.ids.next⟩, e, Composing.composite α (Chain.ofNodes? lists.flatten)⟩ = .ok g' ∧
        lists.flatten.head? = some n ∧ g'.setParent n (some ⟨w.ids.next⟩) = .error y ∧ x = .graph y ∧
        w' = { w.put (Composing.withActions a (Composing.actions a ++ lists.flatten)) with
          ids := w.ids.take.2, graph := g' } := by
  unfold Author.action
  rw [author_finish, World.find_eq_ok_iff.2 ha]
  simp only
  rw [bind_of_ok (find_eq_ok_iff.2 ⟨ha, rfl⟩)]
  unfold put
  rw [bind_modify_apply, bind_apply_eq_error, construct_eq_error_iff]
  -- the linking fails, or, behind it, giving the head of the list its parent
  refine or_congr .rfl ?_
  constructor
  · rintro ⟨chain, w₁, hlink, herror⟩
    obtain ⟨g, hg, rfl, rfl⟩ := construct_eq_ok_iff.1 hlink
    obtain ⟨g', hg'⟩ := exists_insert_of_setAll hahead hg e
      (Composing.composite α (Chain.ofNodes? lists.flatten))
    rw [bind_of_ok (newAction_of_insert hg')] at herror
    obtain ⟨c, y, hc, hy, rfl, rfl⟩ := refer_eq_error_iff.1 herror
    exact ⟨g, g', c.head, y, hg, hg', head?_eq_some_iff_chain.2 ⟨c, hc, rfl⟩, hy, rfl, rfl⟩
  · rintro ⟨g, g', n, y, hg, hg', hn, hy, rfl, rfl⟩
    obtain ⟨c, hc, rfl⟩ := head?_eq_some_iff_chain.1 hn
    refine ⟨_, _, construct_eq_ok_iff.2 ⟨g, hg, rfl, rfl⟩, ?_⟩
    rw [bind_of_ok (newAction_of_insert hg')]
    exact refer_eq_error_iff.2 ⟨c, y, hc, hy, rfl, rfl⟩

end Composing

section Declaring

variable {α : Type} [Elemental α] [LawfulElemental α] {a : α}
  {f : α → List NodeId × Option Chain → Except GameError α}

/-- **A declaration fails** where its nodes cannot be linked, or where the element objects to them. -/
theorem declare_eq_error_iff (ha : w.elements.get? e = some (Elemental.toElement a)) :
    declare (⟨e⟩ : Handle α) lists f w = .error x w' ↔
    (∃ y g, setAll (hops lists.flatten) w.graph = .error y g ∧ x = .graph y ∧
      w' = { w with graph := g }) ∨
    ∃ g, setAll (hops lists.flatten) w.graph = .ok () g ∧
      f a (lists.flatten, Chain.ofNodes? lists.flatten) = .error x ∧ w' = { w with graph := g } := by
  unfold declare
  rw [author_apply, World.find_eq_ok_iff.2 ha]
  have hconstruct := construct_apply lists.flatten w
  -- the edges come first, and a branch is refused only when they are all set
  cases hg : setAll (hops lists.flatten) w.graph with
  | error y g =>
    rw [hg] at hconstruct
    have hd : detached lists w = .error (.graph y) { w with graph := g } := bind_of_error hconstruct
    simp only
    rw [bind_of_error (bind_of_error hd)]
    simp [eq_comm]
  | ok u g =>
    rw [hg] at hconstruct
    have hd : detached lists w = .ok (lists.flatten, Chain.ofNodes? lists.flatten) { w with graph := g } :=
      bind_of_ok hconstruct
    have hfind : find α e { w with graph := g } = .ok a { w with graph := g } :=
      find_eq_ok_iff.2 ⟨ha, rfl⟩
    simp only
    cases hf : f a (lists.flatten, Chain.ofNodes? lists.flatten) with
    | error y =>
      have hthrow : (ofExcept (f a (lists.flatten, Chain.ofNodes? lists.flatten)) : Build α)
          { w with graph := g } = .error y { w with graph := g } := by rw [hf]; rfl
      rw [bind_of_error ((bind_of_ok hd).trans ((bind_of_ok hfind).trans (bind_of_error hthrow)))]
      simp [eq_comm]
    | ok b =>
      have hpure : (ofExcept (f a (lists.flatten, Chain.ofNodes? lists.flatten)) : Build α)
          { w with graph := g } = .ok b { w with graph := g } := ofExcept_eq_ok_iff.2 ⟨hf, rfl⟩
      have hput : (do
          let p ← detached lists
          let b ← find α e
          put (← ofExcept (f b p)) : Build Unit) w = .ok () (World.put { w with graph := g } b) :=
        (bind_of_ok hd).trans ((bind_of_ok hfind).trans (bind_of_ok hpure))
      rw [bind_of_ok hput]
      simp

end Declaring

end Build

/-! ### Where the calls fail -/

section Found

variable {α : Type} [Elemental α] [LawfulElemental α] {w : World} {e : ElementId} {a : α}

theorem Elements.expect_of_get? {es : Elements} (h : es.get? e = some (Elemental.toElement a)) :
    es.expect (Elemental.kind α) e = .ok (Elemental.toElement a) :=
  expect_eq_ok_iff.2 ⟨h, (LawfulElemental.kind_eq_iff _).2 ⟨a, rfl⟩⟩

theorem World.find_eq_error_iff {x : GameError} : w.find α e = .error x ↔
    ∃ y, w.elements.expect (Elemental.kind α) e = .error y ∧ x = .element y := by
  simp only [← Elements.find_eq_error_iff]
  unfold World.find
  cases w.elements.find α e <;> simp [Except.mapError, eq_comm]

end Found

namespace Call

variable {w w' : World} {c : Call} {k : Kind} {e : ElementId} {x : GameError} {y : Element}

theorem finds_iff (hc : c.target? = some (k, e)) :
    c.Finds w y ↔ w.elements.expect k e = .ok y := by
  refine ⟨?_, fun hy => ⟨k, e, hc, hy⟩⟩
  rintro ⟨k', e', hc', hy⟩
  obtain ⟨rfl, rfl⟩ := Prod.mk.inj (Option.some.inj (hc.symm.trans hc'))
  exact hy

theorem Finds.unique {y' : Element} (hy : c.Finds w y) (hy' : c.Finds w y') : y' = y := by
  obtain ⟨k, e, hc, hy⟩ := hy
  exact Except.ok.inj (((finds_iff hc).1 hy').symm.trans hy)

theorem composite?_of_objection {problem : String} (h : c.objection? y = some problem) :
    c.composite? = none := by
  cases c with
  | sceneAction | storyAction => cases h
  | _ => rfl

theorem kind_of_composite? (hc : c.target? = some (k, e)) (hkind : c.composite? = none) :
    k = .condition ∨ k = .menu := by
  cases c with
  | sceneAction | storyAction => cases hkind
  | when | elseWhen | otherwise =>
    cases hc
    exact .inl rfl
  | choose =>
    cases hc
    exact .inr rfl
  | _ => cases hc

theorem Finds.put_listing (hy : c.Finds w y) (hw : w.Sound) (hkind : c.composite? = none) :
    w.elements.put (y.listing c.nodes) = w.elements := by
  obtain ⟨k, e, hc, hy⟩ := hy
  obtain ⟨hget, rfl⟩ := Elements.expect_eq_ok_iff.1 hy
  have hlist : y.listing c.nodes = y := by
    cases y with
    | scene | story => rcases kind_of_composite? hc hkind with h | h <;> cases h
    | _ => rfl
  rw [hlist, Elements.put_self hget (hw.id e y hget)]

theorem exists_halfDone_of_missing {z : ElementError} (hc : c.target? = some (k, e))
    (hz : w.elements.expect k e = .error z) :
    (∃ done, c.HalfDone w x done w') ↔ x = .element z ∧ w' = w := by
  have hnone : ∀ y, ¬ c.Finds w y := fun y hy => nomatch hz.symm.trans ((finds_iff hc).1 hy)
  constructor
  · rintro ⟨done, h⟩
    cases h with
    | element hc' hx =>
      obtain ⟨rfl, rfl⟩ := Prod.mk.inj (Option.some.inj (hc.symm.trans hc'))
      exact ⟨congrArg GameError.element (Except.error.inj (hx.symm.trans hz)), rfl⟩
    | edge hy => exact absurd hy (hnone _)
    | branch hy => exact absurd hy (hnone _)
    | head hy => exact absurd hy (hnone _)
  · rintro ⟨rfl, rfl⟩
    exact ⟨[], .element hc hz⟩

theorem exists_halfDone_of_found (hc : c.target? = some (k, e))
    (hy : w.elements.expect k e = .ok y) : (∃ done, c.HalfDone w x done w') ↔
    (∃ z g, setAll (hops c.nodes) w.graph = .error z g ∧ x = .graph z ∧
      w' = { w with graph := g, elements := w.elements.put (y.listing c.nodes) }) ∨
    (∃ problem g, setAll (hops c.nodes) w.graph = .ok () g ∧ c.objection? y = some problem ∧
      x = .element (.invalidConfig problem) ∧ w' = { w with graph := g }) ∨
    ∃ kind g g' n z, c.composite? = some kind ∧ setAll (hops c.nodes) w.graph = .ok () g ∧
      g.insertContent ⟨w.ids.next⟩ ⟨⟨w.ids.next⟩, y.id, kind (Chain.ofNodes? c.nodes)⟩ = .ok g' ∧
      c.nodes.head? = some n ∧ g'.setParent n (some ⟨w.ids.next⟩) = .error z ∧ x = .graph z ∧
      w' = { w with
        ids := w.ids.take.2, graph := g', elements := w.elements.put (y.listing c.nodes) } := by
  have hfinds : c.Finds w y := (finds_iff hc).2 hy
  constructor
  · -- what is half done tells which step has failed
    rintro ⟨done, h⟩
    cases h with
    | element hc' hx =>
      obtain ⟨rfl, rfl⟩ := Prod.mk.inj (Option.some.inj (hc.symm.trans hc'))
      exact nomatch hx.symm.trans hy
    | edge hy' hedges hdone hx =>
      obtain rfl := hfinds.unique hy'
      exact .inl ⟨_, _, Graph.setAll_eq_error_iff.2 ⟨_, _, _, _, hedges, hdone, hx⟩, rfl, rfl⟩
    | branch hy' hdone hp =>
      obtain rfl := hfinds.unique hy'
      exact .inr (.inl ⟨_, _, hdone, hp, rfl, rfl⟩)
    | head hy' hkind hdone hg ha hx =>
      obtain rfl := hfinds.unique hy'
      exact .inr (.inr ⟨_, _, _, _, _, hkind, hdone, hg, ha, hx, rfl, rfl⟩)
  · -- and the step that failed tells what is half done
    rintro (⟨z, g, hg, rfl, rfl⟩ | ⟨problem, g, hg, hp, rfl, rfl⟩ |
      ⟨kind, g, g', n, z, hkind, hg, hg', hn, hz, rfl, rfl⟩)
    · obtain ⟨done, a, b?, rest, hedges, hdone, hx⟩ := Graph.setAll_eq_error_iff.1 hg
      exact ⟨done, .edge hfinds hedges hdone hx⟩
    · exact ⟨_, .branch hfinds hg hp⟩
    · exact ⟨_, .head hfinds hkind hg hg' hn hz⟩

section Composing

variable {α : Type} [Composing α] [LawfulElemental α] {lists : List (List NodeId)}

theorem composing_eq_error_iff (hw : w.Sound) (hahead : w.Ahead)
    (hrun : c.run = do return [← Build.author (⟨e⟩ : Handle α) (·.action lists)])
    (hc : c.target? = some (Elemental.kind α, e)) (hnodes : c.nodes = lists.flatten)
    (hkind : c.composite? = some (Composing.composite α)) (hobj : ∀ y, c.objection? y = none)
    (hlist : ∀ a : α, (Elemental.toElement a).listing c.nodes =
      Elemental.toElement (Composing.withActions a (Composing.actions a ++ c.nodes))) :
    c.run w = .error x w' ↔ ∃ done, c.HalfDone w x done w' := by
  have hanswer : c.run w = .error x w' ↔
      Build.author (⟨e⟩ : Handle α) (·.action lists) w = .error x w' := by
    rw [hrun, bind_apply_eq_error]
    simp
  rw [hanswer]
  cases hf : w.find α e with
  | error z =>
    obtain ⟨z, hz, rfl⟩ := World.find_eq_error_iff.1 hf
    rw [exists_halfDone_of_missing hc hz]
    unfold Author.action
    rw [Build.author_finish, hf]
    simp [eq_comm]
  | ok a =>
    have ha := World.find_eq_ok_iff.1 hf
    rw [exists_halfDone_of_found hc (Elements.expect_of_get? ha), Build.action_eq_error_iff hahead ha,
      hlist, hkind, hobj, hw.id e _ ha, hnodes]
    simp [World.put]

end Composing

section Declaring

variable {α : Type} [Elemental α] [LawfulElemental α] {lists : List (List NodeId)}
  {f : α → List NodeId × Option Chain → Except GameError α}

theorem declaring_eq_error_iff (hw : w.Sound)
    (hrun : c.run = Build.declare (⟨e⟩ : Handle α) lists f)
    (hc : c.target? = some (Elemental.kind α, e)) (hnodes : c.nodes = lists.flatten)
    (hkind : c.composite? = none)
    (hobj : ∀ a p x, f a p = .error x ↔
      ∃ problem, c.objection? (Elemental.toElement a) = some problem ∧
        x = .element (.invalidConfig problem))
    (hlist : ∀ a : α, (Elemental.toElement a).listing c.nodes = Elemental.toElement a) :
    c.run w = .error x w' ↔ ∃ done, c.HalfDone w x done w' := by
  rw [hrun]
  cases hf : w.find α e with
  | error z =>
    obtain ⟨z, hz, rfl⟩ := World.find_eq_error_iff.1 hf
    rw [exists_halfDone_of_missing hc hz]
    unfold Build.declare
    rw [Build.author_apply, hf]
    simp [eq_comm]
  | ok a =>
    have ha := World.find_eq_ok_iff.1 hf
    rw [exists_halfDone_of_found hc (Elements.expect_of_get? ha), Build.declare_eq_error_iff ha,
      hlist, hkind, Elements.put_self ha (hw.id e _ ha), hnodes]
    simp only [hobj, reduceCtorEq, false_and, exists_false, or_false]
    refine or_congr .rfl ⟨?_, ?_⟩
    · rintro ⟨g, hg, ⟨problem, hp, rfl⟩, rfl⟩
      exact ⟨problem, g, hg, hp, rfl, rfl⟩
    · rintro ⟨problem, g, hg, hp, rfl, rfl⟩
      exact ⟨g, hg, ⟨problem, hp, rfl⟩, rfl⟩

end Declaring

/-- **A call that hands over nodes fails** half done, and not otherwise. -/
theorem run_eq_error_iff (hw : w.Sound) (hahead : w.Ahead) (hc : c.target? = some (k, e)) :
    c.run w = .error x w' ↔ ∃ done, c.HalfDone w x done w' := by
  cases c with
  | sceneAction e lists =>
    exact composing_eq_error_iff (α := Scene) hw hahead rfl rfl rfl rfl (fun _ => rfl) fun _ => rfl
  | storyAction e lists =>
    exact composing_eq_error_iff (α := Story) hw hahead rfl rfl rfl rfl (fun _ => rfl) fun _ => rfl
  | when e p lists =>
    refine declaring_eq_error_iff hw (run_when e lists p) rfl rfl rfl ?_ fun _ => rfl
    intro c q x
    show (c.setWhen _).mapError _ = _ ↔ ∃ problem, ite _ _ _ = _ ∧ _
    unfold Condition.setWhen
    cases c.branches.isEmpty <;> simp [Except.mapError, eq_comm]
  | elseWhen e p lists =>
    refine declaring_eq_error_iff hw (run_elseWhen e lists p) rfl rfl rfl ?_ fun _ => rfl
    intro c q x
    show (c.addElseWhen _).mapError _ = _ ↔ ∃ problem, ite _ _ _ = _ ∧ _
    unfold Condition.addElseWhen
    cases c.branches.isEmpty <;> simp [Except.mapError, eq_comm]
  | otherwise e lists =>
    refine declaring_eq_error_iff hw (run_otherwise e lists) rfl rfl rfl ?_ fun _ => rfl
    intro c q x
    show (c.setOtherwise _ _).mapError _ = _ ↔ ∃ problem, c.fallback.map _ = _ ∧ _
    unfold Condition.setOtherwise
    cases c.fallback <;> simp [Except.mapError, eq_comm]
  | choose e prompt lists =>
    refine declaring_eq_error_iff hw (run_choose e lists prompt) rfl rfl rfl ?_ fun _ => rfl
    -- a menu takes whatever it is offered
    intro m q x
    constructor
    · intro h
      cases h
    · rintro ⟨problem, hp, -⟩
      cases hp
  | _ => cases hc

end Call

/-! ### Nodes that stay as they are -/

namespace Graph

variable {γ : Type} {g g₁ g' : Graph γ} {id : NodeId} {content : γ}

/-- All nodes of a graph have their children and their parent in another one, and play goes on behind
them as before. The other graph may have more nodes. -/
structure Steady (g g' : Graph γ) : Prop where
  children : ∀ n, g.contains n = true → g'.children n = g.children n
  parent? : ∀ n, g.contains n = true → g'.parent? n = g.parent? n
  continuation : ∀ n, g.contains n = true → g'.continuation n = g.continuation n

namespace Steady

theorem refl (g : Graph γ) : g.Steady g := ⟨fun _ _ => rfl, fun _ _ => rfl, fun _ _ => rfl⟩

theorem of_insertContent (hg : g.insertContent id content = .ok g') : g.Steady g' := by
  obtain ⟨hid, -, hres, hget⟩ := insert_eq_ok hg
  have hold : ∀ n, g.contains n = true → g'.get? n = g.get? n := by
    intro n hn
    rw [hget, if_neg]
    rintro rfl
    simp [contains_eq, hid] at hn
  refine ⟨fun n hn => ?_, fun n hn => ?_, fun n hn => ?_⟩
  · rw [Graph.children, Graph.children, hold n hn]
  · rw [Graph.parent?, Graph.parent?, hold n hn]
  · rw [Graph.continuation, Graph.continuation, hres, child?, child?, hold n hn]

theorem eq_self (h : g.Steady g') (hn : SameNodes g g') (hr : g'.resumes = g.resumes) : g' = g := by
  have hnone : ∀ n, g.contains n = false → g.get? n = none ∧ g'.get? n = none := by
    intro n hout
    refine ⟨by simpa [contains_eq] using hout, ?_⟩
    rw [← hn.contains] at hout
    simpa [contains_eq] using hout
  refine eq_of_edges hn hr (fun n => ?_) fun n => ?_
  · cases hin : g.contains n with
    | true => exact h.children n hin
    | false => simp [Graph.children, hnone n hin]
  · cases hin : g.contains n with
    | true => exact h.parent? n hin
    | false => simp [Graph.parent?, hnone n hin]

theorem of_steady (h : g₁.Steady g') (hn : SameNodes g g₁) (hg : g.Steady g') : g.Steady g₁ where
  children n hin := (h.children n (hn.contains n ▸ hin)).symm.trans (hg.children n hin)
  parent? n hin := (h.parent? n (hn.contains n ▸ hin)).symm.trans (hg.parent? n hin)
  continuation n hin := (h.continuation n (hn.contains n ▸ hin)).symm.trans (hg.continuation n hin)

end Steady

end Graph

namespace Call.HalfDone

variable {w w' : World} {c : Call} {k : Kind} {e : ElementId} {x : GameError} {y : Element}
  {done : List (NodeId × Option NodeId)}

/-- The edges that were set are the first of those between the nodes. -/
theorem exists_rest (h : c.HalfDone w x done w') : ∃ rest, hops c.nodes = done ++ rest := by
  cases h with
  | element => exact ⟨_, rfl⟩
  | edge _ hedges => exact ⟨_, hedges⟩
  | branch | head => exact ⟨[], (List.append_nil _).symm⟩

/-- A composite that could not be referred to is there, and nothing else was changed than the edges. -/
theorem exists_setAll (h : c.HalfDone w x done w') : ∃ g, setAll done w.graph = .ok () g ∧
    (w'.graph = g ∨ ∃ n a, g.insertContent n a = .ok w'.graph) := by
  cases h with
  | element => exact ⟨w.graph, rfl, .inl rfl⟩
  | edge _ _ hdone => exact ⟨_, hdone, .inl rfl⟩
  | branch _ hdone => exact ⟨_, hdone, .inl rfl⟩
  | head _ _ hdone hg => exact ⟨_, hdone, .inr ⟨_, _, hg⟩⟩

theorem exists_steady (h : c.HalfDone w x done w') : ∃ g, setAll done w.graph = .ok () g ∧
    g.Steady w'.graph := by
  obtain ⟨g, hg, hgraph | ⟨n, a, hgraph⟩⟩ := h.exists_setAll
  · exact ⟨g, hg, hgraph ▸ .refl _⟩
  · exact ⟨g, hg, .of_insertContent hgraph⟩

theorem action? (h : c.HalfDone w x done w') {n : NodeId} {a : Action} (ha : w.action? n = some a) :
    w'.action? n = some a := by
  obtain ⟨g, hg, hgraph⟩ := h.exists_setAll
  have ha : g.content? n = some a := ((Graph.keeps_of_setAll hg).1.content? n).trans ha
  rcases hgraph with hgraph | ⟨m, b, hgraph⟩
  · rwa [World.action?, hgraph]
  · obtain ⟨hm, -, -, hget⟩ := Graph.insert_eq_ok hgraph
    rw [World.action?, Graph.content?, hget, if_neg]
    · exact ha
    · rintro rfl
      simp [Graph.content?, hm] at ha

/-- **The nodes are as they were** if the edges that were set had been in place. -/
theorem steady (h : c.HalfDone w x done w')
    (hd : ∀ a b?, (a, b?) ∈ done → w.graph.InPlace a b?) : w.graph.Steady w'.graph := by
  obtain ⟨g, hg, hsteady⟩ := h.exists_steady
  rwa [Graph.eq_self_of_inPlace hd hg] at hsteady

theorem inPlace (h : c.HalfDone w x done w') (hnodes : c.nodes.Nodup)
    (hsteady : w.graph.Steady w'.graph) : ∀ a b?, (a, b?) ∈ done → w.graph.InPlace a b? := by
  obtain ⟨g, hg, hg'⟩ := h.exists_steady
  obtain ⟨rest, hrest⟩ := h.exists_rest
  obtain ⟨hn, hr⟩ := Graph.keeps_of_setAll hg
  obtain rfl := (hg'.of_steady hn hsteady).eq_self hn hr
  exact Graph.inPlace_of_setAll ((Graph.distinct_hops hnodes).of_append hrest) hg

theorem eq_self_of_missing {z : ElementError} (h : c.HalfDone w x done w')
    (hc : c.target? = some (k, e)) (hz : w.elements.expect k e = .error z) : w' = w :=
  ((exists_halfDone_of_missing hc hz).1 ⟨_, h⟩).2

theorem elements_eq (h : c.HalfDone w x done w') (hw : w.Sound) (hy : c.Finds w y) :
    w'.elements = w.elements.put (y.listing c.nodes) := by
  cases h with
  | element hc hx => exact nomatch hx.symm.trans ((finds_iff hc).1 hy)
  | edge hy' | head hy' => rw [hy.unique hy']
  | branch hy' _ hp =>
    obtain rfl := hy.unique hy'
    exact (hy.put_listing hw (composite?_of_objection hp)).symm

/-- There are nodes to list: a composite of nothing does not fail. -/
theorem nodes_ne_nil (h : c.HalfDone w x done w') (hy : c.Finds w y) (hkind : c.composite? ≠ none) :
    c.nodes ≠ [] := by
  intro hnil
  cases h with
  | element hc hx => exact nomatch hx.symm.trans ((finds_iff hc).1 hy)
  | edge _ hedges => simp [hnil, hops] at hedges
  | branch _ _ hp => exact hkind (composite?_of_objection hp)
  | head _ _ _ _ ha => simp [hnil] at ha

theorem eq_of_composite? (h : c.HalfDone w x done w') (hw : w.Sound) (hkind : c.composite? = none) :
    w' = { w with graph := w'.graph } := by
  cases h with
  | element | branch => rfl
  | edge hy => rw [hy.put_listing hw hkind]
  | head _ hsome => exact nomatch hsome.symm.trans hkind

end Call.HalfDone

/-! ### The main statement -/

/-- **Calls that hand over nodes are not all or nothing.** They fail half done, and not otherwise. All
actions stay, and so do all other elements. A scene or a story that was found lists the nodes from then
on, of which there are some, although no composite is answered; a condition or a menu is as it was. The
edges that were set before the failure stay set. If all of them had been in place, every node that was
there has its children, its parent and its continuation as before, and only then, unless nodes are named
twice. -/
theorem World.Lived.half_done {fair : World → Call → Prop} {w : World} {c : Call} {k : Kind}
    {e : ElementId} (h : w.Lived fair) (hc : c.target? = some (k, e)) :
    (∀ x w', c.run w = .error x w' ↔ ∃ done, c.HalfDone w x done w') ∧
      ∀ x done w', c.HalfDone w x done w' →
        (∀ n a, w.action? n = some a → w'.action? n = some a) ∧
        (∀ z, z ≠ e → w'.elements.get? z = w.elements.get? z) ∧
        (∀ y, w.elements.expect k e = .ok y →
          w'.elements.get? e = some (y.listing c.nodes) ∧ (c.composite? ≠ none → c.nodes ≠ [])) ∧
        (∀ z, w.elements.expect k e = .error z → w' = w) ∧
        (c.composite? = none → w' = { w with graph := w'.graph }) ∧
        (∃ g, setAll done w.graph = .ok () g ∧ g.Steady w'.graph) ∧
        ((∀ a b?, (a, b?) ∈ done → w.graph.InPlace a b?) → w.graph.Steady w'.graph) ∧
        (c.nodes.Nodup → w.graph.Steady w'.graph → ∀ a b?, (a, b?) ∈ done → w.graph.InPlace a b?) := by
  obtain ⟨use, hl⟩ := h.ledger
  refine ⟨fun x w' => Call.run_eq_error_iff h.sound hl.ahead hc, fun x done w' hd => ?_⟩
  refine ⟨fun n a => hd.action?, fun z hz => ?_, fun y hy => ?_, fun z => hd.eq_self_of_missing hc,
    hd.eq_of_composite? h.sound, hd.exists_steady, hd.steady, hd.inPlace⟩
  · -- of the elements only the one that is called changes, and only by its list
    cases hy : w.elements.expect k e with
    | error x => rw [hd.eq_self_of_missing hc hy]
    | ok y =>
      rw [hd.elements_eq h.sound ((Call.finds_iff hc).2 hy), Elements.get?_put, Element.id_listing,
        h.sound.id e y (Elements.expect_eq_ok_iff.1 hy).1, if_neg hz.symm]
  · have hfinds := (Call.finds_iff hc).2 hy
    refine ⟨?_, hd.nodes_ne_nil hfinds⟩
    rw [hd.elements_eq h.sound hfinds, Elements.get?_put, Element.id_listing,
      h.sound.id e y (Elements.expect_eq_ok_iff.1 hy).1, if_pos rfl]

/-! ### A bench -/

/-- Two lines that follow each other and a third one, a scene, and a condition with its first branch. -/
def bench : World := World.new.callAll [
  .character "Ann" {},
  .scene "Park" {},
  .condition,
  .append ⟨1⟩ (.say (.plain "a")),
  .append ⟨1⟩ (.say (.plain "b")),
  .append ⟨1⟩ (.say (.plain "c")),
  .construct [⟨4⟩, ⟨5⟩],
  .when ⟨3⟩ (.constant true) []]

theorem bench_lived : bench.Lived fun _ _ => True := .of_authored (World.Authored.new.callAll _)

theorem bench_setAll : ∃ g, setAll [(⟨4⟩, some ⟨6⟩)] bench.graph = .ok () g := by
  obtain ⟨g, hg⟩ : ∃ g, bench.graph.setChild ⟨4⟩ (some ⟨6⟩) = .ok g :=
    Graph.setChild_eq_ok_iff.2 ⟨by decide +kernel, by rintro _ ⟨⟩; decide +kernel⟩
  exact ⟨g, Graph.setAll_singleton.trans (Graph.attempt_of_ok hg)⟩

theorem bench_not_inPlace : ¬ bench.graph.InPlace ⟨4⟩ (some ⟨6⟩) := fun h =>
  absurd h.1 (by decide +kernel)

/-- A scene action that names a node that is not there has listed all its nodes, and has led the first
line away from the second. A second `when` is refused, and has done so too. -/
theorem half_done_bench : (bench.Lived fun _ _ => True) ∧
    (∃ y w', bench.elements.get? ⟨2⟩ = some y ∧
      (Call.sceneAction ⟨2⟩ [[⟨4⟩, ⟨6⟩], [⟨99⟩]]).run bench = .error (.graph (.nodeNotFound ⟨99⟩)) w' ∧
      w'.elements.get? ⟨2⟩ = some (y.listing [⟨4⟩, ⟨6⟩, ⟨99⟩]) ∧ ¬ bench.graph.Steady w'.graph) ∧
    ∃ w', (Call.when ⟨3⟩ (.constant true) [[⟨4⟩, ⟨6⟩]]).run bench =
        .error (.element (.invalidConfig "condition already has an If branch")) w' ∧
      ¬ bench.graph.Steady w'.graph := by
  obtain ⟨g, hg⟩ := bench_setAll
  refine ⟨bench_lived, ?_, ?_⟩
  · -- the list was extended and two edges were set before the missing node was met
    obtain ⟨hiff, hleft⟩ := bench_lived.half_done
      (c := .sceneAction ⟨2⟩ [[⟨4⟩, ⟨6⟩], [⟨99⟩]]) rfl
    obtain ⟨y, hy, hk⟩ : ∃ y, bench.elements.get? ⟨2⟩ = some y ∧ y.kind = .scene :=
      Option.map_eq_some_iff.1 (by decide +kernel)
    have hfound := Elements.expect_eq_ok_iff.2 ⟨hy, hk⟩
    have hx : bench.graph.setChild ⟨6⟩ (some ⟨99⟩) = .error (.nodeNotFound ⟨99⟩) :=
      Graph.setChild_eq_error_iff.2 (by decide +kernel : bench.graph.checkChild ⟨6⟩ ⟨99⟩ = _)
    have hd := Call.HalfDone.edge (c := .sceneAction ⟨2⟩ [[⟨4⟩, ⟨6⟩], [⟨99⟩]])
      ⟨_, _, rfl, hfound⟩ rfl hg hx
    obtain ⟨-, -, hlist, -, -, -, -, hplace⟩ := hleft _ _ _ hd
    refine ⟨y, _, hy, (hiff _ _).2 ⟨_, hd⟩, (hlist y hfound).1, fun hsteady => ?_⟩
    have hnodup : [(⟨4⟩ : NodeId), ⟨6⟩, ⟨99⟩].Nodup := by decide
    exact bench_not_inPlace (hplace hnodup hsteady _ _ List.mem_cons_self)
  · -- the edge of the branch was set before the condition refused it
    obtain ⟨hiff, hleft⟩ := bench_lived.half_done
      (c := .when ⟨3⟩ (.constant true) [[⟨4⟩, ⟨6⟩]]) rfl
    obtain ⟨y, hy, hp⟩ : ∃ y, bench.elements.get? ⟨3⟩ = some y ∧
        (Call.when ⟨3⟩ (.constant true) [[⟨4⟩, ⟨6⟩]]).objection? y =
          some "condition already has an If branch" :=
      Option.bind_eq_some_iff.1 (by decide +kernel)
    have hk : (bench.elements.get? ⟨3⟩).map Element.kind = some .condition := by decide +kernel
    rw [hy] at hk
    have hd := Call.HalfDone.branch (c := .when ⟨3⟩ (.constant true) [[⟨4⟩, ⟨6⟩]])
      ⟨_, _, rfl, Elements.expect_eq_ok_iff.2 ⟨hy, Option.some.inj hk⟩⟩ hg hp
    obtain ⟨-, -, -, -, -, -, -, hplace⟩ := hleft _ _ _ hd
    refine ⟨_, (hiff _ _).2 ⟨_, hd⟩, fun hsteady => ?_⟩
    have hnodup : [(⟨4⟩ : NodeId), ⟨6⟩].Nodup := by decide
    exact bench_not_inPlace (hplace hnodup hsteady _ _ List.mem_cons_self)

end Storyline
