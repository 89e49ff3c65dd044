import Storyline.Proofs.Story.Draft

/-!
# What is written into a world

* `World.Sized w`: everything in a world was numbered by its counter;
* `World.Gains w w' a`: a new node that holds the action `a`;
* `World.Linked ns w w'`: distinct nodes without children are linked;
* `World.Listed s ns w w'`: nodes are linked and put into the list of a slot;
* `World.Aside w w'`: nothing that was there before is touched.
-/

namespace Storyline

open Effect Storyline.Tree

/-- Shapes of elements that nothing was put into yet. -/
def Shape.IsNew : Shape → Prop
  | plain _ | script _ | story [] | condition [] [] none | menu [] => True
  | _ => False

namespace World

variable {w w' w'' : World} {a : Action} {ns : List NodeId} {e : ElementId} {kind : ActionKind}

/-- Everything in a world was numbered by its counter. -/
structure Sized (w : World) : Prop where
  nodes : ∀ n, w.graph.contains n = true → n.val < w.ids.next
  elements : ∀ e s, w.shape? e = some s → e.val < w.ids.next
  root : w.graph.contains w.root = true ∧ w.graph.isRoot w.root = true

/-- A new node that holds an action. -/
structure Gains (w w' : World) (a : Action) : Prop where
  node : a.node = ⟨w.ids.next⟩
  ids : w'.ids.next = w.ids.next + 1
  root : w'.root = w.root
  shape? : w'.shape? = w.shape?
  graph : w.graph.Extended [] w'.graph
  nodes : ∀ n, w'.graph.contains n = true → n = a.node ∨ w.graph.contains n = true
  action? : w'.action? a.node = some a
  movable : w'.graph.Movable a.node
  child? : w'.graph.child? a.node = none

/-- Nodes that may be linked: distinct ones without children. -/
structure Linkable (w : World) (ns : List NodeId) : Prop where
  nodup : ns.Nodup
  movable : ∀ n ∈ ns, w.graph.Movable n
  bare : ∀ n ∈ ns, w.graph.child? n = none

/-- Nodes are linked. -/
structure Linked (ns : List NodeId) (w w' : World) : Prop where
  ids : w'.ids = w.ids
  root : w'.root = w.root
  same : w.graph.SameNodes w'.graph
  graph : w.graph.Extended ns w'.graph
  links : ∀ a k, (a, k) ∈ links ns none → w'.graph.child? a = k

/-- What a failing call does to nodes that were given to it. -/
def Spent (ns : List NodeId) (w w' : World) : Prop :=
  w' = w ∨ Linked ns w w' ∧ w'.shape? = w.shape?

/-- What nodes that are put into a list add to its element. -/
inductive Adds (ns : List NodeId) : Slot → Shape → Shape → Prop
  | branch {e : ElementId} {tests : List Predicate} {chains : List (Option Chain)}
      {fallback : Option (Option Chain)} {p : Predicate} :
      Adds ns (.branch e) (.condition tests chains fallback)
        (.condition (tests ++ [p]) (chains ++ [Chain.ofNodes? ns]) fallback)
  | entry {e : ElementId} {chains : List (Option Chain)} :
      Adds ns (.branch e) (.menu chains) (.menu (chains ++ [Chain.ofNodes? ns]))
  | otherwise {e : ElementId} {tests : List Predicate} {chains : List (Option Chain)} :
      Adds ns (.otherwise e) (.condition tests chains none)
        (.condition tests chains (some (Chain.ofNodes? ns)))
  | unit {e : ElementId} {units : List NodeId} :
      Adds ns (.unit e) (.story units) (.story (units ++ ns))

/-- Nodes are linked and put into a list. -/
structure Listed (s : Slot) (ns : List NodeId) (w w' : World) : Prop where
  sized : w'.Sized
  root : w'.root = w.root
  graph : w.graph.Extended ns w'.graph
  links : ∀ a k, (a, k) ∈ links ns none → w'.graph.child? a = k
  shape? : ∃ old new, w.shape? s.element = some old ∧ Adds ns s old new ∧
    ∀ e, w'.shape? e = if s.element = e then some new else w.shape? e

/-- Nothing that was there before is touched. -/
structure Aside (w w' : World) : Prop where
  sized : w'.Sized
  root : w'.root = w.root
  graph : w.graph.Extended [] w'.graph
  kept : ∀ e s, w.shape? e = some s → w'.shape? e = some s
  new : ∀ e s, w.shape? e = none → w'.shape? e = some s → s.IsNew

/-! ### What is numbered -/

theorem Sized.not_contains (h : w.Sized) : w.graph.contains ⟨w.ids.next⟩ = false := by
  rw [Bool.eq_false_iff]
  intro hc
  have hlt : w.ids.next < w.ids.next := h.nodes _ hc
  omega

theorem Sized.linked (h : w.Sized) (hl : Linked ns w w')
    (hs : ∀ e s, w'.shape? e = some s → ∃ s', w.shape? e = some s') : w'.Sized := by
  refine ⟨fun n hn => ?_, fun e s he => ?_, ?_⟩
  · rw [hl.same.contains] at hn
    rw [hl.ids]
    exact h.nodes n hn
  · obtain ⟨s', hs'⟩ := hs e s he
    rw [hl.ids]
    exact h.elements e s' hs'
  · rw [hl.root, hl.same.contains, hl.same.isRoot]
    exact h.root

theorem Sized.gains (h : w.Sized) (hg : Gains w w' a) : w'.Sized := by
  have hids := hg.ids
  refine ⟨fun n hn => ?_, fun e s he => ?_, ?_⟩
  · rcases hg.nodes n hn with rfl | hn
    · have hnew : a.node.val = w.ids.next := congrArg NodeId.val hg.node
      omega
    · have hold := h.nodes n hn
      omega
  · rw [hg.shape?] at he
    have hold := h.elements e s he
    omega
  · rw [hg.root]
    exact ⟨hg.graph.contains h.root.1, (hg.graph.isRoot _).trans h.root.2⟩

theorem Sized.rewired {g : Graph Action} {c? : Option NodeId} (h : w.Sized)
    (hr : w.graph.Rewired w.root c? g) : ({ w with graph := g } : World).Sized := by
  refine ⟨fun n hn => h.nodes n ((hr.contains n).symm.trans hn), h.elements, ?_⟩
  exact ⟨(hr.contains _).trans h.root.1, (hr.isRoot _).trans h.root.2⟩

theorem Sized.ne_root {F : List (List Tree)} (h : w.Sized) (hl : RowsLinked F w.graph) :
    ∀ t ∈ within F.flatten, t.node ≠ w.root := by
  intro t ht heq
  have hroot := (hl.movable t ht).2
  rw [heq, h.root.2] at hroot
  cases hroot

theorem Sized.new : World.new.Sized := by
  have hget : ∀ n : NodeId, World.new.graph.get? n =
      if ⟨0⟩ = n then some { kind := .root, content := none } else none := by
    intro n
    unfold World.new Graph.withRoot Graph.get?
    simp only
    rw [Std.ExtTreeMap.getElem?_insert]
    simp [Counter.node, Counter.take]
  refine ⟨fun n hn => ?_, fun e s he => ?_, ?_⟩
  · rw [Graph.contains_eq, hget] at hn
    split at hn
    · subst n
      decide
    · cases hn
  · cases he
  · unfold Graph.isRoot
    rw [Graph.contains_eq, hget]
    exact ⟨rfl, rfl⟩

/-- What a world gains it gains also when elements are changed that keep their shape. -/
theorem Gains.congr (h : Gains w w' a) (hi : w''.ids = w'.ids) (hr : w''.root = w'.root)
    (hs : w''.shape? = w'.shape?) (hg : w'.graph.SameEdges w''.graph) : Gains w w'' a where
  node := h.node
  ids := (congrArg Counter.next hi).trans h.ids
  root := hr.trans h.root
  shape? := hs.trans h.shape?
  graph := h.graph.trans hg.extended
  nodes n hn := h.nodes n ((hg.contains n).symm.trans hn)
  action? := (hg.content? _).trans h.action?
  movable := (hg.movable_iff _).2 h.movable
  child? := by
    have := h.child?
    rw [Graph.child?_eq_head?] at this ⊢
    rw [hg.children, this]

theorem Sized.aside (h : w.Sized) (hg : w'.graph = w.graph) (hr : w'.root = w.root)
    (hi : w.ids.next ≤ w'.ids.next) (hs : w'.shape? = w.shape?) : Aside w w' := by
  refine ⟨⟨fun n hn => ?_, fun e s he => ?_, ?_⟩, hr, ?_, fun e s he => ?_, fun e s he he' => ?_⟩
  · rw [hg] at hn
    have hold := h.nodes n hn
    omega
  · rw [hs] at he
    have hold := h.elements e s he
    omega
  · rw [hr, hg]
    exact h.root
  · rw [hg]
    exact .refl [] w.graph
  · rw [hs, he]
  · rw [hs, he] at he'
    cases he'

theorem Gains.aside (h : w.Sized) (hg : Gains w w' a) : Aside w w' := by
  refine ⟨h.gains hg, hg.root, hg.graph, fun e s he => ?_, fun e s he he' => ?_⟩
  · rw [hg.shape?, he]
  · rw [hg.shape?, he] at he'
    cases he'

/-! ### Trees that stand alone -/

section Singles

variable {F : List (List Tree)} {ts : List Tree} {g : Graph Action}

theorem linkable_of_rowsLinked (h : RowsLinked (ts.map ([·]) ++ F) w.graph) : w.Linkable (nodes ts) := by
  have hmem : ∀ t ∈ ts, t ∈ within (ts.map ([·]) ++ F).flatten := by
    intro t ht
    rw [flatten_singles]
    exact subset_within _ (List.mem_append_left _ ht)
  refine ⟨?_, fun n hn => ?_, fun n hn => ?_⟩
  · have hdistinct := h.distinct
    unfold Distinct at hdistinct
    rw [flatten_singles, within_append] at hdistinct
    unfold nodes at hdistinct ⊢
    rw [List.map_append] at hdistinct
    have hperm := (perm_within ts).map node
    rw [List.map_append] at hperm
    exact (List.nodup_append.1 (hperm.nodup_iff.2 (List.nodup_append.1 hdistinct).1)).1
  · obtain ⟨t, ht, rfl⟩ := List.mem_map.1 hn
    exact h.movable t (hmem t ht)
  · obtain ⟨t, ht, rfl⟩ := List.mem_map.1 hn
    refine h.linked [t] (List.mem_append_left _ ?_) t.node none (List.mem_singleton.2 rfl)
    exact List.mem_append_left _ (List.mem_map.2 ⟨t, ht, rfl⟩)

theorem apart_of_rowsLinked (h : RowsLinked (ts.map ([·]) ++ F) g) :
    ∀ t ∈ within F.flatten, t.node ∉ nodes ts := by
  intro t ht hmem
  have hdistinct := h.distinct
  unfold Distinct nodes at hdistinct
  rw [flatten_singles, within_append, List.map_append, List.nodup_append] at hdistinct
  obtain ⟨s, hs, hst⟩ := List.mem_map.1 hmem
  refine hdistinct.2.2 _ (List.mem_map.2 ⟨s, subset_within _ hs, hst⟩) _ ?_ rfl
  exact List.mem_map.2 ⟨t, ht, rfl⟩

end Singles

/-! ### The parts of calls -/

theorem newAction_ok (h : w.Sized) (e : ElementId) (kind : ActionKind) :
    ∃ w', Build.newAction e kind w = .ok ⟨w.ids.next⟩ w' ∧ Gains w w' ⟨⟨w.ids.next⟩, e, kind⟩ ∧
      w'.elements = w.elements := by
  have hfresh := h.not_contains
  have hid : w.graph.get? ⟨w.ids.next⟩ = none := by
    rwa [Graph.contains_eq, Option.isSome_eq_false_iff, Option.isNone_iff_eq_none] at hfresh
  obtain ⟨g, hg⟩ : ∃ g, w.graph.insertContent ⟨w.ids.next⟩ ⟨⟨w.ids.next⟩, e, kind⟩ = .ok g := by
    unfold Graph.insertContent Graph.insert
    rw [hfresh]
    exact ⟨_, rfl⟩
  obtain ⟨-, -, -, hget⟩ := Graph.insert_eq_ok hg
  have hself := hget ⟨w.ids.next⟩
  rw [if_pos rfl] at hself
  refine ⟨{ w with ids := ⟨w.ids.next + 1⟩, graph := g }, ?_, ⟨rfl, rfl, rfl, rfl,
    Graph.extended_insert (by simp) hg, fun n hn => ?_, ?_, ⟨?_, ?_⟩, ?_⟩, rfl⟩
  · unfold Build.newAction
    simp only [bind_get_apply, bind_modify_apply]
    exact bind_of_ok (Build.ofEdit_eq_ok_iff.2 ⟨g, Graph.attempt_of_ok hg, rfl⟩)
  · simp only [Graph.contains_eq, hget] at hn
    split at hn
    · exact .inl (Eq.symm ‹_›)
    · exact .inr ((Graph.contains_eq _ _).trans hn)
  · simp [World.action?, Graph.content?, hself]
  · simp [Graph.contains_eq, hself]
  · simp [Graph.isRoot, hself, Node.isRoot]
  · simp [Graph.child?, hself, Node.child?]

theorem construct_ok (h : w.Linkable ns) :
    ∃ w', Build.construct ns w = .ok (Chain.ofNodes? ns) w' ∧ Linked ns w w' ∧
      w'.elements = w.elements := by
  obtain ⟨g, hg, hext, hlinks⟩ := Graph.link_ok h.nodup h.movable h.bare
  have hsame : w.graph.SameNodes g := by
    have := Graph.sameNodes_left_link (g := w.graph) ns
    rwa [hg] at this
  exact ⟨{ w with graph := g }, Build.ofEdit_eq_ok_iff.2 ⟨g, hg, rfl⟩,
    ⟨rfl, rfl, hsame, hext, hlinks⟩, rfl⟩

theorem shape?_put {α : Type} [Elemental α] (w : World) (x : α) (e : ElementId) :
    (w.put x).shape? e =
      if (Elemental.toElement x).id = e then some (Elemental.toElement x).shape else w.shape? e := by
  show ((w.elements.put (Elemental.toElement x)).get? e).map Element.shape = _
  rw [Elements.get?_put]
  split <;> rfl

theorem shape?_put_self {α : Type} [Elemental α] {x : α} {y : Element}
    (hy : w.elements.get? e = some y) (hid : (Elemental.toElement x).id = e)
    (hs : (Elemental.toElement x).shape = y.shape) : (w.put x).shape? = w.shape? := by
  funext e'
  rw [shape?_put, hid]
  split
  · subst e'
    rw [shape?_of_get? hy, hs]
  · rfl

theorem Sized.aside_add {α : Type} [Elemental α] {x : α} (h : w.Sized)
    (hid : (Elemental.toElement x).id = ⟨w.ids.next⟩) (hx : (Elemental.toElement x).shape.IsNew) :
    Aside w (({ w with ids := ⟨w.ids.next + 1⟩ } : World).put x) := by
  set w₁ : World := { w with ids := ⟨w.ids.next + 1⟩ }
  have hshape : ∀ e, (w₁.put x).shape? e =
      if ⟨w.ids.next⟩ = e then some (Elemental.toElement x).shape else w.shape? e := by
    intro e
    rw [shape?_put, hid]
    rfl
  have hfresh : ∀ e s, w.shape? e = some s → ⟨w.ids.next⟩ ≠ e := by
    rintro e s he rfl
    have hlt : w.ids.next < w.ids.next := h.elements _ s he
    omega
  refine ⟨⟨fun n hn => ?_, fun e s he => ?_, h.root⟩, rfl, .refl [] w.graph, fun e s he => ?_,
    fun e s he he' => ?_⟩
  · have hold := h.nodes n hn
    show n.val < w.ids.next + 1
    omega
  · show e.val < w.ids.next + 1
    rw [hshape] at he
    split at he
    · subst e
      show w.ids.next < w.ids.next + 1
      omega
    · have hold := h.elements e s he
      omega
  · rw [hshape, if_neg (hfresh e s he), he]
  · rw [hshape, he] at he'
    split at he'
    · obtain rfl := Option.some_inj.1 he'
      exact hx
    · cases he'

theorem find_cases (α : Type) [Elemental α] [LawfulElemental α] (w : World) (e : ElementId) :
    (∃ err, w.find α e = .error err) ∨
      ∃ x : α, w.find α e = .ok x ∧ w.elements.get? e = some (Elemental.toElement x) := by
  cases h : w.find α e with
  | error err => exact .inl ⟨err, rfl⟩
  | ok x => exact .inr ⟨x, rfl, find_eq_ok_iff.1 h⟩

/-- Nodes that are linked and put into the list of an element that was found. -/
theorem Linked.listed {s : Slot} {x y : Element} (hs : w.Sized) (hl : Linked ns w w')
    (hx : w.elements.get? s.element = some x) (ha : Adds ns s x.shape y.shape)
    (hw' : ∀ e, w'.shape? e = if s.element = e then some y.shape else w.shape? e) :
    Listed s ns w w' := by
  refine ⟨hs.linked hl fun e z he => ?_, hl.root, hl.graph, hl.links, x.shape, y.shape,
    shape?_of_get? hx, ha, hw'⟩
  rw [hw'] at he
  split at he
  · subst e
    exact ⟨_, shape?_of_get? hx⟩
  · exact ⟨z, he⟩

theorem Gains.links (hg : Gains w' w'' a) (hm : ∀ n ∈ ns, w.graph.Movable n)
    (he : w.graph.Extended ns w'.graph)
    (hl : ∀ a k, (a, k) ∈ links ns none → w'.graph.child? a = k) :
    w.graph.Extended ns w''.graph ∧
      ∀ a k, (a, k) ∈ links ns none → w''.graph.child? a = k := by
  refine ⟨he.trans (hg.graph.mono (List.nil_subset _)), fun a k hak => ?_⟩
  have hchild := hl a k hak
  cases k with
  | some b => exact hg.graph.kept a b List.not_mem_nil List.not_mem_nil hchild
  | none =>
    exact hg.graph.bare a List.not_mem_nil (he.contains (hm a (mem_of_links hak)).1) hchild

theorem Listed.gains {s : Slot} (hl : Listed s ns w w') (hm : ∀ n ∈ ns, w.graph.Movable n)
    (hg : Gains w' w'' a) : Listed s ns w w'' := by
  obtain ⟨old, new, hold, hadds, hshape⟩ := hl.shape?
  obtain ⟨hgraph, hlinks⟩ := hg.links hm hl.graph hl.links
  refine ⟨hl.sized.gains hg, hg.root.trans hl.root, hgraph, hlinks, old, new, hold, hadds,
    fun e => ?_⟩
  rw [hg.shape?]
  exact hshape e

end World

end Storyline
