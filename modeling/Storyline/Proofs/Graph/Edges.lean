import Storyline.Graph.Edges
import Storyline.Proofs.Effect

/-!
# What the edge operations do to the edges

* `SameNodes g g'`: the graphs have the same nodes, of the same kinds and contents, and one root;
* `Rewired g id c? g'`: the same nodes, where `id` has `c?` for its only child and every other node
  kept its children, apart from that child;
* `setChild_eq_ok_iff`: when a child may be set, and `rewired_of_setChild`: what it does then.

Back references decide only which list a moved child is taken out of, so nothing is said of them
here.
-/

namespace Storyline.Graph

open Effect

variable {γ : Type} {g g' g'' : Graph γ} {id c x y : NodeId} {c? : Option NodeId}

/-! ### One changed node -/

theorem get?_modify (g : Graph γ) (id x : NodeId) (f : Node γ → Node γ) :
    (g.modify id f).get? x = if id = x then (g.get? x).map f else g.get? x := by
  simp only [get?, modify, Std.ExtTreeMap.getElem?_modify, Std.compare_eq_iff_eq]
  split <;> simp_all

theorem get?_withRoot (id x : NodeId) : (withRoot id : Graph γ).get? x =
    if id = x then some { kind := .root, content := none } else none := by
  simp only [get?, withRoot, Std.ExtTreeMap.getElem?_insert, Std.compare_eq_iff_eq]
  split
  · rfl
  · exact Std.ExtTreeMap.getElem?_empty

theorem insert_eq_ok {kind : NodeKind} {content : Option γ}
    (h : g.insert id kind content = .ok g') :
    g.get? id = none ∧ g'.root = g.root ∧ g'.resumes = g.resumes ∧
      ∀ x, g'.get? x = if id = x then some { kind, content } else g.get? x := by
  unfold insert at h
  split at h
  · cases h
  · rename_i hid
    obtain ⟨rfl⟩ := h
    refine ⟨?_, rfl, rfl, fun x => ?_⟩
    · unfold contains at hid
      simpa [get?] using hid
    · simp only [get?, Std.ExtTreeMap.getElem?_insert, Std.compare_eq_iff_eq]

theorem contains_eq (g : Graph γ) (x : NodeId) : g.contains x = (g.get? x).isSome :=
  Std.ExtTreeMap.contains_eq_isSome_getElem?

theorem child?_eq_head? (g : Graph γ) (x : NodeId) : g.child? x = (g.children x).head? := by
  unfold child? children
  cases g.get? x <;> rfl

/-! ### The same nodes -/

/-- The kind and the content of a node: what it is apart from its edges. -/
def core (n : Node γ) : NodeKind × Option γ := (n.kind, n.content)

/-- Two graphs with the same nodes, of the same kinds and contents, and with the same root. -/
structure SameNodes (g g' : Graph γ) : Prop where
  core : ∀ x, (g'.get? x).map core = (g.get? x).map core
  root : g'.root = g.root

namespace SameNodes

theorem refl (g : Graph γ) : SameNodes g g := ⟨fun _ => rfl, rfl⟩

theorem symm (h : SameNodes g g') : SameNodes g' g :=
  ⟨fun x => (h.core x).symm, h.root.symm⟩

theorem trans (h : SameNodes g g') (h' : SameNodes g' g'') : SameNodes g g'' :=
  ⟨fun x => (h'.core x).trans (h.core x), h'.root.trans h.root⟩

theorem modify (g : Graph γ) (id : NodeId) (f : Node γ → Node γ)
    (hf : ∀ n, Graph.core (f n) = Graph.core n) : SameNodes g (g.modify id f) := by
  refine ⟨fun x => ?_, rfl⟩
  rw [get?_modify]
  split
  · rw [Option.map_map]
    exact congrArg (fun k => (g.get? x).map k) (funext hf)
  · rfl

theorem contains (h : SameNodes g g') (x : NodeId) : g'.contains x = g.contains x := by
  have hx := congrArg Option.isSome (h.core x)
  simpa [contains_eq] using hx

theorem isRoot (h : SameNodes g g') (x : NodeId) : g'.isRoot x = g.isRoot x := by
  have hcore : ∀ k : Graph γ, k.isRoot x =
      (((k.get? x).map Graph.core).map fun p => p.1 == NodeKind.root).getD false := by
    intro k; rw [Option.map_map]; rfl
  rw [hcore, hcore, h.core]

theorem content? (h : SameNodes g g') (x : NodeId) : g'.content? x = g.content? x := by
  have hcore : ∀ k : Graph γ, k.content? x = ((k.get? x).map Graph.core).bind fun p => p.2 := by
    intro k; rw [Option.bind_map]; rfl
  rw [hcore, hcore, h.core]

end SameNodes

/-- A node that may become a child: it exists and is not the root. -/
def Movable (g : Graph γ) (c : NodeId) : Prop := g.contains c = true ∧ g.isRoot c = false

instance (g : Graph γ) (c : NodeId) : Decidable (g.Movable c) := inferInstanceAs (Decidable (_ ∧ _))

theorem SameNodes.movable_iff (h : SameNodes g g') (c : NodeId) : g'.Movable c ↔ g.Movable c := by
  simp only [Movable, h.contains, h.isRoot]

/-! ### The same edges -/

/-- Two graphs that differ in their back references at most. -/
structure SameEdges (g g' : Graph γ) : Prop extends SameNodes g g' where
  resumes : g'.resumes = g.resumes
  children : ∀ x, g'.children x = g.children x

namespace SameEdges

theorem refl (g : Graph γ) : SameEdges g g := ⟨.refl g, rfl, fun _ => rfl⟩

theorem trans (h : SameEdges g g') (h' : SameEdges g' g'') : SameEdges g g'' :=
  ⟨h.toSameNodes.trans h'.toSameNodes, h'.resumes.trans h.resumes,
    fun x => (h'.children x).trans (h.children x)⟩

theorem modify (g : Graph γ) (id : NodeId) (f : Node γ → Node γ)
    (hf : ∀ n, Graph.core (f n) = Graph.core n ∧ (f n).children = n.children) :
    SameEdges g (g.modify id f) := by
  refine ⟨.modify g id f fun n => (hf n).1, rfl, fun x => ?_⟩
  unfold Graph.children
  rw [get?_modify]
  split
  · rw [Option.map_map]
    exact congrArg (fun k => ((g.get? x).map k).getD []) (funext fun n => (hf n).2)
  · rfl

theorem orphan (g : Graph γ) (id : NodeId) (nodes : List NodeId) :
    SameEdges g (g.orphan id nodes) := by
  unfold Graph.orphan
  induction nodes generalizing g with
  | nil => exact .refl g
  | cons c rest ih =>
    refine (SameEdges.modify g c _ fun n => ?_).trans (ih _)
    unfold Node.orphanedFrom
    split <;> exact ⟨rfl, rfl⟩

end SameEdges

/-! ### New children -/

/-- `g'` is `g` with `c?` for the only child of `id`; all others keep their children, apart from
that one. -/
structure Rewired (g : Graph γ) (id : NodeId) (c? : Option NodeId) (g' : Graph γ) : Prop
    extends SameNodes g g' where
  resumes : g'.resumes = g.resumes
  self : g'.children id = c?.toList
  other : ∀ x, x ≠ id → g'.children x = g.children x ∨
    ∃ c, c? = some c ∧ g'.children x = (g.children x).filter (· ≠ c)

namespace Rewired

theorem child?_self (h : Rewired g id c? g') : g'.child? id = c? := by
  rw [child?_eq_head?, h.self]
  cases c? <;> rfl

/-- An edge that leads neither from the changed node nor to its new child stays. -/
theorem child?_other (h : Rewired g id c? g') (hx : x ≠ id) (hy : g.child? x = some y)
    (hc : c? ≠ some y) : g'.child? x = some y := by
  rw [child?_eq_head?] at hy ⊢
  obtain ⟨rest, hrest⟩ : ∃ rest, g.children x = y :: rest := List.head?_eq_some_iff.1 hy
  rcases h.other x hx with he | ⟨c, rfl, he⟩
  · rw [he, hy]
  · have hne : y ≠ c := fun e => hc (congrArg some e.symm)
    rw [he, hrest, List.filter_cons_of_pos (by simpa using hne), List.head?_cons]

/-- A node without a child gets none by the change of another. -/
theorem child?_none (h : Rewired g id c? g') (hx : x ≠ id) (hn : g.child? x = none) :
    g'.child? x = none := by
  rw [child?_eq_head?, List.head?_eq_none_iff] at hn ⊢
  rcases h.other x hx with he | ⟨c, -, he⟩ <;> simp [he, hn]

/-- Children of the changed graph were children before, or are the new child. -/
theorem mem_children (h : Rewired g id c? g') (hy : y ∈ g'.children x) :
    y ∈ g.children x ∨ c? = some y := by
  by_cases hx : x = id
  · subst hx
    rw [h.self] at hy
    exact .inr (Option.mem_toList.1 hy)
  · rcases h.other x hx with he | ⟨c, -, he⟩
    · exact .inl (he ▸ hy)
    · exact .inl (List.mem_filter.1 (he ▸ hy)).1

theorem of_sameEdges (h : SameEdges g g') (h' : Rewired g' id c? g'') : Rewired g id c? g'' where
  toSameNodes := h.toSameNodes.trans h'.toSameNodes
  resumes := h'.resumes.trans h.resumes
  self := h'.self
  other x hx := by simpa only [h.children] using h'.other x hx

theorem sameEdges (h : Rewired g id c? g') (h' : SameEdges g' g'') : Rewired g id c? g'' where
  toSameNodes := h.toSameNodes.trans h'.toSameNodes
  resumes := h'.resumes.trans h.resumes
  self := (h'.children id).trans h.self
  other x hx := by simpa only [h'.children] using h.other x hx

end Rewired

theorem children_modify_self (g : Graph γ) (hid : g.contains id = true) (f : Node γ → Node γ)
    (l : List NodeId) (hf : ∀ n, (f n).children = l) : (g.modify id f).children id = l := by
  rw [contains_eq] at hid
  obtain ⟨n, hn⟩ := Option.isSome_iff_exists.1 hid
  simp [children, get?_modify, hn, hf]

theorem children_modify_other (g : Graph γ) (hx : x ≠ id) (f : Node γ → Node γ) :
    (g.modify id f).children x = g.children x := by
  simp [children, get?_modify, hx.symm]

theorem rewired_modify (g : Graph γ) (hid : g.contains id = true) (c? : Option NodeId) :
    Rewired g id c? (g.modify id fun n => { n with children := c?.toList }) where
  toSameNodes := .modify g id _ fun _ => rfl
  resumes := rfl
  self := children_modify_self g hid _ _ fun _ => rfl
  other _ hx := .inl (children_modify_other g hx _)

theorem detach_spec (g : Graph γ) (c keep : NodeId) :
    SameNodes g (g.detach c keep) ∧ (g.detach c keep).resumes = g.resumes ∧
      ∀ x, (g.detach c keep).children x = g.children x ∨
        (g.detach c keep).children x = (g.children x).filter (· ≠ c) := by
  unfold detach
  split
  · exact ⟨.refl g, rfl, fun _ => .inl rfl⟩
  · rename_i p _
    split
    · exact ⟨.refl g, rfl, fun _ => .inl rfl⟩
    · have hp : SameNodes g (g.modify p (·.withoutChild c)) := .modify g p _ fun _ => rfl
      have he := SameEdges.modify (g.modify p (·.withoutChild c)) c
        (fun n => { n with parent := none }) fun _ => ⟨rfl, rfl⟩
      refine ⟨hp.trans he.toSameNodes, he.resumes, fun x => ?_⟩
      rw [he.children]
      by_cases hx : x = p
      · right
        subst hx
        unfold children
        rw [get?_modify, if_pos rfl]
        cases g.get? x <;> simp [Node.withoutChild]
      · exact .inl (children_modify_other g hx _)

/-! ### Setting a child -/

theorem node_eq_ok_iff {n : Node γ} : g.node id = .ok n ↔ g.get? id = some n := by
  unfold node
  cases g.get? id <;> simp

theorem checkChild_eq_ok_iff :
    g.checkChild id c = .ok () ↔ g.contains id = true ∧ c ≠ id ∧ g.Movable c := by
  simp only [Movable, contains_eq, isRoot, checkChild, node]
  cases g.get? id with
  | none => simp
  | some n =>
    by_cases hc : c = id
    · simp [hc]
    · cases g.get? c with
      | none => simp [hc]
      | some k => cases hr : k.isRoot <;> simp [hc, hr]

theorem rewired_of_setChild (h : g.setChild id c? = .ok g') : Rewired g id c? g' := by
  cases c? with
  | none =>
    simp only [setChild, bind_eq_ok, node_eq_ok_iff] at h
    obtain ⟨n, hn, ⟨⟩⟩ := h
    have ho := SameEdges.orphan g id n.children
    have hid : g.contains id = true := by simp [contains_eq, hn]
    exact .of_sameEdges ho (rewired_modify _ (by rw [ho.contains, hid]) none)
  | some c =>
    simp only [setChild, bind_eq_ok] at h
    obtain ⟨⟨⟩, hc, ⟨⟩⟩ := h
    obtain ⟨hid, hne, -⟩ := checkChild_eq_ok_iff.1 hc
    obtain ⟨hd, hdr, hdc⟩ := detach_spec g c id
    have ho := SameEdges.orphan (g.detach c id) id (((g.detach c id).children id).filter (· ≠ c))
    have hm := rewired_modify _ (by rw [ho.contains, hd.contains, hid]) (some c)
    have hr := (Rewired.of_sameEdges ho hm).sameEdges
      (.modify _ c (fun n => { n with parent := some id }) fun _ => ⟨rfl, rfl⟩)
    refine ⟨hd.trans hr.toSameNodes, hr.resumes.trans hdr, hr.self, fun x hx => ?_⟩
    -- of another list at most `c` is lost, whichever of the steps has taken it out
    rcases hr.other x hx with he | ⟨d, ⟨⟩, he⟩
    · rcases hdc x with hx' | hx'
      · exact .inl (he.trans hx')
      · exact .inr ⟨c, rfl, he.trans hx'⟩
    · refine .inr ⟨c, rfl, he.trans ?_⟩
      rcases hdc x with hx' | hx'
      · rw [hx']
      · rw [hx', List.filter_filter]
        simp

/-- A child can be set where there is a node and the child is another one that may be moved. -/
theorem setChild_eq_ok_iff :
    (∃ g', g.setChild id c? = .ok g') ↔
      g.contains id = true ∧ ∀ c, c? = some c → c ≠ id ∧ g.Movable c := by
  cases c? with
  | none =>
    simp only [setChild, node, contains_eq]
    cases g.get? id <;> simp
  | some c =>
    simp only [setChild, Option.some.injEq, forall_eq', ← checkChild_eq_ok_iff]
    cases g.checkChild id c <;> simp

theorem eq_modify_of_setParent {parent : Option NodeId} (h : g.setParent id parent = .ok g') :
    g' = g.modify id fun n => { n with parent := parent } := by
  unfold setParent at h
  obtain ⟨n, -, h₁⟩ := bind_eq_ok.1 h
  cases parent with
  | none => exact (Except.ok.inj h₁).symm
  | some p =>
    simp only at h₁
    split at h₁
    · cases h₁
    · split at h₁
      · cases h₁
      · cases hp : g.node p <;> simp_all

theorem sameEdges_of_setParent {parent : Option NodeId} (h : g.setParent id parent = .ok g') :
    SameEdges g g' :=
  eq_modify_of_setParent h ▸ SameEdges.modify g id (fun n => { n with parent := parent }) fun _ =>
    ⟨rfl, rfl⟩

end Storyline.Graph
