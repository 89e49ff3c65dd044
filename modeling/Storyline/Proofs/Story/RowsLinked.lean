import Storyline.Proofs.Story.RowsInSequence

/-!
# Laying a forest out

* `Extended ns g g'`: a change of a graph that keeps all nodes and touches no edge between nodes
  apart from `ns`;
* `link_ok`: linking distinct nodes without children makes each lead to the next;
* `RowsLinked F g`: all rows of a forest are linked, and nothing was ever grafted in;
* `RowsLinked.extend`, `RowsLinked.link`, `RowsLinked.wrap`: a forest stays laid out when the graph
  changes elsewhere, when trees are joined to a row, and when rows get a new tree that leads into
  them;
* `RowsLinked.inSequence`: what is laid out can be played.
-/

namespace Storyline

open Effect

namespace Graph

variable {γ : Type} {g g' g'' : Graph γ} {ns ms : List NodeId} {x y : NodeId}

/-- All nodes stay and no edge between nodes apart from `ns` changes. -/
structure Extended (ns : List NodeId) (g g' : Graph γ) : Prop where
  core : ∀ x, g.contains x = true → (g'.get? x).map core = (g.get? x).map core
  newcomer : ∀ x, g.contains x = false → g'.isRoot x = false
  resumes : g'.resumes = g.resumes
  kept : ∀ x y, x ∉ ns → y ∉ ns → g.child? x = some y → g'.child? x = some y
  bare : ∀ x, x ∉ ns → g.contains x = true → g.child? x = none → g'.child? x = none

theorem isRoot_of_not_contains (h : g.contains x = false) : g.isRoot x = false := by
  rw [contains_eq, Option.isSome_eq_false_iff, Option.isNone_iff_eq_none] at h
  simp [isRoot, h]

namespace Extended

theorem contains (h : Extended ns g g') (hx : g.contains x = true) : g'.contains x = true := by
  have hcore := congrArg Option.isSome (h.core x hx)
  rw [contains_eq] at hx ⊢
  simpa [hx] using hcore

theorem isRoot (h : Extended ns g g') (x : NodeId) : g'.isRoot x = g.isRoot x := by
  cases hx : g.contains x with
  | false => rw [h.newcomer x hx, isRoot_of_not_contains hx]
  | true =>
    have hcore : ∀ k : Graph γ, k.isRoot x =
        (((k.get? x).map Graph.core).map fun p => p.1 == NodeKind.root).getD false := by
      intro k
      rw [Option.map_map]
      rfl
    rw [hcore, hcore, h.core x hx]

theorem movable (h : Extended ns g g') (hx : g.Movable x) : g'.Movable x :=
  ⟨h.contains hx.1, (h.isRoot x).trans hx.2⟩

theorem content? (h : Extended ns g g') (hx : g.contains x = true) :
    g'.content? x = g.content? x := by
  have hcore : ∀ k : Graph γ, k.content? x = ((k.get? x).map Graph.core).bind fun p => p.2 := by
    intro k
    rw [Option.bind_map]
    rfl
  rw [hcore, hcore, h.core x hx]

theorem mono (h : Extended ns g g') (hs : ns ⊆ ms) : Extended ms g g' :=
  ⟨h.core, h.newcomer, h.resumes, fun x y hx hy => h.kept x y (mt (@hs x) hx) (mt (@hs y) hy),
    fun x hx => h.bare x (mt (@hs x) hx)⟩

theorem trans (h : Extended ns g g') (h' : Extended ns g' g'') : Extended ns g g'' where
  core x hx := (h'.core x (h.contains hx)).trans (h.core x hx)
  newcomer x hx := (h'.isRoot x).trans (h.newcomer x hx)
  resumes := h'.resumes.trans h.resumes
  kept x y hx hy he := h'.kept x y hx hy (h.kept x y hx hy he)
  bare x hx hc hn := h'.bare x hx (h.contains hc) (h.bare x hx hc hn)

theorem refl (ns : List NodeId) (g : Graph γ) : Extended ns g g :=
  ⟨fun _ _ => rfl, fun _ => isRoot_of_not_contains, rfl, fun _ _ _ _ h => h, fun _ _ _ h => h⟩

end Extended

theorem SameNodes.extended (h : SameNodes g g') (hr : g'.resumes = g.resumes)
    (hk : ∀ x y, x ∉ ns → y ∉ ns → g.child? x = some y → g'.child? x = some y)
    (hb : ∀ x, x ∉ ns → g.child? x = none → g'.child? x = none) : Extended ns g g' :=
  ⟨fun x _ => h.core x, fun x hx => (h.isRoot x).trans (isRoot_of_not_contains hx), hr, hk,
    fun x hx _ => hb x hx⟩

theorem SameEdges.extended (h : SameEdges g g') : Extended ns g g' := by
  have hc : ∀ x, g'.child? x = g.child? x := fun x => by
    rw [child?_eq_head?, child?_eq_head?, h.children]
  exact h.toSameNodes.extended h.resumes (fun x y _ _ he => (hc x).trans he)
    fun x _ he => (hc x).trans he

theorem extended_insert {id : NodeId} {kind : NodeKind} {content : Option γ}
    (hk : kind ≠ .root) (h : g.insert id kind content = .ok g') : Extended ns g g' := by
  obtain ⟨hid, -, hres, hget⟩ := insert_eq_ok h
  have hold : ∀ x, g.contains x = true → g'.get? x = g.get? x := by
    intro x hx
    rw [hget, if_neg]
    rintro rfl
    simp [contains_eq, hid] at hx
  refine ⟨fun x hx => by rw [hold x hx], fun x hx => ?_, hres, fun x y _ _ he => ?_,
    fun x _ hx he => ?_⟩
  · unfold isRoot
    rw [hget]
    split
    · simp [Node.isRoot, hk]
    · rw [contains_eq, Option.isSome_eq_false_iff, Option.isNone_iff_eq_none] at hx
      simp [hx]
  · have hx : g.contains x = true := by
      rw [contains_eq]
      unfold child? at he
      cases hg : g.get? x with
      | none => simp [hg] at he
      | some n => rfl
    unfold child? at he ⊢
    rw [hold x hx]
    exact he
  · unfold child? at he ⊢
    rw [hold x hx]
    exact he

/-! ### Linking -/

theorem linkAll_ok {a : NodeId} (hd : (a :: ns).Nodup) (hm : ∀ x ∈ a :: ns, g.Movable x)
    (hb : ∀ x ∈ a :: ns, g.child? x = none) :
    ∃ g', linkAll (a :: ns) g = .ok () g' ∧ SameNodes g g' ∧ g'.resumes = g.resumes ∧
      (∀ x y, x ∉ a :: ns → y ∉ ns → g.child? x = some y → g'.child? x = some y) ∧
      (∀ x, x ∉ a :: ns → g.child? x = none → g'.child? x = none) ∧
      ∀ x k, (x, k) ∈ links (a :: ns) none → g'.child? x = k := by
  induction ns generalizing g a with
  | nil =>
    refine ⟨g, rfl, .refl g, rfl, fun _ _ _ _ h => h, fun _ _ h => h, fun x k hx => ?_⟩
    obtain ⟨rfl, rfl⟩ := Prod.mk.inj (List.mem_singleton.1 hx)
    exact hb x List.mem_cons_self
  | cons b rest ih =>
    obtain ⟨ha, hrest⟩ := List.nodup_cons.1 hd
    obtain ⟨hbr, -⟩ := List.nodup_cons.1 hrest
    have hab : b ≠ a := fun e => ha (e ▸ List.mem_cons_self)
    obtain ⟨g₁, hg₁, hr₁⟩ := attempt_setChild (some b) (hm a List.mem_cons_self).1 (by
      rintro _ ⟨⟩
      exact ⟨hab, hm b (by simp)⟩)
    have hne : ∀ x ∈ b :: rest, x ≠ a := fun x hx e => ha (e ▸ hx)
    obtain ⟨g₂, hg₂, hn₂, hres₂, hkept₂, hbare₂, hlinks₂⟩ := ih (g := g₁) hrest
      (fun x hx => (hr₁.movable_iff x).2 (hm x (List.mem_cons_of_mem _ hx)))
      (fun x hx => hr₁.child?_none (hne x hx) (hb x (List.mem_cons_of_mem _ hx)))
    refine ⟨g₂, (bind_of_ok hg₁).trans hg₂, hr₁.toSameNodes.trans hn₂, hres₂.trans hr₁.resumes,
      fun x y hx hy he => ?_, fun x hx he => ?_, fun x k hx => ?_⟩
    · obtain ⟨hxa, hxr⟩ := not_or.1 (mt List.mem_cons.2 hx)
      obtain ⟨hyb, hyr⟩ := not_or.1 (mt List.mem_cons.2 hy)
      exact hkept₂ x y hxr hyr (hr₁.child?_other hxa he fun e => hyb (Option.some_inj.1 e).symm)
    · obtain ⟨hxa, hxr⟩ := not_or.1 (mt List.mem_cons.2 hx)
      exact hbare₂ x hxr (hr₁.child?_none hxa he)
    · rcases List.mem_cons.1 hx with he | hx
      · obtain ⟨rfl, rfl⟩ := Prod.mk.inj he
        exact hkept₂ x b ha hbr hr₁.child?_self
      · exact hlinks₂ x k hx

/-- **Linking** distinct nodes without children makes each lead to the next. -/
theorem link_ok (hd : ns.Nodup) (hm : ∀ x ∈ ns, g.Movable x) (hb : ∀ x ∈ ns, g.child? x = none) :
    ∃ g', link ns g = .ok (Chain.ofNodes? ns) g' ∧ Extended ns g g' ∧
      ∀ x k, (x, k) ∈ links ns none → g'.child? x = k := by
  cases ns with
  | nil => exact ⟨g, rfl, .refl [] g, nofun⟩
  | cons a ns =>
    obtain ⟨g', hg', hn, hres, hkept, hbare, hlinks⟩ := linkAll_ok hd hm hb
    refine ⟨g', bind_of_ok hg', hn.extended hres (fun x y hx hy => ?_) hbare, hlinks⟩
    exact hkept x y hx fun h => hy (List.mem_cons_of_mem _ h)

/-- A node that may be moved can refer back to any other node. -/
theorem attempt_setParent (hx : g.Movable x) (hy : g.contains y = true) (hne : y ≠ x) :
    ∃ g', attempt (·.setParent x (some y)) g = .ok () g' ∧ SameEdges g g' := by
  obtain ⟨n, hn⟩ := Option.isSome_iff_exists.1 ((contains_eq g x).symm.trans hx.1)
  obtain ⟨m, hm⟩ := Option.isSome_iff_exists.1 ((contains_eq g y).symm.trans hy)
  have hroot : n.isRoot = false := by
    have := hx.2
    unfold isRoot at this
    rwa [hn] at this
  have hset : g.setParent x (some y) = .ok (g.modify x fun n => { n with parent := some y }) := by
    unfold setParent
    simp [node_eq_ok_iff.2 hn, node_eq_ok_iff.2 hm, hne, hroot]
  exact ⟨_, attempt_of_ok hset, sameEdges_of_setParent hset⟩

end Graph

namespace Tree

open Storyline.Graph (Extended)

variable {γ : Type} {F F' : List (List Tree)} {g g' : Graph γ} {ns : List NodeId} {ts r : List Tree}
  {rs : List (List Tree)} {t : Tree} {a : NodeId} {role : Role}

/-- A forest all rows of which are linked in a graph that nothing was ever grafted in. -/
structure RowsLinked (F : List (List Tree)) (g : Graph γ) : Prop where
  distinct : Distinct F
  movable : ∀ t ∈ within F.flatten, g.Movable t.node
  linked : ∀ r ∈ allRows F, ∀ a k, (a, k) ∈ links (nodes r) none → g.child? a = k
  resumes : ∀ a : NodeId, g.resumes[a]? = none

/-- **What is laid out can be played.** -/
theorem RowsLinked.inSequence (h : RowsLinked F g) : RowsInSequence F g where
  distinct := h.distinct
  movable := h.movable
  plain t _ _ := h.resumes t.node
  remembered a k k' hk := by
    rw [h.resumes] at hk
    cases hk
  top r hr a k hl _ := h.linked r (List.mem_append_left _ hr) a k hl
  follows a b hab _ := by
    obtain ⟨r, hr, hl⟩ := hab
    exact h.linked r hr a (some b) hl

/-- The order of the top rows does not matter, and rows may be left out. -/
theorem RowsLinked.subperm (h : RowsLinked F g) (hs : F'.Subperm F) : RowsLinked F' g := by
  obtain ⟨G, hperm, hsub⟩ := hs
  have hwithin : within F'.flatten ⊆ within F.flatten := by
    refine within_subset fun t ht => ?_
    exact hsub.flatten.subset (hperm.flatten.mem_iff.2 ht)
  refine ⟨?_, fun t ht => h.movable t (hwithin ht), fun r hr => h.linked r ?_, h.resumes⟩
  · have hG : Distinct G := h.distinct.sublist ((hsub.flatten.flatMap all).map node)
    exact ((hperm.flatten.flatMap_right all).map node).nodup_iff.1 hG
  · rcases List.mem_append.1 hr with hr | hr
    · exact List.mem_append_left _ (hsub.subset (hperm.mem_iff.2 hr))
    · obtain ⟨s, hs, hrs⟩ := List.mem_flatMap.1 hr
      exact mem_allRows_of_rows (hwithin hs) hrs

theorem exists_of_mem_row (hr : r ∈ allRows F) (ha : a ∈ nodes r) :
    ∃ t ∈ within F.flatten, t.node = a := by
  obtain ⟨t, ht, rfl⟩ := List.mem_map.1 ha
  exact ⟨t, Distinct.mem_within_of_row hr ht, rfl⟩

/-- A row that the change of a graph does not touch stays linked. -/
theorem RowsLinked.linked_extend (h : RowsLinked F g) (hg : Extended ns g g') (hr : r ∈ allRows F)
    (hns : ∀ a ∈ nodes r, a ∉ ns) {k : Option NodeId} (hl : (a, k) ∈ links (nodes r) none) :
    g'.child? a = k := by
  have ha := mem_of_links hl
  have hchild := h.linked r hr a k hl
  rcases links_cases hl with ⟨b, hb, rfl, -⟩ | ⟨rfl, -, -⟩
  · exact hg.kept a b (hns a ha) (hns b (List.mem_of_mem_tail hb)) hchild
  · obtain ⟨t, ht, rfl⟩ := exists_of_mem_row hr ha
    exact hg.bare t.node (hns t.node ha) (h.movable t ht).1 hchild

theorem RowsLinked.extend (h : RowsLinked F g) (hg : Extended ns g g')
    (hns : ∀ t ∈ within F.flatten, t.node ∉ ns) : RowsLinked F g' := by
  refine ⟨h.distinct, fun t ht => hg.movable (h.movable t ht), fun r hr a k hl => ?_, fun a => ?_⟩
  · refine h.linked_extend hg hr (fun a ha => ?_) hl
    obtain ⟨t, ht, rfl⟩ := exists_of_mem_row hr ha
    exact hns t ht
  · rw [hg.resumes]
    exact h.resumes a

theorem flatten_singles (ts : List Tree) (F : List (List Tree)) :
    (ts.map ([·]) ++ F).flatten = ts ++ F.flatten := by
  induction ts with
  | nil => rfl
  | cons t ts ih =>
    rw [List.map_cons, List.cons_append, List.flatten_cons, ih]
    rfl

theorem RowsLinked.link (h : RowsLinked (ts.map ([·]) ++ F) g) (hg : Extended (nodes ts) g g')
    (hlinks : ∀ a k, (a, k) ∈ links (nodes ts) none → g'.child? a = k) : RowsLinked (ts :: F) g' := by
  have hflat : (ts :: F).flatten = (ts.map ([·]) ++ F).flatten := (flatten_singles ts F).symm
  have hdistinct : Distinct (ts :: F) := by
    unfold Distinct
    rw [hflat]
    exact h.distinct
  refine ⟨hdistinct, fun t ht => ?_, fun r hr a k hl => ?_, fun a => ?_⟩
  · rw [hflat] at ht
    exact hg.movable (h.movable t ht)
  · rcases List.mem_append.1 hr with hr | hr
    · rcases List.mem_cons.1 hr with rfl | hr
      · exact hlinks a k hl
      · refine h.linked_extend hg (List.mem_append_left _ (List.mem_append_right _ hr))
          (fun a ha hts => ?_) hl
        -- another top row
        have hnodup := (List.nodup_append.1 hdistinct.nodup_allRows).1
        unfold nodes at hnodup
        rw [List.flatten_cons, List.map_append, List.nodup_append] at hnodup
        obtain ⟨t, ht, rfl⟩ := List.mem_map.1 ha
        exact hnodup.2.2 _ hts _
          (List.mem_map.2 ⟨t, List.mem_flatten.2 ⟨r, hr, ht⟩, rfl⟩) rfl
    · obtain ⟨s, hs, hrs⟩ := List.mem_flatMap.1 hr
      have hs' := hs
      rw [hflat] at hs'
      refine h.linked_extend hg (mem_allRows_of_rows hs' hrs) (fun a ha hts => ?_) hl
      exact hdistinct.top_ne_inner List.mem_cons_self hts hs hrs ha
  · rw [hg.resumes]
    exact h.resumes a

theorem within_wrap (a : NodeId) (role : Role) (rs F : List (List Tree)) :
    within ([.mk a role rs] :: F).flatten = .mk a role rs :: within (rs ++ F).flatten := by
  rw [List.flatten_cons, List.flatten_append, within_append, within_append]
  show (Tree.mk a role rs).all ++ [] ++ _ = _
  rw [all_eq, List.append_nil]
  rfl

theorem RowsLinked.wrap (h : RowsLinked (rs ++ F) g) (hm : g.Movable a) (hc : g.child? a = none)
    (hnew : ∀ t ∈ within (rs ++ F).flatten, t.node ≠ a) : RowsLinked ([.mk a role rs] :: F) g := by
  have hwithin := within_wrap a role rs F
  refine ⟨?_, fun t ht => ?_, fun r hr b k hl => ?_, h.resumes⟩
  · unfold Distinct nodes
    rw [hwithin]
    refine List.nodup_cons.2 ⟨fun hmem => ?_, h.distinct⟩
    obtain ⟨t, ht, he⟩ := List.mem_map.1 hmem
    exact hnew t ht he
  · rw [hwithin] at ht
    rcases List.mem_cons.1 ht with rfl | ht
    · exact hm
    · exact h.movable t ht
  · -- the wrapped rows are rows as before, and the new node makes one of its own
    have hcases : r = [.mk a role rs] ∨ r ∈ allRows (rs ++ F) := by
      unfold allRows at hr ⊢
      rw [hwithin] at hr
      simp only [List.mem_append, List.mem_cons, List.flatMap_cons] at hr ⊢
      rcases hr with (hr | hr) | hr | hr
      · exact .inl hr
      · exact .inr (.inl (.inr hr))
      · exact .inr (.inl (.inl hr))
      · exact .inr (.inr hr)
    rcases hcases with rfl | hr
    · obtain ⟨rfl, rfl⟩ := Prod.mk.inj (List.mem_singleton.1 hl)
      exact hc
    · exact h.linked r hr b k hl

end Tree

end Storyline
