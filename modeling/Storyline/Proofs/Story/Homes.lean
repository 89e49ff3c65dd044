import Storyline.Proofs.Game.Housed
import Storyline.Proofs.Stage.Lived
import Storyline.Proofs.Story.Drafted

/-!
# Trees are homes of their nodes

* `Tree.home ts n`: which of some trees a node belongs to;
* `World.Lived.single`: a node of a world has one child at most;
* `Drafted.housed`: in a world that is written as trees every node belongs to one unit of a story at
  most, and edges from its nodes stay within the unit or lead to the next one.
-/

namespace Storyline

open Effect Storyline.Tree

/-! ### One child at most -/

namespace Graph

variable {γ : Type} {g g' : Graph γ} {id : NodeId} {c? : Option NodeId}

/-- No node has two children. -/
def Single (g : Graph γ) : Prop := ∀ x, (g.children x).length ≤ 1

theorem Single.setChild (h : g.Single) (hg : g.setChild id c? = .ok g') : g'.Single := by
  have hr := rewired_of_setChild hg
  intro x
  by_cases hx : x = id
  · subst x
    rw [hr.self]
    cases c? <;> simp
  · rcases hr.other x hx with he | ⟨c, -, he⟩
    · exact he ▸ h x
    · rw [he]
      exact Nat.le_trans (List.length_filter_le _ _) (h x)

theorem Single.mem_iff (h : g.Single) {x y : NodeId} : y ∈ g.children x ↔ g.child? x = some y := by
  rw [child?_eq_head?]
  match hc : g.children x, h x with
  | [], _ => simp
  | [c], _ => simp [eq_comm]

end Graph

namespace World

variable {w : World} {fair : World → Call → Prop}

theorem Lived.single (h : w.Lived fair) : w.graph.Single := by
  refine (h.keep (P := fun w => w.graph.Single) (fun x => ?_) (fun _ _ _ hs _ hw => ?_)
    fun ht _ hw => ?_).2
  · unfold Graph.children
    rw [show World.new.graph = Graph.withRoot World.new.root from rfl, Graph.get?_withRoot]
    split <;> exact Nat.zero_le 1
  · cases hs with
    | spend | add | revise => exact hw
    | insert hg => exact fun x => (Graph.edges_insert hg x).1 ▸ hw x
    | child _ hg | root _ hg => exact hw.setChild hg
    | parent _ _ _ hg => exact fun x => (Graph.sameEdges_of_setParent hg).children x ▸ hw x
  · cases ht with
    | shift hs =>
      cases hs with
      | graft node chain =>
        rw [World.left_ofEdit]
        exact Graph.left_splice Graph.Single.setChild hw (fun _ => hw) chain
      | record => exact hw
    | name => exact hw

end World

/-! ### The tree of a node -/

namespace Tree

variable {F rows : List (List Tree)} {ts row : List Tree} {s t : Tree} {n a b : NodeId} {i : Nat}

/-- The number of the tree that a node is within, counted from one, zero if it is within none. -/
def home (ts : List Tree) (n : NodeId) : Nat := (ts.findIdx? (n ∈ nodes ·.all)).elim 0 (· + 1)

theorem exists_of_home (h : home ts n ≠ 0) :
    ∃ i t, ts[i]? = some t ∧ n ∈ nodes t.all ∧ home ts n = i + 1 := by
  unfold home at h ⊢
  cases hi : ts.findIdx? (n ∈ nodes ·.all) with
  | none =>
    rw [hi] at h
    exact absurd rfl h
  | some i =>
    obtain ⟨hlt, hn, -⟩ := List.findIdx?_eq_some_iff_getElem.1 hi
    exact ⟨i, ts[i], List.getElem?_eq_getElem hlt, by simpa using hn, rfl⟩

/-- Where all nodes are distinct a node is within one tree only. -/
theorem home_eq (hd : (nodes (within ts)).Nodup) (ht : ts[i]? = some t) (hn : n ∈ nodes t.all) :
    home ts n = i + 1 := by
  have hflat : (ts.flatMap fun t => nodes t.all).Nodup := by
    unfold nodes within at hd
    rwa [List.map_flatMap] at hd
  obtain ⟨hlt, rfl⟩ := List.getElem?_eq_some_iff.1 ht
  have hidx : ts.findIdx? (n ∈ nodes ·.all) = some i := by
    rw [List.findIdx?_eq_some_iff_getElem]
    refine ⟨hlt, by simpa using hn, fun j hj => ?_⟩
    have hdisjoint := List.pairwise_iff_getElem.1 (List.nodup_flatMap.1 hflat).2 j i
      (Nat.lt_trans hj hlt) hlt hj
    simpa using fun hn' => hdisjoint hn' hn
  unfold home
  rw [hidx]
  rfl

/-- A tree within another is that tree, or another tree within it leads into it. -/
theorem mem_all_cases (h : s ∈ t.all) : s = t ∨ ∃ p ∈ t.all, ∃ r ∈ p.rows, s ∈ r := by
  have hwithin : within [t] = t.all := List.append_nil _
  have hmem := (perm_within [t]).mem_iff.2 (hwithin.symm ▸ h)
  rw [hwithin] at hmem
  rcases List.mem_append.1 hmem with hs | hs
  · exact .inl (List.mem_singleton.1 hs)
  · obtain ⟨p, hp, hk⟩ := List.mem_flatMap.1 hs
    obtain ⟨r, hr, hsr⟩ := List.mem_flatten.1 hk
    exact .inr ⟨p, hp, r, hr, hsr⟩

/-- What a tree within one of some trees leads into is of the same home, and none of these trees. -/
theorem home_inner (hd : (nodes (within ts)).Nodup) (ht : ts[i]? = some t) (hs : s ∈ t.all)
    (hr : row ∈ s.rows) (ha : a ∈ nodes row) : home ts a = i + 1 ∧ a ∉ nodes ts := by
  constructor
  · have hwithin : within [t] = t.all := List.append_nil _
    obtain ⟨k, hk, rfl⟩ := List.mem_map.1 ha
    have hin : k ∈ within [t] := kids_subset_within (hwithin.symm ▸ hs) (mem_kids hr hk)
    exact home_eq hd ht (List.mem_map.2 ⟨k, hwithin ▸ hin, rfl⟩)
  · intro htop
    have hflat : [ts].flatten = ts := List.append_nil _
    obtain ⟨u, hu, rfl⟩ := List.mem_map.1 htop
    have hdistinct : Distinct [ts] := by
      unfold Distinct
      rwa [hflat]
    have hsts : s ∈ within [ts].flatten := by
      rw [hflat]
      exact List.mem_flatMap.2 ⟨t, List.mem_of_getElem? ht, hs⟩
    exact hdistinct.not_mem_kids (hflat.symm ▸ hu) hsts (mem_nodes_kids hr ha)

theorem exists_getElem?_of_links {l : List NodeId} (h : (a, some b) ∈ links l none) :
    ∃ i, l[i]? = some a ∧ l[i + 1]? = some b := by
  induction l with
  | nil => cases h
  | cons c rest ih =>
    rcases List.mem_cons.1 h with he | h
    · obtain ⟨rfl, hb⟩ := Prod.mk.inj he
      rw [Option.or_none] at hb
      exact ⟨0, rfl, (List.head?_eq_getElem?.symm.trans hb.symm :)⟩
    · obtain ⟨i, ha, hb⟩ := ih h
      exact ⟨i + 1, ha, hb⟩

theorem links_flatten (hr : row ∈ rows) (h : (a, some b) ∈ links (nodes row) none) :
    (a, some b) ∈ links (nodes rows.flatten) none := by
  obtain ⟨before, after, rfl⟩ := List.append_of_mem hr
  unfold nodes
  rw [List.flatten_append, List.flatten_cons, List.map_append, List.map_append, links_append,
    links_append]
  exact List.mem_append_right _ (List.mem_append_left _ (mem_links_of_none h _))

theorem exists_link {l : List NodeId} (h : a ∈ l) : ∃ k, (a, k) ∈ links l none := by
  rw [← map_fst_links l none] at h
  obtain ⟨link, hlink, rfl⟩ := List.mem_map.1 h
  exact ⟨link.2, hlink⟩

end Tree

/-! ### Units as trees -/

/-- The chain that a standing tree grafts in is that of one of its rows. -/
theorem Tree.Stands.row_of_graft? {w : World} {t : Tree} (h : t.Stands w) {a : Action} {store : Store}
    {choice : Option Nat} {c : Chain} (ha : w.action? t.node = some a)
    (hgraft : w.graft? store a choice = some (some c)) : ∃ row ∈ t.rows, chain row = some c := by
  obtain ⟨a', ha', hf⟩ := h
  obtain rfl := Option.some.inj (ha'.symm.trans ha)
  have hjoin : ∀ {chains : List (Option Chain)} {i : Nat}, (chains[i]?).join = some c →
      some c ∈ chains := by
    intro chains i hi
    exact List.mem_of_getElem? (Option.join_eq_some_iff.1 hi)
  have hmem : some c ∈ t.rows.map chain := by
    unfold World.graft? at hgraft
    generalize t.rows.map chain = chains at hf ⊢
    -- each role has its own lists for the graft, and each of them is a row of the tree
    cases hrole : t.role with
    | statement =>
      rw [hrole] at hf
      obtain ⟨-, kind, hk, -⟩ := hf
      have hnone := Perform.graft?_of_writer hk w store choice
      unfold World.graft? at hnone
      cases hnone.symm.trans hgraft
    | script e handler =>
      rw [hrole] at hf
      obtain ⟨-, hk, -, -⟩ := hf
      rw [hk] at hgraft
      cases hgraft
    | scene =>
      rw [hrole] at hf
      obtain ⟨chain, rfl, hk, -⟩ := hf
      rw [hk] at hgraft
      exact List.mem_singleton.2 (Option.some.inj hgraft).symm
    | condition tests =>
      rw [hrole] at hf
      obtain ⟨hk, branches, fallback, rfl, hs⟩ := hf
      rw [hk, hs] at hgraft
      exact hjoin (Option.some.inj hgraft)
    | menu =>
      rw [hrole] at hf
      obtain ⟨hk, hs⟩ := hf
      rw [hk, hs] at hgraft
      obtain ⟨i, -, hi⟩ := Option.map_eq_some_iff.1 hgraft
      exact hjoin hi
  exact List.mem_map.1 hmem

section RowsLinked

variable {γ : Type} {F rows : List (List Tree)} {x y : NodeId}

/-- The trees of whole rows have distinct nodes, where all trees have. -/
theorem Tree.Distinct.of_rows (h : Distinct F) (hrows : rows.Sublist F) :
    (nodes (within rows.flatten)).Nodup :=
  h.sublist (List.Sublist.map _ (hrows.flatten.flatMap _))

/-- **Edges of a forest that is laid out** stay within a tree of a row, or lead to the next one. -/
theorem Tree.RowsLinked.ensues {g : Graph γ} (hl : RowsLinked F g) (hrows : rows.Sublist F)
    (hx : home rows.flatten x ≠ 0) (hy : g.child? x = some y) :
    Ensues (home rows.flatten) (nodes rows.flatten) (home rows.flatten x) y := by
  have hd := hl.distinct.of_rows hrows
  obtain ⟨i, t, ht, hmem, hhome⟩ := exists_of_home hx
  obtain ⟨s, hst, rfl⟩ := List.mem_map.1 hmem
  rw [hhome]
  rcases mem_all_cases hst with rfl | ⟨p, hp, r, hr, hsr⟩
  · -- a tree of a row itself, and what stands behind it there
    obtain ⟨r, hr, hsr⟩ := List.mem_flatten.1 (List.mem_of_getElem? ht)
    obtain ⟨k, hk⟩ := exists_link (List.mem_map.2 ⟨s, hsr, rfl⟩ : s.node ∈ nodes r)
    obtain rfl := (hl.linked r (List.mem_append_left _ (hrows.subset hr)) _ k hk).symm.trans hy
    obtain ⟨j, hj, hnext⟩ := exists_getElem?_of_links (links_flatten hr hk)
    unfold nodes at hj
    rw [List.getElem?_map, Option.map_eq_some_iff] at hj
    obtain ⟨s', hs', he⟩ := hj
    have hhome' := home_eq hd hs' (List.mem_map.2 ⟨s', s'.mem_all_self, he⟩)
    obtain rfl : i = j := Nat.succ.inj (hhome.symm.trans hhome')
    exact .inr hnext
  · have hpF : p ∈ within F.flatten := within_subset hrows.flatten.subset
      (List.mem_flatMap.2 ⟨t, List.mem_of_getElem? ht, hp⟩)
    obtain ⟨k, hk⟩ := exists_link (List.mem_map.2 ⟨s, hsr, rfl⟩ : s.node ∈ nodes r)
    obtain rfl := (hl.linked r (mem_allRows_of_rows hpF hr) _ k hk).symm.trans hy
    exact .inl (home_inner hd ht hp hr (List.mem_of_mem_tail (mem_tail_of_links hk)))

/-- **Whole rows of a forest that is laid out** are homes of the nodes within their trees. -/
theorem World.housed_of_rowsLinked {w : World} (hl : RowsLinked F w.graph)
    (hs : ∀ t ∈ within F.flatten, t.Stands w) (hsingle : w.graph.Single) (hrows : rows.Sublist F) :
    w.Housed (home rows.flatten) (nodes rows.flatten) := by
  have hd := hl.distinct.of_rows hrows
  refine ⟨fun i u hu => ?_, ⟨fun x y hy hx => hl.ensues hrows hx (hsingle.mem_iff.1 hy),
    fun x y hres => ?_⟩, fun x a store choice c hx ha hgraft => ?_⟩
  · unfold nodes at hu
    rw [List.getElem?_map, Option.map_eq_some_iff] at hu
    obtain ⟨t, ht, rfl⟩ := hu
    exact home_eq hd ht (List.mem_map.2 ⟨t, t.mem_all_self, rfl⟩)
  · cases (hl.resumes x).symm.trans hres
  · obtain ⟨i, t, ht, hmem, hhome⟩ := exists_of_home hx
    obtain ⟨s, hst, rfl⟩ := List.mem_map.1 hmem
    have hsF : s ∈ within F.flatten := within_subset hrows.flatten.subset
      (List.mem_flatMap.2 ⟨t, List.mem_of_getElem? ht, hst⟩)
    obtain ⟨r, hr, hc⟩ := (hs s hsF).row_of_graft? ha hgraft
    obtain ⟨hhead, htail⟩ := ends_of_chain hc
    obtain ⟨hh, hunit⟩ := home_inner hd ht hst hr (List.mem_of_head? hhead)
    exact ⟨hh.trans hhome.symm, hunit,
      (home_inner hd ht hst hr (List.mem_of_getLast? htail)).1.trans hhome.symm⟩

end RowsLinked

/-- **In a world that is written as trees** the units of every story are homes of the nodes within
them. -/
theorem Drafted.housed {w : World} {d : Draft} (h : Drafted w d) {e : ElementId}
    {units : List NodeId} (he : w.shape? e = some (.story units)) :
    w.Housed (home (d.units e)) units := by
  have hbears := h.holds.bears
  rw [h.holds.units_eq he]
  refine World.housed_of_rowsLinked hbears.rowsLinked hbears.stands
    (World.Lived.of_authored h.authored).single ?_
  exact (List.filter_sublist.map _).trans (List.sublist_append_right _ _)

end Storyline
