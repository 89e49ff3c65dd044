import Mathlib.Data.List.Flatten
import Storyline.Proofs.Graph.Splice
import Storyline.Proofs.Story.Rows

/-!
# The graph of a story while it is played

* `RowsInSequence F g`: the invariant of the graph in which a forest was laid out. A node that was grafted in
  at remembers what is played after it; a node that was not leads to the one behind it in its row;
* `Ready F g agenda`: the agenda, which are the trees still to be played up to the end of a top row,
  can be walked along first children;
* `RowsInSequence.graft`: grafting a row in at the first node of the agenda keeps both, the row now standing
  ahead of the rest;
* `RowsInSequence.opening`: what is left of a top row can be played at any time.
-/

namespace Storyline

open Storyline.Graph (Movable SameNodes Grafted Graftable)

/-- Statements and scripts, which nothing is ever grafted in at. -/
def Role.IsPlain : Role → Prop
  | statement | script .. => True
  | scene | condition _ | menu => False

namespace Tree

variable {γ : Type} {F : List (List Tree)} {g g' : Graph γ} {t : Tree}
  {rest row agenda : List Tree} {a b n : NodeId} {k : Option NodeId}

/-- The ends of a row. -/
def chain (row : List Tree) : Option Chain := Chain.ofNodes? (nodes row)

theorem ends_of_chain {c : Chain} (h : chain row = some c) :
    (nodes row).head? = some c.head ∧ (nodes row).getLast? = some c.tail :=
  Chain.ends_of_ofNodes h

theorem chain_eq_none (h : chain row = none) : row = [] := by
  cases row with
  | nil => rfl
  | cons t row => cases h

/-- A forest laid out in a graph, whatever was played of it. -/
structure RowsInSequence (F : List (List Tree)) (g : Graph γ) : Prop where
  distinct : Distinct F
  movable : ∀ t ∈ within F.flatten, g.Movable t.node
  plain : ∀ t ∈ within F.flatten, t.role.IsPlain → g.resumes[t.node]? = none
  remembered : ∀ a k k', g.resumes[a]? = some k → Cont F a k' → k = k'
  top : ∀ r ∈ F, ∀ a k, (a, k) ∈ links (nodes r) none → g.resumes[a]? = none → g.child? a = k
  follows : ∀ a b, Follows F a b → g.resumes[a]? = none → g.child? a = some b

/-- An agenda that can be walked along first children. -/
structure Ready (F : List (List Tree)) (g : Graph γ) (agenda : List Tree) : Prop where
  mem : agenda ⊆ within F.flatten
  distinct : (nodes (within agenda)).Nodup
  cont : ∀ a k, (a, k) ∈ links (nodes agenda) none → Cont F a k
  edge : ∀ a k, (a, k) ∈ links (nodes agenda) none → g.resumes[a]? = none → g.child? a = k
  /-- Whoever leads to a node of the agenda by its place in a row does so on the agenda too, or was
  grafted in at. -/
  entered : ∀ a b c, (a, some b) ∈ links (nodes agenda) none → Follows F c b →
    c = a ∨ g.resumes[c]? ≠ none

theorem Ready.nil (F : List (List Tree)) (g : Graph γ) : Ready F g [] :=
  ⟨List.nil_subset _, .nil, nofun, nofun, nofun⟩

theorem links_cons (t : Tree) (rest : List Tree) :
    links (nodes (t :: rest)) none = (t.node, (nodes rest).head?) :: links (nodes rest) none := by
  show (t.node, (nodes rest).head?.or none) :: _ = _
  rw [Option.or_none]
  rfl

namespace Ready

theorem head_mem (h : Ready F g (t :: rest)) : t ∈ within F.flatten := h.mem List.mem_cons_self

theorem nodup_nodes (h : Ready F g agenda) : (nodes agenda).Nodup := by
  have hperm := (perm_within agenda).map node
  rw [List.map_append] at hperm
  exact (List.nodup_append.1 (hperm.nodup_iff.2 h.distinct)).1

theorem tail (h : Ready F g (t :: rest)) : Ready F g rest := by
  have hsub : ∀ p ∈ links (nodes rest) none, p ∈ links (nodes (t :: rest)) none := fun p hp => by
    rw [links_cons]
    exact List.mem_cons_of_mem _ hp
  refine ⟨fun s hs => h.mem (List.mem_cons_of_mem _ hs), ?_, fun a k ha => h.cont a k (hsub _ ha),
    fun a k ha => h.edge a k (hsub _ ha), fun a b c ha => h.entered a b c (hsub _ ha)⟩
  have hd := h.distinct
  rw [within_cons] at hd
  unfold nodes at hd
  rw [List.map_append] at hd
  exact (List.nodup_append.1 hd).2.1

/-- What the first tree of an agenda leads into stands apart from that tree and from the rest. -/
theorem ne_of_kid (h : Ready F g (t :: rest)) (ha : a ∈ nodes t.kids) :
    a ≠ t.node ∧ a ∉ nodes rest := by
  have hd := h.distinct
  rw [within_cons, all_eq_kids] at hd
  unfold nodes at hd
  rw [List.map_append, List.map_cons, List.cons_append, List.nodup_cons, List.nodup_append] at hd
  obtain ⟨s, hs, rfl⟩ := List.mem_map.1 ha
  have hkid : s.node ∈ List.map node (within t.kids) :=
    List.mem_map.2 ⟨s, subset_within _ hs, rfl⟩
  constructor
  · intro he
    exact hd.1 (List.mem_append_left _ (he ▸ hkid))
  · intro hr
    obtain ⟨s', hs', he⟩ := List.mem_map.1 hr
    exact hd.2.2.2 _ hkid _ (List.mem_map.2 ⟨s', subset_within _ hs', rfl⟩) he.symm

theorem cont_head (h : Ready F g (t :: rest)) : Cont F t.node (nodes rest).head? := by
  refine h.cont _ _ ?_
  rw [links_cons]
  exact List.mem_cons_self

theorem edge_head (h : Ready F g (t :: rest)) (ht : g.resumes[t.node]? = none) :
    g.child? t.node = (nodes rest).head? := by
  refine h.edge _ _ ?_ ht
  rw [links_cons]
  exact List.mem_cons_self

/-- Play goes on behind the first node of an agenda with the rest of it. -/
theorem continuation_head (hw : RowsInSequence F g) (h : Ready F g (t :: rest)) :
    g.continuation t.node = (nodes rest).head? := by
  cases hr : g.resumes[t.node]? with
  | none => rw [Graph.continuation_of_none hr, h.edge_head hr]
  | some k =>
    rw [Graph.continuation_of_some hr]
    exact hw.remembered _ _ _ hr h.cont_head

end Ready

namespace RowsInSequence

theorem opening (h : RowsInSequence F g) {l : List Tree} (hr : l ++ agenda ∈ F) : Ready F g agenda := by
  have hmemRow : l ++ agenda ∈ allRows F := List.mem_append_left _ hr
  have hsub : ∀ p ∈ links (nodes agenda) none, p ∈ links (nodes (l ++ agenda)) none := by
    intro p hp
    unfold nodes
    rw [List.map_append, links_append]
    exact List.mem_append_right _ hp
  refine ⟨fun t ht => Distinct.mem_within_of_row hmemRow (List.mem_append_right _ ht), ?_,
    fun a k ha => .top hr (hsub _ ha), fun a k ha => h.top _ hr a k (hsub _ ha),
    fun a b c ha hc => .inl (hc.unique h.distinct ⟨_, hmemRow, hsub _ ha⟩)⟩
  obtain ⟨F₁, F₂, rfl⟩ := List.append_of_mem hr
  have hd := h.distinct
  unfold Distinct nodes at hd
  simp only [List.flatten_append, List.flatten_cons, within_append, List.map_append,
    List.append_assoc] at hd
  exact (List.nodup_append.1 (List.nodup_append.1 (List.nodup_append.1 hd).2.1).2.1).1

theorem graftable (h : RowsInSequence F g) (ha : Ready F g (t :: rest)) (hrow : row ⊆ t.kids) :
    g.Graftable t.node (chain row) := by
  have hmov : ∀ a ∈ nodes row, g.Movable a := by
    intro a hmem
    obtain ⟨s, hs, rfl⟩ := List.mem_map.1 hmem
    exact h.movable s (kids_subset_within ha.head_mem (hrow hs))
  have hne : ∀ a ∈ nodes row, a ≠ t.node ∧ a ∉ nodes rest := fun a hmem =>
    ha.ne_of_kid (List.map_subset node hrow hmem)
  have hk := ha.continuation_head h
  refine ⟨(h.movable t ha.head_mem).1, fun k hkk => ?_, fun c hc => ?_, fun c hc => ?_⟩
  · have hmem : k ∈ nodes rest := List.mem_of_head? (hk.symm.trans hkk)
    obtain ⟨s, hs, rfl⟩ := List.mem_map.1 hmem
    refine ⟨fun he => ?_, h.movable s (ha.mem (List.mem_cons_of_mem _ hs))⟩
    exact (List.nodup_cons.1 ha.nodup_nodes).1 (he ▸ hmem)
  · have hmem := List.mem_of_head? (ends_of_chain hc).1
    refine ⟨(hne _ hmem).1, hmov _ hmem, fun he => (hne _ hmem).2 ?_⟩
    exact List.mem_of_head? (hk.symm.trans he)
  · have hmem := List.mem_of_getLast? (ends_of_chain hc).2
    refine ⟨(hne _ hmem).1, (hmov _ hmem).1, fun he => (hne _ hmem).2 ?_⟩
    exact List.mem_of_head? (hk.symm.trans he)

/-! ### Grafting a row in -/

/-- The last node of a row leads to no other of a row, and the first is led to by none. -/
theorem ne_ends (h : RowsInSequence F g) (hrow : row ∈ allRows F) {c : Chain} (hc : chain row = some c)
    (hab : Follows F a b) : a ≠ c.tail ∧ b ≠ c.head := by
  obtain ⟨hhead, hlast⟩ := ends_of_chain hc
  obtain ⟨r, hr, hl⟩ := hab
  constructor
  · rintro rfl
    obtain rfl := h.distinct.row_unique hr hrow (mem_of_links hl) (List.mem_of_getLast? hlast)
    cases links_unique (h.distinct.nodup_row hr) hl (link_last hlast none)
  · rintro rfl
    have htail := mem_tail_of_links hl
    obtain rfl := h.distinct.row_unique hr hrow (List.mem_of_mem_tail htail)
      (List.mem_of_head? hhead)
    have hnodup := h.distinct.nodup_row hr
    obtain ⟨l, he⟩ := List.head?_eq_some_iff.1 hhead
    rw [he] at htail hnodup
    exact (List.nodup_cons.1 hnodup).1 htail

/-- What stands behind a node that was not grafted in at stays behind it. -/
theorem follows_graft (h : RowsInSequence F g) (ha : Ready F g (t :: rest))
    (hrow : row = [] ∨ row ∈ t.rows) (hg : Grafted g t.node (chain row) g')
    (hab : Follows F a b) (hres : g'.resumes[a]? = none) : g'.child? a = some b := by
  rw [hg.resumes] at hres
  split at hres
  · cases hres
  · rename_i hne
    refine hg.kept a b hne (fun c hc => ?_) (fun hk => ?_) (h.follows a b hab hres)
    · rcases hrow with rfl | hrow
      · cases hc
      · exact h.ne_ends (mem_allRows_of_rows ha.head_mem hrow) hc hab
    · -- the continuation has moved away from the one node that may lead to it, or from the spot
      rw [ha.continuation_head h] at hk
      have hlink : (t.node, some b) ∈ links (nodes (t :: rest)) none := by
        rw [links_cons, hk]
        exact List.mem_cons_self
      rcases ha.entered _ _ _ hlink hab with he | he
      · exact hne he
      · exact he hres

theorem edge_graft (h : RowsInSequence F g) (ha : Ready F g (t :: rest)) (hrow : row = [] ∨ row ∈ t.rows)
    (hg : Grafted g t.node (chain row) g') (hl : (a, k) ∈ links (nodes rest) none)
    (hres : g'.resumes[a]? = none) : g'.child? a = k := by
  have hmem := mem_of_links hl
  have hkids : ∀ x ∈ nodes row, x ∉ nodes rest := by
    rcases hrow with rfl | hrow
    · exact fun x hx => absurd hx List.not_mem_nil
    · exact fun x hx => (ha.ne_of_kid (mem_nodes_kids hrow hx)).2
  have hnodup := ha.nodup_nodes
  have hne : a ≠ t.node := fun he => (List.nodup_cons.1 hnodup).1 (he ▸ hmem)
  have htail : ∀ c, chain row = some c → a ≠ c.tail := fun c hc he =>
    hkids _ (List.mem_of_getLast? (ends_of_chain hc).2) (he ▸ hmem)
  rw [hg.resumes, if_neg hne] at hres
  have hedge := ha.tail.edge a k hl hres
  rcases links_cases hl with ⟨b, hb, rfl, -⟩ | ⟨rfl, -, -⟩
  · refine hg.kept a b hne (fun c hc => ⟨htail c hc, fun he => ?_⟩) (fun hk => ?_) hedge
    · exact hkids _ (List.mem_of_head? (ends_of_chain hc).1) (he ▸ List.mem_of_mem_tail hb)
    · rw [ha.continuation_head h] at hk
      obtain ⟨l, he⟩ := List.head?_eq_some_iff.1 hk
      have hrest := (List.nodup_cons.1 hnodup).2
      rw [show List.map node rest = nodes rest from rfl, he] at hrest
      rw [he] at hb
      exact (List.nodup_cons.1 hrest).1 hb
  · exact hg.bare a hne htail hedge

theorem rowsInSequence_graft (h : RowsInSequence F g) (ha : Ready F g (t :: rest))
    (hrow : row = [] ∨ row ∈ t.rows) (hrole : ¬ t.role.IsPlain) (hg : Grafted g t.node (chain row) g') : RowsInSequence F g' := by
  refine ⟨h.distinct, fun s hs => (hg.movable_iff _).2 (h.movable s hs), fun s hs hp => ?_,
    fun a k k' hres hk => ?_, fun r hr a k hl hres => ?_,
    fun a b hab hres => h.follows_graft ha hrow hg hab hres⟩
  · -- a plain node is never grafted to, as its role is another one
    have hne : s.node ≠ t.node := by
      intro he
      obtain rfl := h.distinct.eq_of_node hs ha.head_mem he
      exact hrole hp
    rw [hg.resumes, if_neg hne]
    exact h.plain s hs hp
  · rw [hg.resumes] at hres
    split at hres
    · subst a
      obtain rfl := Option.some_inj.1 hres
      rw [ha.continuation_head h]
      exact ha.cont_head.unique h.distinct hk
    · exact h.remembered a k k' hres hk
  · -- within a row the edge is as before, or it is the one of the graft
    rcases links_cases hl with ⟨b, -, rfl, hl'⟩ | ⟨rfl, hlast, -⟩
    · exact h.follows_graft ha hrow hg ⟨r, List.mem_append_left _ hr, hl'⟩ hres
    · -- the last of a row is the node that was grafted to, or has no edge as before
      rw [hg.resumes] at hres
      split at hres
      · cases hres
      · rename_i hne
        refine hg.bare a hne (fun c hc he => ?_) (h.top r hr a none hl hres)
        rcases hrow with rfl | hrow
        · cases hc
        · refine h.distinct.top_ne_inner hr (mem_of_links hl) ha.head_mem hrow ?_
          rw [he]
          exact List.mem_of_getLast? (ends_of_chain hc).2

/-- A node of a row and what is left of the agenda: it has another one of the row behind it, or is
the last and has the rest behind it, or is itself of the rest. -/
theorem links_row_cases (h : (a, k) ∈ links (nodes (row ++ rest)) none) :
    (∃ b, k = some b ∧ (a, some b) ∈ links (nodes row) none) ∨
      (k = (nodes rest).head? ∧ (nodes row).getLast? = some a) ∨
        (a, k) ∈ links (nodes rest) none := by
  unfold nodes at h
  rw [List.map_append, links_append, Option.or_none] at h
  rcases List.mem_append.1 h with h | h
  · rcases links_cases h with ⟨b, -, rfl, hl⟩ | ⟨rfl, hlast, -⟩
    · exact .inl ⟨b, rfl, hl⟩
    · exact .inr (.inl ⟨rfl, hlast⟩)
  · exact .inr (.inr h)

theorem ready_graft (h : RowsInSequence F g) (ha : Ready F g (t :: rest)) (hrow : row = [] ∨ row ∈ t.rows)
    (hg : Grafted g t.node (chain row) g') : Ready F g' (row ++ rest) := by
  have hmono : ∀ c : NodeId, g.resumes[c]? ≠ none → g'.resumes[c]? ≠ none := by
    intro c hc
    rw [hg.resumes]
    split
    · simp
    · exact hc
  have hsub : List.Sublist row t.kids := by
    rcases hrow with rfl | hrow
    · exact List.nil_sublist _
    · exact List.sublist_flatten_of_mem hrow
  -- a node of the row is of a row of the tree
  have hrow' : ∀ {a : NodeId}, a ∈ nodes row → row ∈ t.rows := by
    rcases hrow with rfl | hrow
    · exact fun hmem => absurd hmem List.not_mem_nil
    · exact fun _ => hrow
  have hmemRow : row ∈ t.rows → row ∈ allRows F := mem_allRows_of_rows ha.head_mem
  refine ⟨List.append_subset.2 ⟨fun s hs => kids_subset_within ha.head_mem (hsub.subset hs),
    ha.tail.mem⟩, ?_, fun a k hl => ?_, fun a k hl hres => ?_, fun a b c hl hc => ?_⟩
  · refine ha.distinct.sublist (List.Sublist.map node ?_)
    rw [within_append, within_cons, all_eq_kids]
    exact ((hsub.flatMap _).cons t).append_right _
  · rcases links_row_cases hl with ⟨b, rfl, hb⟩ | ⟨rfl, hlast⟩ | hl
    · refine .inner ha.head_mem (hrow' (mem_of_links hb)) ha.cont_head ?_
      exact mem_links_of_none hb _
    · exact .inner ha.head_mem (hrow' (List.mem_of_getLast? hlast)) ha.cont_head
        (link_last hlast _)
    · exact ha.tail.cont a k hl
  · rcases links_row_cases hl with ⟨b, rfl, hb⟩ | ⟨rfl, hlast⟩ | hl
    · exact h.follows_graft ha hrow hg ⟨row, hmemRow (hrow' (mem_of_links hb)), hb⟩ hres
    · cases hc : chain row with
      | none =>
        rw [chain_eq_none hc] at hlast
        cases hlast
      | some c =>
        obtain rfl := Option.some_inj.1 ((ends_of_chain hc).2.symm.trans hlast)
        rw [hg.tail c hc, ha.continuation_head h]
    · exact h.edge_graft ha hrow hg hl hres
  · rcases links_row_cases hl with ⟨_, ⟨⟩, hl⟩ | ⟨hb, hlast⟩ | hl
    · exact .inl (hc.unique h.distinct ⟨row, hmemRow (hrow' (mem_of_links hl)), hl⟩)
    · -- what the node itself led to is now led to by the last node of the row
      right
      have hlink : (t.node, some b) ∈ links (nodes (t :: rest)) none := by
        rw [links_cons, hb]
        exact List.mem_cons_self
      rcases ha.entered _ _ _ hlink hc with rfl | hres
      · rw [hg.resumes, if_pos rfl]
        simp
      · exact hmono c hres
    · exact (ha.tail.entered a b c hl hc).imp_right (hmono c)

/-- **Grafting in** a row of the first tree of an agenda, or none: what is played then is the row,
ahead of the rest. -/
theorem graft (h : RowsInSequence F g) (ha : Ready F g (t :: rest)) (hrow : row = [] ∨ row ∈ t.rows)
    (hrole : ¬ t.role.IsPlain) :
    ∃ g', Graph.splice t.node (chain row) g = .ok () g' ∧ RowsInSequence F g' ∧ Ready F g' (row ++ rest) ∧
      g'.child? t.node = (nodes (row ++ rest)).head? := by
  have hsub : row ⊆ t.kids := by
    rcases hrow with rfl | hrow
    · exact List.nil_subset _
    · exact fun s hs => mem_kids hrow hs
  obtain ⟨g', hsplice, hg⟩ := Graph.splice_ok (h.graftable ha hsub)
  refine ⟨g', hsplice, h.rowsInSequence_graft ha hrow hrole hg, h.ready_graft ha hrow hg, ?_⟩
  rw [hg.self, ha.continuation_head h]
  cases row with
  | nil => rfl
  | cons s row => rfl

end RowsInSequence

end Tree

end Storyline
