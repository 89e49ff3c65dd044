import Mathlib.Data.List.Nodup
import Mathlib.Data.List.Pairwise
import Storyline.Proofs.Story.Tree

/-!
# Where a node of a forest leads

* `links l k`: the nodes of a list, each with the one behind it, the last one with `k`;
* `Tree.allRows F`: all rows of a forest, the top ones first, and those that trees lead into;
* `Tree.Follows F a b`: `b` stands right behind `a` in a row; `Tree.Cont F a k`: `k` is what is
  played once everything within `a` was, if anything is;
* `Follows.unique`, `Cont.unique`: where all nodes are distinct both are functions.
-/

namespace Storyline

/-! ### Neighbours in a list -/

/-- The nodes of a list, each with the one behind it. -/
def links : List NodeId → Option NodeId → List (NodeId × Option NodeId)
  | [], _ => []
  | a :: rest, k => (a, rest.head?.or k) :: links rest k

section Links

variable {l : List NodeId} {n a b : NodeId} {k k₁ k₂ : Option NodeId}

theorem links_append (l l' : List NodeId) (k : Option NodeId) :
    links (l ++ l') k = links l (l'.head?.or k) ++ links l' k := by
  induction l with
  | nil => rfl
  | cons a rest ih =>
    simp only [List.cons_append, links, ih]
    cases rest <;> rfl

theorem map_fst_links (l : List NodeId) (k : Option NodeId) : (links l k).map Prod.fst = l := by
  induction l with
  | nil => rfl
  | cons a rest ih => rw [links, List.map_cons, ih]

theorem mem_of_links (h : (n, k₁) ∈ links l k) : n ∈ l := by
  rw [← map_fst_links l k]
  exact List.mem_map.2 ⟨_, h, rfl⟩

theorem links_unique (hl : l.Nodup) (h₁ : (n, k₁) ∈ links l k) (h₂ : (n, k₂) ∈ links l k) :
    k₁ = k₂ := by
  rw [← map_fst_links l k] at hl
  exact congrArg Prod.snd (List.inj_on_of_nodup_map hl h₁ h₂ rfl)

/-- A node of a list has another one of it behind it, or is the last. -/
theorem links_cases (h : (n, k₁) ∈ links l k) :
    (∃ b ∈ l.tail, k₁ = some b ∧ (n, some b) ∈ links l none) ∨
      (k₁ = k ∧ l.getLast? = some n ∧ (n, none) ∈ links l none) := by
  induction l with
  | nil => cases h
  | cons a rest ih =>
    rcases List.mem_cons.1 h with he | h
    · obtain ⟨rfl, rfl⟩ := Prod.mk.inj he
      cases rest with
      | nil => exact .inr ⟨rfl, rfl, List.mem_cons_self⟩
      | cons b rest => exact .inl ⟨b, List.mem_cons_self, rfl, List.mem_cons_self⟩
    · rcases ih h with ⟨b, hb, rfl, hl⟩ | ⟨rfl, hlast, hl⟩
      · exact .inl ⟨b, List.mem_of_mem_tail hb, rfl, List.mem_cons_of_mem _ hl⟩
      · refine .inr ⟨rfl, ?_, List.mem_cons_of_mem _ hl⟩
        rw [List.getLast?_cons, hlast]
        rfl

theorem mem_tail_of_links (h : (n, some b) ∈ links l none) : b ∈ l.tail := by
  rcases links_cases h with ⟨b', hb', he, -⟩ | ⟨he, -⟩
  · rwa [Option.some_inj.1 he]
  · cases he

theorem mem_links_of_none (h : (n, some b) ∈ links l none) (k : Option NodeId) :
    (n, some b) ∈ links l k := by
  induction l with
  | nil => cases h
  | cons a rest ih =>
    rcases List.mem_cons.1 h with he | h
    · cases rest with
      | nil => cases he
      | cons c rest => exact List.mem_cons.2 (.inl he)
    · exact List.mem_cons_of_mem _ (ih h)

theorem link_last (h : l.getLast? = some n) (k : Option NodeId) : (n, k) ∈ links l k := by
  induction l with
  | nil => cases h
  | cons a rest ih =>
    cases rest with
    | nil =>
      obtain rfl : a = n := by simpa using h
      exact List.mem_cons_self
    | cons b rest => exact List.mem_cons_of_mem _ (ih (by rwa [List.getLast?_cons_cons] at h))

theorem links_before_unique (hl : l.Nodup) (h₁ : (a, some n) ∈ links l none)
    (h₂ : (b, some n) ∈ links l none) : a = b := by
  induction l with
  | nil => cases h₁
  | cons c rest ih =>
    obtain ⟨hc, hrest⟩ := List.nodup_cons.1 hl
    -- a node that heads the rest stands behind nothing in it
    have hhead : ∀ d, (d, some n) ∈ links rest none → rest.head?.or none ≠ some n := by
      intro d hd he
      have htail := mem_tail_of_links hd
      cases rest with
      | nil => cases hd
      | cons e rest =>
        obtain rfl : e = n := Option.some_inj.1 he
        exact (List.nodup_cons.1 hrest).1 htail
    rcases List.mem_cons.1 h₁ with h₁ | h₁ <;> rcases List.mem_cons.1 h₂ with h₂ | h₂
    · exact (Prod.mk.inj h₁).1.trans (Prod.mk.inj h₂).1.symm
    · exact absurd (Prod.mk.inj h₁).2.symm (hhead b h₂)
    · exact absurd (Prod.mk.inj h₂).2.symm (hhead a h₁)
    · exact ih hrest h₁ h₂

end Links

namespace Tree

variable {F : List (List Tree)} {r r' : List Tree} {s t : Tree} {a b n : NodeId}
  {k k' : Option NodeId}

/-! ### Rows -/

/-- Lists that share a member are the same, where all members together are distinct. -/
theorem eq_of_mem_flatMap {α β : Type} {l : List α} {f : α → List β} (h : (l.flatMap f).Nodup)
    {a b : α} {x : β} (ha : a ∈ l) (hb : b ∈ l) (hxa : x ∈ f a) (hxb : x ∈ f b) : a = b := by
  have hsymm : Std.Symm fun a b : α => a = b ∨ (f a).Disjoint (f b) :=
    ⟨fun _ _ h => h.imp Eq.symm fun hd _ hx hy => hd hy hx⟩
  have hpair := (List.nodup_flatMap.1 h).2.imp (S := fun a b => a = b ∨ (f a).Disjoint (f b)) .inr
  rcases hpair.forall_of_forall (fun _ _ => .inl rfl) ha hb with he | hd
  · exact he
  · exact absurd hxb (hd hxa)

/-- All rows of a forest. -/
def allRows (F : List (List Tree)) : List (List Tree) := F ++ (within F.flatten).flatMap rows

/-- The nodes of trees. -/
def nodes (ts : List Tree) : List NodeId := ts.map node

theorem flatten_allRows (F : List (List Tree)) :
    (allRows F).flatten = F.flatten ++ (within F.flatten).flatMap kids := by
  unfold allRows
  rw [List.flatten_append]
  congr 1
  induction within F.flatten with
  | nil => rfl
  | cons t ts ih => rw [List.flatMap_cons, List.flatten_append, ih, List.flatMap_cons, kids]

theorem mem_allRows_of_rows (ht : t ∈ within F.flatten) (hr : r ∈ t.rows) : r ∈ allRows F :=
  List.mem_append_right _ (List.mem_flatMap.2 ⟨t, ht, hr⟩)

theorem mem_kids (hr : r ∈ t.rows) (hs : s ∈ r) : s ∈ t.kids := List.mem_flatten.2 ⟨r, hr, hs⟩

theorem mem_nodes_kids (hr : r ∈ t.rows) (ha : a ∈ nodes r) : a ∈ nodes t.kids := by
  obtain ⟨s, hs, rfl⟩ := List.mem_map.1 ha
  exact List.mem_map.2 ⟨s, mem_kids hr hs, rfl⟩

/-- A forest whose nodes are distinct. -/
def Distinct (F : List (List Tree)) : Prop := (nodes (within F.flatten)).Nodup

namespace Distinct

theorem eq_of_node (h : Distinct F) (hs : s ∈ within F.flatten) (ht : t ∈ within F.flatten)
    (he : s.node = t.node) : s = t :=
  List.inj_on_of_nodup_map h hs ht he

theorem nodup_allRows (h : Distinct F) :
    (nodes F.flatten ++ nodes ((within F.flatten).flatMap kids)).Nodup := by
  have hperm := (perm_within F.flatten).map node
  rw [List.map_append] at hperm
  exact hperm.nodup_iff.2 h

theorem nodup_flatten (h : Distinct F) : (allRows F).flatten.Nodup := by
  have hl := h.nodup_allRows
  unfold nodes at hl
  rw [← List.map_append, ← flatten_allRows] at hl
  exact hl.of_map

theorem mem_within_of_row (hr : r ∈ allRows F) (ht : t ∈ r) : t ∈ within F.flatten := by
  rcases List.mem_append.1 hr with hr | hr
  · exact subset_within _ (List.mem_flatten.2 ⟨r, hr, ht⟩)
  · obtain ⟨s, hs, hr⟩ := List.mem_flatMap.1 hr
    exact kids_subset_within hs (mem_kids hr ht)

theorem row_unique (h : Distinct F) (hr : r ∈ allRows F) (hr' : r' ∈ allRows F) (ha : a ∈ nodes r)
    (ha' : a ∈ nodes r') : r = r' := by
  obtain ⟨s, hs, rfl⟩ := List.mem_map.1 ha
  obtain ⟨t, ht, he⟩ := List.mem_map.1 ha'
  obtain rfl := h.eq_of_node (mem_within_of_row hr' ht) (mem_within_of_row hr hs) he
  have hnodup := h.nodup_flatten
  rw [← List.flatMap_id] at hnodup
  exact eq_of_mem_flatMap hnodup hr hr' hs ht

theorem nodup_row (h : Distinct F) (hr : r ∈ allRows F) : (nodes r).Nodup := by
  have hnodup := (List.nodup_flatten.1 h.nodup_flatten).1 r hr
  refine hnodup.map_on fun s hs t ht he => ?_
  exact h.eq_of_node (mem_within_of_row hr hs) (mem_within_of_row hr ht) he

theorem not_mem_kids (h : Distinct F) (ht : t ∈ F.flatten) (hs : s ∈ within F.flatten) :
    t.node ∉ nodes s.kids := by
  intro hmem
  refine (List.nodup_append.1 h.nodup_allRows).2.2 _ (List.mem_map.2 ⟨t, ht, rfl⟩) _ ?_ rfl
  obtain ⟨k, hk, he⟩ := List.mem_map.1 hmem
  exact List.mem_map.2 ⟨k, List.mem_flatMap.2 ⟨s, hs, hk⟩, he⟩

theorem owner_unique (h : Distinct F) (hs : s ∈ within F.flatten) (ht : t ∈ within F.flatten)
    (has : a ∈ nodes s.kids) (hat : a ∈ nodes t.kids) : s = t := by
  obtain ⟨x, hx, rfl⟩ := List.mem_map.1 has
  obtain ⟨y, hy, he⟩ := List.mem_map.1 hat
  obtain rfl := h.eq_of_node (kids_subset_within ht hy) (kids_subset_within hs hx) he
  have hnodup := h.nodup_flatten
  rw [flatten_allRows] at hnodup
  exact eq_of_mem_flatMap (List.nodup_append.1 hnodup).2.1 hs ht hx hy

end Distinct

/-! ### What is played next -/

/-- One node stands right behind another in a row. -/
def Follows (F : List (List Tree)) (a b : NodeId) : Prop :=
  ∃ r ∈ allRows F, (a, some b) ∈ links (nodes r) none

/-- What is played once everything within a node was: the node behind it, or else what is played
after the tree that leads into its row. -/
inductive Cont (F : List (List Tree)) : NodeId → Option NodeId → Prop
  | top {r : List Tree} {a : NodeId} {k : Option NodeId} (hr : r ∈ F)
      (h : (a, k) ∈ links (nodes r) none) : Cont F a k
  | inner {t : Tree} {r : List Tree} {a : NodeId} {k k' : Option NodeId}
      (ht : t ∈ within F.flatten) (hr : r ∈ t.rows) (hk : Cont F t.node k)
      (h : (a, k') ∈ links (nodes r) k) : Cont F a k'

theorem Follows.unique (h : Distinct F) (ha : Follows F a n) (hb : Follows F b n) : a = b := by
  obtain ⟨r, hr, ha⟩ := ha
  obtain ⟨r', hr', hb⟩ := hb
  obtain rfl := h.row_unique hr hr' (List.mem_of_mem_tail (mem_tail_of_links ha))
    (List.mem_of_mem_tail (mem_tail_of_links hb))
  exact links_before_unique (h.nodup_row hr) ha hb

theorem Distinct.top_ne_inner (h : Distinct F) (hr : r ∈ F) (ha : a ∈ nodes r)
    (ht : t ∈ within F.flatten) (hr' : r' ∈ t.rows) (ha' : a ∈ nodes r') : False := by
  obtain ⟨s, hs, rfl⟩ := List.mem_map.1 ha
  obtain ⟨s', hs', he⟩ := List.mem_map.1 ha'
  exact h.not_mem_kids (List.mem_flatten.2 ⟨r, hr, hs⟩) ht
    (List.mem_map.2 ⟨s', mem_kids hr' hs', he⟩)

theorem Cont.unique (h : Distinct F) (hk : Cont F a k) (hk' : Cont F a k') : k = k' := by
  induction hk generalizing k' with
  | top hr ha =>
    cases hk' with
    | top hr' ha' =>
      obtain rfl := h.row_unique (List.mem_append_left _ hr) (List.mem_append_left _ hr')
        (mem_of_links ha) (mem_of_links ha')
      exact links_unique (h.nodup_row (List.mem_append_left _ hr)) ha ha'
    | inner ht hr' _ ha' =>
      exact (h.top_ne_inner hr (mem_of_links ha) ht hr' (mem_of_links ha')).elim
  | inner ht hr _ ha ih =>
    cases hk' with
    | top hr' ha' => exact (h.top_ne_inner hr' (mem_of_links ha') ht hr (mem_of_links ha)).elim
    | inner ht' hr' hk' ha' =>
      -- the same tree leads into the same row, and what is played after it is the same
      obtain rfl := h.owner_unique ht ht' (mem_nodes_kids hr (mem_of_links ha))
        (mem_nodes_kids hr' (mem_of_links ha'))
      obtain rfl := h.row_unique (mem_allRows_of_rows ht hr) (mem_allRows_of_rows ht hr')
        (mem_of_links ha) (mem_of_links ha')
      obtain rfl := ih hk'
      exact links_unique (h.nodup_row (mem_allRows_of_rows ht hr)) ha ha'

end Tree

end Storyline
