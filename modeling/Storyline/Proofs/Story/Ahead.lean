import Storyline.Proofs.Story.ListsInSequence

/-!
# What is ahead of play in lists of nodes

* `Ahead lists g A k`: play goes on along the nodes of `A`, which are what is left of lists that were
  entered, and behind the last of them at `k`;
* `Ahead.splice`: a list that is grafted in at the first of them is ahead of the others, as long as
  no node of it is ahead already and its last node does not remember to go on elsewhere.
-/

namespace Storyline

open Storyline.Graph (SinglyLinked lead redirect joins)

variable {γ : Type} {lists : List (List NodeId)} {g g' : Graph γ} {a b c x : NodeId}
  {A R : List NodeId} {k : Option NodeId} {branch : Option Chain}

/-- Play goes on along some nodes and then at `k`. -/
structure Ahead (lists : List (List NodeId)) (g : Graph γ) (A : List NodeId) (k : Option NodeId) :
    Prop where
  leads : ∀ a q, (a, q) ∈ links A k → g.continuation a = q
  nodup : A.Nodup
  apart : ∀ a ∈ A.tail, k ≠ some a
  mem : A ⊆ lists.flatten

namespace Ahead

theorem continuation_head (h : Ahead lists g (x :: A) k) : g.continuation x = A.head?.or k :=
  h.leads x _ List.mem_cons_self

theorem tail (h : Ahead lists g (x :: A) k) : Ahead lists g A k where
  leads a q hl := h.leads a q (List.mem_cons_of_mem _ hl)
  nodup := (List.nodup_cons.1 h.nodup).2
  apart a ha := h.apart a (List.mem_of_mem_tail ha)
  mem := fun _ ha => h.mem (List.mem_cons_of_mem _ ha)

/-- No two nodes lead to the same place, unless that is nowhere. -/
theorem ne_continuation (h : Ahead lists g (x :: A) k) (ha : (a, some b) ∈ links A k) :
    g.continuation x ≠ some b := by
  rw [h.continuation_head]
  intro he
  obtain ⟨-, hnodup⟩ := List.nodup_cons.1 h.nodup
  cases A with
  | nil => cases ha
  | cons y rest =>
    obtain rfl : y = b := Option.some.inj he
    rcases links_cases ha with ⟨c, hc, hb, -⟩ | ⟨hk, -, -⟩
    · obtain rfl := Option.some.inj hb
      exact (List.nodup_cons.1 hnodup).1 hc
    · exact h.apart y List.mem_cons_self hk.symm

/-! ### Grafting a list in at the first node -/

section Splice

variable {ch : Chain} (hs : ListsInSequence lists g) (h : Ahead lists g (x :: A) k)
  (hb : branch = Chain.ofNodes? R) (hR : R = [] ∨ R ∈ lists)
  (hfresh : ∀ a ∈ R, a ∉ A ∧ k ≠ some a) (hg : Graph.splice x branch g = .ok () g')

include hb hR in
/-- The chain is that of the list, which has a first and a last node. -/
theorem ends_of_branch (hch : branch = some ch) :
    R ∈ lists ∧ R.head? = some ch.head ∧ R.getLast? = some ch.tail := by
  obtain ⟨hhead, hlast⟩ := Chain.ends_of_ofNodes (hb.symm.trans hch)
  refine ⟨hR.resolve_left ?_, hhead, hlast⟩
  rintro rfl
  cases hhead

include hs hg in
/-- Who remembers nothing goes on where it leads to, also afterwards. -/
theorem continuation_of_forgetful (ha : a ≠ x) (hr : g.resumes[a]? = none) :
    g'.continuation a = lead (joins x branch (g.continuation x)) g.child? a := by
  obtain ⟨-, hchild, hres⟩ := hs.toSinglyLinked.splice hg
  rw [Graph.continuation_of_none (by rw [hres, if_neg ha, hr]), hchild]

include hs h hb hR hfresh hg in
theorem continuation_stays {q : Option NodeId} (hl : (a, q) ∈ links A k) :
    g'.continuation a = q := by
  have ha := mem_of_links hl
  have hq := h.tail.leads a q hl
  by_cases hr : g.resumes[a]? = none
  · have hax : a ≠ x := by
      rintro rfl
      exact (List.nodup_cons.1 h.nodup).1 ha
    have hchild : g.child? a = q := (Graph.continuation_of_none hr).symm.trans hq
    rw [continuation_of_forgetful hs hg hax hr, Graph.lead_of_not_mem, hchild]
    · cases q with
      | none => split <;> rfl
      | some b =>
        -- it leads to no head, and not to where play goes on behind the node
        rw [if_neg]
        intro hb'
        obtain ⟨⟨t, _⟩, he, rfl⟩ := List.mem_map.1 hb'
        rcases Graph.joins_cases he with he | ⟨-, ch, hch, he⟩
        · exact h.ne_continuation hl he.symm
        · obtain ⟨hRl, hhead, -⟩ := ends_of_branch hb hR hch
          exact (hs.heads a (h.tail.mem ha) b hq).2 R hRl (he ▸ hhead)
    · intro hled
      rcases Graph.joins_led hled with rfl | ⟨ch, hch, rfl⟩
      · exact hax rfl
      · exact (hfresh _ (List.mem_of_getLast? (ends_of_branch hb hR hch).2.2)).1 ha
  · rw [Graph.continuation_of_splice hg (.inr hr) hs.toSinglyLinked, hq]

include hs h hb hR hg in
/-- The last node of the list goes on where play goes on behind the first of those ahead. -/
theorem continuation_last (hch : branch = some ch)
    (hlast : ∀ q : Option NodeId, g.resumes[ch.tail]? = some q → q = g.continuation x) :
    g'.continuation ch.tail = g.continuation x := by
  obtain ⟨hRl, hhead, -⟩ := ends_of_branch hb hR hch
  by_cases hax : ch.tail = x
  · rw [hax, Graph.continuation_of_splice hg (.inl rfl) hs.toSinglyLinked]
  · cases hr : g.resumes[ch.tail]? with
    | some q =>
      rw [Graph.continuation_of_splice hg (.inr (by simp [hr])) hs.toSinglyLinked,
        Graph.continuation_of_some hr]
      exact hlast q hr
    | none =>
      rw [continuation_of_forgetful hs hg hax hr, hch]
      show redirect (redirect _ _ _) x (some ch.head) ch.tail = _
      rw [Graph.redirect_other hax, Graph.redirect_self, if_neg]
      intro he
      exact (hs.heads x (h.mem List.mem_cons_self) _ he).2 R hRl hhead

include hs h hb hR hfresh hg in
/-- **A list that is grafted in at the first node** is ahead of the others. -/
theorem splice (hs' : ListsInSequence lists g')
    (hlast : ∀ t, R.getLast? = some t → ∀ q : Option NodeId, g.resumes[t]? = some q →
      q = g.continuation x) :
    Ahead lists g' (R ++ A) k ∧ g'.child? x = (R ++ A).head?.or k := by
  -- the spliced nodes follow each other as in their list, the last one leads on as before
  have hlists : ∀ a q, (a, q) ∈ links R (A.head?.or k) → g'.continuation a = q := by
    intro a q hl
    have ha := mem_of_links hl
    have hRl : R ∈ lists := hR.resolve_left (List.ne_nil_of_mem ha)
    rcases links_cases hl with ⟨b, -, rfl, hl'⟩ | ⟨rfl, hlastR, -⟩
    · exact hs'.follows R hRl a b hl'
    · obtain ⟨ch, hch⟩ : ∃ ch, branch = some ch := by
        cases R with
        | nil => cases ha
        | cons y rest => exact ⟨_, hb⟩
      obtain ⟨-, -, htail⟩ := ends_of_branch hb hR hch
      obtain rfl : ch.tail = a := Option.some.inj (htail.symm.trans hlastR)
      rw [continuation_last hs h hb hR hg hch (hlast _ hlastR), h.continuation_head]
  refine ⟨⟨fun a q hl => ?_, ?_, fun a ha => ?_, fun a ha => ?_⟩, ?_⟩
  · rw [links_append] at hl
    rcases List.mem_append.1 hl with hl | hl
    · exact hlists a q hl
    · exact continuation_stays hs h hb hR hfresh hg hl
  · refine List.nodup_append.2 ⟨?_, h.tail.nodup, fun a ha b hb he => (hfresh a ha).1 (he ▸ hb)⟩
    rcases hR with rfl | hR
    · exact List.nodup_nil
    · exact nodup_list hs.distinct hR
  · rcases List.mem_append.1 (List.mem_of_mem_tail ha) with ha | ha
    · exact (hfresh a ha).2
    · exact h.apart a ha
  · rcases List.mem_append.1 ha with ha | ha
    · exact List.mem_flatten.2 ⟨R, hR.resolve_left (List.ne_nil_of_mem ha), ha⟩
    · exact h.tail.mem ha
  · -- what comes first now is the head of the branch, or what followed where there is none
    rw [(hs.toSinglyLinked.splice hg).2.1]
    cases hch : branch with
    | none =>
      obtain rfl : R = [] := Chain.eq_nil_of_ofNodes (hb.symm.trans hch)
      exact (Graph.redirect_self _ _ _).trans h.continuation_head
    | some ch =>
      rw [List.head?_append, (ends_of_branch hb hR hch).2.1]
      exact Graph.redirect_self _ _ _

end Splice

end Ahead

end Storyline
