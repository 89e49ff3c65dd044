import Storyline.Proofs.Graph.SinglyLinked
import Storyline.Proofs.Story.Rows

/-!
# Lists of nodes in a graph that is played

* `ListsInSequence lists g`: the invariant of a graph in which lists of nodes were linked, whoever leads into
  them and however often: play goes on behind a node of a list with the one behind it, and nobody
  but a list's own composites and branch points leads to its first node;
* `ListsInSequence.splice`: grafting any of the lists in at any of the nodes keeps this.

Unlike a row of a forest, a list may be led into from many places, so nothing is said of where its
last node leads.
-/

namespace Storyline

open Storyline.Graph (SinglyLinked lead redirect joins)

variable {γ : Type} {lists : List (List NodeId)} {g g' : Graph γ} {a b c n x : NodeId}
  {l r r' : List NodeId} {k : Option NodeId}

/-! ### Distinct nodes -/

section Distinct

variable (h : lists.flatten.Nodup)
include h

theorem list_unique (hr : r ∈ lists) (hr' : r' ∈ lists) (ha : a ∈ r) (ha' : a ∈ r') : r = r' := by
  rw [← List.flatMap_id] at h
  exact Tree.eq_of_mem_flatMap h hr hr' ha ha'

theorem nodup_list (hr : r ∈ lists) : r.Nodup := (List.nodup_flatten.1 h).1 r hr

theorem head?_ne_of_links (hr : r ∈ lists) (hl : (a, some b) ∈ links r none) (hr' : r' ∈ lists) :
    r'.head? ≠ some b := by
  intro hhead
  have htail := mem_tail_of_links hl
  obtain rfl := list_unique h hr hr' (List.mem_of_mem_tail htail) (List.mem_of_head? hhead)
  obtain ⟨rest, rfl⟩ := List.head?_eq_some_iff.1 hhead
  exact (List.nodup_cons.1 (nodup_list h hr)).1 htail

/-- What has another node behind it in a list is the last of none. -/
theorem getLast?_ne_of_links (hr : r ∈ lists) (hl : (a, some b) ∈ links r none) (hr' : r' ∈ lists) :
    r'.getLast? ≠ some a := by
  intro hlast
  obtain rfl := list_unique h hr hr' (mem_of_links hl) (List.mem_of_getLast? hlast)
  cases links_unique (nodup_list h hr) hl (link_last hlast none)

end Distinct

/-! ### The invariant -/

/-- Lists of nodes in a graph, whatever was grafted in. -/
structure ListsInSequence (lists : List (List NodeId)) (g : Graph γ) : Prop extends SinglyLinked g where
  distinct : lists.flatten.Nodup
  /-- Play goes on behind a node of a list with the one behind it. -/
  follows : ∀ r ∈ lists, ∀ a b, (a, some b) ∈ links r none → g.continuation a = some b
  /-- As long as that is its own edge, nobody else remembers to go on there. -/
  apart : ∀ r ∈ lists, ∀ a b, (a, some b) ∈ links r none → g.resumes[a]? = none →
    ∀ t : NodeId, g.resumes[t]? ≠ some (some b)
  /-- Play goes on behind a node with nothing that heads a list. -/
  heads : ∀ t ∈ lists.flatten, ∀ c, g.continuation t = some c →
    c ∈ lists.flatten ∧ ∀ r ∈ lists, r.head? ≠ some c
  inside : ∀ t ∈ lists.flatten, ∀ c, g.child? t = some c → c ∈ lists.flatten

namespace ListsInSequence

theorem continuation_ne (h : ListsInSequence lists g) (hr : r ∈ lists) (hl : (a, some b) ∈ links r none)
    (ha : g.resumes[a]? = none) (hx : x ≠ a) : g.continuation x ≠ some b := by
  intro hk
  cases hres : g.resumes[x]? with
  | some k =>
    rw [Graph.continuation_of_some hres] at hk
    exact h.apart r hr a b hl ha x (hres.trans (congrArg some hk))
  | none =>
    have hab := h.follows r hr a b hl
    rw [Graph.continuation_of_none hres] at hk
    rw [Graph.continuation_of_none ha] at hab
    exact hx (h.injective hk hab)

/-- **What grafting a list in keeps**, at any node of a list. -/
theorem splice {branch : Option Chain} (h : ListsInSequence lists g) (hx : x ∈ lists.flatten)
    (hb : ∀ c, branch = some c → ∃ r ∈ lists, Chain.ofNodes? r = some c)
    (hg : Graph.splice x branch g = .ok () g') : ListsInSequence lists g' := by
  obtain ⟨hsingly, hchild, hres⟩ := h.toSinglyLinked.splice hg
  -- the edges that are set: to where play goes on behind the node, or to the head of a list
  have hedge : ∀ t c, (t, some c) ∈ joins x branch (g.continuation x) →
      g.continuation x = some c ∨ t = x ∧ ∃ r ∈ lists, r.head? = some c := by
    intro t c ht
    rcases Graph.joins_cases ht with he | ⟨rfl, ch, hch, he⟩
    · exact .inl he.symm
    · obtain ⟨r, hr, hrc⟩ := hb ch hch
      exact .inr ⟨rfl, r, hr, he ▸ (Chain.ends_of_ofNodes hrc).1⟩
  have hled : ∀ t ∈ (joins x branch (g.continuation x)).map Prod.fst,
      t = x ∨ ∃ r ∈ lists, r.getLast? = some t := by
    intro t ht
    rcases Graph.joins_led ht with rfl | ⟨ch, hch, rfl⟩
    · exact .inl rfl
    · obtain ⟨r, hr, hrc⟩ := hb ch hch
      exact .inr ⟨r, hr, (Chain.ends_of_ofNodes hrc).2⟩
  have hcont : ∀ t, t = x ∨ g.resumes[t]? ≠ none → g'.continuation t = g.continuation t :=
    fun t ht => Graph.continuation_of_splice hg ht h.toSinglyLinked
  refine ⟨hsingly, h.distinct, fun r hr a b hl => ?_, fun r hr a b hl ha t ht => ?_,
    fun t ht c hc => ?_, fun t ht c hc => ?_⟩
  · have hab := h.follows r hr a b hl
    by_cases ha : a = x ∨ g.resumes[a]? ≠ none
    · rw [hcont a ha, hab]
    · obtain ⟨hax, hnone⟩ := not_or.1 ha
      have hnone : g.resumes[a]? = none := Decidable.not_not.1 hnone
      have hres' : g'.resumes[a]? = none := by rw [hres, if_neg hax, hnone]
      rw [Graph.continuation_of_none hnone] at hab
      rw [Graph.continuation_of_none hres', hchild, Graph.lead_of_not_mem, if_neg, hab]
      · intro hmem
        obtain ⟨⟨t, _⟩, he, rfl⟩ := List.mem_map.1 hmem
        rw [hab] at he
        rcases hedge t b he with hk | ⟨-, r', hr', hhead⟩
        · exact h.continuation_ne hr hl hnone (Ne.symm hax) hk
        · exact head?_ne_of_links h.distinct hr hl hr' hhead
      · intro hmem
        rcases hled a hmem with rfl | ⟨r', hr', hlast⟩
        · exact hax rfl
        · exact getLast?_ne_of_links h.distinct hr hl hr' hlast
  · rw [hres] at ha ht
    split at ha
    · cases ha
    · rename_i hax
      split at ht
      · exact h.continuation_ne hr hl ha (Ne.symm hax) (Option.some.inj ht)
      · exact h.apart r hr a b hl ha t ht
  · by_cases htx : t = x ∨ g.resumes[t]? ≠ none
    · rw [hcont t htx] at hc
      exact h.heads t ht c hc
    · obtain ⟨htx, hnone⟩ := not_or.1 htx
      have hnone : g.resumes[t]? = none := Decidable.not_not.1 hnone
      have hres' : g'.resumes[t]? = none := by rw [hres, if_neg htx, hnone]
      rw [Graph.continuation_of_none hres', hchild] at hc
      rcases Graph.lead_eq_some hc with he | he
      · rcases hedge t c he with hk | ⟨rfl, -⟩
        · exact h.heads x hx c hk
        · exact absurd rfl htx
      · exact h.heads t ht c ((Graph.continuation_of_none hnone).trans he)
  · rw [hchild] at hc
    rcases Graph.lead_eq_some hc with he | he
    · rcases hedge t c he with hk | ⟨-, r, hr, hhead⟩
      · exact (h.heads x hx c hk).1
      · exact List.mem_flatten.2 ⟨r, hr, List.mem_of_head? hhead⟩
    · exact h.inside t ht c he

end ListsInSequence

end Storyline
