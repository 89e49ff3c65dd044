import Storyline.Proofs.Graph.Paired

/-!
# Children refer back

* `Backed g`: whoever is in the list of a node refers back to it, so that nobody is in two lists. The
  other way round nothing is said: the head of a chain may refer back to a node without a child;
* `Backed.setChild`, `Backed.link`, `Backed.splice`: moving, linking and grafting keep this;
* `Backed.setParent`: so does a back reference that is set alone, if its node is in no list;
* `Backed.not_of_setParent`: otherwise two lists come to have a claim on the node.
-/

namespace Storyline.Graph

open Effect

variable {γ : Type} {g g' : Graph γ} {id x y c p : NodeId} {c? p? : Option NodeId}
  {l : List NodeId}

/-- Whoever is in the list of a node refers back to it. -/
def Backed (g : Graph γ) : Prop := ∀ p c, c ∈ g.children p → g.parent? c = some p

/-- A node is in no list. -/
def Loose (g : Graph γ) (c : NodeId) : Prop := ∀ p, c ∉ g.children p

theorem Backed.unique (h : Backed g) (hx : c ∈ g.children x) (hy : c ∈ g.children y) : x = y :=
  Option.some.inj ((h x c hx).symm.trans (h y c hy))

theorem Backed.loose (h : Backed g) (hc : g.parent? c = none) : g.Loose c := by
  intro p hp
  rw [h p c hp] at hc
  cases hc

theorem Relisted.backed (h : Relisted g id c? l g') (hg : Backed g) : Backed g' := by
  intro p c hc
  rw [h.parent]
  by_cases hp : p = id
  · subst hp
    rw [h.self] at hc
    rcases h.old c hc with hnew | hold
    · rw [if_pos hnew]
    · split
      · rfl
      · rw [if_neg fun hout => hout.2.1 hc]
        exact hg p c hold
  · rw [h.other p hp] at hc
    have hin : c ∈ g.children p := by
      split at hc
      · exact (List.mem_filter.1 hc).1
      · exact hc
    have hparent := hg p c hin
    have hnew : c? ≠ some c := by
      rintro rfl
      simp [hparent] at hc
    rw [if_neg hnew, if_neg, hparent]
    rintro ⟨-, -, hid⟩
    exact hp (Option.some.inj (hparent.symm.trans hid))

namespace Backed

theorem setChild (h : Backed g) (hg : g.setChild id c? = .ok g') : Backed g' :=
  (relisted_of_setChild hg).backed h

theorem insert {kind : NodeKind} {content : Option γ} (h : Backed g)
    (hg : g.insert id kind content = .ok g') : Backed g' := by
  intro p c
  rw [(edges_insert hg p).1, (edges_insert hg c).2]
  exact h p c

theorem link (h : Backed g) (nodes : List NodeId) : Backed (left (Graph.link nodes g)) :=
  left_link setChild h nodes

theorem splice (h : Backed g) (branch : Option Chain) :
    Backed (left (Graph.splice id branch g)) :=
  left_splice setChild h (fun _ => h) branch

theorem withRoot (id : NodeId) : Backed (Graph.withRoot id : Graph γ) :=
  fun p c => ((Grown.withRoot id).paired p c).1

end Backed

/-! ### Back references that are set alone -/

theorem parent?_of_setParent (hg : g.setParent id p? = .ok g') (x : NodeId) :
    g'.parent? x = if x = id then p? else g.parent? x := by
  have hid : g.contains id = true := by
    cases hc : g.get? id with
    | some n => rw [contains_eq, hc]; rfl
    | none => simp [Graph.setParent, node, hc] at hg
  rw [eq_modify_of_setParent hg, parent?_modify g id x (fun _ => p?) fun _ => rfl]
  intro hf
  rw [hid] at hf
  cases hf

theorem Backed.setParent (h : Backed g) (hid : g.Loose id) (hg : g.setParent id p? = .ok g') :
    Backed g' := by
  intro p c hc
  rw [(sameEdges_of_setParent hg).children] at hc
  rw [parent?_of_setParent hg, if_neg]
  · exact h p c hc
  · rintro rfl
    exact hid p hc

/-- A node in the list of one node that comes to refer back to another. -/
theorem Backed.not_of_setParent (hx : id ∈ g.children x) (hp : p ≠ x)
    (hg : g.setParent id (some p) = .ok g') : ¬ Backed g' := by
  intro h
  have hback := h x id (by rwa [(sameEdges_of_setParent hg).children])
  rw [parent?_of_setParent hg, if_pos rfl] at hback
  exact hp (Option.some.inj hback)

end Storyline.Graph
