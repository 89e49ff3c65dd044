import Storyline.Graph.Chains
import Storyline.Proofs.Graph.Edges

/-!
# Grafting a branch

* `Graftable g id branch`: what has to hold for `splice id branch` to succeed: the continuation of
  `id` and the ends of the branch are nodes that may be moved, and all apart from each other;
* `Grafted g id branch g'`: what it does then: `id` leads into the branch, the end of the branch
  leads to the continuation, which is remembered, and no other edge is changed, unless it led to
  one of the two moved nodes;
* `splice_ok`: the one leads to the other.
-/

namespace Storyline

theorem Chain.ends_of_ofNodes {l : List NodeId} {c : Chain} (h : Chain.ofNodes? l = some c) :
    l.head? = some c.head ∧ l.getLast? = some c.tail := by
  cases l with
  | nil => cases h
  | cons a l =>
    obtain ⟨⟩ := h
    exact ⟨rfl, List.getLast?_eq_some_getLast (List.cons_ne_nil a l)⟩

theorem Chain.eq_nil_of_ofNodes {l : List NodeId} (h : Chain.ofNodes? l = none) : l = [] := by
  cases l with
  | nil => rfl
  | cons x l => cases h

namespace Graph

open Effect

variable {γ : Type} {g g' : Graph γ} {id x y k : NodeId} {c? : Option NodeId}
  {branch : Option Chain} {c : Chain}

/-! ### One step of an edit -/

theorem attempt_of_ok {f : Graph γ → Except GraphError (Graph γ)} (h : f g = .ok g') :
    attempt f g = .ok () g' := by
  simp [attempt, h]

theorem attempt_eq_ok_iff {f : Graph γ → Except GraphError (Graph γ)} :
    attempt f g = .ok () g' ↔ f g = .ok g' := by
  unfold attempt
  cases f g <;> simp

theorem attempt_setChild (c? : Option NodeId) (hid : g.contains id = true)
    (hc : ∀ c, c? = some c → c ≠ id ∧ g.Movable c) :
    ∃ g', attempt (·.setChild id c?) g = .ok () g' ∧ Rewired g id c? g' := by
  obtain ⟨g', hg'⟩ := setChild_eq_ok_iff.2 ⟨hid, hc⟩
  exact ⟨g', attempt_of_ok hg', rewired_of_setChild hg'⟩

/-! ### Remembering the continuation -/

theorem resumes_remember (g : Graph γ) (id x : NodeId) :
    (g.remember id).resumes[x]? =
      if x = id then some (g.continuation id) else g.resumes[x]? := by
  simp only [remember, Std.ExtTreeMap.getElem?_insert, Std.compare_eq_iff_eq, eq_comm (a := id)]

/-- The continuation of a node that was never spliced is its child. -/
theorem continuation_of_none (h : g.resumes[x]? = none) : g.continuation x = g.child? x := by
  simp [continuation, h]

theorem continuation_of_some (h : g.resumes[x]? = some c?) : g.continuation x = c? := by
  simp [continuation, h]

/-! ### Before and after -/

/-- A branch that may be grafted in at a node. -/
structure Graftable (g : Graph γ) (id : NodeId) (branch : Option Chain) : Prop where
  node : g.contains id = true
  resume : ∀ k, g.continuation id = some k → k ≠ id ∧ g.Movable k
  head : ∀ c, branch = some c → c.head ≠ id ∧ g.Movable c.head ∧ g.continuation id ≠ some c.head
  tail : ∀ c, branch = some c →
    c.tail ≠ id ∧ g.contains c.tail = true ∧ g.continuation id ≠ some c.tail

/-- Where a node leads once a branch is grafted in: into the branch, or on if there is none. -/
def entry (branch : Option Chain) (continuation : Option NodeId) : Option NodeId :=
  match branch with
  | some c => some c.head
  | none => continuation

/-- `g'` is `g` with a branch grafted in at a node. -/
structure Grafted (g : Graph γ) (id : NodeId) (branch : Option Chain) (g' : Graph γ) : Prop
    extends SameNodes g g' where
  resumes : ∀ x, g'.resumes[x]? = if x = id then some (g.continuation id) else g.resumes[x]?
  self : g'.child? id = entry branch (g.continuation id)
  tail : ∀ c, branch = some c → g'.child? c.tail = g.continuation id
  kept : ∀ x y, x ≠ id → (∀ c, branch = some c → x ≠ c.tail ∧ y ≠ c.head) →
    g.continuation id ≠ some y → g.child? x = some y → g'.child? x = some y
  bare : ∀ x, x ≠ id → (∀ c, branch = some c → x ≠ c.tail) → g.child? x = none → g'.child? x = none

namespace Grafted

theorem continuation_self (h : Grafted g id branch g') :
    g'.continuation id = g.continuation id :=
  continuation_of_some (by rw [h.resumes, if_pos rfl])

end Grafted

theorem splice_ok (h : Graftable g id branch) :
    ∃ g', splice id branch g = .ok () g' ∧ Grafted g id branch g' := by
  have hm : SameNodes g (g.remember id) := ⟨fun _ => rfl, rfl⟩
  have hnext : ∀ g₁ : Graph γ, SameNodes g g₁ → ∀ k, g.continuation id = some k → g₁.Movable k :=
    fun g₁ h₁ k hk => (h₁.movable_iff k).2 (h.resume k hk).2
  cases branch with
  | none =>
    have hsplice : splice id none g =
        attempt (·.setChild id (g.continuation id)) (g.remember id) := by
      simp only [splice, bind_get_apply, h.node]
      rfl
    obtain ⟨g', hg', hr⟩ := attempt_setChild (g.continuation id)
      (by rw [hm.contains, h.node] : (g.remember id).contains id = true)
      fun k hk => ⟨(h.resume k hk).1, hnext _ hm k hk⟩
    refine ⟨g', hsplice.trans hg', ⟨hm.trans hr.toSameNodes, fun x => ?_, hr.child?_self, nofun,
      fun x y hx _ hk hy => hr.child?_other hx hy hk, fun x hx _ hn => hr.child?_none hx hn⟩⟩
    rw [hr.resumes, resumes_remember]
  | some c =>
    have hsplice : splice id (some c) g = (do
        attempt (·.setChild c.tail (g.continuation id))
        attempt (·.setChild id (some c.head)) : Edit γ Unit) (g.remember id) := by
      simp only [splice, bind_get_apply, h.node]
      rfl
    obtain ⟨hhid, hhm, hhk⟩ := h.head c rfl
    obtain ⟨htid, htc, htk⟩ := h.tail c rfl
    -- the end of the branch is joined to the continuation, then the node to the branch
    obtain ⟨g₁, hg₁, hr₁⟩ := attempt_setChild (g.continuation id)
      (by rw [hm.contains, htc] : (g.remember id).contains c.tail = true)
      fun k hk => ⟨fun e => htk (e ▸ hk), hnext _ hm k hk⟩
    have hn₁ := hm.trans hr₁.toSameNodes
    obtain ⟨g₂, hg₂, hr₂⟩ := attempt_setChild (some c.head)
      (by rw [hn₁.contains, h.node] : g₁.contains id = true)
      (by rintro _ ⟨⟩; exact ⟨hhid, (hn₁.movable_iff _).2 hhm⟩)
    refine ⟨g₂, hsplice.trans ((bind_of_ok hg₁).trans hg₂), ⟨hn₁.trans hr₂.toSameNodes, fun x => ?_,
      hr₂.child?_self, ?_, ?_, ?_⟩⟩
    · rw [hr₂.resumes, hr₁.resumes, resumes_remember]
    · rintro _ ⟨⟩
      cases hk : g.continuation id with
      | none => exact hr₂.child?_none htid (hr₁.child?_self.trans hk)
      | some k =>
        exact hr₂.child?_other htid (hr₁.child?_self.trans hk) fun e => hhk (hk.trans e.symm)
    · intro x y hx hc hk hy
      obtain ⟨hxt, hyh⟩ := hc c rfl
      exact hr₂.child?_other hx (hr₁.child?_other hxt hy hk) fun e => hyh (Option.some.inj e).symm
    · intro x hx hc hn
      exact hr₂.child?_none hx (hr₁.child?_none (hc c rfl) hn)

end Graph

end Storyline
