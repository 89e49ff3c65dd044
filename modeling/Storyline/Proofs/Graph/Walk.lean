import Mathlib.Data.List.Chain
import Storyline.Proofs.Graph.Splice

/-!
# Runs and walks

* `IsRun g l`: the nodes of `l` are distinct, each but the last one leading to the next;
* `isRun_walk`: every walk is a run; `walk_eq_of_isRun`: a run whose last node has no child is the
  walk from its first node;
* `Grafted.isRun`: a graft keeps the runs that it does not cut.
-/

namespace Storyline.Graph

variable {γ : Type} {g g' : Graph γ} {id x y k : NodeId} {branch : Option Chain}
  {l : List NodeId}

/-- Distinct nodes along first children. -/
structure IsRun (g : Graph γ) (l : List NodeId) : Prop where
  nodup : l.Nodup
  linked : l.IsChain fun a b => g.child? a = some b

theorem IsRun.nil (g : Graph γ) : IsRun g [] := ⟨.nil, .nil⟩

/-- What of a run leads on: none of its nodes but the last stands for `a` here, and none but the
first for `b`. -/
theorem IsRun.of_pairs (h : g.IsRun l)
    (hl : ∀ l₁ a b l₂, l = l₁ ++ a :: b :: l₂ → g.child? a = some b → g'.child? a = some b) :
    g'.IsRun l := by
  refine ⟨h.nodup, List.isChain_iff_forall_rel_of_append_cons_cons.2 ?_⟩
  intro a b l₁ l₂ hab
  exact hl l₁ a b l₂ hab (List.isChain_iff_forall_rel_of_append_cons_cons.1 h.linked hab)

/-- Neighbours in a list without repetitions: the former is not the last, the latter not the
first. -/
theorem ne_ends_of_nodup {l₁ l₂ : List NodeId} {a b : NodeId} (h : l.Nodup)
    (hl : l = l₁ ++ a :: b :: l₂) : l.getLast? ≠ some a ∧ l.head? ≠ some b := by
  subst hl
  rw [List.nodup_append] at h
  obtain ⟨-, hab, hdis⟩ := h
  rw [List.nodup_cons] at hab
  constructor
  · intro he
    rw [List.getLast?_append_of_ne_nil _ (by simp), List.getLast?_cons_cons] at he
    exact hab.1 (List.mem_of_getLast? he)
  · intro he
    cases l₁ with
    | nil =>
      obtain rfl : a = b := by simpa using he
      exact hab.1 (by simp)
    | cons d rest =>
      obtain rfl : d = b := by simpa using he
      exact hdis d (by simp) d (by simp) rfl

theorem length_le_size (hl : l.Nodup) (hmem : ∀ x ∈ l, g.contains x = true) : l.length ≤ g.size := by
  have hsub : ∀ x ∈ l, x ∈ g.nodes.keys := fun x hx =>
    Std.ExtTreeMap.mem_keys.2 (Std.ExtTreeMap.mem_iff_contains.2 (hmem x hx))
  have hlen := hl.length_le_of_subset hsub
  rwa [Std.ExtTreeMap.length_keys] at hlen

/-! ### Walks -/

/-- A walk goes along a run, starting where it is told to, past what was not seen. -/
theorem walkFrom_isRun (g : Graph γ) (fuel : Nat) (seen : Std.ExtTreeSet NodeId)
    (past : List NodeId) (id : NodeId) :
    ∃ l, g.walkFrom fuel seen past id = past.reverse ++ l ∧ g.IsRun l ∧ (∀ x ∈ l, x ∉ seen) ∧
      (∀ x, l.head? = some x → x = id) ∧ (0 < fuel → id ∉ seen → l ≠ []) := by
  -- the induction is on the fuel: each hop marks one more node as seen
  induction fuel generalizing seen past id with
  | zero => exact ⟨[], by simp [walkFrom], .nil g, by simp, by simp, by simp⟩
  | succ fuel ih =>
    unfold walkFrom
    by_cases hs : id ∈ seen
    · rw [if_pos (Std.ExtTreeSet.mem_iff_contains.1 hs)]
      exact ⟨[], by simp, .nil g, by simp, by simp, fun _ h => absurd hs h⟩
    · rw [if_neg (mt Std.ExtTreeSet.mem_iff_contains.2 hs)]
      cases hc : g.child? id with
      | none =>
        refine ⟨[id], by simp, ⟨by simp, .singleton _⟩, by simpa using hs, ?_, by simp⟩
        intro x hx
        simpa using hx.symm
      | some c =>
        obtain ⟨l, hw, hr, hseen, hhead, -⟩ := ih (seen.insert id) (id :: past) c
        -- what follows was walked with `id` seen, so that it does not come back to it
        have hid : id ∉ l := fun h => hseen id h (by simp)
        refine ⟨id :: l, by simp [hw], ⟨List.nodup_cons.2 ⟨hid, hr.nodup⟩, ?_⟩, ?_, ?_, by simp⟩
        · refine List.isChain_cons.2 ⟨fun y hy => ?_, hr.linked⟩
          rw [hc, hhead y hy]
        · intro x hx
          rcases List.mem_cons.1 hx with rfl | hx
          · exact hs
          · exact fun h => hseen x hx (Std.ExtTreeSet.mem_insert.2 (.inr h))
        · intro x hx
          simpa using hx.symm

theorem isRun_walk (g : Graph γ) (id : NodeId) : g.IsRun (g.walk id) := by
  unfold walk
  split
  · obtain ⟨l, hw, hr, -⟩ := g.walkFrom_isRun (g.size + 1) ∅ [] id
    rw [hw]
    exact hr
  · exact .nil g

theorem head?_walk (h : g.contains id = true) : (g.walk id).head? = some id := by
  obtain ⟨l, hw, -, -, hhead, hne⟩ := g.walkFrom_isRun (g.size + 1) ∅ [] id
  have hl : g.walk id = l := by rw [walk, if_pos h, hw]; rfl
  rw [hl]
  cases l with
  | nil => exact absurd rfl (hne (by omega) (by simp))
  | cons x rest => rw [List.head?_cons, hhead x rfl]

theorem walkFrom_of_isRun (hrun : g.IsRun (id :: l))
    (hlast : ∀ x, (id :: l).getLast? = some x → g.child? x = none) (fuel : Nat)
    (hfuel : l.length < fuel) (seen : Std.ExtTreeSet NodeId) (hseen : ∀ x ∈ id :: l, x ∉ seen)
    (past : List NodeId) : g.walkFrom fuel seen past id = past.reverse ++ id :: l := by
  induction l generalizing id fuel seen past with
  | nil =>
    obtain ⟨fuel, rfl⟩ : ∃ n, fuel = n + 1 := ⟨fuel - 1, by omega⟩
    have hs : ¬ seen.contains id := mt Std.ExtTreeSet.mem_iff_contains.2 (hseen id (by simp))
    simp [walkFrom, hs, hlast id (by simp)]
  | cons b rest ih =>
    obtain ⟨fuel, rfl⟩ : ∃ n, fuel = n + 1 := ⟨fuel - 1, by omega⟩
    have hs : ¬ seen.contains id := mt Std.ExtTreeSet.mem_iff_contains.2 (hseen id (by simp))
    obtain ⟨hb, hlinked⟩ := List.isChain_cons_cons.1 hrun.linked
    obtain ⟨hid, hnodup⟩ := List.nodup_cons.1 hrun.nodup
    have hrest := ih ⟨hnodup, hlinked⟩ (fun x hx => hlast x (by rwa [List.getLast?_cons_cons]))
      fuel (by simp at hfuel; omega) (seen.insert id) ?_ (id :: past)
    · simp [walkFrom, hs, hb, hrest]
    · intro x hx hmem
      rcases Std.ExtTreeSet.mem_insert.1 hmem with he | hmem
      · exact hid (Std.LawfulEqCmp.eq_of_compare he ▸ hx)
      · exact hseen x (List.mem_cons_of_mem _ hx) hmem

theorem walk_eq_of_isRun (hrun : g.IsRun (id :: l)) (hmem : ∀ x ∈ id :: l, g.contains x = true)
    (hlast : ∀ x, (id :: l).getLast? = some x → g.child? x = none) :
    g.walk id = id :: l := by
  have hlen := length_le_size hrun.nodup hmem
  rw [walk, if_pos (hmem id (by simp)),
    walkFrom_of_isRun hrun hlast (g.size + 1) (by simp at hlen; omega) ∅ (by simp) []]
  rfl

/-! ### Runs across a graft -/

/-- A graft keeps a run that neither it enters nor leaves, apart from the run's ends. -/
theorem Grafted.isRun (h : Grafted g id branch g') (hrun : g.IsRun l) (hid : id ∉ l)
    (hk : ∀ k, g.continuation id = some k → k ∈ l → l.head? = some k)
    (hc : ∀ c, branch = some c →
      (c.tail ∈ l → l.getLast? = some c.tail) ∧ (c.head ∈ l → l.head? = some c.head)) :
    g'.IsRun l := by
  refine hrun.of_pairs fun l₁ a b l₂ hl hab => ?_
  obtain ⟨ha, hb⟩ := ne_ends_of_nodup hrun.nodup hl
  have hal : a ∈ l := by simp [hl]
  have hbl : b ∈ l := by simp [hl]
  refine h.kept a b (fun e => hid (e ▸ hal)) (fun c hcb => ⟨?_, ?_⟩) ?_ hab
  · rintro rfl
    exact ha ((hc c hcb).1 hal)
  · rintro rfl
    exact hb ((hc c hcb).2 hbl)
  · exact fun hkb => hb (hk b hkb hbl)

end Storyline.Graph
