import Storyline.Proofs.Graph.Paired

/-!
# Graphs in which every node leads to one other at most

* `SinglyLinked g`: a node has one child at most, and that refers back to it. Setting children keeps this;
* `redirect f a b?`: where nodes lead once `a` is led to `b?`, and nobody else is led there;
* `lead edges f`: the same for a list of edges. A node that is among those led depends on the edges
  alone, any other loses its way if somebody else was led to the same place;
* `Tidy S g`: beside that, nobody leads to certain nodes;
* `joins node branch next`: the edges that are set when a branch is grafted in;
* `SinglyLinked.setChild`, `SinglyLinked.splice`: setting a child and grafting a branch in redirect so, and
  nothing else;
* `splice_eq_ok_iff`: what has to hold for a branch to be grafted in.
-/

namespace Storyline.Graph

open Effect

variable {γ : Type} {g g' : Graph γ} {id a b c p q x y : NodeId} {b? c? next : Option NodeId}
  {branch : Option Chain} {f f' : NodeId → Option NodeId}
  {edges edges' : List (NodeId × Option NodeId)}

/-- Every node leads to one other at most, which refers back to it. -/
structure SinglyLinked (g : Graph γ) : Prop where
  single : ∀ p, (g.children p).length ≤ 1
  parent : ∀ p, ∀ c ∈ g.children p, g.parent? c = some p

namespace SinglyLinked

theorem children_eq (h : SinglyLinked g) (p : NodeId) : g.children p = (g.child? p).toList := by
  rw [child?_eq_head?]
  match hc : g.children p, h.single p with
  | [], _ => rfl
  | [c], _ => rfl

theorem mem_children_iff (h : SinglyLinked g) : c ∈ g.children p ↔ g.child? p = some c := by
  rw [h.children_eq, Option.mem_toList]

theorem injective (h : SinglyLinked g) (hp : g.child? p = some c) (hq : g.child? q = some c) : p = q :=
  Option.some.inj (((h.parent p c (h.mem_children_iff.2 hp)).symm).trans
    (h.parent q c (h.mem_children_iff.2 hq)))

end SinglyLinked

/-! ### Redirecting -/

/-- Where nodes lead once `a` is led to `b?`: nobody else is led there any more. -/
def redirect (f : NodeId → Option NodeId) (a : NodeId) (b? : Option NodeId) : NodeId → Option NodeId :=
  fun x => if x = a then b? else if f x = b? then none else f x

/-- Where nodes lead once some edges are set one after the other. -/
def lead (edges : List (NodeId × Option NodeId)) (f : NodeId → Option NodeId) :
    NodeId → Option NodeId :=
  edges.foldl (fun f e => redirect f e.1 e.2) f

@[simp] theorem lead_nil (f : NodeId → Option NodeId) : lead [] f = f := rfl

@[simp] theorem lead_cons (f : NodeId → Option NodeId) (e : NodeId × Option NodeId) :
    lead (e :: edges) f = lead edges (redirect f e.1 e.2) := rfl

theorem lead_append (f : NodeId → Option NodeId) :
    lead (edges ++ edges') f = lead edges' (lead edges f) := List.foldl_append

theorem redirect_self (f : NodeId → Option NodeId) (a : NodeId) (b? : Option NodeId) :
    redirect f a b? a = b? := if_pos rfl

theorem redirect_other (hx : x ≠ a) : redirect f a b? x = if f x = b? then none else f x :=
  if_neg hx

/-- What is led to after redirecting was led to before, or is the new place. -/
theorem redirect_eq_some (h : redirect f a b? x = some y) :
    (x = a ∧ b? = some y) ∨ (x ≠ a ∧ f x = some y ∧ b? ≠ some y) := by
  by_cases hx : x = a
  · subst hx
    exact .inl ⟨rfl, (redirect_self f x b?).symm.trans h⟩
  · rw [redirect_other hx] at h
    split at h
    · cases h
    · rename_i hne
      exact .inr ⟨hx, h, fun hb => hne (h.trans hb.symm)⟩

/-- A node that is led anew depends on nothing but the edges that are set. -/
theorem lead_congr (hx : x ∈ edges.map Prod.fst) : lead edges f x = lead edges f' x := by
  have hsame : ∀ (edges : List (NodeId × Option NodeId)) {f f' : NodeId → Option NodeId},
      f x = f' x → lead edges f x = lead edges f' x := by
    intro edges
    induction edges with
    | nil => exact fun h => h
    | cons e edges ih =>
      intro f f' h
      rw [lead_cons, lead_cons]
      refine ih ?_
      unfold redirect
      rw [h]
  induction edges generalizing f f' with
  | nil => cases hx
  | cons e edges ih =>
    by_cases he : x ∈ edges.map Prod.fst
    · exact ih he
    · have hself : x = e.1 := (List.mem_cons.1 hx).resolve_right he
      subst hself
      rw [lead_cons, lead_cons]
      exact hsame edges (by rw [redirect_self, redirect_self])

/-- Any other node keeps its way, unless somebody is led to the same place. -/
theorem lead_of_not_mem (hx : x ∉ edges.map Prod.fst) :
    lead edges f x = if f x ∈ edges.map Prod.snd then none else f x := by
  induction edges generalizing f with
  | nil => simp
  | cons e edges ih =>
    rw [List.map_cons, List.mem_cons, not_or] at hx
    rw [lead_cons, ih hx.2, redirect_other hx.1]
    by_cases he : f x = e.2
    · simp [he]
    · simp only [he, if_false, List.map_cons, List.mem_cons, false_or]

/-- An edge after some were set is one of these, or was there before. -/
theorem lead_eq_some (h : lead edges f x = some y) : (x, some y) ∈ edges ∨ f x = some y := by
  induction edges generalizing f with
  | nil => exact .inr h
  | cons e edges ih =>
    rcases ih h with h | h
    · exact .inl (List.mem_cons_of_mem _ h)
    · rcases redirect_eq_some h with ⟨rfl, hy⟩ | ⟨-, hy, -⟩
      · exact .inl (List.mem_cons.2 (.inl (Prod.ext rfl hy.symm)))
      · exact .inr hy

/-- **Setting edges again** changes nothing. -/
theorem lead_lead (edges : List (NodeId × Option NodeId)) (f : NodeId → Option NodeId) :
    lead edges (lead edges f) = lead edges f := by
  funext x
  by_cases hx : x ∈ edges.map Prod.fst
  · exact lead_congr hx
  · rw [lead_of_not_mem hx, lead_of_not_mem hx]
    split
    · split <;> rfl
    · rfl

/-! ### Setting a child -/

/-- **Setting a child** redirects, and does nothing else. -/
theorem SinglyLinked.setChild (h : SinglyLinked g) (hg : g.setChild id c? = .ok g') :
    SinglyLinked g' ∧ g'.child? = redirect g.child? id c? := by
  have hr := relisted_of_setChild hg
  have hw := rewired_of_setChild hg
  refine ⟨⟨fun p => ?_, fun p c hc => ?_⟩, funext fun x => ?_⟩
  · -- the list of `id` is replaced, any other one can only get shorter
    by_cases hp : p = id
    · subst hp
      rw [hr.self]
      cases c? <;> simp
    · rw [hr.other p hp]
      split
      · exact Nat.le_trans (List.length_filter_le _ _) (h.single p)
      · exact h.single p
  · rw [hr.parent]
    by_cases hp : p = id
    · subst hp
      rw [hr.self, Option.mem_toList] at hc
      rw [if_pos hc]
    · -- the new child was taken out of this list, if it was there
      have hold : c ∈ g.children p ∧ c? ≠ some c := by
        rw [hr.other p hp] at hc
        split at hc
        · rw [List.mem_filter, decide_eq_true_iff] at hc
          exact ⟨hc.1, hc.2.symm⟩
        · rename_i hany
          refine ⟨hc, ?_⟩
          rintro rfl
          exact hany (by simpa using h.parent p c hc)
      have hparent := h.parent p c hold.1
      rw [if_neg hold.2, if_neg, hparent]
      rintro ⟨-, -, hid⟩
      exact hp (Option.some.inj (hparent.symm.trans hid))
  · by_cases hx : x = id
    · subst hx
      rw [redirect_self, hw.child?_self]
    · rw [redirect_other hx]
      cases hy : g.child? x with
      | none =>
        rw [hw.child?_none hx hy]
        split <;> rfl
      | some y =>
        by_cases hc : c? = some y
        · subst hc
          have hmem := h.mem_children_iff.2 hy
          have hlist := hr.other x hx
          rw [h.children_eq, hy] at hlist
          rw [if_pos rfl, child?_eq_head?, hlist, if_pos (by simpa using h.parent x y hmem)]
          simp
        · rw [if_neg (Ne.symm hc)]
          exact hw.child?_other hx hy hc

/-! ### Nodes that nobody leads to -/

section Tidy

variable {S S' : NodeId → Prop}

/-- Every node leads to one other at most, which refers back to it, and nobody leads to certain
nodes. -/
structure Tidy (S : NodeId → Prop) (g : Graph γ) : Prop extends SinglyLinked g where
  contained : ∀ p, ∀ c ∈ g.children p, g.contains c = true
  loose : ∀ p, ∀ c ∈ g.children p, ¬ S c

theorem Tidy.mono (h : Tidy S g) (hs : ∀ c, S' c → S c) : Tidy S' g :=
  ⟨h.toSinglyLinked, h.contained, fun p c hc hS => h.loose p c hc (hs c hS)⟩

theorem Tidy.fresh (h : Tidy S g) : Tidy (fun c => S c ∨ g.contains c = false) g := by
  refine ⟨h.toSinglyLinked, h.contained, fun p c hc hS => ?_⟩
  rcases hS with hS | hS
  · exact h.loose p c hc hS
  · rw [h.contained p c hc] at hS
    cases hS

/-- A node is led to a node that is not among the certain ones, or to none. -/
theorem Tidy.setChild {b? : Option NodeId} (h : Tidy S g) (hb : ∀ b, b? = some b → ¬ S b)
    (hg : g.setChild a b? = .ok g') : Tidy S g' := by
  obtain ⟨hs, hchild⟩ := h.toSinglyLinked.setChild hg
  have hsame := (rewired_of_setChild hg).toSameNodes
  have hok := (setChild_eq_ok_iff.1 ⟨g', hg⟩).2
  have hcases : ∀ p, ∀ c ∈ g'.children p, b? = some c ∨ c ∈ g.children p := by
    intro p c hc
    have hp := hs.mem_children_iff.1 hc
    rw [hchild] at hp
    rcases redirect_eq_some hp with ⟨-, hb⟩ | ⟨-, hold, -⟩
    · exact .inl hb
    · exact .inr (h.mem_children_iff.2 hold)
  refine ⟨hs, fun p c hc => ?_, fun p c hc => ?_⟩
  · rw [hsame.contains]
    rcases hcases p c hc with hb | hold
    · exact (hok c hb).2.1
    · exact h.contained p c hold
  · rcases hcases p c hc with hb' | hold
    · exact hb c hb'
    · exact h.loose p c hold

theorem Tidy.setParent {p? : Option NodeId} (h : Tidy S g) (ha : S a)
    (hg : g.setParent a p? = .ok g') : Tidy S g' := by
  have hsame := sameEdges_of_setParent hg
  refine ⟨⟨fun p => ?_, fun p c hc => ?_⟩, fun p c hc => ?_, fun p c hc => ?_⟩ <;>
    rw [hsame.children] at *
  · exact h.single p
  · have hne : c ≠ a := by
      rintro rfl
      exact h.loose p c hc ha
    rw [eq_modify_of_setParent hg, ← h.parent p c hc]
    unfold parent?
    rw [get?_modify, if_neg hne.symm]
  · rw [hsame.contains]
    exact h.contained p c hc
  · exact h.loose p c hc

theorem Tidy.insert {kind : NodeKind} {content : Option γ} (h : Tidy S g)
    (hg : g.insert id kind content = .ok g') : Tidy S g' := by
  have hedges := edges_insert hg
  refine ⟨⟨fun p => ?_, fun p c hc => ?_⟩, fun p c hc => ?_, fun p c hc => ?_⟩
  · rw [(hedges p).1]
    exact h.single p
  · rw [(hedges p).1] at hc
    rw [(hedges c).2]
    exact h.parent p c hc
  · rw [(hedges p).1] at hc
    rw [contains_eq, (insert_eq_ok hg).2.2.2]
    split
    · rfl
    · exact (contains_eq g c).symm.trans (h.contained p c hc)
  · rw [(hedges p).1] at hc
    exact h.loose p c hc

end Tidy

/-! ### Grafting a branch in -/

/-- The edges that are set when a branch is grafted in between a node and what follows it. -/
def joins (node : NodeId) (branch : Option Chain) (next : Option NodeId) :
    List (NodeId × Option NodeId) :=
  match branch with
  | some c => [(c.tail, next), (node, some c.head)]
  | none => [(node, next)]

/-- An edge leads to what follows the node, or from the node into the branch. -/
theorem joins_cases {node : NodeId} (h : (x, c?) ∈ joins node branch next) :
    c? = next ∨ x = node ∧ ∃ chain, branch = some chain ∧ c? = some chain.head := by
  cases branch with
  | none => exact .inl (Prod.mk.inj (List.mem_singleton.1 h)).2
  | some chain =>
    rcases List.mem_cons.1 h with he | he
    · exact .inl (Prod.mk.inj he).2
    · obtain ⟨hx, hc⟩ := Prod.mk.inj (List.mem_singleton.1 he)
      exact .inr ⟨hx, chain, rfl, hc⟩

theorem joins_led {node : NodeId} (h : x ∈ (joins node branch next).map Prod.fst) :
    x = node ∨ ∃ chain, branch = some chain ∧ x = chain.tail := by
  cases branch with
  | none => exact .inl (List.mem_singleton.1 h)
  | some chain =>
    rcases List.mem_cons.1 h with he | he
    · exact .inr ⟨chain, rfl, he⟩
    · exact .inl (List.mem_singleton.1 he)

/-- Grafting is remembering, and then setting one edge or two. -/
theorem splice_eq_ok (h : splice id branch g = .ok () g') :
    g.contains id = true ∧
      match branch with
      | some c => ∃ g₁, (g.remember id).setChild c.tail (g.continuation id) = .ok g₁ ∧
          g₁.setChild id (some c.head) = .ok g'
      | none => (g.remember id).setChild id (g.continuation id) = .ok g' := by
  unfold Graph.splice at h
  simp only [bind_get_apply] at h
  cases hid : g.contains id with
  | false => simp [hid] at h
  | true =>
    simp only [hid, Bool.not_true, Bool.false_eq_true, if_false, bind_set_apply] at h
    refine ⟨rfl, ?_⟩
    cases branch with
    | none => exact attempt_eq_ok_iff.1 h
    | some c =>
      obtain ⟨_, g₁, h₁, h₂⟩ := bind_apply_eq_ok.1 h
      exact ⟨g₁, attempt_eq_ok_iff.1 h₁, attempt_eq_ok_iff.1 h₂⟩

/-- **Grafting a branch in** redirects, remembers, and does nothing else. -/
theorem SinglyLinked.splice (h : SinglyLinked g) (hg : Graph.splice id branch g = .ok () g') :
    SinglyLinked g' ∧ g'.child? = lead (joins id branch (g.continuation id)) g.child? ∧
      ∀ y : NodeId, g'.resumes[y]? = if y = id then some (g.continuation id) else g.resumes[y]? := by
  obtain ⟨-, hsteps⟩ := splice_eq_ok hg
  have hrem : SinglyLinked (g.remember id) := ⟨h.single, h.parent⟩
  cases branch with
  | none =>
    obtain ⟨hs, hchild⟩ := hrem.setChild hsteps
    refine ⟨hs, hchild, fun y => ?_⟩
    rw [(rewired_of_setChild hsteps).resumes, resumes_remember]
  | some c =>
    obtain ⟨g₁, hg₁, hg₂⟩ := hsteps
    obtain ⟨hs₁, hchild₁⟩ := hrem.setChild hg₁
    obtain ⟨hs, hchild⟩ := hs₁.setChild hg₂
    refine ⟨hs, ?_, fun y => ?_⟩
    · rw [hchild, hchild₁]
      rfl
    · rw [(rewired_of_setChild hg₂).resumes, (rewired_of_setChild hg₁).resumes, resumes_remember]

/-- Where play goes on behind the node stays the same, and behind any that remembers it. -/
theorem continuation_of_splice (hg : Graph.splice id branch g = .ok () g')
    (hx : x = id ∨ g.resumes[x]? ≠ none) (hs : SinglyLinked g) :
    g'.continuation x = g.continuation x := by
  obtain ⟨-, -, hres⟩ := hs.splice hg
  by_cases he : x = id
  · rw [he]
    exact continuation_of_some (by rw [hres, if_pos rfl])
  · obtain ⟨k, hk⟩ := Option.ne_none_iff_exists'.1 (hx.resolve_left he)
    rw [continuation_of_some hk]
    exact continuation_of_some (by rw [hres, if_neg he, hk])

/-- **A branch can be grafted in** where there is a node and the edges lead to nodes that may be
moved, none of them to itself. -/
theorem splice_eq_ok_iff :
    (∃ g', splice id branch g = .ok () g') ↔
      g.contains id = true ∧ ∀ e ∈ joins id branch (g.continuation id),
        g.contains e.1 = true ∧ ∀ c, e.2 = some c → c ≠ e.1 ∧ g.Movable c := by
  -- setting an edge fails or not by the nodes alone, which the edges set before do not change
  have hset : ∀ {k : Graph γ} {x : NodeId} {c? : Option NodeId}, SameNodes g k →
      ((∃ g', k.setChild x c? = .ok g') ↔
        g.contains x = true ∧ ∀ c, c? = some c → c ≠ x ∧ g.Movable c) := by
    intro k x c? hk
    rw [setChild_eq_ok_iff, hk.contains]
    simp only [hk.movable_iff]
  have hm : SameNodes g (g.remember id) := ⟨fun _ => rfl, rfl⟩
  constructor
  · rintro ⟨g', hg⟩
    obtain ⟨hid, hsteps⟩ := splice_eq_ok hg
    refine ⟨hid, ?_⟩
    cases branch with
    | none =>
      intro e he
      obtain rfl := List.mem_singleton.1 he
      exact (hset hm).1 ⟨g', hsteps⟩
    | some c =>
      obtain ⟨g₁, hg₁, hg₂⟩ := hsteps
      have hn := hm.trans (rewired_of_setChild hg₁).toSameNodes
      intro e he
      rcases List.mem_cons.1 he with rfl | he
      · exact (hset hm).1 ⟨g₁, hg₁⟩
      · obtain rfl := List.mem_singleton.1 he
        exact (hset hn).1 ⟨g', hg₂⟩
  · rintro ⟨hid, hedges⟩
    unfold splice
    simp only [bind_get_apply, hid, Bool.not_true, Bool.false_eq_true, if_false, bind_set_apply]
    cases branch with
    | none =>
      obtain ⟨g', hg'⟩ := (hset hm).2 (hedges (id, g.continuation id) (by simp [joins]))
      exact ⟨g', attempt_of_ok hg'⟩
    | some c =>
      obtain ⟨g₁, hg₁⟩ := (hset hm).2 (hedges (c.tail, g.continuation id) (by simp [joins]))
      have hn := hm.trans (rewired_of_setChild hg₁).toSameNodes
      obtain ⟨g', hg'⟩ := (hset hn).2 (hedges (id, some c.head) (by simp [joins]))
      exact ⟨g', (bind_of_ok (attempt_of_ok hg₁)).trans (attempt_of_ok hg')⟩

/-- What can be grafted in does not depend on edges, apart from where play went on before. -/
theorem splice_ok_of_sameNodes (hn : SameNodes g g') (hk : g'.continuation id = g.continuation id)
    (h : ∃ k, splice id branch g = .ok () k) : ∃ k, splice id branch g' = .ok () k := by
  rw [splice_eq_ok_iff] at h ⊢
  rw [hk]
  simp only [hn.contains, hn.movable_iff]
  exact h

end Storyline.Graph
