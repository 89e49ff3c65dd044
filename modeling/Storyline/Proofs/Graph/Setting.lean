import Storyline.Proofs.Graph.Steps
import Storyline.Proofs.Graph.SinglyLinked

/-!
# Edges that are set one after the other

* `setAll edges`: what linking and grafting come down to (`linkAll_eq_setAll`, `splice_eq_setAll`). It
  stops at the first edge that is refused (`setAll_eq_error_iff`);
* `InPlace g x c?`: an edge that is set already. To set it again changes nothing (`InPlace.eq_self`);
* `inPlace_of_setAll`: edges of different nodes to different nodes are all in place once they are set.
-/

namespace Storyline.Graph

open Effect

variable {γ : Type} {g g' : Graph γ} {id x y : NodeId} {c? d? : Option NodeId} {nodes : List NodeId}
  {e : GraphError} {edges done : List (NodeId × Option NodeId)}

/-! ### Edges that are refused -/

theorem setChild_eq_error_iff : g.setChild id c? = .error e ↔
    match c? with
    | none => g.contains id = false ∧ e = .nodeNotFound id
    | some c => g.checkChild id c = .error e := by
  cases c? with
  | none =>
    simp only [setChild, node, contains_eq]
    cases g.get? id <;> simp [eq_comm]
  | some c =>
    simp only [setChild]
    cases g.checkChild id c <;> simp

theorem checkChild_eq (g : Graph γ) (id c : NodeId) : g.checkChild id c =
    if g.contains id = false then .error (.nodeNotFound id)
    else if c = id then .error (.selfChild id)
    else if g.contains c = false then .error (.nodeNotFound c)
    else if g.isRoot c = true then .error (.rootParent c) else .ok () := by
  simp only [contains_eq, isRoot, checkChild, node]
  obtain hid | ⟨n, hid⟩ := Option.eq_none_or_eq_some (g.get? id)
  · simp [hid]
  · by_cases hne : c = id
    · simp [hid, hne]
    · obtain hc | ⟨m, hc⟩ := Option.eq_none_or_eq_some (g.get? c)
      · simp [hid, hne, hc]
      · cases hr : m.isRoot <;> simp [hid, hne, hc, hr]

theorem setChild_of_missing (h : g.contains id = false) :
    g.setChild id c? = .error (.nodeNotFound id) := by
  rw [setChild_eq_error_iff]
  cases c? with
  | none => exact ⟨h, rfl⟩
  | some c =>
    show g.checkChild id c = _
    rw [checkChild_eq, if_pos h]

/-- Whether an edge is refused depends on the nodes, and not on the other edges. -/
theorem SameNodes.setChild_error_iff (h : SameNodes g g') :
    g'.setChild id c? = .error e ↔ g.setChild id c? = .error e := by
  simp only [setChild_eq_error_iff, checkChild_eq, h.contains, h.isRoot]

/-! ### Edges that are set one after the other -/

/-- Sets edges one after the other. -/
def setAll : List (NodeId × Option NodeId) → Edit γ Unit
  | [] => pure ()
  | (x, c?) :: rest => do
    attempt (·.setChild x c?)
    setAll rest

/-- Each node of a list with the one behind it. -/
def hops : List NodeId → List (NodeId × Option NodeId)
  | a :: b :: rest => (a, some b) :: hops (b :: rest)
  | _ => []

theorem setAll_cons_of_ok (h : g.setChild x c? = .ok g') :
    setAll ((x, c?) :: edges) g = setAll edges g' :=
  bind_of_ok (attempt_of_ok h)

theorem setAll_cons_of_error (h : g.setChild x c? = .error e) :
    setAll ((x, c?) :: edges) g = .error e g :=
  bind_of_error (attempt_of_error (f := (·.setChild x c?)) h)

theorem setAll_cons_eq_ok_iff : setAll ((x, c?) :: edges) g = .ok () g' ↔
    ∃ g₁, g.setChild x c? = .ok g₁ ∧ setAll edges g₁ = .ok () g' := by
  cases h : g.setChild x c? with
  | ok g₁ => simp [setAll_cons_of_ok h]
  | error e => simp [setAll_cons_of_error h]

theorem setAll_eq_error_iff : setAll edges g = .error e g' ↔
    ∃ done x c? rest, edges = done ++ (x, c?) :: rest ∧ setAll done g = .ok () g' ∧
      g.setChild x c? = .error e := by
  induction edges generalizing g with
  | nil =>
    refine ⟨nofun, ?_⟩
    rintro ⟨done, x, c?, rest, hnil, -⟩
    cases done <;> cases hnil
  | cons edge edges ih =>
    obtain ⟨y, d?⟩ := edge
    -- later edges are refused in the graph as it was if they are refused in the graph as it is
    cases hy : g.setChild y d? with
    | error e₁ =>
      rw [setAll_cons_of_error hy]
      constructor
      · rintro ⟨⟩
        exact ⟨[], y, d?, edges, rfl, rfl, hy⟩
      · rintro ⟨done, x, c?, rest, hcons, hdone, hx⟩
        cases done with
        | nil =>
          obtain ⟨⟨⟩, ⟨⟩⟩ := hcons
          obtain rfl : g = g' := (EStateM.Result.ok.inj hdone).2
          obtain rfl := Except.error.inj (hy.symm.trans hx)
          rfl
        | cons edge done =>
          obtain ⟨⟨⟩, -⟩ := List.cons.inj hcons
          rw [setAll_cons_of_error hy] at hdone
          cases hdone
    | ok g₁ =>
      have hn := (rewired_of_setChild hy).toSameNodes
      rw [setAll_cons_of_ok hy, ih]
      constructor
      · rintro ⟨done, x, c?, rest, rfl, hdone, hx⟩
        exact ⟨(y, d?) :: done, x, c?, rest, rfl, (setAll_cons_of_ok hy).trans hdone,
          hn.setChild_error_iff.1 hx⟩
      · rintro ⟨done, x, c?, rest, hcons, hdone, hx⟩
        cases done with
        | nil =>
          obtain ⟨⟨⟩, -⟩ := List.cons.inj hcons
          rw [hy] at hx
          cases hx
        | cons edge done =>
          obtain ⟨rfl, rfl⟩ := List.cons.inj hcons
          rw [setAll_cons_of_ok hy] at hdone
          exact ⟨done, x, c?, rest, rfl, hdone, hn.setChild_error_iff.2 hx⟩

theorem linkAll_eq_setAll (nodes : List NodeId) :
    (linkAll nodes : Edit γ Unit) = setAll (hops nodes) := by
  induction nodes with
  | nil => rfl
  | cons a rest ih =>
    cases rest with
    | nil => rfl
    | cons b rest =>
      show (do attempt (·.setChild a (some b)); linkAll (b :: rest)) = _
      rw [ih]
      rfl

theorem setAll_singleton : setAll [(x, c?)] g = attempt (·.setChild x c?) g := by
  cases h : g.setChild x c? with
  | ok g₁ =>
    rw [setAll_cons_of_ok h, attempt_of_ok h]
    rfl
  | error e => rw [setAll_cons_of_error h, attempt_of_error (f := (·.setChild x c?)) h]

theorem splice_eq_setAll (h : g.contains id = true) (branch : Option Chain) :
    splice id branch g = setAll (joins id branch (g.continuation id)) (g.remember id) := by
  unfold splice
  simp only [bind_get_apply, h, Bool.not_true, Bool.false_eq_true, if_false, bind_set_apply]
  cases branch with
  | some chain =>
    have hlast : (attempt (·.setChild id (some chain.head)) : Edit γ Unit) =
        setAll [(id, some chain.head)] := funext fun _ => setAll_singleton.symm
    simp only [hlast]
    rfl
  | none => exact setAll_singleton.symm

/-- Setting edges changes neither nodes nor what is remembered. -/
theorem keeps_of_setAll (h : setAll edges g = .ok () g') :
    SameNodes g g' ∧ g'.resumes = g.resumes := by
  induction edges generalizing g with
  | nil =>
    obtain rfl : g = g' := (EStateM.Result.ok.inj h).2
    exact ⟨.refl g, rfl⟩
  | cons edge edges ih =>
    obtain ⟨g₁, hset, h⟩ := setAll_cons_eq_ok_iff.1 h
    have hr := rewired_of_setChild hset
    obtain ⟨hn, hres⟩ := ih h
    exact ⟨hr.toSameNodes.trans hn, hres.trans hr.resumes⟩

/-! ### Edges that are in place -/

/-- An edge that is set, with the reference back. -/
def InPlace (g : Graph γ) (x : NodeId) (c? : Option NodeId) : Prop :=
  g.children x = c?.toList ∧ ∀ c, c? = some c → g.parent? c = some x

/-- Edges of different nodes to different nodes. -/
def Distinct (edges : List (NodeId × Option NodeId)) : Prop :=
  (edges.map Prod.fst).Nodup ∧ (edges.filterMap Prod.snd).Nodup

theorem Distinct.of_append {rest : List (NodeId × Option NodeId)} (h : Distinct edges)
    (he : edges = done ++ rest) : Distinct done := by
  obtain ⟨hfrom, hto⟩ := he ▸ h
  rw [List.map_append] at hfrom
  rw [List.filterMap_append] at hto
  exact ⟨(List.nodup_append.1 hfrom).1, (List.nodup_append.1 hto).1⟩

theorem map_fst_hops (nodes : List NodeId) : (hops nodes).map Prod.fst = nodes.dropLast := by
  induction nodes with
  | nil => rfl
  | cons a rest ih =>
    cases rest with
    | nil => rfl
    | cons b rest => exact congrArg (a :: ·) ih

theorem filterMap_snd_hops (nodes : List NodeId) :
    (hops nodes).filterMap Prod.snd = nodes.tail := by
  induction nodes with
  | nil => rfl
  | cons a rest ih =>
    cases rest with
    | nil => rfl
    | cons b rest => exact congrArg (b :: ·) ih

theorem distinct_hops (h : nodes.Nodup) : Distinct (hops nodes) := by
  unfold Distinct
  rw [map_fst_hops, filterMap_snd_hops]
  exact ⟨h.sublist (List.dropLast_sublist nodes), h.sublist (List.tail_sublist nodes)⟩

/-- A graph is its nodes, its edges both ways, and what it remembers. -/
theorem eq_of_edges (hn : SameNodes g g') (hr : g'.resumes = g.resumes)
    (hc : ∀ x, g'.children x = g.children x) (hp : ∀ x, g'.parent? x = g.parent? x) : g' = g := by
  refine ext_get? (fun x => ?_) hn.root hr
  have hcore := hn.core x
  have hchildren := hc x
  have hparent := hp x
  unfold children at hchildren
  unfold parent? at hparent
  cases hx : g.get? x with
  | none => simpa [hx] using hcore
  | some n =>
    cases hx' : g'.get? x with
    | none => simp [hx, hx'] at hcore
    | some m =>
      simp only [hx, hx', Option.map_some, Option.getD_some, Option.bind_some, Option.some.injEq,
        core, Prod.mk.injEq] at hcore hchildren hparent
      cases n
      cases m
      simp_all

theorem inPlace_of_setChild (hg : g.setChild x c? = .ok g') : g'.InPlace x c? := by
  have hr := relisted_of_setChild hg
  refine ⟨hr.self, fun c hc => ?_⟩
  rw [hr.parent, if_pos hc]

/-- **To set an edge again** changes nothing. -/
theorem InPlace.eq_self (h : g.InPlace x c?) (hg : g.setChild x c? = .ok g') : g' = g := by
  have hr := relisted_of_setChild hg
  have hw := rewired_of_setChild hg
  refine eq_of_edges hw.toSameNodes hw.resumes (fun y => ?_) fun y => ?_
  · by_cases hy : y = x
    · rw [hy, hr.self, h.1]
    · rw [hr.other y hy, if_neg]
      -- the child refers back to `x`, and so it is in no other list that it would leave
      intro hany
      obtain ⟨c, hc, hp⟩ := (Option.any_eq_true _ _).1 hany
      exact hy (Option.some.inj ((of_decide_eq_true hp).symm.trans (h.2 c hc)))
  · rw [hr.parent]
    split
    · rename_i hc
      exact (h.2 y hc).symm
    · rw [if_neg]
      rintro ⟨hy, hout, -⟩
      exact hout (h.1 ▸ hy)

/-- An edge stays in place while another node is led to another one. -/
theorem InPlace.setChild (h : g.InPlace x c?) (hg : g.setChild y d? = .ok g') (hx : x ≠ y)
    (hc : ∀ c, c? = some c → d? ≠ some c) : g'.InPlace x c? := by
  have hr := relisted_of_setChild hg
  refine ⟨?_, fun c hcc => ?_⟩
  · rw [hr.other x hx, h.1]
    split
    · refine List.filter_eq_self.2 fun c hmem => decide_eq_true ?_
      exact (hc c (Option.mem_toList.1 hmem)).symm
    · rfl
  · rw [hr.parent, if_neg (hc c hcc), if_neg, h.2 c hcc]
    rintro ⟨-, -, hy⟩
    exact hx (Option.some.inj ((h.2 c hcc).symm.trans hy))

theorem InPlace.setAll (h : g.InPlace x c?) (hg : Graph.setAll edges g = .ok () g')
    (hx : x ∉ edges.map Prod.fst) (hc : ∀ c, c? = some c → c ∉ edges.filterMap Prod.snd) :
    g'.InPlace x c? := by
  induction edges generalizing g with
  | nil =>
    obtain rfl : g = g' := (EStateM.Result.ok.inj hg).2
    exact h
  | cons edge edges ih =>
    obtain ⟨y, d?⟩ := edge
    obtain ⟨g₁, hset, hrest⟩ := setAll_cons_eq_ok_iff.1 hg
    rw [List.map_cons, List.mem_cons, not_or] at hx
    have hd : ∀ c, c? = some c → d? ≠ some c ∧ c ∉ edges.filterMap Prod.snd := by
      intro c hcc
      have hout := hc c hcc
      refine ⟨?_, fun hmem => hout ?_⟩
      · rintro rfl
        exact hout (by simp)
      · rw [List.filterMap_cons]
        split
        · exact hmem
        · exact List.mem_cons_of_mem _ hmem
    exact ih (h.setChild hset hx.1 fun c hcc => (hd c hcc).1) hrest hx.2 fun c hcc => (hd c hcc).2

/-- **Edges that share no ends** are all in place once they are set. -/
theorem inPlace_of_setAll (hd : Distinct edges) (hg : setAll edges g = .ok () g') :
    ∀ x c?, (x, c?) ∈ edges → g'.InPlace x c? := by
  induction edges generalizing g with
  | nil => exact fun _ _ hmem => absurd hmem List.not_mem_nil
  | cons edge edges ih =>
    obtain ⟨y, d?⟩ := edge
    obtain ⟨g₁, hset, hrest⟩ := setAll_cons_eq_ok_iff.1 hg
    obtain ⟨hfrom, hto⟩ := hd
    rw [List.map_cons, List.nodup_cons] at hfrom
    have hto' : (∀ c, d? = some c → c ∉ edges.filterMap Prod.snd) ∧
        (edges.filterMap Prod.snd).Nodup := by
      cases d? with
      | none => exact ⟨nofun, hto⟩
      | some d =>
        obtain ⟨hout, hnodup⟩ := List.nodup_cons.1 hto
        refine ⟨?_, hnodup⟩
        rintro _ ⟨⟩
        exact hout
    intro x c? hmem
    rcases List.mem_cons.1 hmem with hhead | hmem
    · obtain ⟨rfl, rfl⟩ := Prod.mk.inj hhead
      exact (inPlace_of_setChild hset).setAll hrest hfrom.1 hto'.1
    · exact ih ⟨hfrom.2, hto'.2⟩ hrest x c? hmem

theorem eq_self_of_inPlace (h : ∀ x c?, (x, c?) ∈ edges → g.InPlace x c?)
    (hg : setAll edges g = .ok () g') : g' = g := by
  induction edges generalizing g with
  | nil => exact (EStateM.Result.ok.inj hg).2.symm
  | cons edge edges ih =>
    obtain ⟨g₁, hset, hrest⟩ := setAll_cons_eq_ok_iff.1 hg
    obtain rfl := (h edge.1 edge.2 (List.mem_cons_self ..)).eq_self hset
    exact ih (fun x c? hmem => h x c? (List.mem_cons_of_mem _ hmem)) hrest

end Storyline.Graph
