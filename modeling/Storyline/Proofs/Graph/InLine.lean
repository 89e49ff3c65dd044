import Storyline.Proofs.Graph.Setting
import Storyline.Proofs.Graph.Walk

/-!
# Nodes that are linked into a line

* `exists_setAll`: edges can be set one after the other if each of them can be set at all;
* `children_of_setAll`: a node that is not led on by any of them keeps its children, apart from those
  that refer back to it and are led to from elsewhere;
* `IsRun.prefix_walk`: the walk from the first node of a run begins with the run;
* `links`: **linking** distinct nodes puts them in a line, whatever edges and back references there were.
-/

namespace Storyline.Graph

open Effect

variable {γ : Type} {g g' : Graph γ} {id x y : NodeId} {c? : Option NodeId} {nodes l : List NodeId}
  {edges : List (NodeId × Option NodeId)}

/-! ### Edges that can be set -/

theorem exists_setAll (h : ∀ x c?, (x, c?) ∈ edges →
    g.contains x = true ∧ ∀ c, c? = some c → c ≠ x ∧ g.Movable c) :
    ∃ g', setAll edges g = .ok () g' := by
  induction edges generalizing g with
  | nil => exact ⟨g, rfl⟩
  | cons edge edges ih =>
    obtain ⟨g₁, hset⟩ := setChild_eq_ok_iff.2 (h edge.1 edge.2 (List.mem_cons_self ..))
    have hn := (rewired_of_setChild hset).toSameNodes
    obtain ⟨g', hrest⟩ := ih (g := g₁) fun x c? hmem => by
      obtain ⟨hx, hc⟩ := h x c? (List.mem_cons_of_mem _ hmem)
      exact ⟨(hn.contains x).trans hx, fun c hcc =>
        ⟨(hc c hcc).1, (hn.movable_iff c).2 (hc c hcc).2⟩⟩
    exact ⟨g', setAll_cons_eq_ok_iff.2 ⟨g₁, hset, hrest⟩⟩

/-- The edges of a line lead from each of its nodes to the one behind. -/
theorem mem_hops {l : List NodeId} :
    (x, c?) ∈ hops l ↔ ∃ l₁ l₂ y, l = l₁ ++ x :: y :: l₂ ∧ c? = some y := by
  induction l with
  | nil => simp [hops]
  | cons a rest ih =>
    -- the last node has no successor, so that it is in no pair
    cases rest with
    | nil =>
      refine ⟨fun h => absurd h List.not_mem_nil, ?_⟩
      rintro ⟨l₁, l₂, y, hl, -⟩
      have := congrArg List.length hl
      simp at this
      omega
    | cons b rest =>
      show (x, c?) ∈ (a, some b) :: hops (b :: rest) ↔ _
      rw [List.mem_cons, ih]
      constructor
      · rintro (hhead | ⟨l₁, l₂, y, hl, hy⟩)
        · obtain ⟨rfl, rfl⟩ := Prod.mk.inj hhead
          exact ⟨[], rest, b, rfl, rfl⟩
        · exact ⟨a :: l₁, l₂, y, congrArg (a :: ·) hl, hy⟩
      · rintro ⟨l₁, l₂, y, hl, rfl⟩
        -- the pair is at the head, or in what follows
        cases l₁ with
        | nil =>
          obtain ⟨rfl, htail⟩ := List.cons.inj hl
          obtain ⟨rfl, -⟩ := List.cons.inj htail
          exact .inl rfl
        | cons a' l₁ =>
          obtain ⟨-, htail⟩ := List.cons.inj hl
          exact .inr ⟨l₁, l₂, y, htail, rfl⟩

/-! ### The children that stay -/

/-- The children of a node without those among `led` that refer back to it. -/
def childrenBut (g : Graph γ) (led : List NodeId) (x : NodeId) : List NodeId :=
  (g.children x).filter fun c => ¬ (c ∈ led ∧ g.parent? c = some x)

theorem children_of_setChild (hg : g.setChild y c? = .ok g') (hx : x ≠ y) :
    g'.children x = g.childrenBut c?.toList x := by
  rw [(relisted_of_setChild hg).other x hx, childrenBut]
  cases c? with
  | none => simp
  | some c =>
    rw [Option.any_some, Option.toList_some]
    split
    · rename_i hp
      have hp := of_decide_eq_true hp
      refine List.filter_congr fun d _ => decide_eq_decide.2 ?_
      rw [List.mem_singleton, ne_eq, Option.some_inj]
      refine not_congr (iff_self_and.2 ?_)
      rintro rfl
      exact hp
    · rename_i hp
      refine (List.filter_eq_self.2 fun d _ => decide_eq_true ?_).symm
      rintro ⟨hd, hdp⟩
      exact hp (decide_eq_true (List.mem_singleton.1 hd ▸ hdp))

/-- **Who is not led on** loses the children that refer back to it and are led to from elsewhere, and
no others. -/
theorem children_of_setAll (hto : (edges.filterMap Prod.snd).Nodup)
    (hg : setAll edges g = .ok () g') (hx : x ∉ edges.map Prod.fst) :
    g'.children x = g.childrenBut (edges.filterMap Prod.snd) x := by
  induction edges generalizing g with
  | nil =>
    obtain rfl : g = g' := (EStateM.Result.ok.inj hg).2
    simp [childrenBut]
  | cons edge edges ih =>
    obtain ⟨y, d?⟩ := edge
    obtain ⟨g₁, hset, hrest⟩ := setAll_cons_eq_ok_iff.1 hg
    rw [List.map_cons, List.mem_cons, not_or] at hx
    have hled : ((y, d?) :: edges).filterMap Prod.snd = d?.toList ++ edges.filterMap Prod.snd := by
      cases d? <;> rfl
    rw [hled] at hto ⊢
    obtain ⟨-, hnodup, hapart⟩ := List.nodup_append.1 hto
    -- a child that is led to later refers back to `x` as it did before
    have hparent : ∀ c ∈ edges.filterMap Prod.snd,
        (g₁.parent? c = some x ↔ g.parent? c = some x) := by
      intro c hc
      rw [(relisted_of_setChild hset).parent, if_neg]
      · split
        · rename_i hout
          simp [hout.2.2, Ne.symm hx.1]
        · rfl
      · rintro rfl
        exact hapart c (Option.mem_toList.2 rfl) c hc rfl
    rw [ih hnodup hrest hx.2, childrenBut, children_of_setChild hset hx.1, childrenBut,
      childrenBut, List.filter_filter]
    refine List.filter_congr fun c _ => ?_
    rw [← Bool.decide_and, decide_eq_decide, ← not_or, List.mem_append, or_and_right, or_comm,
      and_congr_right (hparent c)]

/-! ### Walks along a run -/

/-- **The walk** from the first node of a run begins with the run. -/
theorem IsRun.prefix_walkFrom (hrun : g.IsRun (id :: l)) (fuel : Nat) (hfuel : l.length < fuel)
    (seen : Std.ExtTreeSet NodeId) (hseen : ∀ x ∈ id :: l, x ∉ seen) (past : List NodeId) :
    past.reverse ++ id :: l <+: g.walkFrom fuel seen past id := by
  induction l generalizing id fuel seen past with
  | nil =>
    obtain ⟨fuel, rfl⟩ : ∃ n, fuel = n + 1 := ⟨fuel - 1, by omega⟩
    have hs : ¬ seen.contains id := mt Std.ExtTreeSet.mem_iff_contains.2 (hseen id (by simp))
    unfold walkFrom
    rw [if_neg hs]
    -- the run may go on behind the last node that is known
    cases hc : g.child? id with
    | none => simp
    | some c =>
      obtain ⟨l, hw, -⟩ := g.walkFrom_isRun fuel (seen.insert id) (id :: past) c
      simp [hw]
  | cons b rest ih =>
    obtain ⟨fuel, rfl⟩ : ∃ n, fuel = n + 1 := ⟨fuel - 1, by omega⟩
    have hs : ¬ seen.contains id := mt Std.ExtTreeSet.mem_iff_contains.2 (hseen id (by simp))
    obtain ⟨hb, hlinked⟩ := List.isChain_cons_cons.1 hrun.linked
    obtain ⟨hid, hnodup⟩ := List.nodup_cons.1 hrun.nodup
    -- the invariant: no node of the run that is left was seen
    have hrest := ih ⟨hnodup, hlinked⟩ fuel (by simp at hfuel; omega) (seen.insert id) ?_ (id :: past)
    · simpa [walkFrom, hs, hb] using hrest
    · intro x hx hmem
      rcases Std.ExtTreeSet.mem_insert.1 hmem with he | hmem
      · exact hid (Std.LawfulEqCmp.eq_of_compare he ▸ hx)
      · exact hseen x (List.mem_cons_of_mem _ hx) hmem

theorem IsRun.prefix_walk (hrun : g.IsRun (id :: l)) (hmem : ∀ x ∈ id :: l, g.contains x = true) :
    id :: l <+: g.walk id := by
  have hlen := length_le_size hrun.nodup hmem
  rw [List.length_cons] at hlen
  rw [walk, if_pos (hmem id (List.mem_cons_self ..))]
  exact hrun.prefix_walkFrom (g.size + 1) (by omega) ∅ (by simp) []

/-! ### Linking -/

theorem link_apply (h : setAll (hops nodes) g = .ok () g') :
    link nodes g = .ok (Chain.ofNodes? nodes) g' :=
  bind_of_ok (x := linkAll nodes) ((linkAll_eq_setAll nodes).symm ▸ h)

theorem Chain.ends_ofNodes? (nodes : List NodeId) :
    (Chain.ofNodes? nodes).map Chain.head = nodes.head? ∧
      (Chain.ofNodes? nodes).map Chain.tail = nodes.getLast? := by
  cases nodes with
  | nil => exact ⟨rfl, rfl⟩
  | cons a rest => exact ⟨rfl, (List.getLast?_eq_some_getLast _).symm⟩

/-- **Linking builds the line that it is asked for.** Whatever edges there were among the nodes, and
whether or not back references agree with them: each node has the one behind it for its only child,
which refers back to it, and the last one keeps its children apart from those that were moved away from
it. -/
theorem link_line (hd : nodes.Nodup) (hm : ∀ x ∈ nodes, g.contains x = true)
    (hr : ∀ x ∈ nodes.tail, g.isRoot x = false) :
    ∃ chain? g', link nodes g = .ok chain? g' ∧
      chain?.map Chain.head = nodes.head? ∧ chain?.map Chain.tail = nodes.getLast? ∧
      (∀ l₁ x y l₂, nodes = l₁ ++ x :: y :: l₂ → g'.children x = [y] ∧ g'.parent? y = some x) ∧
      (∀ x, nodes.getLast? = some x → g'.children x = g.childrenBut nodes.tail x) ∧
      ∀ x, nodes.head? = some x → nodes <+: g'.walk x := by
  -- every edge that `link` sets is between two nodes of the line, the second of which is no root
  have hset : ∀ x c?, (x, c?) ∈ hops nodes →
      g.contains x = true ∧ ∀ c, c? = some c → c ≠ x ∧ g.Movable c := by
    intro x c? hmem
    obtain ⟨l₁, l₂, y, rfl, rfl⟩ := mem_hops.1 hmem
    refine ⟨hm x (by simp), ?_⟩
    rintro _ ⟨⟩
    have hy : y ∈ (l₁ ++ x :: y :: l₂).tail := by cases l₁ <;> simp
    refine ⟨?_, hm y (by simp), hr y hy⟩
    rintro rfl
    exact (List.nodup_cons.1 (List.nodup_append.1 hd).2.1).1 (List.mem_cons_self ..)
  obtain ⟨g', hg'⟩ := exists_setAll hset
  have hplace := inPlace_of_setAll (distinct_hops hd) hg'
  have hpairs : ∀ l₁ x y l₂, nodes = l₁ ++ x :: y :: l₂ →
      g'.children x = [y] ∧ g'.parent? y = some x := by
    intro l₁ x y l₂ hl
    obtain ⟨hchildren, hparent⟩ := hplace x (some y) (mem_hops.2 ⟨l₁, l₂, y, hl, rfl⟩)
    exact ⟨hchildren, hparent y rfl⟩
  obtain ⟨hhead, htail⟩ := Chain.ends_ofNodes? nodes
  refine ⟨_, g', link_apply hg', hhead, htail, hpairs, fun x hx => ?_, fun x hx => ?_⟩
  · have hlast : x ∉ (hops nodes).map Prod.fst := by
      rw [map_fst_hops]
      obtain ⟨init, rfl⟩ := List.getLast?_eq_some_iff.1 hx
      rw [List.dropLast_concat]
      exact fun hmem => (List.nodup_append.1 hd).2.2 x hmem x (List.mem_singleton_self x) rfl
    rw [children_of_setAll (distinct_hops hd).2 hg' hlast, filterMap_snd_hops]
  · cases nodes with
    | nil => cases hx
    | cons a rest =>
      obtain rfl := Option.some.inj hx
      refine IsRun.prefix_walk ⟨hd, ?_⟩ fun y hy => ((keeps_of_setAll hg').1.contains y).trans (hm y hy)
      refine List.isChain_iff_forall_rel_of_append_cons_cons.2 ?_
      intro x y l₁ l₂ hl
      rw [child?_eq_head?, (hpairs l₁ x y l₂ hl).1, List.head?_cons]

/-- A line from 3 over 2 to 1 in which 2 has been made to refer back to 4. -/
def knot : Graph Unit :=
  (withRoot ⟨0⟩).runAll <|
    ([1, 2, 3, 4].map fun n => .insertContent ⟨n⟩ ()) ++
      [.link [⟨3⟩, ⟨2⟩, ⟨1⟩], .setParent ⟨2⟩ (some ⟨4⟩)]

/-- Linked the other way round, 3 still has 2 for a child, as that did not refer back to it. -/
theorem link_line_knot :
    ∃ g', link [⟨1⟩, ⟨2⟩, ⟨3⟩] knot = .ok (some ⟨⟨1⟩, ⟨3⟩⟩) g' ∧ g'.children ⟨1⟩ = [⟨2⟩] ∧
      g'.parent? ⟨2⟩ = some ⟨1⟩ ∧ g'.children ⟨2⟩ = [⟨3⟩] ∧ g'.children ⟨3⟩ = [⟨2⟩] ∧
      [⟨1⟩, ⟨2⟩, ⟨3⟩] <+: g'.walk ⟨1⟩ := by
  have hdistinct : ([⟨1⟩, ⟨2⟩, ⟨3⟩] : List NodeId).Nodup := by decide
  have hthere : ∀ x ∈ ([⟨1⟩, ⟨2⟩, ⟨3⟩] : List NodeId), knot.contains x = true := by decide +kernel
  obtain ⟨chain?, g', hg', hhead, htail, hpairs, hlast, hwalk⟩ :=
    link_line hdistinct hthere (by decide +kernel)
  obtain ⟨htwo, hback⟩ := hpairs [] ⟨1⟩ ⟨2⟩ [⟨3⟩] rfl
  obtain ⟨hthree, -⟩ := hpairs [⟨1⟩] ⟨2⟩ ⟨3⟩ [] rfl
  have hstay : knot.childrenBut [⟨2⟩, ⟨3⟩] ⟨3⟩ = [⟨2⟩] := by decide +kernel
  refine ⟨g', ?_, htwo, hback, hthree, (hlast ⟨3⟩ rfl).trans hstay, hwalk ⟨1⟩ rfl⟩
  cases chain? with
  | none => cases hhead
  | some chain =>
    obtain ⟨head, tail⟩ := chain
    obtain rfl := Option.some.inj hhead
    obtain rfl := Option.some.inj htail
    exact hg'

end Storyline.Graph
