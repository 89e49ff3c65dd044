import Mathlib.Algebra.Order.BigOperators.Group.List
import Mathlib.Algebra.Order.Group.Nat
import Storyline.Proofs.Graph.Refused

/-!
# Linking and grafting that fail half way

* `Aborted g op e done g'`: an operation that fails where `done` was set of its edges;
* `aborted_iff`: linking and grafting fail so and not otherwise;
* `Reached.resumes_ne`: no node is remembered behind itself, so that a graft of nothing cannot fail at a
  node that is there (`Reached.splice_none`);
* `Alike g g'`: nothing that can be asked of a graph tells the two apart;
* `Reached.aborts`: what linking and grafting leave where they fail, and when that is the graph as it
  was.
-/

namespace Storyline.Graph

open Effect

variable {γ : Type} {g g' : Graph γ} {id x : NodeId} {c? : Option NodeId} {nodes : List NodeId}
  {branch : Option Chain} {op : Operation γ} {e : GraphError}
  {done : List (NodeId × Option NodeId)}

/-! ### Where an operation fails -/

namespace Operation

/-- The edges that linking and grafting set, in their order. -/
def edges (g : Graph γ) : Operation γ → List (NodeId × Option NodeId)
  | link nodes => hops nodes
  | splice id branch => joins id branch (g.continuation id)
  | _ => []

/-- The graph before the first edge is set: grafting remembers first where play goes on. -/
def outset (g : Graph γ) : Operation γ → Graph γ
  | splice id _ => g.remember id
  | _ => g

/-- It is known already what the operation remembers, if there is anything to remember. -/
def Known (g : Graph γ) : Operation γ → Prop
  | splice id _ => g.contains id = true → id ∈ g.resumes
  | _ => True

/-- Nodes that are linked are named once. -/
def Nodup : Operation γ → Prop
  | link nodes => nodes.Nodup
  | _ => True

end Operation

/-- An operation fails where `done` was set of its edges. Which edge is refused depends on the graph
before all of them. -/
inductive Aborted (g : Graph γ) :
    Operation γ → GraphError → List (NodeId × Option NodeId) → Graph γ → Prop
  | node {id : NodeId} {branch : Option Chain} (h : g.contains id = false) :
      Aborted g (.splice id branch) (.nodeNotFound id) [] g
  | edge {op : Operation γ} {done rest : List (NodeId × Option NodeId)} {x : NodeId}
      {c? : Option NodeId} {e : GraphError} {g' : Graph γ}
      (hid : ∀ id branch, op = .splice id branch → g.contains id = true)
      (hop : op.edges g = done ++ (x, c?) :: rest)
      (hdone : setAll done (op.outset g) = .ok () g') (hx : g.setChild x c? = .error e) :
      Aborted g op e done g'

theorem run_link (nodes : List NodeId) (g : Graph γ) :
    (Operation.link nodes).run g = setAll (hops nodes) g := by
  show (discard (do linkAll nodes; pure (Chain.ofNodes? nodes)) : Edit γ PUnit) g = _
  rw [discard_apply, linkAll_eq_setAll]
  cases h : setAll (hops nodes) g with
  | ok u g₁ => rw [bind_of_ok h]; rfl
  | error e g₁ => rw [bind_of_error h]

theorem sameNodes_outset (op : Operation γ) (g : Graph γ) : SameNodes g (op.outset g) := by
  cases op <;> exact ⟨fun _ => rfl, rfl⟩

/-- **Linking and grafting fail** where the node is missing or an edge is refused, and not otherwise. -/
theorem aborted_iff (ho : ¬ op.Single) :
    op.run g = .error e g' ↔ ∃ done, g.Aborted op e done g' := by
  -- the steps of an operation, once its node is known to be there
  have hsteps : (∀ id branch, op = .splice id branch → g.contains id = true) →
      op.run g = setAll (op.edges g) (op.outset g) →
        (op.run g = .error e g' ↔ ∃ done, g.Aborted op e done g') := by
    intro hid hrun
    have hn := sameNodes_outset op g
    rw [hrun, setAll_eq_error_iff]
    constructor
    · rintro ⟨done, x, c?, rest, hop, hdone, hx⟩
      exact ⟨done, .edge hid hop hdone (hn.setChild_error_iff.1 hx)⟩
    · rintro ⟨done, ha⟩
      cases ha with
      | node hnone =>
        rw [hid _ _ rfl] at hnone
        cases hnone
      | edge _ hop hdone hx => exact ⟨done, _, _, _, hop, hdone, hn.setChild_error_iff.2 hx⟩
  cases op with
  | link nodes => exact hsteps nofun (run_link nodes g)
  | splice id branch =>
    cases hid : g.contains id with
    | true =>
      refine hsteps ?_ (splice_eq_setAll hid branch)
      rintro _ _ ⟨⟩
      exact hid
    | false =>
      have hrun : (Operation.splice id branch).run g = .error (.nodeNotFound id) g := by
        show Graph.splice id branch g = _
        unfold Graph.splice
        simp [hid]
      rw [hrun]
      constructor
      · rintro ⟨⟩
        exact ⟨[], .node hid⟩
      · rintro ⟨done, ha⟩
        cases ha with
        | node => rfl
        | edge hthere =>
          rw [hthere id branch rfl] at hid
          cases hid
  | editContent id f =>
    refine ⟨nofun, ?_⟩
    rintro ⟨done, ha⟩
    cases ha with
    | edge _ hop => exact absurd hop (by simp [Operation.edges])
  | insertRoot | insertContent | insertTree | setParent | setChild | addChild | removeChild | remove =>
    exact absurd trivial ho

/-! ### What is remembered -/

theorem resumes_insertRoot {content : Option γ} (hg : g.insertRoot id content = .ok g') :
    g'.resumes = g.resumes := by
  unfold Graph.insertRoot at hg
  split at hg
  · cases hg
  · cases hi : g.insert id .root content with
    | error e => simp [hi, Except.map] at hg
    | ok g₁ =>
      obtain rfl : { g₁ with root := some id } = g' := by simpa [hi, Except.map] using hg
      exact (insert_eq_ok hi).2.2.1

theorem resumes_addChild {c : NodeId} (hg : g.addChild id c = .ok g') : g'.resumes = g.resumes := by
  unfold Graph.addChild at hg
  obtain ⟨n, -, hg⟩ := bind_eq_ok.1 hg
  split at hg
  · exact (rewired_of_setChild hg).resumes
  · obtain ⟨⟨⟩, -, ⟨⟩⟩ := bind_eq_ok.1 hg
    exact (detach_spec g c id).2.1

theorem resumes_removeChild (hg : g.removeChild id c? = .ok g') : g'.resumes = g.resumes := by
  unfold Graph.removeChild at hg
  obtain ⟨n, -, hg⟩ := bind_eq_ok.1 hg
  cases c? with
  | none =>
    obtain ⟨rfl⟩ := hg
    exact (SameEdges.orphan _ _ _).resumes
  | some c =>
    simp only at hg
    split at hg <;> obtain ⟨rfl⟩ := hg
    · exact (SameEdges.orphan _ _ _).resumes
    · rfl

theorem resumes_remove (hg : g.remove id = .ok g') : g'.resumes = g.resumes := by
  unfold Graph.remove at hg
  obtain ⟨n, -, hg⟩ := bind_eq_ok.1 hg
  cases hr : n.isRoot with
  | true => simp [hr] at hg
  | false =>
    cases hp : n.parent with
    | none =>
      simp only [hr, hp, Bool.false_eq_true, if_false, pure_eq_ok, ok_bind, Except.ok.injEq] at hg
      exact hg ▸ rfl
    | some p =>
      simp only [hr, hp, Bool.false_eq_true, if_false, pure_eq_ok] at hg
      obtain ⟨g₁, hg₁, ⟨⟩⟩ := bind_eq_ok.1 hg
      have hres : g₁.resumes = g.resumes := resumes_removeChild hg₁
      exact hres

theorem resumes_run (op : Operation γ) (g : Graph γ) (ho : ∀ id branch, op ≠ .splice id branch) :
    (left (op.run g)).resumes = g.resumes := by
  -- an edit that goes through leaves the memory as it is; one that fails changes nothing
  have hattempt : ∀ f : Graph γ → Except GraphError (Graph γ),
      (∀ g', f g = .ok g' → g'.resumes = g.resumes) → (left (attempt f g)).resumes = g.resumes :=
    fun f hf => left_attempt (P := fun k => k.resumes = g.resumes) rfl hf
  cases op with
  | insertRoot id content => exact hattempt (·.insertRoot id content) fun _ => resumes_insertRoot
  | insertContent id content =>
    exact hattempt (·.insertContent id content) fun _ hg => (insert_eq_ok hg).2.2.1
  | insertTree id content =>
    exact hattempt (·.insertTree id content) fun _ hg => (insert_eq_ok hg).2.2.1
  | editContent id f => rfl
  | setParent id parent =>
    exact hattempt (·.setParent id parent) fun _ hg => (sameEdges_of_setParent hg).resumes
  | setChild id child =>
    exact hattempt (·.setChild id child) fun _ hg => (rewired_of_setChild hg).resumes
  | addChild id child => exact hattempt (·.addChild id child) fun _ => resumes_addChild
  | removeChild id child => exact hattempt (·.removeChild id child) fun _ => resumes_removeChild
  | remove id => exact hattempt (·.remove id) fun _ => resumes_remove
  | link nodes =>
    show (left (discard (Graph.link nodes) g)).resumes = g.resumes
    rw [left_discard]
    exact left_link (P := fun k => k.resumes = g.resumes)
      (fun hk hg => (rewired_of_setChild hg).resumes.trans hk) rfl nodes
  | splice id branch => exact absurd rfl (ho id branch)

/-- Play goes on behind a node with its child or with what is remembered, and neither is the node. -/
theorem WellFormed.continuation_ne (hw : WellFormed g) (h : g.resumes[x]? ≠ some (some x)) :
    g.continuation x ≠ some x := by
  unfold continuation
  split
  · rename_i hr
    exact fun hc => h (hr.trans (congrArg some hc))
  · rw [child?_eq_head?]
    exact fun hc => hw.child_ne x (List.mem_of_head? hc)

theorem Reached.resumes_ne (h : g.Reached) (x : NodeId) : g.resumes[x]? ≠ some (some x) := by
  induction h with
  | empty => simp
  | withRoot id => simp [Graph.withRoot]
  | @step g h op ih =>
    by_cases ho : ∃ id branch, op = .splice id branch
    · obtain ⟨id, branch, rfl⟩ := ho
      refine left_splice (P := fun k => k.resumes[x]? ≠ some (some x)) (fun hk hg => ?_) ih
        (fun _ => ?_) branch
      · rw [(rewired_of_setChild hg).resumes]
        exact hk
      · rw [resumes_remember]
        split
        · rename_i hx
          subst hx
          exact fun hc => h.wellFormed.continuation_ne ih (Option.some.inj hc)
        · exact ih
    · rw [resumes_run op g fun id branch hop => ho ⟨id, branch, hop⟩]
      exact ih

/-- **To go straight on** is possible at every node. -/
theorem Reached.splice_none (h : g.Reached) (hid : g.contains id = true) :
    ∃ g', splice id none g = .ok () g' := by
  refine splice_eq_ok_iff.2 ⟨hid, fun edge hmem => ?_⟩
  obtain rfl := List.mem_singleton.1 hmem
  refine ⟨hid, fun c hc => ⟨?_, h.sound.continuation hc⟩⟩
  rintro rfl
  exact h.wellFormed.continuation_ne (h.resumes_ne c) hc

/-! ### What can be told apart -/

/-- Nothing that can be asked of a graph tells the two apart: neither edges, nor back references, nor
where play goes on. -/
structure Alike (g g' : Graph γ) : Prop where
  children : ∀ x, g'.children x = g.children x
  parent? : ∀ x, g'.parent? x = g.parent? x
  continuation : ∀ x, g'.continuation x = g.continuation x

theorem Alike.refl (g : Graph γ) : Alike g g := ⟨fun _ => rfl, fun _ => rfl, fun _ => rfl⟩

theorem exists_new (g : Graph γ) : ∃ x, g.contains x = false := by
  refine ⟨⟨(g.ids.map NodeId.val).sum + 1⟩, Bool.eq_false_iff.2 fun hx => ?_⟩
  have hmem : (⟨(g.ids.map NodeId.val).sum + 1⟩ : NodeId) ∈ g.ids :=
    Std.ExtTreeMap.mem_keys.2 (Std.ExtTreeMap.mem_iff_contains.2 hx)
  have hle := List.le_sum_of_mem (List.mem_map_of_mem (f := NodeId.val) hmem)
  exact Nat.not_succ_le_self _ hle

/-- A node can be led to a new one, or to none, and what is remembered stays. -/
theorem runAll_lead (hid : g.contains id = true) (hx : g.contains x = false)
    (hc : ∀ c, c? = some c → c = x) :
    (g.runAll [.insertTree x none, .setChild id c?]).resumes = g.resumes ∧
      (g.runAll [.insertTree x none, .setChild id c?]).child? id = c? := by
  obtain ⟨g₁, hg₁⟩ : ∃ g₁, g.insertTree x none = .ok g₁ := ⟨_, if_neg (by simp [hx])⟩
  obtain ⟨-, -, hres, hget⟩ := insert_eq_ok hg₁
  have hid₁ : g₁.contains id = true := by
    rw [contains_eq, hget]
    split
    · rfl
    · rwa [← contains_eq]
  have hx₁ : g₁.Movable x := by
    simp [Movable, contains_eq, isRoot, hget, Node.isRoot]
  have hne : x ≠ id := by
    rintro rfl
    rw [hx] at hid
    cases hid
  obtain ⟨g₂, hg₂⟩ := setChild_eq_ok_iff.2 ⟨hid₁, fun c hcc => (hc c hcc).symm ▸ ⟨hne, hx₁⟩⟩
  have hrun : g.runAll [.insertTree x none, .setChild id c?] = g₂ := by
    simp only [runAll, Operation.run, List.foldl_cons, List.foldl_nil,
      attempt_of_ok (f := (·.insertTree x none)) hg₁, attempt_of_ok (f := (·.setChild id c?)) hg₂,
      left_ok]
  have hr := rewired_of_setChild hg₂
  rw [hrun]
  exact ⟨hr.resumes.trans hres, hr.child?_self⟩

theorem exists_unlike (hn : SameNodes g g') (hid : g.contains id = true)
    (hr : g.resumes[id]? = none) (hr' : g'.resumes[id]? = some (g.continuation id)) :
    ∃ later, ¬ Alike (g.runAll later) (g'.runAll later) := by
  obtain ⟨x, hx⟩ := g.exists_new
  -- the child of the node is the continuation of the one graph, and not of the other
  obtain ⟨c?, hne, hc⟩ : ∃ c?, c? ≠ g.child? id ∧ ∀ c, c? = some c → c = x := by
    cases g.child? id with
    | none => exact ⟨some x, nofun, by rintro _ ⟨⟩; rfl⟩
    | some c => exact ⟨none, nofun, nofun⟩
  refine ⟨[.insertTree x none, .setChild id c?], fun h => hne ?_⟩
  obtain ⟨hres, hchild⟩ := runAll_lead hid hx hc
  obtain ⟨hres', -⟩ := runAll_lead (hn.contains id ▸ hid) (hn.contains x ▸ hx) hc
  have hshown := continuation_of_some ((congrArg (·[id]?) hres').trans hr')
  have hled := continuation_of_none ((congrArg (·[id]?) hres).trans hr)
  rw [← hchild, ← hled, ← h.continuation id, hshown, continuation_of_none hr]

/-! ### The main statement -/

theorem outset_eq_self (h : op.Known g)
    (hid : ∀ id branch, op = .splice id branch → g.contains id = true) : op.outset g = g := by
  cases op with
  | splice id branch =>
    obtain ⟨k, hk⟩ := Option.isSome_iff_exists.1
      (Std.ExtTreeMap.isSome_getElem?_iff_mem.2 (h (hid id branch rfl)))
    refine ext_get? (fun _ => rfl) rfl (Std.ExtTreeMap.ext_getElem? fun x => ?_)
    show (g.remember id).resumes[x]? = _
    rw [resumes_remember]
    split
    · rename_i hx
      rw [hx, hk, continuation_of_some hk]
    · rfl
  | _ => rfl

namespace Aborted

theorem sameNodes (h : g.Aborted op e done g') : SameNodes g g' := by
  cases h with
  | node => exact .refl g
  | edge _ _ hdone => exact (sameNodes_outset op g).trans (keeps_of_setAll hdone).1

theorem known_of_eq (h : g.Aborted op e done g) : op.Known g := by
  cases h with
  | node hid => exact fun hthere => absurd (hid.symm.trans hthere) (by decide)
  | edge hid _ hdone =>
    cases op with
    | splice id branch =>
      intro _
      have hres := (keeps_of_setAll hdone).2
      rw [hres]
      exact Std.ExtTreeMap.mem_insert_self
    | _ => trivial

theorem eq_self (h : g.Aborted op e done g') (hk : op.Known g)
    (hd : ∀ x c?, (x, c?) ∈ done → g.InPlace x c?) : g' = g := by
  cases h with
  | node => rfl
  | edge hid _ hdone =>
    rw [outset_eq_self hk hid] at hdone
    exact eq_self_of_inPlace hd hdone

theorem distinct (h : g.Aborted op e done g') (ho : op.Nodup) : Distinct done := by
  cases h with
  | node => exact ⟨.nil, .nil⟩
  | @edge _ _ rest x c? _ _ _ hop _ _ =>
    cases op with
    | link nodes => exact (distinct_hops ho).of_append hop
    | splice id branch =>
      have hlength : (done ++ (x, c?) :: rest).length ≤ 2 := by
        rw [← hop]
        cases branch <;> simp [Operation.edges, joins]
      cases done with
      | nil => exact ⟨.nil, .nil⟩
      | cons edge done =>
        cases done with
        | nil =>
          obtain ⟨y, d?⟩ := edge
          refine ⟨List.pairwise_singleton _ y, ?_⟩
          cases d? with
          | none => exact .nil
          | some d => exact List.pairwise_singleton _ d
        | cons => simp at hlength
    | _ => exact absurd hop (by simp [Operation.edges])

theorem inPlace_of_eq (h : g.Aborted op e done g) (hd : Distinct done) :
    ∀ x c?, (x, c?) ∈ done → g.InPlace x c? := by
  cases h with
  | node => exact fun _ _ hmem => absurd hmem List.not_mem_nil
  | edge _ _ hdone => exact inPlace_of_setAll hd hdone

theorem eq_of_alike (h : g.Aborted op e done g')
    (ha : ∀ later, Alike (g.runAll later) (g'.runAll later)) : g' = g := by
  have hnow := ha []
  have hn := h.sameNodes
  refine eq_of_edges hn ?_ hnow.children hnow.parent?
  cases h with
  | node => rfl
  | edge hid _ hdone =>
    have hres := (keeps_of_setAll hdone).2
    by_cases hk : op.Known g
    · rw [hres, outset_eq_self hk hid]
    · cases op with
      | splice id branch =>
        have hnone : g.resumes[id]? = none :=
          Std.ExtTreeMap.getElem?_eq_none fun hmem => hk fun _ => hmem
        have hsome : g'.resumes[id]? = some (g.continuation id) := by
          rw [hres]
          exact (resumes_remember g id id).trans (if_pos rfl)
        obtain ⟨later, hlater⟩ := exists_unlike hn (hid id branch rfl) hnone hsome
        exact absurd (ha later) hlater
      | _ => exact absurd trivial hk

end Aborted

/-- **Linking and grafting are not all or nothing.** In a graph that operations reach they fail where
the node is missing or an edge is refused, and leave the edges that were set before it and what was
remembered. Unless that is the graph as it was, operations that follow tell the two apart. It is, if the
node was grafted at before and the edges set were in place already; and only then, unless nodes are
linked twice. To go straight on never fails at a node that is there. -/
theorem Reached.aborts (h : g.Reached) (ho : ¬ op.Single) :
    (∀ e g', op.run g = .error e g' ↔ ∃ done, g.Aborted op e done g') ∧
      (∀ e done g', g.Aborted op e done g' →
        ((∀ later, Alike (g.runAll later) (g'.runAll later)) ↔ g' = g) ∧
        (op.Known g → (∀ x c?, (x, c?) ∈ done → g.InPlace x c?) → g' = g) ∧
        (op.Nodup → g' = g → op.Known g ∧ ∀ x c?, (x, c?) ∈ done → g.InPlace x c?)) ∧
      ∀ id e g', op = .splice id none → op.run g = .error e g' → g.contains id = false ∧ g' = g := by
  refine ⟨fun e g' => aborted_iff ho, fun e done g' ha => ⟨⟨ha.eq_of_alike, ?_⟩, ha.eq_self, ?_⟩, ?_⟩
  · rintro rfl later
    exact .refl _
  · rintro hnodup rfl
    exact ⟨ha.known_of_eq, ha.inPlace_of_eq (ha.distinct hnodup)⟩
  · rintro id e g' rfl hrun
    obtain ⟨done, ha⟩ := (aborted_iff ho).1 hrun
    cases hid : g.contains id with
    | true =>
      obtain ⟨g₁, hg₁⟩ := h.splice_none hid
      exact nomatch hrun.symm.trans hg₁
    | false =>
      cases ha with
      | node => exact ⟨rfl, rfl⟩
      | edge hthere => exact absurd (hid.symm.trans (hthere id none rfl)) (by decide)

/-- A line from 1 to 2 beside two nodes that stand alone. -/
def oneEdge : Graph Unit :=
  (withRoot ⟨0⟩).runAll <|
    ([1, 2, 3, 4].map fun n => .insertContent ⟨n⟩ ()) ++ [.setChild ⟨1⟩ (some ⟨2⟩)]

/-- A line that ends at a node that is not there has taken 1 away from 2; a graft that ends at one
leaves the edges, but 1 remembers 2 from then on. -/
theorem aborts_oneEdge :
    (∃ e g', (Operation.link [⟨1⟩, ⟨3⟩, ⟨9⟩]).run oneEdge = .error e g' ∧
        ¬ ∀ later, Alike (oneEdge.runAll later) (g'.runAll later)) ∧
      ∃ e g', (Operation.splice ⟨1⟩ (some ⟨⟨3⟩, ⟨9⟩⟩)).run oneEdge = .error e g' ∧
        ¬ ∀ later, Alike (oneEdge.runAll later) (g'.runAll later) := by
  have hreached : oneEdge.Reached := (Reached.withRoot _).runAll _
  constructor
  · -- `link`: the edge to node 3 was set before the missing node was met
    have hlink : ¬ (Operation.link [⟨1⟩, ⟨3⟩, ⟨9⟩] : Operation Unit).Single := id
    obtain ⟨hiff, hleft, -⟩ := Reached.aborts hreached hlink
    obtain ⟨g', hg'⟩ : ∃ g', oneEdge.setChild ⟨1⟩ (some ⟨3⟩) = .ok g' :=
      setChild_eq_ok_iff.2 ⟨by decide +kernel, by rintro _ ⟨⟩; decide +kernel⟩
    have ha : oneEdge.Aborted (.link [⟨1⟩, ⟨3⟩, ⟨9⟩]) (.nodeNotFound ⟨9⟩) [(⟨1⟩, some ⟨3⟩)] g' :=
      .edge nofun rfl (setAll_singleton.trans (attempt_of_ok hg'))
        (setChild_eq_error_iff.2 (by decide +kernel : oneEdge.checkChild ⟨3⟩ ⟨9⟩ = _))
    obtain ⟨halike, -, hplace⟩ := hleft _ _ _ ha
    refine ⟨_, g', (hiff _ _).2 ⟨_, ha⟩, fun h => ?_⟩
    have hnodup : [(⟨1⟩ : NodeId), ⟨3⟩, ⟨9⟩].Nodup := by decide
    have hplaced := (hplace hnodup (halike.1 h)).2 ⟨1⟩ (some ⟨3⟩) (List.mem_singleton_self _)
    exact absurd hplaced.1 (by decide +kernel)
  · -- `splice`: the continuation was remembered before the missing tail was met
    have hsplice : ¬ (Operation.splice ⟨1⟩ (some ⟨⟨3⟩, ⟨9⟩⟩) : Operation Unit).Single := id
    obtain ⟨hiff, hleft, -⟩ := Reached.aborts hreached hsplice
    have ha : oneEdge.Aborted (.splice ⟨1⟩ (some ⟨⟨3⟩, ⟨9⟩⟩)) (.nodeNotFound ⟨9⟩) []
        (oneEdge.remember ⟨1⟩) :=
      .edge (by rintro _ _ ⟨⟩; decide +kernel) rfl rfl (setChild_of_missing (by decide +kernel))
    obtain ⟨halike, -, hplace⟩ := hleft _ _ _ ha
    refine ⟨_, _, (hiff _ _).2 ⟨_, ha⟩, fun h => ?_⟩
    exact absurd ((hplace trivial (halike.1 h)).1 (by decide +kernel)) (by decide +kernel)

end Storyline.Graph
