import Storyline.Proofs.Graph.Setting

/-!
# Operations on single edges are all or nothing

* `Refused g op e`: what speaks against an operation on a single node or edge;
* `Fair g op r`: an answer that is an error for something that speaks against the operation, or a graph
  where nothing does. So are the answers of all of them (`fair_insertRoot` and those that follow);
* `Reached.all_or_nothing`: such an operation fails if something speaks against it, and only then, and
  where it fails it changes nothing.
-/

namespace Storyline.Graph

open Effect

variable {γ : Type} {g g' : Graph γ} {id c p x : NodeId} {c? parent : Option NodeId} {n : Node γ}
  {content : Option γ} {op : Operation γ} {e : GraphError}

/-! ### What speaks against an operation -/

namespace Operation

/-- Operations on a single node or a single edge that can be refused. -/
def Single : Operation γ → Prop
  | link _ => False
  | splice _ _ => False
  | editContent _ _ => False
  | _ => True

/-- The identity that an operation gives to a new node. -/
def new? : Operation γ → Option NodeId
  | insertRoot id _ => some id
  | insertContent id _ => some id
  | insertTree id _ => some id
  | _ => none

/-- The nodes that an operation needs. A child that is taken away need not be there. -/
def needs : Operation γ → List NodeId
  | setParent id parent => id :: parent.toList
  | setChild id child => id :: child.toList
  | addChild id child => [id, child]
  | removeChild id _ => [id]
  | remove id => [id]
  | _ => []

/-- The node that an operation gives a parent. -/
def led? : Operation γ → Option NodeId
  | setParent id parent => parent.map fun _ => id
  | setChild _ child => child
  | addChild _ child => some child
  | _ => none

end Operation

/-- What speaks against an operation on a single node or edge. -/
inductive Refused (g : Graph γ) : Operation γ → GraphError → Prop
  | duplicate {op : Operation γ} {id : NodeId} (ho : op.new? = some id) (h : g.contains id = true) :
      Refused g op (.duplicate id)
  | rootExists {id r : NodeId} {content : Option γ} (h : g.root = some r) :
      Refused g (.insertRoot id content) (.rootExists r)
  | missing {op : Operation γ} {x : NodeId} (ho : x ∈ op.needs) (h : g.contains x = false) :
      Refused g op (.nodeNotFound x)
  | selfParent {id : NodeId} : Refused g (.setParent id (some id)) (.selfParent id)
  | selfChild {op : Operation γ} {id : NodeId}
      (ho : op = .setChild id (some id) ∨ op = .addChild id id) : Refused g op (.selfChild id)
  | rootParent {op : Operation γ} {c : NodeId} (ho : op.led? = some c) (h : g.root = some c) :
      Refused g op (.rootParent c)
  | rootRemoval {id : NodeId} (h : g.root = some id) : Refused g (.remove id) (.rootRemoval id)

/-- Where the new node is new, the nodes needed are there, and neither a node itself nor the root is
given a parent, nothing speaks against an operation. -/
theorem not_refused (hnew : ∀ id, op.new? = some id → g.contains id = false)
    (hroot : ∀ id content, op = .insertRoot id content → g.root = none)
    (hneeds : ∀ x ∈ op.needs, g.contains x = true)
    (hself : ∀ id, op ≠ .setParent id (some id) ∧ op ≠ .setChild id (some id) ∧ op ≠ .addChild id id)
    (hled : ∀ c, op.led? = some c → g.root ≠ some c)
    (hremove : ∀ id, op = .remove id → g.root ≠ some id) : ∀ e, ¬ g.Refused op e := by
  intro e he
  cases he with
  | duplicate ho h => exact absurd (hnew _ ho) (by rw [h]; decide)
  | rootExists h => exact absurd (hroot _ _ rfl) (by rw [h]; exact Option.some_ne_none _)
  | missing ho h => exact absurd (hneeds _ ho) (by rw [h]; decide)
  | selfParent => exact (hself _).1 rfl
  | selfChild ho => exact ho.elim (hself _).2.1 (hself _).2.2
  | rootParent ho h => exact hled _ ho h
  | rootRemoval h => exact hremove _ rfl h

/-! ### The answers of the operations -/

/-- An answer is fair that is an error for something that speaks against the operation, or a graph
where nothing does. -/
def Fair (g : Graph γ) (op : Operation γ) : Except GraphError (Graph γ) → Prop
  | .ok _ => ∀ e, ¬ g.Refused op e
  | .error e => g.Refused op e

theorem contains_of_get?_none (h : g.get? id = none) : g.contains id = false := by
  rw [contains_eq, h]
  rfl

theorem WellFormed.isRoot_iff (hw : WellFormed g) (hn : g.get? id = some n) :
    n.isRoot = true ↔ g.root = some id := by
  rw [← hw.root, isRoot, hn]
  rfl

theorem WellFormed.root_ne (hw : WellFormed g) (hc : g.Movable c) : g.root ≠ some c := by
  intro h
  rw [Movable, (hw.root c).2 h] at hc
  exact absurd hc.2 (by decide)

theorem fair_insertRoot : g.Fair (.insertRoot id content) (g.insertRoot id content) := by
  unfold Graph.insertRoot Graph.insert
  cases hr : g.root with
  | some r => exact .rootExists hr
  | none =>
    cases hid : g.contains id with
    | true => exact .duplicate rfl hid
    | false =>
      refine not_refused ?_ (fun _ _ _ => hr) nofun (by simp) nofun nofun
      rintro _ ⟨⟩
      exact hid

theorem fair_insert {kind : NodeKind}
    (hop : op = .insertTree id content ∨ ∃ c, op = .insertContent id c) :
    g.Fair op (g.insert id kind content) := by
  unfold Graph.insert
  cases hid : g.contains id with
  | true => exact .duplicate (by rcases hop with rfl | ⟨c, rfl⟩ <;> rfl) hid
  | false =>
    rcases hop with rfl | ⟨c, rfl⟩
    all_goals
      refine not_refused ?_ nofun nofun (by simp) nofun nofun
      rintro _ ⟨⟩
      exact hid

theorem fair_setParent (hw : WellFormed g) :
    g.Fair (.setParent id parent) (g.setParent id parent) := by
  unfold Graph.setParent
  -- the checks in the order they are made: the node, itself, the root, the parent
  cases hn : g.get? id with
  | none =>
    rw [node_of_none hn]
    exact .missing (List.mem_cons_self ..) (contains_of_get?_none hn)
  | some n =>
    have hid := contains_of_get? hn
    rw [node_eq_ok_iff.2 hn]
    cases parent with
    | none =>
      exact not_refused nofun nofun (by simpa [Operation.needs] using hid) (by simp) nofun nofun
    | some p =>
      by_cases hp : p = id
      · simp only [ok_bind, if_pos hp, throw_bind]
        exact hp ▸ .selfParent
      · cases hr : n.isRoot with
        | true =>
          simp only [ok_bind, if_neg hp, hr, if_true, throw_bind, pure_eq_ok]
          exact .rootParent rfl ((hw.isRoot_iff hn).1 hr)
        | false =>
          cases hm : g.get? p with
          | none =>
            simp only [ok_bind, if_neg hp, hr, Bool.false_eq_true, if_false, pure_eq_ok,
              node_of_none hm, discard_error, error_bind]
            exact .missing (by simp [Operation.needs]) (contains_of_get?_none hm)
          | some m =>
            simp only [ok_bind, if_neg hp, hr, Bool.false_eq_true, if_false, pure_eq_ok,
              node_eq_ok_iff.2 hm, discard_ok]
            refine not_refused nofun nofun ?_ ?_ ?_ nofun
            · simpa [Operation.needs] using ⟨hid, contains_of_get? hm⟩
            · simpa using hp
            · rintro _ ⟨⟩ h
              rw [(hw.isRoot_iff hn).2 h] at hr
              cases hr

/-- What is checked before a node gets a child, whether that is its only one or not. -/
theorem fair_of_checkChild (hw : WellFormed g)
    (hop : op = .setChild id (some c) ∨ op = .addChild id c) {r : Except GraphError (Graph γ)}
    (hok : g.checkChild id c = .ok () → ∃ g', r = .ok g')
    (herror : ∀ e, g.checkChild id c = .error e → r = .error e) : g.Fair op r := by
  have hneeds : op.needs = [id, c] := by rcases hop with rfl | rfl <;> rfl
  have hled : op.led? = some c := by rcases hop with rfl | rfl <;> rfl
  cases hc : g.checkChild id c with
  | ok u =>
    obtain ⟨g', rfl⟩ := hok hc
    obtain ⟨hid, hne, hmov⟩ := checkChild_eq_ok_iff.1 hc
    -- all the checks have gone through, so that there is no reason left to refuse
    refine not_refused ?_ ?_ ?_ ?_ ?_ ?_
    · rcases hop with rfl | rfl <;> nofun
    · rcases hop with rfl | rfl <;> nofun
    · simpa [hneeds] using ⟨hid, hmov.1⟩
    · rcases hop with rfl | rfl <;> simpa using hne
    · rw [hled]
      rintro _ ⟨⟩
      exact hw.root_ne hmov
    · rcases hop with rfl | rfl <;> nofun
  | error e =>
    rw [herror e hc]
    -- the first check that fails is the reason
    rw [checkChild_eq] at hc
    split at hc
    · rename_i hid
      obtain rfl := Except.error.inj hc
      exact .missing (by simp [hneeds]) hid
    · split at hc
      · rename_i hne
        obtain rfl := Except.error.inj hc
        exact .selfChild (hne ▸ hop)
      · split at hc
        · rename_i hmissing
          obtain rfl := Except.error.inj hc
          exact .missing (by simp [hneeds]) hmissing
        · split at hc
          · rename_i hroot
            obtain rfl := Except.error.inj hc
            exact .rootParent hled ((hw.root c).1 hroot)
          · cases hc

theorem fair_setChild (hw : WellFormed g) : g.Fair (.setChild id c?) (g.setChild id c?) := by
  cases c? with
  | none =>
    unfold Graph.setChild
    cases hn : g.get? id with
    | none =>
      rw [node_of_none hn]
      exact .missing (List.mem_cons_self ..) (contains_of_get?_none hn)
    | some n =>
      rw [node_eq_ok_iff.2 hn]
      have hid := contains_of_get? hn
      exact not_refused nofun nofun (by simpa [Operation.needs] using hid) (by simp) nofun nofun
  | some c =>
    refine fair_of_checkChild hw (.inl rfl) (fun hc => ?_) fun e hc => ?_
    · simp only [Graph.setChild, hc, ok_bind, pure_eq_ok, Except.ok.injEq, exists_eq']
    · simp only [Graph.setChild, hc, error_bind]

theorem fair_addChild (hw : WellFormed g) : g.Fair (.addChild id c) (g.addChild id c) := by
  cases hn : g.get? id with
  | none =>
    unfold Graph.addChild
    rw [node_of_none hn]
    exact .missing (List.mem_cons_self ..) (contains_of_get?_none hn)
  | some n =>
    have hadd : g.addChild id c = if n.kind ≠ .tree then g.setChild id (some c) else (do
        g.checkChild id c
        return ((g.detach c id).modify id fun n =>
          if c ∈ n.children then n else { n with children := n.children ++ [c] }).modify c
            fun n => { n with parent := some id }) := by
      simp only [Graph.addChild, node_eq_ok_iff.2 hn, ok_bind]
    rw [hadd]
    refine fair_of_checkChild hw (.inr rfl) (fun hc => ?_) fun e hc => ?_
    · split
      · simp only [Graph.setChild, hc, ok_bind, pure_eq_ok, Except.ok.injEq, exists_eq']
      · simp only [hc, ok_bind, pure_eq_ok, Except.ok.injEq, exists_eq']
    · split
      · simp only [Graph.setChild, hc, error_bind]
      · simp only [hc, error_bind]

theorem exists_removeChild (h : g.contains id = true) (c? : Option NodeId) :
    ∃ g', g.removeChild id c? = .ok g' := by
  obtain ⟨n, hn⟩ := exists_get?_of_contains h
  unfold Graph.removeChild
  rw [node_eq_ok_iff.2 hn]
  cases c? with
  | none => exact ⟨_, rfl⟩
  | some c =>
    by_cases hc : c ∈ n.children
    · exact ⟨_, if_pos hc⟩
    · exact ⟨_, if_neg hc⟩

theorem fair_removeChild : g.Fair (.removeChild id c?) (g.removeChild id c?) := by
  cases hn : g.get? id with
  | none =>
    unfold Graph.removeChild
    rw [node_of_none hn]
    exact .missing (List.mem_singleton_self id) (contains_of_get?_none hn)
  | some n =>
    have hid := contains_of_get? hn
    obtain ⟨g', hg⟩ := exists_removeChild hid c?
    rw [hg]
    exact not_refused nofun nofun (by simpa [Operation.needs] using hid) (by simp) nofun nofun

/-- Whoever a node refers back to is there, so that the node can be taken out of its list. -/
theorem fair_remove (hw : WellFormed g) : g.Fair (.remove id) (g.remove id) := by
  unfold Graph.remove
  cases hn : g.get? id with
  | none =>
    rw [node_of_none hn]
    exact .missing (List.mem_singleton_self id) (contains_of_get?_none hn)
  | some n =>
    rw [node_eq_ok_iff.2 hn]
    cases hr : n.isRoot with
    | true =>
      simp only [ok_bind, hr, if_true, throw_bind]
      exact .rootRemoval ((hw.isRoot_iff hn).1 hr)
    | false =>
      -- neither missing nor the root: removing has no other reason to fail
      have hnothing : ∀ e, ¬ g.Refused (.remove id) e := by
        refine not_refused nofun nofun (by simpa [Operation.needs] using contains_of_get? hn)
          (by simp) nofun ?_
        rintro _ ⟨⟩ h
        rw [(hw.isRoot_iff hn).2 h] at hr
        cases hr
      cases hp : n.parent with
      | none =>
        simp only [ok_bind, hr, Bool.false_eq_true, if_false, pure_eq_ok, hp]
        exact hnothing
      | some p =>
        have hparent : g.parent? id = some p := by simp only [parent?, hn, Option.bind_some, hp]
        obtain ⟨g', hg⟩ := exists_removeChild (hw.contains_parent id p hparent) (some id)
        simp only [ok_bind, hr, Bool.false_eq_true, if_false, pure_eq_ok, hp, hg]
        exact hnothing

/-! ### The main statement -/

theorem Fair.attempt (f : Graph γ → Except GraphError (Graph γ)) (h : g.Fair op (f g)) :
    (∀ e g', attempt f g = .error e g' → g' = g ∧ g.Refused op e) ∧
      ((∃ e, g.Refused op e) → ∃ e, attempt f g = .error e g) := by
  cases hf : f g with
  | ok g₁ =>
    rw [hf] at h
    rw [attempt_of_ok hf]
    exact ⟨nofun, fun ⟨e, he⟩ => absurd he (h e)⟩
  | error e =>
    rw [hf] at h
    rw [attempt_of_error hf]
    refine ⟨fun e' g' he => ?_, fun _ => ⟨e, rfl⟩⟩
    obtain ⟨rfl, rfl⟩ := EStateM.Result.error.inj he
    exact ⟨rfl, h⟩

/-- **Operations on single edges are all or nothing.** Taken step by step, with every node looked up
where it is needed, an operation on a single node or edge of a graph that operations reach fails if
something speaks against it, and only then; it answers what that is; and it leaves the whole graph as
it was. Back references may have been set alone before and need not agree with the edges. -/
theorem Reached.all_or_nothing (h : g.Reached) (ho : op.Single) :
    op.steps g = op.run g ∧
      (∀ e g', op.steps g = .error e g' → g' = g ∧ g.Refused op e) ∧
      ((∃ e, g.Refused op e) → ∃ e, op.steps g = .error e g) := by
  have hw := h.wellFormed
  refine ⟨op.steps_eq_run g, ?_⟩
  rw [op.steps_eq_run]
  cases op with
  | insertRoot id content => exact Fair.attempt (·.insertRoot id content) fair_insertRoot
  | insertContent id content =>
    exact Fair.attempt (·.insertContent id content) (fair_insert (.inr ⟨content, rfl⟩))
  | insertTree id content => exact Fair.attempt (·.insertTree id content) (fair_insert (.inl rfl))
  | setParent id parent => exact Fair.attempt (·.setParent id parent) (fair_setParent hw)
  | setChild id child => exact Fair.attempt (·.setChild id child) (fair_setChild hw)
  | addChild id child => exact Fair.attempt (·.addChild id child) (fair_addChild hw)
  | removeChild id child => exact Fair.attempt (·.removeChild id child) fair_removeChild
  | remove id => exact Fair.attempt (·.remove id) (fair_remove hw)
  | editContent id f => exact ho.elim
  | link nodes => exact ho.elim
  | splice id branch => exact ho.elim

/-- A line of which one node refers back to a node that does not lead to it. -/
def crossed : Graph Unit :=
  (withRoot ⟨0⟩).runAll <|
    ([1, 2, 3].map fun n => .insertContent ⟨n⟩ ()) ++
      [.setChild ⟨1⟩ (some ⟨2⟩), .setParent ⟨2⟩ (some ⟨3⟩)]

theorem all_or_nothing_crossed :
    crossed.children ⟨1⟩ = [⟨2⟩] ∧ crossed.parent? ⟨2⟩ = some ⟨3⟩ ∧
      (∃ e, (Operation.setChild ⟨3⟩ (some ⟨9⟩)).steps crossed = .error e crossed) ∧
      ∃ e, (Operation.addChild ⟨2⟩ ⟨0⟩).steps crossed = .error e crossed := by
  have hreached : crossed.Reached := (Reached.withRoot _).runAll _
  refine ⟨by decide +kernel, by decide +kernel, ?_, ?_⟩
  · have hset : (Operation.setChild ⟨3⟩ (some ⟨9⟩) : Operation Unit).Single := trivial
    exact (Reached.all_or_nothing hreached hset).2.2
      ⟨_, .missing (x := ⟨9⟩) (by simp [Operation.needs]) (by decide +kernel)⟩
  · have hadd : (Operation.addChild ⟨2⟩ ⟨0⟩ : Operation Unit).Single := trivial
    exact (Reached.all_or_nothing hreached hadd).2.2
      ⟨_, .rootParent (c := ⟨0⟩) rfl (by decide +kernel)⟩

end Storyline.Graph
