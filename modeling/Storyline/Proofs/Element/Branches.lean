import Storyline.Proofs.Element.Trials

/-!
# Conditions as they are evaluated

* `Condition.declared`, `Condition.declaredOtherwise?`: what a condition keeps of the calls that declare
  its branches, of which some are refused;
* `passed`: the store behind some predicates that were run one after the other;
* `Hits branches s i`: the predicate at `i` is the first that comes out true;
* `firstTrue_of_hits`, `firstTrue_of_misses`: how picking a branch ends;
* `Condition.evaluate_declared`: **evaluating a condition** runs its predicates in the order of their
  calls up to the first that comes out true.
-/

namespace Storyline

/-! ### What was declared -/

namespace Condition

/-- The branch of a call that declares a further one. -/
def Call.further? : Call → Option Branch
  | addElseWhen b => some b
  | _ => none

/-- The branch of a call for all other cases. -/
def Call.otherwise? : Call → Option (List NodeId × Option Chain)
  | setOtherwise actions chain => some (actions, chain)
  | _ => none

/-- The branches that some calls have declared: the first of all, and then all further ones. A second
first branch is refused, and so are further ones that come before it. -/
def declared : List Call → List Branch
  | [] => []
  | .setWhen b :: rest => b :: rest.filterMap Call.further?
  | _ :: rest => declared rest

/-- The branch for all other cases, which is declared once. -/
def declaredOtherwise? (calls : List Call) : Option (List NodeId × Option Chain) :=
  calls.findSome? Call.otherwise?

variable {c : Condition} {calls : List Call}

theorem branches_call (c : Condition) (call : Call) : (c.call call).branches =
    if c.branches = [] then declared [call] else c.branches ++ call.further?.toList := by
  cases call with
  | setWhen b =>
    cases hb : c.branches <;>
      simp [Condition.call, setWhen, hb, declared, Call.further?, Except.toOption]
  | addElseWhen b =>
    cases hb : c.branches <;>
      simp [Condition.call, addElseWhen, hb, declared, Call.further?, Except.toOption]
  | setOtherwise actions chain =>
    have hsame : (c.call (.setOtherwise actions chain)).branches = c.branches := by
      cases hf : c.fallback <;> simp [Condition.call, setOtherwise, hf, Except.toOption]
    rw [hsame]
    split <;> simp_all [declared, Call.further?]
  | run store =>
    show c.branches = _
    split <;> simp_all [declared, Call.further?]
  | undo token? store =>
    show c.branches = _
    split <;> simp_all [declared, Call.further?]

theorem fallback_call (c : Condition) (call : Call) :
    (c.call call).fallback = c.fallback.or call.otherwise? := by
  cases call with
  | setOtherwise actions chain =>
    cases hf : c.fallback <;>
      simp [Condition.call, setOtherwise, hf, Call.otherwise?, Except.toOption]
  | setWhen b =>
    cases hb : c.branches <;>
      simp [Condition.call, setWhen, hb, Call.otherwise?, Except.toOption]
  | addElseWhen b =>
    cases hb : c.branches <;>
      simp [Condition.call, addElseWhen, hb, Call.otherwise?, Except.toOption]
  | run store => simp [Condition.call, Condition.run, Call.otherwise?]
  | undo token? store => simp [Condition.call, Call.otherwise?]

theorem branches_callAll_of_ne_nil (hc : c.branches ≠ []) (calls : List Call) :
    (c.callAll calls).branches = c.branches ++ calls.filterMap Call.further? := by
  induction calls generalizing c with
  | nil => exact (List.append_nil _).symm
  | cons call rest ih =>
    have hcall := branches_call c call
    rw [if_neg hc] at hcall
    have hne : (c.call call).branches ≠ [] := by simp [hcall, hc]
    show ((c.call call).callAll rest).branches = _
    rw [ih hne, hcall, List.filterMap_cons, List.append_assoc]
    cases call.further? <;> rfl

theorem branches_callAll (hc : c.branches = []) (calls : List Call) :
    (c.callAll calls).branches = declared calls := by
  induction calls generalizing c with
  | nil => exact hc
  | cons call rest ih =>
    have hcall := branches_call c call
    rw [if_pos hc] at hcall
    show ((c.call call).callAll rest).branches = _
    cases call with
    | setWhen b =>
      have hne : (c.call (.setWhen b)).branches ≠ [] := by simp [hcall, declared]
      rw [branches_callAll_of_ne_nil hne, hcall]
      rfl
    | addElseWhen b => exact ih hcall
    | setOtherwise actions chain => exact ih hcall
    | run store => exact ih hcall
    | undo token? store => exact ih hcall

theorem fallback_callAll (c : Condition) (calls : List Call) :
    (c.callAll calls).fallback = c.fallback.or (declaredOtherwise? calls) := by
  induction calls generalizing c with
  | nil => exact (Option.or_none).symm
  | cons call rest ih =>
    show ((c.call call).callAll rest).fallback = _
    rw [ih, fallback_call, Option.or_assoc, declaredOtherwise?, declaredOtherwise?,
      List.findSome?_cons]
    cases call.otherwise? <;> rfl

end Condition

/-! ### The first predicate that comes out true -/

/-- Only the first answer counts; a predicate that gives none does not hold. -/
def Verdict.Holds (v : Verdict) : Prop := v.answers.head? = some true

instance (v : Verdict) : Decidable v.Holds := inferInstanceAs (Decidable (_ = _))

/-- The store behind some predicates that were run one after the other. -/
def passed (branches : List Branch) (s : Store) : Store :=
  branches.foldl (fun s b => (b.predicate.judge s).store) s

/-- What a predicate does at its place, behind those before it. -/
def verdictAt (branches : List Branch) (s : Store) (i : Nat) (b : Branch) : Verdict :=
  b.predicate.judge (passed (branches.take i) s)

/-- The branch at a place is the first whose predicate holds. -/
structure Hits (branches : List Branch) (s : Store) (i : Nat) (b : Branch) : Prop where
  place : branches[i]? = some b
  holds : (verdictAt branches s i b).Holds
  first : ∀ j < i, ∀ b', branches[j]? = some b' → ¬ (verdictAt branches s j b').Holds

/-- No predicate holds. -/
def Misses (branches : List Branch) (s : Store) : Prop :=
  ∀ j b, branches[j]? = some b → ¬ (verdictAt branches s j b).Holds

section FirstTrue

variable {b b' : Branch} {branches rest : List Branch} {s : Store} {i : Nat}

theorem Hits.cons (hb : ¬ (b.predicate.judge s).Holds)
    (h : Hits rest (b.predicate.judge s).store i b') : Hits (b :: rest) s (i + 1) b' where
  place := h.place
  holds := h.holds
  first j hj d hd := by
    cases j with
    | zero => exact Option.some.inj hd ▸ hb
    | succ j => exact h.first j (by omega) d hd

theorem Misses.cons (hb : ¬ (b.predicate.judge s).Holds)
    (h : Misses rest (b.predicate.judge s).store) : Misses (b :: rest) s := by
  intro j d hd
  cases j with
  | zero => exact Option.some.inj hd ▸ hb
  | succ j => exact h j d hd

theorem hits_or_misses (branches : List Branch) (s : Store) :
    (∃ i b, Hits branches s i b) ∨ Misses branches s := by
  induction branches generalizing s with
  | nil => exact .inr nofun
  | cons b rest ih =>
    by_cases hb : (b.predicate.judge s).Holds
    · exact .inl ⟨0, b, rfl, hb, fun j hj => absurd hj (Nat.not_lt_zero j)⟩
    · rcases ih (b.predicate.judge s).store with ⟨i, b', h⟩ | h
      · exact .inl ⟨i + 1, b', h.cons hb⟩
      · exact .inr (h.cons hb)

/-- What comes of picking a branch is decided by the verdict on the first one. -/
theorem firstTrue_cons (index : Nat) (b : Branch) (rest : List Branch) (s : Store) :
    Condition.firstTrue index (b :: rest) s =
      let v := b.predicate.judge s
      if v.Holds then (some ⟨.ofIndex index, b.actions, b.chain, v.cleaner⟩, v.store)
      else Condition.firstTrue (index + 1) rest v.store := by
  rw [Condition.firstTrue, Predicate.evaluate, Predicate.settled_eq_head?]
  cases h : (b.predicate.judge s).answers.head? with
  | none => simp [Verdict.Holds, h]
  | some answer => cases answer <;> simp [Verdict.Holds, h]

/-- Picking ends at the first predicate that holds, whatever is declared behind it. -/
theorem firstTrue_of_hits (h : Hits branches s i b) (index : Nat) (later : List Branch) :
    Condition.firstTrue index (branches.take (i + 1) ++ later) s =
      (some ⟨.ofIndex (index + i), b.actions, b.chain, (verdictAt branches s i b).cleaner⟩,
        passed (branches.take (i + 1)) s) := by
  induction branches generalizing s i index with
  | nil => cases h.place
  | cons d rest ih =>
    rw [List.take_succ_cons, List.cons_append, firstTrue_cons]
    cases i with
    | zero =>
      obtain rfl := Option.some.inj h.place
      exact if_pos h.holds
    | succ i =>
      have hd : ¬ (d.predicate.judge s).Holds := h.first 0 (Nat.succ_pos i) d rfl
      have hrest : Hits rest (d.predicate.judge s).store i b :=
        ⟨h.place, h.holds, fun j hj b' hb' => h.first (j + 1) (by omega) b' hb'⟩
      refine (if_neg hd).trans ?_
      rw [ih hrest (index + 1), Nat.add_right_comm, Nat.add_assoc]
      rfl

theorem firstTrue_of_misses (h : Misses branches s) (index : Nat) :
    Condition.firstTrue index branches s = (none, passed branches s) := by
  induction branches generalizing s index with
  | nil => rfl
  | cons d rest ih =>
    have hd : ¬ (d.predicate.judge s).Holds := h 0 d rfl
    have hrest : Misses rest (d.predicate.judge s).store := fun j b hb => h (j + 1) b hb
    rw [firstTrue_cons]
    exact (if_neg hd).trans (ih hrest (index + 1))

end FirstTrue

/-! ### Evaluating -/

namespace Condition

variable {c : Condition} {s : Store} {i : Nat} {b : Branch}

/-- The kind of the branch at a place: the first one, or a further one by its number among those. -/
theorem ofIndex_eq (i : Nat) :
    BranchKind.ofIndex i = if i = 0 then .when else .elseWhen (i - 1) := by
  cases i <;> rfl

theorem evaluate_of_hits (h : Hits c.branches s i b) (later : List Branch) :
    ({ c with branches := c.branches.take (i + 1) ++ later }).evaluate s =
      (some ⟨if i = 0 then .when else .elseWhen (i - 1), b.actions, b.chain,
        (verdictAt c.branches s i b).cleaner⟩, passed (c.branches.take (i + 1)) s) := by
  have hfirst := firstTrue_of_hits h 0 later
  rw [Nat.zero_add, ofIndex_eq] at hfirst
  unfold evaluate
  rw [hfirst]

theorem evaluate_of_misses (h : Misses c.branches s) : c.evaluate s =
    (c.fallback.map fun (actions, chain) => ⟨.otherwise, actions, chain, none⟩,
      passed c.branches s) := by
  unfold evaluate
  rw [firstTrue_of_misses h]

/-- **Conditions are evaluated in the order in which they were declared.** Whichever calls have written
a condition, refused ones included, its predicates are run in the order of their calls, each on the store
that the one before left, up to the first that holds. The branch of that one is taken, with its actions,
its chain and its cleaner, whatever is declared behind it, and the store is left as the predicates up to
it leave it. If none holds, all are run and the branch for all other cases is taken, if there is one. -/
theorem evaluate_declared (id : ElementId) (calls : List Call) (s : Store) :
    let c := ({ id } : Condition).callAll calls
    let branches := declared calls
    c.branches = branches ∧
      ((∃ i b, branches[i]? = some b ∧ (verdictAt branches s i b).answers.head? = some true ∧
          (∀ j < i, ∀ b', branches[j]? = some b' →
            (verdictAt branches s j b').answers.head? ≠ some true) ∧
          c.evaluate s = (some ⟨if i = 0 then .when else .elseWhen (i - 1), b.actions, b.chain,
            (verdictAt branches s i b).cleaner⟩, passed (branches.take (i + 1)) s) ∧
          ∀ later, ({ c with branches := branches.take (i + 1) ++ later }).evaluate s =
            c.evaluate s) ∨
        (∀ j b, branches[j]? = some b → (verdictAt branches s j b).answers.head? ≠ some true) ∧
          c.evaluate s = ((declaredOtherwise? calls).map fun (actions, chain) =>
            ⟨.otherwise, actions, chain, none⟩, passed branches s)) := by
  intro c branches
  have hb : c.branches = branches := branches_callAll rfl calls
  have hf : c.fallback = declaredOtherwise? calls := fallback_callAll _ calls
  refine ⟨hb, ?_⟩
  rw [← hb]
  rcases hits_or_misses c.branches s with ⟨i, b, h⟩ | h
  · -- what is declared behind the branch that is taken may be anything
    have hc := evaluate_of_hits h (c.branches.drop (i + 1))
    rw [List.take_append_drop] at hc
    exact .inl ⟨i, b, h.place, h.holds, h.first, hc, fun later =>
      (evaluate_of_hits h later).trans hc.symm⟩
  · refine .inr ⟨h, ?_⟩
    rw [evaluate_of_misses h, hf]

end Condition

end Storyline
