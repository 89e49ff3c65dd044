import Storyline.Element.Condition
import Storyline.Proofs.Log.Single

/-!
# Conditions that are taken back

* `Trial`, `trials`: the predicates that a run tries, each on the store that the one before left, up to
  the first that comes out true;
* `Condition.run_spec`: what a run records and leaves, seen from its trials;
* `Trial.runAll_of_mends`: the cleaners of trials, the last one first, lead back to the store before;
* `Condition.Call`, `Condition.callAll`: what is done to a condition, one call after the other;
* `Condition.undo_run`: taking a run back, at once or later, runs the cleaner of the trial that came out
  true and no other, and so leads back to the store before the run unless a trial that came out false
  left a trace;
* `Condition.undo_knock`: such a trace.
-/

namespace Storyline

/-- A predicate that was tried: the store that it found, and what it did. -/
structure Trial where
  found : Store
  verdict : Verdict

namespace Trial

variable {s : Store} {t : Trial} {ts ts' : List Trial} {branches : List Branch}

/-- Only the first answer counts. -/
def holds (t : Trial) : Bool := t.verdict.answers.head?.getD false

/-- What the predicate did to the store its cleaner undoes; without one it did nothing. -/
def Mends (t : Trial) : Prop := Cleaner.runIfAny t.verdict.cleaner t.verdict.store = t.found

/-- The cleaners of trials, in the order of these. -/
def cleaners (ts : List Trial) : List Cleaner := ts.filterMap (·.verdict.cleaner)

/-- The store after trials. -/
def after (s : Store) (ts : List Trial) : Store := ts.foldl (fun _ t => t.verdict.store) s

/-- Each trial finds the store that the one before left. -/
def Follow (s : Store) : List Trial → Prop
  | [] => True
  | t :: ts => t.found = s ∧ Follow t.verdict.store ts

/-! ### What trials leave -/

theorem after_append (s : Store) (ts ts' : List Trial) :
    after s (ts ++ ts') = after (after s ts) ts' := List.foldl_append

theorem follow_append : Follow s (ts ++ ts') ↔ Follow s ts ∧ Follow (after s ts) ts' := by
  induction ts generalizing s with
  | nil => exact ⟨fun h => ⟨trivial, h⟩, And.right⟩
  | cons t ts ih => exact (and_congr_right' ih).trans and_assoc.symm

theorem after_of_idle (hf : Follow s ts) (h : ∀ t ∈ ts, t.verdict.store = t.found) :
    after s ts = s := by
  induction ts generalizing s with
  | nil => rfl
  | cons t ts ih =>
    obtain ⟨ht, hts⟩ := List.forall_mem_cons.1 h
    have hstore : t.verdict.store = s := ht.trans hf.1
    exact (ih hf.2 hts).trans hstore

theorem cleaners_cons (t : Trial) (ts : List Trial) :
    cleaners (t :: ts) = t.verdict.cleaner.toList ++ cleaners ts := by
  unfold cleaners
  rw [List.filterMap_cons]
  cases t.verdict.cleaner <;> rfl

/-- **The cleaners of trials**, the last one first, lead back to the store before them. -/
theorem runAll_of_mends (hf : Follow s ts) (hm : ∀ t ∈ ts, t.Mends) :
    Cleaner.runAll (cleaners ts) (after s ts) = s := by
  induction ts generalizing s with
  | nil => rfl
  | cons t ts ih =>
    obtain ⟨hfound, hrest⟩ := hf
    have hback := ih hrest fun t' ht' => hm t' (List.mem_cons_of_mem t ht')
    have hmend := hm t (List.mem_cons_self ..)
    rw [cleaners_cons]
    show Cleaner.runAll (t.verdict.cleaner.toList ++ cleaners ts) (after t.verdict.store ts) = s
    -- the first trial is taken back last, from the store that it left
    unfold Cleaner.runAll at hback ⊢
    rw [List.foldr_append, hback]
    exact (Cleaner.runAll_toList _ _).trans (hmend.trans hfound)

/-- If some trials are left out, no cleaner is missing exactly if those have none. -/
theorem cleaners_filter_eq_iff (p : Trial → Bool) (ts : List Trial) :
    cleaners (ts.filter p) = cleaners ts ↔ ∀ t ∈ ts, p t = false → t.verdict.cleaner = none := by
  have hle : ∀ ts, (cleaners (ts.filter p)).length ≤ (cleaners ts).length := fun ts =>
    (List.filter_sublist.filterMap _).length_le
  induction ts with
  | nil => simp
  | cons t ts ih =>
    have hcons : (∀ t' ∈ t :: ts, p t' = false → t'.verdict.cleaner = none) ↔
        (p t = false → t.verdict.cleaner = none) ∧ cleaners (ts.filter p) = cleaners ts :=
      List.forall_mem_cons.trans (and_congr_right' ih.symm)
    rw [hcons, cleaners_cons]
    -- a trial that is left out may have no cleaner, as the others cannot make up for it
    cases hp : p t with
    | true =>
      rw [List.filter_cons_of_pos hp, cleaners_cons, List.append_right_inj]
      simp
    | false =>
      rw [List.filter_cons_of_neg (by simp [hp])]
      cases hc : t.verdict.cleaner with
      | none => simp
      | some clean =>
        refine ⟨fun h => ?_, fun h => absurd (h.1 rfl) (by simp)⟩
        have hlength := congrArg List.length h
        rw [Option.toList_some, List.length_append, List.length_singleton] at hlength
        have := hle ts
        omega

end Trial

/-! ### The trials of a run -/

/-- The predicates that are tried in a store, up to the first that comes out true. -/
def trials : List Branch → Store → List Trial
  | [], _ => []
  | b :: rest, s =>
    let t : Trial := ⟨s, b.predicate.judge s⟩
    if t.holds then [t] else t :: trials rest t.verdict.store

section Trials

variable {s : Store} {t : Trial} {branches : List Branch}

theorem trials_cons_of_holds {b : Branch} {rest : List Branch}
    (h : (Trial.mk s (b.predicate.judge s)).holds = true) :
    trials (b :: rest) s = [⟨s, b.predicate.judge s⟩] := if_pos h

theorem trials_cons_of_not_holds {b : Branch} {rest : List Branch}
    (h : (Trial.mk s (b.predicate.judge s)).holds = false) :
    trials (b :: rest) s =
      ⟨s, b.predicate.judge s⟩ :: trials rest (b.predicate.judge s).store :=
  if_neg (by rw [h]; decide)

theorem follow_trials (branches : List Branch) (s : Store) : Trial.Follow s (trials branches s) := by
  induction branches generalizing s with
  | nil => trivial
  | cons b rest ih =>
    cases h : (Trial.mk s (b.predicate.judge s)).holds with
    | true =>
      rw [trials_cons_of_holds h]
      exact ⟨rfl, trivial⟩
    | false =>
      rw [trials_cons_of_not_holds h]
      exact ⟨rfl, ih _⟩

/-- The trial that comes out true is the last one, if there is any. -/
theorem trials_eq (branches : List Branch) (s : Store) :
    ∃ misses hit?, trials branches s = misses ++ Option.toList hit? ∧
      (∀ t ∈ misses, t.holds = false) ∧ ∀ t, hit? = some t → t.holds = true := by
  induction branches generalizing s with
  | nil => exact ⟨[], none, rfl, nofun, nofun⟩
  | cons b rest ih =>
    cases h : (Trial.mk s (b.predicate.judge s)).holds with
    | true =>
      rw [trials_cons_of_holds h]
      refine ⟨[], some _, rfl, nofun, ?_⟩
      rintro _ ⟨⟩
      exact h
    | false =>
      obtain ⟨misses, hit?, heq, hmisses, hhit⟩ := ih (b.predicate.judge s).store
      rw [trials_cons_of_not_holds h, heq]
      refine ⟨_ :: misses, hit?, rfl, ?_, hhit⟩
      exact List.forall_mem_cons.2 ⟨h, hmisses⟩

theorem filter_trials (branches : List Branch) (s : Store) :
    ∃ misses hit?, trials branches s = misses ++ Option.toList hit? ∧
      (trials branches s).filter Trial.holds = hit?.toList ∧
      (trials branches s).filter (! ·.holds) = misses := by
  obtain ⟨misses, hit?, heq, hmisses, hhit⟩ := trials_eq branches s
  have hhit' : ∀ t ∈ hit?.toList, t.holds = true := fun t ht => hhit t (Option.mem_toList.1 ht)
  refine ⟨misses, hit?, heq, ?_, ?_⟩
  · rw [heq, List.filter_append, List.filter_eq_self.2 hhit',
      List.filter_eq_nil_iff.2 fun t ht => by simp [hmisses t ht], List.nil_append]
  · rw [heq, List.filter_append, List.filter_eq_self.2 fun t ht => by simp [hmisses t ht],
      List.filter_eq_nil_iff.2 fun t ht => by simp [hhit' t ht], List.append_nil]

/-- Picking a branch leaves what the trials leave, and comes back with the cleaner of the one that came
out true. -/
theorem firstTrue_trials (branches : List Branch) (index : Nat) (s : Store) :
    (Condition.firstTrue index branches s).2 = Trial.after s (trials branches s) ∧
      ((Condition.firstTrue index branches s).1.bind (·.cleaner)).toList =
        Trial.cleaners ((trials branches s).filter Trial.holds) := by
  induction branches generalizing index s with
  | nil => exact ⟨rfl, rfl⟩
  | cons b rest ih =>
    cases h : (Trial.mk s (b.predicate.judge s)).holds with
    | true =>
      have hevaluate : b.predicate.evaluate s =
          (true, (b.predicate.judge s).cleaner, (b.predicate.judge s).store) :=
        Prod.ext ((b.predicate.evaluate_fst s).trans h) rfl
      rw [trials_cons_of_holds h, List.filter_cons_of_pos h, Trial.cleaners_cons]
      simp only [Condition.firstTrue, hevaluate]
      exact ⟨rfl, (List.append_nil _).symm⟩
    | false =>
      have hevaluate : b.predicate.evaluate s =
          (false, (b.predicate.judge s).cleaner, (b.predicate.judge s).store) :=
        Prod.ext ((b.predicate.evaluate_fst s).trans h) rfl
      rw [trials_cons_of_not_holds h, List.filter_cons_of_neg (by simp [h])]
      simp only [Condition.firstTrue, hevaluate]
      exact ih (index + 1) (b.predicate.judge s).store

end Trials

namespace Condition

variable {c : Condition} {store store' : Store} {token? : Option Nat}

/-- The cleaner that a run records. -/
def kept? (c : Condition) (store : Store) : Option Cleaner :=
  (c.evaluate store).1.bind (·.cleaner)

theorem evaluate_trials (c : Condition) (store : Store) :
    (c.evaluate store).2 = Trial.after store (trials c.branches store) ∧
      (c.kept? store).toList = Trial.cleaners ((trials c.branches store).filter Trial.holds) := by
  obtain ⟨hstore, hcleaner⟩ := firstTrue_trials c.branches 0 store
  unfold kept? evaluate
  cases hfirst : firstTrue 0 c.branches store with
  | mk chosen s =>
    rw [hfirst] at hstore hcleaner
    cases chosen with
    | some chosen => exact ⟨hstore, hcleaner⟩
    | none =>
      refine ⟨hstore, ?_⟩
      rw [← hcleaner]
      cases c.fallback <;> rfl

/-- **A run** records the cleaner of the trial that came out true, and which branch was taken before. -/
theorem run_spec (hb : c.tracked.log.buffer = none) (store : Store) :
    (c.run store).2.2 = Trial.after store (trials c.branches store) ∧
      (c.run store).2.1.tracked.log = c.tracked.log.committed [⟨c.kept? store, c.last⟩] := by
  refine ⟨(c.evaluate_trials store).1, ?_⟩
  show (c.tracked.change _ _).log = _
  rw [Tracked.change_eq hb]
  rfl

/-! ### Calls -/

/-- What is done to a condition while it is written and in play. -/
inductive Call where
  | setWhen (b : Branch)
  | addElseWhen (b : Branch)
  | setOtherwise (actions : List NodeId) (chain : Option Chain)
  | run (store : Store)
  | undo (token? : Option Nat) (store : Store)

/-- What a call leaves. One that fails changes nothing. -/
def call (c : Condition) : Call → Condition
  | .setWhen b => (c.setWhen b).toOption.getD c
  | .addElseWhen b => (c.addElseWhen b).toOption.getD c
  | .setOtherwise actions chain => (c.setOtherwise actions chain).toOption.getD c
  | .run store => (c.run store).2.1
  | .undo token? store => { c with tracked := c.tracked.undone token? store }

/-- Calls one after the other. -/
def callAll (c : Condition) (calls : List Call) : Condition := calls.foldl call c

theorem later_call (c : Condition) (call : Call) : c.tracked.Later (c.call call).tracked := by
  cases call with
  | setWhen b =>
    show c.tracked.Later ((c.setWhen b).toOption.getD c).tracked
    unfold setWhen
    split <;> exact .refl
  | addElseWhen b =>
    show c.tracked.Later ((c.addElseWhen b).toOption.getD c).tracked
    unfold addElseWhen
    split <;> exact .refl
  | setOtherwise actions chain =>
    show c.tracked.Later ((c.setOtherwise actions chain).toOption.getD c).tracked
    unfold setOtherwise
    split <;> exact .refl
  | run store => exact .change .refl _ _
  | undo token? store => exact .undone .refl token? store

theorem later_callAll (c : Condition) (calls : List Call) :
    c.tracked.Later (c.callAll calls).tracked := by
  induction calls generalizing c with
  | nil => exact .refl
  | cons call calls ih => exact (c.later_call call).trans (ih (c.call call))

/-! ### A run that is taken back -/

theorem runIfAny_kept? (c : Condition) (store store' : Store) :
    Cleaner.runIfAny (c.kept? store) store' =
      Cleaner.runAll (Trial.cleaners ((trials c.branches store).filter Trial.holds)) store' := by
  rw [← (c.evaluate_trials store).2, Cleaner.runAll_toList]

theorem undo_run_now (hb : c.tracked.log.buffer = none)
    (ht : token? = none ∨ token? = some c.tracked.log.size) (store store' : Store) :
    ∃ t, (c.run store).2.1.tracked.undo token? store' = .ok (1, t,
        Cleaner.runAll (Trial.cleaners ((trials c.branches store).filter Trial.holds)) store') ∧
      t.state = c.tracked.state := by
  rw [← runIfAny_kept?]
  exact ⟨⟨c.tracked.state, _⟩, Tracked.undo_change hb ht _ _ store', rfl⟩

theorem undo_run_later (hb : c.tracked.log.buffer = none) (store : Store) (later : List Call)
    (hlive : ((c.run store).2.1.callAll later).tracked.log.commit? c.tracked.log.size ≠ none)
    (store' : Store) :
    ∃ t, ((c.run store).2.1.callAll later).tracked.undo (some c.tracked.log.size) store' =
        .ok (1, t,
          Cleaner.runAll (Trial.cleaners ((trials c.branches store).filter Trial.holds)) store') ∧
      t.state = c.tracked.state := by
  obtain ⟨-, hlog⟩ := run_spec hb store
  have hmade : (c.run store).2.1.tracked.log.commit? c.tracked.log.size =
      some [⟨c.kept? store, c.last⟩] := by
    rw [hlog, Log.commit?_committed, if_pos rfl]
  have hclosed : (c.run store).2.1.tracked.log.buffer = none := by rw [hlog]; rfl
  have hlater := (c.run store).2.1.later_callAll later
  have hcommit := (hlater.commit? hclosed hmade).resolve_right hlive
  rw [← runIfAny_kept?]
  exact ⟨⟨c.tracked.state, _⟩, Tracked.undo_of_commit? hcommit store', rfl⟩

/-- The cleaner of the trial that came out true leads back to the store that this trial found, and so
to the one that the trials before it left. -/
theorem store_of_undo_run (c : Condition) (store : Store)
    (hm : ∀ t ∈ trials c.branches store, t.holds = true → t.Mends) :
    let tried := trials c.branches store
    Cleaner.runAll (Trial.cleaners (tried.filter Trial.holds)) (Trial.after store tried) =
      Trial.after store (tried.filter (! ·.holds)) := by
  intro tried
  obtain ⟨misses, hit?, heq, hheld, hmissed⟩ := filter_trials c.branches store
  have hfollow : Trial.Follow (Trial.after store misses) hit?.toList :=
    (Trial.follow_append.1 (heq ▸ follow_trials c.branches store)).2
  have hmends : ∀ t ∈ hit?.toList, t.Mends := by
    intro t ht
    rw [← hheld] at ht
    exact hm t (List.mem_filter.1 ht).1 (List.mem_filter.1 ht).2
  have hafter : Trial.after store tried = Trial.after (Trial.after store misses) hit?.toList :=
    (congrArg (Trial.after store) heq).trans (Trial.after_append _ _ _)
  rw [hafter, hheld, hmissed]
  exact Trial.runAll_of_mends hfollow hmends

/-- Trials that came out false and left the store as they found it left no trace. -/
theorem after_missed (c : Condition) (store : Store)
    (h : ∀ t ∈ trials c.branches store, t.holds = false → t.verdict.store = t.found) :
    Trial.after store ((trials c.branches store).filter (! ·.holds)) = store := by
  obtain ⟨misses, hit?, heq, -, hmissed⟩ := filter_trials c.branches store
  have hfollow : Trial.Follow store misses :=
    (Trial.follow_append.1 (heq ▸ follow_trials c.branches store)).1
  rw [hmissed]
  refine Trial.after_of_idle hfollow fun t ht => ?_
  rw [← hmissed] at ht
  exact h t (List.mem_filter.1 ht).1 (by simpa using (List.mem_filter.1 ht).2)

/-! ### The main statement -/

/-- **A run that is taken back** takes back the trial that came out true. After any calls on a new
condition, a run that is taken back, at once or after any other calls, runs the cleaner of that trial
and no other, on the store as it is then, and the branch that was taken before counts again. These are
the cleaners of all trials, the last one first, exactly if none that came out false has one. If the
cleaner leads back to the store that its predicate found, the run that is taken back at once leaves what
the trials that came out false left, and the store before the run if these left it as they found it. -/
theorem undo_run (hnew : c.tracked = { state := {} }) (calls : List Call) (store : Store) :
    let d := c.callAll calls
    let tried := trials d.branches store
    let cleaners := Trial.cleaners (tried.filter Trial.holds)
    (∀ later store',
      let e := (d.run store).2.1.callAll later
      e.tracked.log.commit? d.tracked.log.size ≠ none →
        ∃ t, e.tracked.undo (some d.tracked.log.size) store' =
            .ok (1, t, Cleaner.runAll cleaners store') ∧ t.state = d.tracked.state) ∧
      (∀ token?, token? = none ∨ token? = some d.tracked.log.size →
        ∃ t, (d.run store).2.1.tracked.undo token? (d.run store).2.2 =
            .ok (1, t, Cleaner.runAll cleaners (d.run store).2.2) ∧ t.state = d.tracked.state) ∧
      (cleaners = Trial.cleaners tried ↔
        ∀ t ∈ tried, t.holds = false → t.verdict.cleaner = none) ∧
      ((∀ t ∈ tried, t.holds = true → t.Mends) →
        Cleaner.runAll cleaners (d.run store).2.2 =
            Trial.after store (tried.filter (! ·.holds)) ∧
          ((∀ t ∈ tried, t.holds = false → t.verdict.store = t.found) →
            Cleaner.runAll cleaners (d.run store).2.2 = store)) := by
  intro d tried cleaners
  have hb : d.tracked.log.buffer = none := (c.later_callAll calls).buffer (by rw [hnew]; rfl)
  refine ⟨fun later store' hlive => undo_run_later hb store later hlive store',
    fun token? ht => undo_run_now hb ht store _, Trial.cleaners_filter_eq_iff _ _, fun hm => ?_⟩
  have hback : Cleaner.runAll cleaners (d.run store).2.2 =
      Trial.after store (tried.filter (! ·.holds)) := by
    rw [(run_spec hb store).1]
    exact store_of_undo_run d store hm
  exact ⟨hback, fun hidle => hback.trans (after_missed d store hidle)⟩

/-- A predicate that notes in the store that it was asked, and can take that back. -/
def noting (value : Bool) : Predicate :=
  ⟨fun s =>
    { store := s.modify "flags" (·.set "asked" (.bool true))
      answers := [value]
      cleaner := some fun _ => s }⟩

/-- A store in which nothing was asked. -/
def hall : Store := Store.register {} ⟨"Flags", "flags", []⟩

/-- A door that opens to the second question. -/
def door : List Call :=
  [.setWhen ⟨.constant false, [⟨1⟩], none⟩, .addElseWhen ⟨noting true, [⟨2⟩], none⟩]

theorem undo_run_door :
    let d := ({ id := ⟨0⟩ } : Condition).callAll door
    ((d.run hall).2.2.get? "flags" "asked").isSome = true ∧
      ∃ t, (d.run hall).2.1.tracked.undo none (d.run hall).2.2 = .ok (1, t, hall) := by
  intro d
  obtain ⟨-, hnow, -, hmend⟩ := undo_run (c := { id := ⟨0⟩ }) rfl door hall
  obtain ⟨t, ht, -⟩ := hnow none (.inl rfl)
  have htried : trials d.branches hall =
      [⟨hall, (Predicate.constant false).judge hall⟩, ⟨hall, (noting true).judge hall⟩] := rfl
  have hmends : ∀ t ∈ trials d.branches hall, t.holds = true → t.Mends := by
    rw [htried]
    exact List.forall_mem_cons.2 ⟨nofun, List.forall_mem_singleton.2 fun _ => rfl⟩
  have hidle : ∀ t ∈ trials d.branches hall, t.holds = false → t.verdict.store = t.found := by
    rw [htried]
    exact List.forall_mem_cons.2 ⟨fun _ => rfl, List.forall_mem_singleton.2 nofun⟩
  refine ⟨by decide +kernel, t, ht.trans ?_⟩
  rw [(hmend hmends).2 hidle]

/-- A question that is answered with no leaves its note, although it could take it back. -/
theorem undo_knock :
    let d := ({ id := ⟨0⟩ } : Condition).callAll [.setWhen ⟨noting false, [⟨1⟩], none⟩]
    let tried := trials d.branches hall
    (∀ t ∈ tried, t.Mends) ∧
      Cleaner.runAll (Trial.cleaners tried) (d.run hall).2.2 = hall ∧
      ∃ t s, (d.run hall).2.1.tracked.undo none (d.run hall).2.2 = .ok (1, t, s) ∧ s ≠ hall := by
  intro d tried
  have htried : tried = [⟨hall, (noting false).judge hall⟩] := rfl
  refine ⟨?_, rfl, ?_⟩
  · rw [htried]
    exact List.forall_mem_singleton.2 rfl
  · obtain ⟨t, ht, -⟩ := undo_run_now (c := d) rfl (.inl rfl) hall (d.run hall).2.2
    refine ⟨t, _, ht, fun h => ?_⟩
    have hnoted := congrArg (fun s => (s.get? "flags" "asked").isSome) h
    exact absurd hnoted (by decide +kernel)

end Condition

end Storyline
