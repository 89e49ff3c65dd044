import Storyline.Proofs.Log.Session

/-!
# Changes that are taken back by their record

* `Log.commit?_committed`, `Log.commit?_emptied`: committing and taking leave all other commits as they
  were;
* `Tracked.Later t t'`: `t'` comes from `t` by changes and by undoing, and `Tracked.Later.commit?`: a
  commit is there unchanged until it is taken;
* `Tracked.undo_of_commit?`, `Tracked.undo_change`: a commit of a single record is taken back by that
  record alone, at once and later.
-/

namespace Storyline

namespace Log

variable {ρ : Type} {l : Log ρ} {rs : List ρ} {k t : Nat}

theorem lt_size_of_commit? (h : l.commit? k = some rs) : k < l.size := by
  unfold commit? at h
  split at h
  · assumption
  · cases h

/-- A new commit is found under the token that it got, and all others as before. -/
theorem commit?_committed (l : Log ρ) (rs : List ρ) (k : Nat) :
    (l.committed rs).commit? k = if k = l.size then some rs else l.commit? k := by
  have hcommits : (l.committed rs).commits = l.commits ++ [some rs] := List.reverse_cons
  rw [commit?_eq, commit?_eq, hcommits, ← l.length_commits]
  split
  · rename_i hk
    subst hk
    simp
  · rename_i hk
    rw [List.getElem?_append]
    split
    · rfl
    · rw [List.getElem?_eq_none (by simpa using by omega), List.getElem?_eq_none (by omega)]

/-- A commit that is taken is gone, and all others are found as before. -/
theorem commit?_emptied (h : t < l.size) (k : Nat) :
    (l.emptied t).commit? k = if k = t then none else l.commit? k := by
  rw [commit?_eq, commits_emptied l h, List.getElem?_set, commit?_eq]
  by_cases hk : k = t
  · subst hk
    rw [if_pos rfl, if_pos rfl]
    split <;> rfl
  · rw [if_neg hk, if_neg (Ne.symm hk)]

theorem take_of_commit? (h : l.commit? k = some rs) :
    l.take (some k) = .ok (rs, l.emptied k) := by
  rw [take_eq, Option.some_or]
  simp only [h]

theorem take_eq_ok {token? : Option Nat} {l' : Log ρ} (h : l.take token? = .ok (rs, l')) :
    ∃ k, l.commit? k = some rs ∧ l' = l.emptied k := by
  rw [take_eq] at h
  split at h
  · cases h
  · rename_i k _
    split at h
    · rename_i rs' hk
      obtain ⟨rfl, rfl⟩ := Prod.mk.inj (Except.ok.inj h)
      exact ⟨k, hk, rfl⟩
    · cases h

theorem latest?_committed (l : Log ρ) (rs : List ρ) : (l.committed rs).latest? = some l.size := by
  unfold latest? committed
  simp [List.findIdx?_cons]

end Log

namespace Tracked

variable {σ ρ : Type} {t t' t'' : Tracked σ ρ} {s : σ} {r : ρ} {store store' : Store}
  {token? : Option Nat} {k n : Nat} {rs : List ρ}

theorem change_eq (h : t.log.buffer = none) (s : σ) (r : ρ) :
    t.change s r = ⟨s, t.log.committed [r]⟩ := by
  obtain ⟨l', hl', -⟩ := Log.commitWith_spec h r
  obtain ⟨-, hp⟩ := Log.commitWith_eq_ok hl'
  obtain ⟨-, rfl⟩ := Prod.mk.inj hp
  unfold change record
  simp only [hl']

variable [Undoable σ ρ]

theorem undo_of_take {l : Log ρ} (h : t.log.take token? = .ok ([r], l)) (store : Store) :
    t.undo token? store = .ok (1, ⟨(Undoable.rollback r t.state store).1, l⟩,
      (Undoable.rollback r t.state store).2) := by
  unfold undo
  simp only [h]
  rfl

theorem undo_of_commit? (h : t.log.commit? k = some [r]) (store : Store) :
    t.undo (some k) store = .ok (1, ⟨(Undoable.rollback r t.state store).1, t.log.emptied k⟩,
      (Undoable.rollback r t.state store).2) :=
  undo_of_take (Log.take_of_commit? h) store

/-- **A change that is undone at once**, under its own token or as the latest. -/
theorem undo_change (h : t.log.buffer = none) (ht : token? = none ∨ token? = some t.log.size)
    (s : σ) (r : ρ) (store : Store) :
    (t.change s r).undo token? store = .ok (1,
      ⟨(Undoable.rollback r s store).1, (t.log.committed [r]).emptied t.log.size⟩,
      (Undoable.rollback r s store).2) := by
  have hcommit : (t.log.committed [r]).commit? t.log.size = some [r] := by
    rw [Log.commit?_committed, if_pos rfl]
  rw [change_eq h]
  refine undo_of_take ?_ store
  rcases ht with rfl | rfl
  · rw [← Log.take_of_commit? hcommit, Log.take_eq, Log.take_eq, Option.none_or, Option.some_or,
      Log.latest?_committed]
  · exact Log.take_of_commit? hcommit

/-! ### Later -/

/-- What undoing leaves: all as it was where nothing can be taken. -/
def undone (t : Tracked σ ρ) (token? : Option Nat) (store : Store) : Tracked σ ρ :=
  match t.undo token? store with
  | .ok (_, t', _) => t'
  | .error _ => t

/-- `t'` comes from `t` by changes that are recorded one by one, and by undoing. -/
inductive Later (t : Tracked σ ρ) : Tracked σ ρ → Prop
  | refl : Later t t
  | change {t' : Tracked σ ρ} (h : Later t t') (s : σ) (r : ρ) : Later t (t'.change s r)
  | undo {t' t'' : Tracked σ ρ} {token? : Option Nat} {store store' : Store} {n : Nat}
      (h : Later t t') (hu : t'.undo token? store = .ok (n, t'', store')) : Later t t''

theorem log_of_undo (h : t.undo token? store = .ok (n, t', store')) :
    ∃ k rs, t.log.commit? k = some rs ∧ t'.log = t.log.emptied k := by
  unfold Tracked.undo at h
  split at h
  · rename_i records log htake
    obtain ⟨k, hk, rfl⟩ := Log.take_eq_ok htake
    obtain ⟨-, rfl, -⟩ : _ ∧ _ ∧ _ := by simpa using h
    exact ⟨k, records, hk, rfl⟩
  · cases h

namespace Later

theorem trans (h : Later t t') (h' : Later t' t'') : Later t t'' := by
  induction h' with
  | refl => exact h
  | change _ s r ih => exact ih.change s r
  | undo _ hu ih => exact ih.undo hu

theorem undone (h : Later t t') (token? : Option Nat) (store : Store) :
    Later t (t'.undone token? store) := by
  unfold Tracked.undone
  split
  · rename_i hu
    exact h.undo hu
  · exact h

theorem buffer (h : Later t t') (hb : t.log.buffer = none) : t'.log.buffer = none := by
  induction h with
  | refl => exact hb
  | change _ s r ih =>
    rw [change_eq ih]
    rfl
  | undo _ hu ih =>
    obtain ⟨k, rs, -, hlog⟩ := log_of_undo hu
    rw [hlog]
    exact ih

theorem size_le (h : Later t t') (hb : t.log.buffer = none) : t.log.size ≤ t'.log.size := by
  induction h with
  | refl => exact Nat.le_refl _
  | change h s r ih =>
    rw [change_eq (h.buffer hb)]
    exact Nat.le_succ_of_le ih
  | undo _ hu ih =>
    obtain ⟨k, rs, -, hlog⟩ := log_of_undo hu
    rw [hlog]
    exact ih

/-- **A commit is there** as it was made, until it is taken. -/
theorem commit? (h : Later t t') (hb : t.log.buffer = none) (hk : t.log.commit? k = some rs) :
    t'.log.commit? k = some rs ∨ t'.log.commit? k = none := by
  have hsize := Log.lt_size_of_commit? hk
  induction h with
  | refl => exact .inl hk
  | change h s r ih =>
    -- the new commit stands behind all that were made, and so behind this one
    have hle := h.size_le hb
    rw [change_eq (h.buffer hb), Log.commit?_committed, if_neg (by omega)]
    exact ih
  | undo _ hu ih =>
    obtain ⟨j, js, hj, hlog⟩ := log_of_undo hu
    rw [hlog, Log.commit?_emptied (Log.lt_size_of_commit? hj)]
    split
    · exact .inr rfl
    · exact ih

end Later

end Tracked

end Storyline
