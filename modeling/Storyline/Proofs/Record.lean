import Mathlib.Data.String.Basic
import Storyline.Value

/-!
# Records of entries in any order

* `Record.ordered_put`, `Record.put_perm`: putting keeps the order of the keys, and adds a new entry;
* `Record.ofList_of_perm`: the entries of a record in any order make up that record.
-/

namespace Storyline.Record

variable {α : Type} {key : String} {value : α} {r entries : List (String × α)}

theorem mem_put {e : String × α} (h : e ∈ put key value r) : e = (key, value) ∨ e ∈ r := by
  induction r with
  | nil => exact .inl (List.mem_singleton.1 h)
  | cons a r ih =>
    unfold put at h
    split at h
    · exact (List.mem_cons.1 h).imp_right (List.mem_cons_of_mem a)
    · split at h
      · exact List.mem_cons.1 h
      · rcases List.mem_cons.1 h with rfl | h
        · exact .inr List.mem_cons_self
        · exact (ih h).imp_right (List.mem_cons_of_mem a)

theorem ordered_put (key : String) (value : α) (h : Ordered r) : Ordered (put key value r) := by
  induction r with
  | nil => exact List.pairwise_singleton _ _
  | cons a r ih =>
    obtain ⟨ha, hr⟩ := List.pairwise_cons.1 h
    unfold put
    split
    · rename_i hkey
      subst hkey
      exact List.pairwise_cons.2 ⟨ha, hr⟩
    · rename_i hkey
      split
      · rename_i hlt
        refine List.pairwise_cons.2 ⟨fun e he => ?_, h⟩
        rcases List.mem_cons.1 he with rfl | he
        · exact hlt
        · exact lt_trans hlt (ha e he)
      · rename_i hlt
        have hlt' : a.1 < key := lt_of_le_of_ne (not_lt.1 hlt) hkey
        refine List.pairwise_cons.2 ⟨fun e he => ?_, ih hr⟩
        rcases mem_put he with rfl | he
        · exact hlt'
        · exact ha e he

theorem put_perm (value : α) (h : ∀ e ∈ r, e.1 ≠ key) : (put key value r).Perm ((key, value) :: r) := by
  induction r with
  | nil => exact .refl _
  | cons a r ih =>
    unfold put
    rw [if_neg (h a List.mem_cons_self)]
    split
    · exact .refl _
    · have hr := ih fun e he => h e (List.mem_cons_of_mem a he)
      exact (hr.cons a).trans (.swap _ _ _)

theorem foldl_put (h : Ordered r) (hkeys : (entries ++ r).Pairwise fun a b => a.1 ≠ b.1) :
    Ordered (entries.foldl (fun r e => put e.1 e.2 r) r) ∧
      (entries.foldl (fun r e => put e.1 e.2 r) r).Perm (entries ++ r) := by
  induction entries generalizing r with
  | nil => exact ⟨h, .refl _⟩
  | cons e entries ih =>
    obtain ⟨he, hrest⟩ := List.pairwise_cons.1 hkeys
    have hperm : (put e.1 e.2 r).Perm (e :: r) :=
      put_perm e.2 fun x hx => (he x (List.mem_append_right _ hx)).symm
    have hmoved : (entries ++ put e.1 e.2 r).Perm (e :: (entries ++ r)) :=
      (hperm.append_left entries).trans List.perm_middle
    have hkeys' : (entries ++ put e.1 e.2 r).Pairwise fun a b => a.1 ≠ b.1 :=
      hmoved.symm.pairwise hkeys fun h => h.symm
    obtain ⟨hordered, hfold⟩ := ih (ordered_put e.1 e.2 h) hkeys'
    exact ⟨hordered, hfold.trans hmoved⟩

/-- **The entries of a record, in any order**, make up that record. -/
theorem ofList_of_perm (h : entries.Perm r) (hr : Ordered r) : ofList entries = r := by
  have hkeys : entries.Pairwise fun a b => a.1 ≠ b.1 :=
    h.symm.pairwise (hr.imp fun hlt => ne_of_lt hlt) fun h => h.symm
  obtain ⟨hordered, hperm⟩ := foldl_put (r := []) List.Pairwise.nil (by rwa [List.append_nil])
  rw [List.append_nil] at hperm
  refine (hperm.trans h).eq_of_pairwise (fun a b _ _ hab hba => ?_) hordered hr
  exact absurd hba (lt_asymm hab)

end Storyline.Record
