import Mathlib.Data.String.Basic
import Storyline.Store

/-!
# The contents of the store

* `Store.toData_ordered`: the contents of the namespaces are in the order of their keys;
* `Store.keys_load`: loading adds no namespace and takes none away;
* `Store.toData_load`: **contents that are loaded** into the same namespaces are the contents of those.
-/

namespace Storyline.Store

variable {s : Store} {key : String} {d : Data}

/-! ### Contents -/

theorem toData_ordered (s : Store) : Record.Ordered s.toData :=
  List.pairwise_map.2 (s.spaces.ordered_keys_toList.imp fun h => compareOfLessAndEq_eq_lt.1 h)

/-- What a namespace holds; nothing if it is not registered. -/
def content (s : Store) (key : String) : Fields := ((s.namespace? key).map (·.content)).getD []

theorem toData_eq (s : Store) : s.toData = s.keys.map fun key => (key, s.content key) := by
  have hcontent : ∀ e ∈ s.spaces.toList, (e.1, e.2.content) = (e.1, s.content e.1) := fun e he => by
    have hget : s.namespace? e.1 = some e.2 := Std.ExtTreeMap.mem_toList_iff_getElem?_eq_some.1 he
    unfold content
    rw [hget]
    rfl
  have hkeys : s.keys = s.spaces.toList.map (·.1) := Std.ExtTreeMap.map_fst_toList_eq_keys.symm
  rw [hkeys, List.map_map]
  exact List.map_congr_left hcontent

/-! ### Loading -/

theorem namespace?_loadOne (s : Store) (e : String × Fields) (key : String) :
    (s.loadOne e).namespace? key =
      if e.1 = key then (s.namespace? e.1).map (·.load e.2) else s.namespace? key := by
  show (s.spaces.modify e.1 (·.load e.2))[key]? = _
  rw [Std.ExtTreeMap.getElem?_modify]
  simp only [Std.LawfulEqCmp.compare_eq_iff_eq]
  rfl

theorem content_loadOne (e : String × Fields) (h : e.1 ∈ s.keys) : (s.loadOne e).content e.1 = e.2 := by
  have hmem : e.1 ∈ s.spaces := Std.ExtTreeMap.mem_keys.1 h
  have hget : s.namespace? e.1 = some s.spaces[e.1] := Std.ExtTreeMap.getElem?_eq_some_getElem hmem
  unfold content
  rw [namespace?_loadOne, if_pos rfl, hget]
  rfl

theorem content_loadOne_of_ne {e : String × Fields} (h : e.1 ≠ key) :
    (s.loadOne e).content key = s.content key := by
  unfold content
  rw [namespace?_loadOne, if_neg h]

theorem keys_loadOne (s : Store) (e : String × Fields) : (s.loadOne e).keys = s.keys := by
  have hordered : ∀ s : Store, s.keys.Pairwise (· < ·) := fun s =>
    s.spaces.ordered_keys.imp fun h => compareOfLessAndEq_eq_lt.1 h
  have hmem : ∀ key, key ∈ (s.loadOne e).keys ↔ key ∈ s.keys := fun key =>
    Std.ExtTreeMap.mem_keys.trans (Std.ExtTreeMap.mem_modify.trans Std.ExtTreeMap.mem_keys.symm)
  have hperm : (s.loadOne e).keys.Perm s.keys :=
    (List.perm_ext_iff_of_nodup ((hordered _).imp ne_of_lt) ((hordered s).imp ne_of_lt)).2 hmem
  exact hperm.eq_of_pairwise (fun a b _ _ hab hba => absurd hba (lt_asymm hab)) (hordered _) (hordered s)

theorem load_cons (s : Store) (e : String × Fields) (d : Data) :
    s.load (e :: d) = (s.loadOne e).load d := rfl

theorem keys_load (s : Store) (d : Data) : (s.load d).keys = s.keys := by
  induction d generalizing s with
  | nil => rfl
  | cons e d ih => rw [load_cons, ih, keys_loadOne]

theorem content_load_of_ne (h : ∀ e ∈ d, e.1 ≠ key) : (s.load d).content key = s.content key := by
  induction d generalizing s with
  | nil => rfl
  | cons e d ih =>
    obtain ⟨he, hd⟩ := List.forall_mem_cons.1 h
    rw [load_cons, ih hd, content_loadOne_of_ne he]

theorem content_load (hd : Record.Ordered d) {e : String × Fields} (he : e ∈ d) (hkey : e.1 ∈ s.keys) :
    (s.load d).content e.1 = e.2 := by
  induction d generalizing s with
  | nil => cases he
  | cons a d ih =>
    obtain ⟨ha, hd⟩ := List.pairwise_cons.1 hd
    rw [load_cons]
    rcases List.mem_cons.1 he with rfl | he
    · rw [content_load_of_ne fun x hx => (ne_of_lt (ha x hx)).symm, content_loadOne e hkey]
    · exact ih hd he (by rwa [keys_loadOne])

/-- **Contents that are loaded into the namespaces they are of** are the contents of those. -/
theorem toData_load {s' : Store} (h : s'.keys = s.keys) : (s'.load s.toData).toData = s.toData := by
  have hdata := toData_eq s
  have hcontent : ∀ key ∈ s.keys, (s'.load s.toData).content key = s.content key := fun key hkey => by
    have hmem : (key, s.content key) ∈ s.toData := by
      rw [hdata]
      exact List.mem_map_of_mem hkey
    exact content_load (toData_ordered s) hmem (h ▸ hkey)
  conv_rhs => rw [hdata]
  rw [toData_eq (s'.load s.toData), keys_load, h]
  exact List.map_congr_left fun key hkey => congrArg (Prod.mk key) (hcontent key hkey)

end Storyline.Store
