import Storyline.Proofs.Store

/-!
# What loading overwrites

The data of a save comes in no particular order, and a namespace may carry another key than the
one it is registered under.

* `Store.namespace?_load`: loading acts on each slot alone, by the entry under its key;
* `Store.load_perm`: the order of the entries makes no difference;
* `Store.load_own`: a store that loads its own contents stays as it is;
* `Store.loads`: **loading overwrites exactly the registered namespaces that the data names**.
-/

namespace Storyline.Store

/-- No two entries are under one key, as in a map. -/
def Keyed (d : Data) : Prop := d.Pairwise fun a b => a.1 ≠ b.1

instance (d : Data) : Decidable (Keyed d) := inferInstanceAs (Decidable (d.Pairwise _))

section

variable {s t : Store} {key : String} {content : Fields} {d d' : Data}

theorem Keyed.perm (h : Keyed d) (hd : d'.Perm d) : Keyed d' :=
  hd.symm.pairwise h fun hne => hne.symm

theorem keyed_toData (s : Store) : Keyed s.toData := (toData_ordered s).imp fun hlt => ne_of_lt hlt

/-- Stores with the same namespaces in the same slots are one store. -/
theorem ext_namespace? (h : ∀ key, s.namespace? key = t.namespace? key) : s = t := by
  have hspaces : s.spaces = t.spaces := Std.ExtTreeMap.ext_getElem? fun {k} => h k
  cases s
  cases t
  exact congrArg Store.mk hspaces

/-! ### One slot at a time -/

/-- What loading makes of the namespace in a slot: the entry under the key of the slot, if there is
one, replaces its content. -/
def reload (d : Data) (key : String) (ns : Namespace) : Namespace :=
  ns.load ((Record.get? key d).getD ns.content)

theorem get?_of_mem (hd : Keyed d) (h : (key, content) ∈ d) : Record.get? key d = some content := by
  induction d with
  | nil => cases h
  | cons e d ih =>
    obtain ⟨he, hd⟩ := List.pairwise_cons.1 hd
    rcases List.mem_cons.1 h with rfl | h
    · exact if_pos rfl
    · exact (if_neg (he _ h)).trans (ih hd h)

theorem get?_of_forall_ne (h : ∀ e ∈ d, e.1 ≠ key) : Record.get? key d = none := by
  induction d with
  | nil => rfl
  | cons e d ih =>
    obtain ⟨he, hd⟩ := List.forall_mem_cons.1 h
    exact (if_neg he).trans (ih hd)

theorem reload_of_mem (hd : Keyed d) (h : (key, content) ∈ d) (ns : Namespace) :
    reload d key ns = ns.load content := by
  unfold reload
  rw [get?_of_mem hd h]
  rfl

theorem reload_of_forall_ne (h : ∀ e ∈ d, e.1 ≠ key) (ns : Namespace) : reload d key ns = ns := by
  unfold reload
  rw [get?_of_forall_ne h]
  rfl

/-- Of the entries under one key only the last counts, so that each key must come once. -/
theorem namespace?_load (hd : Keyed d) (s : Store) (key : String) :
    (s.load d).namespace? key = (s.namespace? key).map (reload d key) := by
  induction d generalizing s with
  | nil => exact Option.map_id'.symm
  | cons e d ih =>
    obtain ⟨he, hd⟩ := List.pairwise_cons.1 hd
    rw [load_cons, ih hd, namespace?_loadOne]
    by_cases hkey : e.1 = key
    · subst hkey
      have hrest : ∀ x ∈ d, x.1 ≠ e.1 := fun x hx => (he x hx).symm
      rw [if_pos rfl, Option.map_map]
      refine congrArg (Option.map · _) (funext fun ns => ?_)
      show reload d e.1 (ns.load e.2) = reload (e :: d) e.1 ns
      rw [reload_of_forall_ne hrest, reload_of_mem (List.pairwise_cons.2 ⟨he, hd⟩) List.mem_cons_self]
    · rw [if_neg hkey]
      refine congrArg (Option.map · _) (funext fun ns => ?_)
      unfold reload
      rw [show Record.get? key (e :: d) = Record.get? key d from if_neg hkey]

/-! ### Any order -/

theorem load_perm (hd : Keyed d) (h : d'.Perm d) (s : Store) : s.load d' = s.load d := by
  refine ext_namespace? fun key => ?_
  have hsame : ∀ ns, reload d' key ns = reload d key ns := fun ns => by
    by_cases hmem : ∃ e ∈ d, e.1 = key
    · obtain ⟨e, he, rfl⟩ := hmem
      rw [reload_of_mem hd he, reload_of_mem (hd.perm h) (h.mem_iff.2 he)]
    · push Not at hmem
      rw [reload_of_forall_ne hmem, reload_of_forall_ne fun e he => hmem e (h.mem_iff.1 he)]
  rw [namespace?_load hd, namespace?_load (hd.perm h), funext hsame]

/-! ### Its own contents -/

theorem mem_toData {ns : Namespace} (h : s.namespace? key = some ns) : (key, ns.content) ∈ s.toData :=
  List.mem_map.2 ⟨(key, ns), Std.ExtTreeMap.mem_toList_iff_getElem?_eq_some.2 h, rfl⟩

theorem load_own (s : Store) : s.load s.toData = s := by
  refine ext_namespace? fun key => ?_
  rw [namespace?_load (keyed_toData s)]
  cases h : s.namespace? key with
  | none => rfl
  | some ns => exact congrArg some (reload_of_mem (keyed_toData s) (mem_toData h) ns)

end

/-! ### Any store, any data -/

/-- **Loading overwrites exactly the registered namespaces that the data names**, in whichever order
its entries come: the registered keys stay, and so do the name and the key of each namespace; the
content of a slot is the entry under its key where there is one, and what it was where there is none.
A store that loads its own contents stays as it is, and any store with the same registered keys has
those contents afterwards. -/
theorem loads (s : Store) {d : Data} (hd : Keyed d) :
    (∀ d', d'.Perm d → s.load d' = s.load d) ∧
    (s.load d).keys = s.keys ∧
    (∀ key, s.namespace? key = none → (s.load d).namespace? key = none) ∧
    (∀ key ns, s.namespace? key = some ns → ∃ ns', (s.load d).namespace? key = some ns' ∧
      ns'.name = ns.name ∧ ns'.key = ns.key ∧
      (∀ content, (key, content) ∈ d → ns'.content = content) ∧
      ((∀ e ∈ d, e.1 ≠ key) → ns'.content = ns.content)) ∧
    (∀ d', d'.Perm s.toData → s.load d' = s) ∧
    ∀ (t : Store) (d' : Data), t.keys = s.keys → d'.Perm s.toData → (t.load d').toData = s.toData := by
  have hslot := namespace?_load hd s
  have hanyOrder : ∀ (t : Store) (d' : Data), d'.Perm s.toData → t.load d' = t.load s.toData :=
    fun t d' hd' => load_perm (keyed_toData s) hd' t
  -- all is said slot by slot, as the order of the data does not matter
  refine ⟨fun d' hd' => load_perm hd hd' s, keys_load s d, fun key hkey => ?_, fun key ns hkey => ?_,
    fun d' hd' => (hanyOrder s d' hd').trans (load_own s), fun t d' ht hd' => ?_⟩
  · rw [hslot, hkey]
    rfl
  · refine ⟨reload d key ns, ?_, rfl, rfl, fun content hcontent => ?_, fun hnone => ?_⟩
    · rw [hslot, hkey]
      rfl
    · rw [reload_of_mem hd hcontent]
      rfl
    · rw [reload_of_forall_ne hnone]
  · rw [hanyOrder t d' hd']
    exact toData_load ht

/-- Two namespaces under their own keys. -/
def household : Store :=
  ((default : Store).register ⟨"Player", "player", [("rich", .bool false)]⟩).register
    ⟨"World", "world", [("raining", .bool true)]⟩

/-- The household with a guest in the place of the player, who keeps a key of his own. -/
def visited : Store := household.modify "player" fun _ => ⟨"Guest", "guest", []⟩

/-- What was saved when there was no world yet, but a weather. -/
def oldSave : Data := [("weather", []), ("player", [("rich", .bool true)])]

theorem loads_visited :
    household.replace "player" ⟨"Guest", "guest", []⟩ = .ok visited ∧ Keyed oldSave ∧
      (visited.load oldSave).keys = ["player", "world"] ∧
      ∃ ns, (visited.load oldSave).namespace? "player" = some ns ∧ ns.name = "Guest" ∧
        ns.key = "guest" ∧ ns.content = [("rich", .bool true)] := by
  have hkeyed : Keyed oldSave := by decide +kernel
  have hplayer : visited.namespace? "player" = some ⟨"Guest", "guest", []⟩ := rfl
  obtain ⟨-, hkeys, -, hslots, -⟩ := loads visited hkeyed
  obtain ⟨ns, hns, hname, hkey, hentry, -⟩ := hslots "player" _ hplayer
  refine ⟨if_pos (by decide +kernel), hkeyed, hkeys.trans (by decide +kernel), ns, hns, hname, hkey, ?_⟩
  exact hentry _ (List.mem_cons_of_mem _ List.mem_cons_self)

end Storyline.Store
