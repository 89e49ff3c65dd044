import Storyline.Proofs.Ron.Dates
import Storyline.Proofs.Ron.Numerals
import Storyline.Proofs.Store

/-!
# Proper values

* `Value.Proper`: values of any kind and any depth whose numbers are numbers, whose dates are in the calendar
  and whose records are in the order of their keys;
* `Value.legible_of_proper`: **every proper value** has a text that reads back.
-/

namespace Storyline

namespace Value

mutual

/-- A value without a NaN, its dates valid and its records in order. -/
def Proper : Value → Prop
  | null | bool _ | text _ => True
  | number x => x.isNaN = false
  | date t => t.Valid
  | list items => ProperItems items
  | record fields => Record.Ordered fields ∧ ProperFields fields

def ProperItems : List Value → Prop
  | [] => True
  | v :: items => v.Proper ∧ ProperItems items

def ProperFields : List (String × Value) → Prop
  | [] => True
  | (_, v) :: fields => v.Proper ∧ ProperFields fields

end

mutual

theorem legible_of_proper : ∀ v : Value, v.Proper → v.Legible
  | .null, _ | .bool _, _ | .text _, _ => trivial
  | .number _, h => Number.legible h
  | .date _, h => Instant.Valid.legible h
  | .list items, h => legibleItems_of_proper items h
  | .record fields, h => ⟨h.1, legibleFields_of_proper fields h.2⟩

theorem legibleItems_of_proper : ∀ items : List Value, ProperItems items → LegibleItems items
  | [], _ => trivial
  | v :: items, h => ⟨legible_of_proper v h.1, legibleItems_of_proper items h.2⟩

theorem legibleFields_of_proper :
    ∀ fields : List (String × Value), ProperFields fields → LegibleFields fields
  | [], _ => trivial
  | (_, v) :: fields, h => ⟨legible_of_proper v h.1, legibleFields_of_proper fields h.2⟩

end

end Value

/-- A store of proper values. -/
structure Store.Proper (s : Store) : Prop where
  ordered : ∀ e ∈ s.toData, Record.Ordered e.2
  fields : ∀ e ∈ s.toData, Value.ProperFields e.2

/-- A save of a store of proper values, made at an instant of the calendar, has a text that reads back. -/
theorem SavedGame.legible_of_proper {s : Store} (h : s.Proper) {saved : SavedGame}
    (hstore : saved.store = s.toData) (hcreated : saved.created.Valid) (hupdated : saved.updated.Valid) :
    saved.Legible where
  created := hcreated.legible
  updated := hupdated.legible
  namespaces := hstore ▸ s.toData_ordered
  ordered := hstore ▸ h.ordered
  fields := fun e he => Value.legibleFields_of_proper e.2 (h.fields e (hstore ▸ he))

end Storyline
