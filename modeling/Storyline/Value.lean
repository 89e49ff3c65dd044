import Storyline.Number
import Storyline.Instant

/-!
The values a script can keep: nothing, truth values, numbers, texts, dates, lists, and records of
further values under keys. Records keep the order of their keys, each key once, so two records with
the same values under the same keys are the same list.
-/

namespace Storyline

namespace Record

variable {α : Type}

/-- The value under a key. -/
def get? (key : String) : List (String × α) → Option α
  | [] => none
  | (k, v) :: rest => if k = key then some v else get? key rest

/-- The record with a value put under a key, in place of what was there. -/
def put (key : String) (value : α) : List (String × α) → List (String × α)
  | [] => [(key, value)]
  | (k, v) :: rest =>
    if k = key then (key, value) :: rest
    else if key < k then (key, value) :: (k, v) :: rest
    else (k, v) :: put key value rest

/-- The record without a key. -/
def drop (key : String) : List (String × α) → List (String × α)
  | [] => []
  | (k, v) :: rest => if k = key then rest else (k, v) :: drop key rest

/-- The record of some entries; of two under one key the later stays. -/
def ofList (entries : List (String × α)) : List (String × α) :=
  entries.foldl (fun r e => put e.1 e.2 r) []

/-- The keys stand in strictly increasing order. -/
def Ordered (r : List (String × α)) : Prop := r.Pairwise fun a b => a.1 < b.1

end Record

/-- A value held in the store. -/
inductive Value where
  | null
  | bool (b : Bool)
  | number (n : Number)
  | text (s : String)
  | date (t : Instant)
  | list (items : List Value)
  | record (fields : List (String × Value))
deriving Inhabited, Repr

/-- The content of one namespace. -/
abbrev Fields := List (String × Value)

namespace Value

/-- Nothing, `false`, zero, NaN and the empty text count as false, everything else as true. -/
def isTruthy : Value → Bool
  | null => false
  | bool b => b
  | number n => !n.isZero && !n.isNaN
  | text s => !s.isEmpty
  | date _ | list _ | record _ => true

def bool? : Value → Option Bool
  | bool b => some b
  | _ => none

def number? : Value → Option Number
  | number n => some n
  | _ => none

def text? : Value → Option String
  | text s => some s
  | _ => none

mutual

/-- Equality of values, numbers compared as numbers. -/
def same : Value → Value → Bool
  | null, null => true
  | bool a, bool b => a == b
  | number a, number b => a.same b
  | text a, text b => a == b
  | date a, date b => a == b
  | list as, list bs => sameItems as bs
  | record as, record bs => sameFields as bs
  | _, _ => false

/-- Equality of lists of values, item by item. -/
def sameItems : List Value → List Value → Bool
  | [], [] => true
  | a :: as, b :: bs => a.same b && sameItems as bs
  | _, _ => false

/-- Equality of records of values, field by field. -/
def sameFields : List (String × Value) → List (String × Value) → Bool
  | [], [] => true
  | (j, a) :: as, (k, b) :: bs => j == k && a.same b && sameFields as bs
  | _, _ => false

end

end Value

end Storyline
