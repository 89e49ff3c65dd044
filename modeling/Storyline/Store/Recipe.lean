import Storyline.Element.Condition
import Storyline.Number.Nearest

/-!
Recipes: host code given as data. A recipe edits places of the store one after the other; it can
be run as a script or as a predicate, and says how its edits are taken back.
-/

namespace Storyline

/-- A plain edit of a place of the store. Places in unknown namespaces are left alone. -/
inductive StoreEdit where
  | set (space key : String) (value : Value)
  /-- Adds to the number there; anything else counts as zero. -/
  | add (space key : String) (amount : Number)
  | remove (space key : String)
  /-- Notes the node that is executed. -/
  | node (space key : String)
  /-- Notes how often the code was run, this run included. -/
  | count (space key : String)

namespace StoreEdit

/-- The namespace and the key of an edit. -/
def place : StoreEdit → String × String
  | set s k _ | add s k _ | remove s k | node s k | count s k => (s, k)

/-- Puts a value back, or takes it out where there was none. -/
def putBack (place : String × String) (old : Option Value) (s : Store) : Store :=
  s.modify place.1 fun ns =>
    match old with
    | some v => ns.set place.2 v
    | none => ns.erase place.2

/-- Makes an edit, for a node and the number of a run. -/
def apply (nodeNumber run : Number) (e : StoreEdit) (s : Store) : Store :=
  s.modify e.place.1 fun ns =>
    match e with
    | set _ key v => ns.set key v
    | add _ key x =>
      ns.set key (.number ((((ns.get? key).bind (·.number?)).getD .zero).add x))
    | remove _ key => ns.erase key
    | node _ key => ns.set key (.number nodeNumber)
    | count _ key => ns.set key (.number run)

end StoreEdit

/-- How the edits of a recipe are taken back. -/
inductive Cleanup where
  | nothing
  /-- Every place gets the value back that it had before its edit, the last edit first. -/
  | restore
  | edits (es : List StoreEdit)

/-- Host code given as data. -/
structure Recipe where
  edits : List StoreEdit := []
  cleanup : Cleanup := .nothing

namespace Recipe

/-- Edits in order; answers the places and what they held before, the last edit first. -/
def runEdits (node run : Number) (es : List StoreEdit) (s : Store) :
    Store × List ((String × String) × Option Value) :=
  es.foldl (fun (s, past) e =>
    (e.apply node run s, (e.place, s.get? e.place.1 e.place.2) :: past)) (s, [])

/-- What stands for a node and for a count where there is none. -/
def unnumbered : Number := Number.one.neg

/-- Runs a recipe for a node; answers the store and the cleaner. -/
def run (r : Recipe) (node count : Number) (s : Store) : Store × Option Cleaner :=
  let (s', past) := runEdits node count r.edits s
  (s', match r.cleanup with
    | .nothing => none
    | .restore => some fun s => past.foldl (fun s p => StoreEdit.putBack p.1 p.2 s) s
    | .edits es => some fun s => (runEdits unnumbered unnumbered es s).1)

/-- A recipe as the code of a script. -/
def handler (r : Recipe) : Handler := fun earlier node s =>
  r.run (.ofInt node.val) (.ofInt (earlier + 1)) s

/-- A recipe as a predicate that gives some answers. -/
def predicate (r : Recipe) (answers : List Bool) : Predicate := ⟨fun s =>
  let (store, cleaner) := r.run unnumbered unnumbered s
  { store, answers, cleaner }⟩

end Recipe

end Storyline
