import Storyline.Element.Character
import Storyline.Element.Image
import Storyline.Element.Sound
import Storyline.Element.Scene
import Storyline.Element.Condition
import Storyline.Element.Menu

/-!
The elements of a story and their registry. Elements are looked up by identity and expected kind.
-/

namespace Storyline

/-- A scripted element. -/
inductive Element where
  | character (e : Character)
  | image (e : Image)
  | sound (e : Sound)
  | scene (e : Scene)
  | story (e : Story)
  | script (e : Script)
  | condition (e : Condition)
  | menu (e : Menu)

namespace Element

def id : Element → ElementId
  | character e => e.id
  | image e => e.id
  | sound e => e.id
  | scene e => e.id
  | story e => e.id
  | script e => e.id
  | condition e => e.id
  | menu e => e.id

def kind : Element → Kind
  | character _ => .character
  | image _ => .image
  | sound _ => .sound
  | scene _ => .scene
  | story _ => .story
  | script _ => .script
  | condition _ => .condition
  | menu _ => .menu

/-- The number of commits ever made by an element. -/
def commits : Element → Nat
  | character e => e.tracked.log.size
  | image e => e.tracked.log.size
  | sound e => e.tracked.log.size
  | scene e => e.tracked.log.size
  | story _ => 0
  | script e => e.tracked.log.size
  | condition e => e.tracked.log.size
  | menu e => e.tracked.log.size

/-- Takes the latest commit of a tracked state back and puts the state into its element again. -/
def undoIn {σ ρ : Type} [Undoable σ ρ] (t : Tracked σ ρ) (rebuild : Tracked σ ρ → Element)
    (store : Store) : Except LogError (Nat × Element × Store) :=
  (t.undo none store).map fun (count, t, store) => (count, rebuild t, store)

/-- Takes the latest commit of an element back. A story has none. -/
def undo (e : Element) (store : Store) : Except LogError (Nat × Element × Store) :=
  match e with
  | character e => undoIn e.tracked (fun t => character { e with tracked := t }) store
  | image e => undoIn e.tracked (fun t => image { e with tracked := t }) store
  | sound e => undoIn e.tracked (fun t => sound { e with tracked := t }) store
  | scene e => undoIn e.tracked (fun t => scene { e with tracked := t }) store
  | story _ => .error (.invalidToken 0 0)
  | script e => undoIn e.tracked (fun t => script { e with tracked := t }) store
  | condition e => undoIn e.tracked (fun t => condition { e with tracked := t }) store
  | menu e => undoIn e.tracked (fun t => menu { e with tracked := t }) store

end Element

/-- Types of elements of one kind. -/
class Elemental (α : Type) where
  kind : Kind
  toElement : α → Element
  ofElement? : Element → Option α

instance : Elemental Character where
  kind := .character
  toElement := .character
  ofElement? | .character e => some e | _ => none

instance : Elemental Image where
  kind := .image
  toElement := .image
  ofElement? | .image e => some e | _ => none

instance : Elemental Sound where
  kind := .sound
  toElement := .sound
  ofElement? | .sound e => some e | _ => none

instance : Elemental Scene where
  kind := .scene
  toElement := .scene
  ofElement? | .scene e => some e | _ => none

instance : Elemental Story where
  kind := .story
  toElement := .story
  ofElement? | .story e => some e | _ => none

instance : Elemental Script where
  kind := .script
  toElement := .script
  ofElement? | .script e => some e | _ => none

instance : Elemental Condition where
  kind := .condition
  toElement := .condition
  ofElement? | .condition e => some e | _ => none

instance : Elemental Menu where
  kind := .menu
  toElement := .menu
  ofElement? | .menu e => some e | _ => none

/-- A reference to an element that should be of one kind. -/
structure Handle (α : Type) where
  id : ElementId
deriving DecidableEq, Repr

/-- A handle in words. -/
def Handle.describe {α : Type} [Elemental α] (h : Handle α) : String :=
  s!"Handle<{(Elemental.kind α).name}>({h.id})"

/-- The elements of a world. -/
structure Elements where
  table : Std.ExtTreeMap ElementId Element := ∅

namespace Elements

instance : Inhabited Elements := ⟨{}⟩

def size (es : Elements) : Nat := es.table.size

def get? (es : Elements) (id : ElementId) : Option Element := es.table[id]?

/-- Registers an element under its identity. -/
def put (es : Elements) (e : Element) : Elements := ⟨es.table.insert e.id e⟩

/-- Registers an element and answers a handle on it. -/
def add {α : Type} [Elemental α] (es : Elements) (a : α) : Handle α × Elements :=
  let e := Elemental.toElement a
  (⟨e.id⟩, es.put e)

/-- The element of an identity, if it is of some kind. -/
def expect (es : Elements) (kind : Kind) (id : ElementId) : Except ElementError Element :=
  match es.get? id with
  | none => .error (.notFound id)
  | some e => if e.kind = kind then .ok e else .error (.wrongKind id kind e.kind)

/-- The element of an identity, if it is of the kind that the type stands for. -/
def find (α : Type) [Elemental α] (es : Elements) (id : ElementId) : Except ElementError α :=
  match es.get? id with
  | none => .error (.notFound id)
  | some e =>
    match Elemental.ofElement? e with
    | some a => .ok a
    | none => .error (.wrongKind id (Elemental.kind α) e.kind)

/-- The number of commits ever made by the element of an identity; none if there is none. -/
def commits (es : Elements) (id : ElementId) : Nat := ((es.get? id).map (·.commits)).getD 0

end Elements

end Storyline
