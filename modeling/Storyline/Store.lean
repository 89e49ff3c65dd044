import Std.Data.ExtTreeMap
import Storyline.Value

/-!
The store: the facts of a game, partitioned into namespaces. A namespace is registered under a
key and may be replaced by one that carries another key of its own; what is saved is the content
of every namespace under the key it is registered with.
-/

namespace Storyline

/-- One partition of the store. -/
structure Namespace where
  name : String
  key : String
  content : Fields := []
deriving Inhabited

namespace Namespace

def get? (ns : Namespace) (key : String) : Option Value := Record.get? key ns.content

def set (ns : Namespace) (key : String) (value : Value) : Namespace :=
  { ns with content := Record.put key value ns.content }

def erase (ns : Namespace) (key : String) : Namespace :=
  { ns with content := Record.drop key ns.content }

/-- The namespace with all of its content replaced. -/
def load (ns : Namespace) (content : Fields) : Namespace := { ns with content := content }

end Namespace

/-- What can go wrong in the store. -/
inductive StoreError where
  | namespaceNotFound (key : String)
deriving DecidableEq, Repr

def StoreError.message : StoreError → String
  | .namespaceNotFound key => "namespace not found: " ++ key

/-- The contents of namespaces under their keys. -/
abbrev Data := List (String × Fields)

/-- The registered namespaces. -/
structure Store where
  spaces : Std.ExtTreeMap String Namespace := ∅

namespace Store

instance : Inhabited Store := ⟨{}⟩

/-- Registers a namespace under its own key, in place of one registered there before. -/
def register (s : Store) (ns : Namespace) : Store := ⟨s.spaces.insert ns.key ns⟩

def namespace? (s : Store) (key : String) : Option Namespace := s.spaces[key]?

def has (s : Store) (key : String) : Bool := s.spaces.contains key

/-- The registered keys in order. -/
def keys (s : Store) : List String := s.spaces.keys

/-- Changes the namespace registered under a key, if there is one. -/
def modify (s : Store) (key : String) (f : Namespace → Namespace) : Store :=
  ⟨s.spaces.modify key f⟩

/-- Puts a namespace into a registered slot. -/
def replace (s : Store) (key : String) (ns : Namespace) : Except StoreError Store :=
  if s.has key then .ok (s.modify key fun _ => ns) else .error (.namespaceNotFound key)

def get? (s : Store) (space key : String) : Option Value :=
  (s.namespace? space).bind (·.get? key)

/-- Writes a value into a registered namespace; answers what was there. -/
def set (s : Store) (space key : String) (value : Value) :
    Except StoreError (Option Value × Store) :=
  match s.namespace? space with
  | some ns => .ok (ns.get? key, s.modify space (·.set key value))
  | none => .error (.namespaceNotFound space)

/-- The contents of all namespaces, by the keys they are registered with. -/
def toData (s : Store) : Data := s.spaces.toList.map fun e => (e.1, e.2.content)

/-- Replaces the content of one namespace, if it is registered. -/
def loadOne (s : Store) (e : String × Fields) : Store := s.modify e.1 (·.load e.2)

/-- Replaces the contents of the registered namespaces that the data names. -/
def load (s : Store) (d : Data) : Store := d.foldl loadOne s

end Store

end Storyline
