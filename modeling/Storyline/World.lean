import Storyline.Action
import Storyline.Element
import Storyline.Error
import Storyline.Graph.Chains

/-!
The world of a story: one counter for all identities, the graph of actions and the elements they
act on. Changes that fail keep what they did before they failed.
-/

namespace Storyline

structure World where
  ids : Counter
  graph : Graph Action
  elements : Elements
  root : NodeId

/-- Changes of a world. -/
abbrev Build := EStateM GameError World

namespace World

/-- The world of an empty root, which has the first identity. -/
def new : World :=
  let (root, ids) := ({} : Counter).node
  { ids, graph := .withRoot root, elements := {}, root }

instance : Inhabited World := ⟨new⟩

/-! ### Looking -/

def action? (w : World) (node : NodeId) : Option Action := w.graph.content? node

/-- The element that the action at a node belongs to. -/
def calleeOf (w : World) (node : NodeId) : Except GameError ElementId :=
  match w.action? node with
  | some a => .ok a.callee
  | none => .error (.missingAction node)

def actionData (w : World) (node : NodeId) : Except GameError ActionData :=
  match w.action? node with
  | some a => .ok a.toData
  | none => .error (.missingAction node)

/-- The number of commits ever made by an element. -/
def commits (w : World) (id : ElementId) : Nat := w.elements.commits id

/-- The element of an identity, if it is of the expected kind. -/
def find (α : Type) [Elemental α] (w : World) (id : ElementId) : Except GameError α :=
  (w.elements.find α id).mapError .element

/-- Puts a changed element back. -/
def put {α : Type} [Elemental α] (w : World) (a : α) : World :=
  { w with elements := w.elements.put (Elemental.toElement a) }

end World

namespace Build

/-- What may fail without a change. -/
def ofExcept {α : Type} : Except GameError α → Build α
  | .ok a => pure a
  | .error e => throw e

/-- A change of the graph. -/
def ofEdit {α : Type} (edit : Graph.Edit Action α) : Build α := fun w =>
  match edit w.graph with
  | .ok a g => .ok a { w with graph := g }
  | .error e g => .error (.graph e) { w with graph := g }

/-- The element of an identity, if it is of the expected kind. -/
def find (α : Type) [Elemental α] (id : ElementId) : Build α := do
  ofExcept ((← get).find α id)

/-- Puts a changed element back. -/
def put {α : Type} [Elemental α] (a : α) : Build Unit := modify (·.put a)

/-- A fresh identity for an element. -/
def elementId : Build ElementId := fun w =>
  let (id, ids) := w.ids.element
  .ok id { w with ids }

/-- Registers a new element. -/
def add {α : Type} [Elemental α] (a : α) : Build (Handle α) := fun w =>
  let (h, elements) := w.elements.add a
  .ok h { w with elements }

/-! ### New elements -/

def character (name : String) (config : CharacterConfig) : Build (Handle Character) := do
  add { id := ← elementId, name, config }

/-- A new image. An identity is spent even if its configuration is refused. -/
def image (name : String) (config : ImageConfig) : Build (Handle Image) := do
  let id ← elementId
  add (← ofExcept ((Image.new id name config).mapError .element))

def sound (name : String) (config : SoundConfig) : Build (Handle Sound) := do
  add { id := ← elementId, name, config }

def scene (name : String) (config : SceneConfig) : Build (Handle Scene) := do
  add (Scene.new (← elementId) name config)

def story (name : String) : Build (Handle Story) := do
  add { id := ← elementId, name }

def script (handler : Handler) : Build (Handle Script) := do
  add { id := ← elementId, handler }

def condition : Build (Handle Condition) := do
  add { id := ← elementId }

def menu (prompt : Option Sentence) : Build (Handle Menu) := do
  add { id := ← elementId, prompt }

/-! ### Nodes -/

/-- A new node that holds an action of an element. -/
def newAction (callee : ElementId) (kind : ActionKind) : Build NodeId := do
  let (node, ids) := (← get).ids.node
  modify fun w => { w with ids }
  ofEdit (Graph.attempt (·.insertContent node { node, callee, kind }))
  return node

/-- Links nodes into a chain. -/
def construct (nodes : List NodeId) : Build (Option Chain) := ofEdit (Graph.link nodes)

/-- Links the nodes of some lists into a chain that hangs nowhere yet. -/
def detached (lists : List (List NodeId)) : Build (List NodeId × Option Chain) := do
  let nodes := lists.flatten
  return (nodes, ← construct nodes)

/-- Hangs the first unit of a story under the root and answers all its units. -/
def setRoot (h : Handle Story) : Build (List NodeId) := do
  let units := (← find Story h.id).actions
  let root := (← get).root
  ofEdit (Graph.attempt (·.setChild root units.head?))
  return units

/-- Records the pick of a menu entry and grafts its chain in behind the menu's node. A pick past
the last entry goes on behind the menu. -/
def choose (node : NodeId) (index : Nat) : Build Unit := do
  let callee ← ofExcept ((← get).calleeOf node)
  let menu ← find Menu callee
  match menu.pick? index with
  | some (chain, menu) =>
    put menu
    ofEdit (Graph.splice node chain)
  | none => ofEdit (Graph.splice node none)

end Build

/-- Takes the latest commit of the element behind a node back; answers its number of records. -/
def World.undoAction (w : World) (node : NodeId) (store : Store) :
    Except GameError (Nat × World × Store) := do
  let callee ← w.calleeOf node
  match w.elements.get? callee with
  | none => throw (.element (.notFound callee))
  | some e =>
    match e.undo store with
    | .error err => throw (.log err)
    | .ok (count, e, store) =>
      return (count, { w with elements := w.elements.put e }, store)

end Storyline
