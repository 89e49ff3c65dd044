import Storyline.World

/-!
Writing a story. An author appends actions for one element at a time, in chains of calls that end
with an answer. The first call that fails is remembered: later calls of its chain do nothing and
the answer is that first error.
-/

namespace Storyline

/-- Elements that gather appended nodes until these are taken. -/
class Gathering (α : Type) extends Elemental α where
  /-- What was gathered, the last node first. -/
  pending : α → List NodeId
  withPending : α → List NodeId → α
  /-- What speaks against an action, if anything does. -/
  problem? : ActionKind → Option String := fun _ => none

instance : Gathering Character where
  pending c := c.pending
  withPending c nodes := { c with pending := nodes }

instance : Gathering Image where
  pending i := i.pending
  withPending i nodes := { i with pending := nodes }
  problem?
    | .setPosition p _ => p.problem?
    | _ => none

instance : Gathering Sound where
  pending s := s.pending
  withPending s nodes := { s with pending := nodes }

instance : Gathering Scene where
  pending s := s.pending
  withPending s nodes := { s with pending := nodes }

/-- Elements that wrap lists of nodes into composite actions. -/
class Composing (α : Type) extends Elemental α where
  actions : α → List NodeId
  withActions : α → List NodeId → α
  composite : Option Chain → ActionKind

instance : Composing Scene where
  actions s := s.actions
  withActions s nodes := { s with actions := nodes }
  composite := .scene

instance : Composing Story where
  actions s := s.actions
  withActions s nodes := { s with actions := nodes }
  composite := .story

/-- A world that is being written for one of its elements, and the first error met. -/
structure Author (α : Type) where
  world : World
  element : ElementId
  error : Option GameError

/-- Starts to write for an element, which has to be of the expected kind. -/
def World.author {α : Type} [Elemental α] (w : World) (h : Handle α) : Author α where
  world := w
  element := h.id
  error := match w.find α h.id with
    | .ok _ => none
    | .error e => some e

/-- Writes for an element in one chain of calls. -/
def Build.author {α β : Type} [Elemental α] (h : Handle α)
    (chain : Author α → EStateM.Result GameError World β) : Build β := fun w => chain (w.author h)

namespace Author

variable {α β : Type}

/-- Goes on with a change of the world unless an error was met. -/
def apply (a : Author α) (change : ElementId → Build Unit) : Author α :=
  match a.error with
  | some _ => a
  | none =>
    match change a.element a.world with
    | .ok _ w => { a with world := w }
    | .error e w => { a with world := w, error := some e }

/-- Ends a chain of calls with a change of the world that has an answer. -/
def finish (a : Author α) (change : ElementId → Build β) : EStateM.Result GameError World β :=
  match a.error with
  | some e => .error e a.world
  | none => change a.element a.world

/-! ### Gathering -/

/-- Appends an action unless something speaks against it. -/
def append [Gathering α] (a : Author α) (kind : ActionKind) : Author α :=
  a.apply fun id => do
    match Gathering.problem? α kind with
    | some problem => throw (.element (.invalidConfig problem))
    | none => pure ()
    let node ← Build.newAction id kind
    let e ← Build.find α id
    Build.put (Gathering.withPending e (node :: Gathering.pending e))

/-- Takes all appended nodes that have not been taken yet. -/
def takeActions [Gathering α] (a : Author α) : EStateM.Result GameError World (List NodeId) :=
  a.finish fun id => do
    let e ← Build.find α id
    Build.put (Gathering.withPending e [])
    return (Gathering.pending e).reverse

def say (a : Author Character) (line : Sentence) : Author Character := a.append (.say line)

/-- Takes down a line that was said earlier. -/
def hideLine (a : Author Character) (line : NodeId) : Author Character := a.append (.hideLine line)

def setBackground (a : Author Scene) (src : String) : Author Scene := a.append (.setBackground src)

def sleep (a : Author Scene) (d : Span) : Author Scene := a.append (.sleep d)

def setSrc (a : Author Image) (src : String) : Author Image := a.append (.setSrc src)

/-- Moves an image. A position off the stage is refused. -/
def setPosition (a : Author Image) (p : Position) (t : Transform) : Author Image :=
  a.append (.setPosition p t)

def showImage (a : Author Image) (t : Transform) : Author Image := a.append (.showImage t)

def hideImage (a : Author Image) (t : Transform) : Author Image := a.append (.hideImage t)

def applyTransform (a : Author Image) (t : Transform) : Author Image := a.append (.applyTransform t)

def play (a : Author Sound) : Author Sound := a.append .play

def stop (a : Author Sound) : Author Sound := a.append .stop

/-! ### Composing -/

/-- Links the nodes of some lists into a chain of this element and answers a composite action
that runs the chain. -/
def action [Composing α] (a : Author α) (lists : List (List NodeId)) :
    EStateM.Result GameError World NodeId :=
  a.finish fun id => do
    let nodes := lists.flatten
    let e ← Build.find α id
    Build.put (Composing.withActions e (Composing.actions e ++ nodes))
    let chain ← Build.construct nodes
    let node ← Build.newAction id (Composing.composite α chain)
    match chain with
    | some c => Build.ofEdit (Graph.attempt (·.setParent c.head (some node)))
    | none => pure ()
    return node

/-! ### Branching -/

/-- Adds a branch under a predicate, the first one or a further one. -/
def addBranch (a : Author Condition) (p : Predicate) (lists : List (List NodeId))
    (declare : Condition → Branch → Except ElementError Condition) : Author Condition :=
  a.apply fun id => do
    let (actions, chain) ← Build.detached lists
    let c ← Build.find Condition id
    Build.put (← Build.ofExcept ((declare c ⟨p, actions, chain⟩).mapError .element))

def when (a : Author Condition) (p : Predicate) (lists : List (List NodeId)) :
    Author Condition :=
  a.addBranch p lists Condition.setWhen

def elseWhen (a : Author Condition) (p : Predicate) (lists : List (List NodeId)) :
    Author Condition :=
  a.addBranch p lists Condition.addElseWhen

def otherwise (a : Author Condition) (lists : List (List NodeId)) : Author Condition :=
  a.apply fun id => do
    let (actions, chain) ← Build.detached lists
    let c ← Build.find Condition id
    Build.put (← Build.ofExcept ((c.setOtherwise actions chain).mapError .element))

/-- Adds an entry to a menu. -/
def choose (a : Author Menu) (prompt : Sentence) (lists : List (List NodeId)) : Author Menu :=
  a.apply fun id => do
    let (actions, chain) ← Build.detached lists
    let m ← Build.find Menu id
    Build.put (m.addChoice { prompt, actions, chain })

/-- Elements that are run by a single kind of action. -/
class Runnable (α : Type) extends Elemental α where
  runKind : ActionKind

instance : Runnable Script := { runKind := .script }
instance : Runnable Condition := { runKind := .condition }
instance : Runnable Menu := { runKind := .menu }

/-- A node that runs this element. -/
def toAction [Runnable α] (a : Author α) : EStateM.Result GameError World NodeId :=
  a.finish fun id => Build.newAction id (Runnable.runKind α)

end Author

end Storyline
