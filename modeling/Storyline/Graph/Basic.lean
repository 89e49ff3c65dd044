import Storyline.Ident

/-!
The graph a story is compiled into: an arena of nodes, each with its children in order and a
reference back to its parent. A node's first child is where play goes on. The root has no parent;
a tree node keeps several children, any other node at most one. Beside the edges the graph
remembers, for every node that was ever spliced, where play went on before the first splice.
-/

namespace Storyline

inductive NodeKind where
  | root
  | content
  | tree
deriving DecidableEq, Repr

/-- A node of the graph. -/
structure Node (γ : Type) where
  kind : NodeKind
  content : Option γ
  parent : Option NodeId := none
  children : List NodeId := []
deriving DecidableEq

namespace Node

variable {γ : Type}

/-- Where play goes on after this node. -/
def child? (n : Node γ) : Option NodeId := n.children.head?

def isRoot (n : Node γ) : Bool := n.kind == .root

/-- The node without a child in its list. -/
def withoutChild (c : NodeId) (n : Node γ) : Node γ :=
  { n with children := n.children.filter (· ≠ c) }

/-- The node without its back reference, if that was to `p`. -/
def orphanedFrom (p : NodeId) (n : Node γ) : Node γ :=
  if n.parent = some p then { n with parent := none } else n

end Node

/-- What can go wrong with the graph. -/
inductive GraphError where
  | selfParent (id : NodeId)
  | selfChild (id : NodeId)
  | rootParent (id : NodeId)
  | rootRemoval (id : NodeId)
  | nodeNotFound (id : NodeId)
  | duplicate (id : NodeId)
  | rootExists (id : NodeId)
deriving DecidableEq, Repr

def GraphError.message : GraphError → String
  | selfParent id => s!"node {id} cannot be its own parent"
  | selfChild id => s!"node {id} cannot be its own child"
  | rootParent id => s!"root node {id} cannot have a parent"
  | rootRemoval id => s!"root node {id} cannot be removed"
  | nodeNotFound id => s!"node {id} not found"
  | duplicate id => s!"node {id} already exists"
  | rootExists id => s!"graph already has root {id}"

/-- The first and the last node of a linked run. -/
structure Chain where
  head : NodeId
  tail : NodeId
deriving DecidableEq, Repr

namespace Chain

/-- The chain of one node. -/
def single (id : NodeId) : Chain := ⟨id, id⟩

/-- The ends of a run of nodes; an empty run has none. -/
def ofNodes? : List NodeId → Option Chain
  | [] => none
  | n :: rest => some ⟨n, (n :: rest).getLast (List.cons_ne_nil n rest)⟩

end Chain

/-- The story graph over contents of type `γ`. -/
structure Graph (γ : Type) where
  nodes : Std.ExtTreeMap NodeId (Node γ) := ∅
  root : Option NodeId := none
  resumes : Std.ExtTreeMap NodeId (Option NodeId) := ∅

namespace Graph

variable {γ : Type}

instance : Inhabited (Graph γ) := ⟨{}⟩

/-! ### Looking -/

def get? (g : Graph γ) (id : NodeId) : Option (Node γ) := g.nodes[id]?

def contains (g : Graph γ) (id : NodeId) : Bool := g.nodes.contains id

/-- The node, or the error that there is none. -/
def node (g : Graph γ) (id : NodeId) : Except GraphError (Node γ) :=
  match g.get? id with
  | some n => .ok n
  | none => .error (.nodeNotFound id)

def content? (g : Graph γ) (id : NodeId) : Option γ := (g.get? id).bind (·.content)

def child? (g : Graph γ) (id : NodeId) : Option NodeId := (g.get? id).bind (·.child?)

def children (g : Graph γ) (id : NodeId) : List NodeId := ((g.get? id).map (·.children)).getD []

def parent? (g : Graph γ) (id : NodeId) : Option NodeId := (g.get? id).bind (·.parent)

def hasChild (g : Graph γ) (id : NodeId) : Bool := (g.child? id).isSome

def isRoot (g : Graph γ) (id : NodeId) : Bool := ((g.get? id).map (·.isRoot)).getD false

def size (g : Graph γ) : Nat := g.nodes.size

/-- The identities of all nodes in ascending order. -/
def ids (g : Graph γ) : List NodeId := g.nodes.keys

/-- Where play went on after a node before it was first spliced: its present child if it never
was. -/
def continuation (g : Graph γ) (id : NodeId) : Option NodeId :=
  match g.resumes[id]? with
  | some remembered => remembered
  | none => g.child? id

/-! ### Changing one node -/

/-- Changes a node, if there is one. -/
def modify (g : Graph γ) (id : NodeId) (f : Node γ → Node γ) : Graph γ :=
  { g with nodes := g.nodes.modify id f }

/-- Changes the content of a node in place. -/
def editContent (g : Graph γ) (id : NodeId) (f : γ → γ) : Graph γ :=
  g.modify id fun n => { n with content := n.content.map f }

/-! ### New nodes -/

/-- Adds a node without edges under a fresh identity. -/
def insert (g : Graph γ) (id : NodeId) (kind : NodeKind) (content : Option γ) :
    Except GraphError (Graph γ) :=
  if g.contains id then .error (.duplicate id)
  else .ok { g with nodes := g.nodes.insert id { kind, content } }

/-- Adds the root, of which there may be only one. -/
def insertRoot (g : Graph γ) (id : NodeId) (content : Option γ) : Except GraphError (Graph γ) :=
  match g.root with
  | some r => .error (.rootExists r)
  | none => (g.insert id .root content).map fun g => { g with root := some id }

def insertContent (g : Graph γ) (id : NodeId) (content : γ) : Except GraphError (Graph γ) :=
  g.insert id .content (some content)

def insertTree (g : Graph γ) (id : NodeId) (content : Option γ) : Except GraphError (Graph γ) :=
  g.insert id .tree content

/-- The graph of an empty root. -/
def withRoot (id : NodeId) : Graph γ :=
  { nodes := (∅ : Std.ExtTreeMap NodeId (Node γ)).insert id { kind := .root, content := none }
    root := some id }

end Graph

/-- A node described by its identity and its content. -/
structure NodeData (δ : Type) where
  id : String
  data : Option δ
deriving DecidableEq, Repr

/-- The description of a node. -/
def Graph.nodeData {γ δ : Type} (g : Graph γ) (describe : γ → δ) (id : NodeId) :
    Except GraphError (NodeData δ) :=
  (g.node id).map fun n => ⟨toString id, n.content.map describe⟩

end Storyline
