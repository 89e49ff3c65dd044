import Storyline.Graph.Basic

/-!
The operations on single edges. Each one answers the changed graph or the reason why the graph
stays as it is. Children are moved, never copied: whoever becomes a child leaves the list of the
parent it had.
-/

namespace Storyline.Graph

variable {γ : Type}

/-- Sets the reference of a node back to its parent and no edge. -/
def setParent (g : Graph γ) (id : NodeId) (parent : Option NodeId) :
    Except GraphError (Graph γ) := do
  let n ← g.node id
  match parent with
  | none => pure ()
  | some p =>
    if p = id then throw (.selfParent id)
    if n.isRoot then throw (.rootParent id)
    discard (g.node p)
  return g.modify id fun n => { n with parent := parent }

/-- Whether `child` may become a child of `id`. -/
def checkChild (g : Graph γ) (id child : NodeId) : Except GraphError Unit := do
  discard (g.node id)
  if child = id then throw (.selfChild id)
  let c ← g.node child
  if c.isRoot then throw (.rootParent child)

/-- Takes `child` out of the list of the parent it refers to, unless that is `keep`. -/
def detach (g : Graph γ) (child keep : NodeId) : Graph γ :=
  match g.parent? child with
  | none => g
  | some p =>
    if p = keep then g
    else (g.modify p (·.withoutChild child)).modify child fun n => { n with parent := none }

/-- Takes the back reference to `id` from each of the given nodes. -/
def orphan (g : Graph γ) (id : NodeId) (nodes : List NodeId) : Graph γ :=
  nodes.foldl (fun g c => g.modify c (·.orphanedFrom id)) g

/-- Makes `child` the only child of a node, or leaves the node without children. -/
def setChild (g : Graph γ) (id : NodeId) : Option NodeId → Except GraphError (Graph γ)
  | none => do
    let n ← g.node id
    return (g.orphan id n.children).modify id fun n => { n with children := [] }
  | some c => do
    g.checkChild id c
    let g := g.detach c id
    let g := g.orphan id ((g.children id).filter (· ≠ c))
    let g := g.modify id fun n => { n with children := [c] }
    return g.modify c fun n => { n with parent := some id }

/-- Appends a child to a tree node; any other node gets it as its only child. -/
def addChild (g : Graph γ) (id child : NodeId) : Except GraphError (Graph γ) := do
  let n ← g.node id
  if n.kind ≠ .tree then g.setChild id (some child)
  else
    g.checkChild id child
    let g := g.detach child id
    let g := g.modify id fun n =>
      if child ∈ n.children then n else { n with children := n.children ++ [child] }
    return g.modify child fun n => { n with parent := some id }

/-- Takes one child from a node, if it is one of its children, or all of them. -/
def removeChild (g : Graph γ) (id : NodeId) (child : Option NodeId) :
    Except GraphError (Graph γ) := do
  let n ← g.node id
  match child with
  | none => return (g.modify id fun n => { n with children := [] }).orphan id n.children
  | some c =>
    if c ∈ n.children then return (g.modify id (·.withoutChild c)).orphan id [c]
    else return g

/-- Takes a node away from its parent. It stays in the arena. -/
def remove (g : Graph γ) (id : NodeId) : Except GraphError (Graph γ) := do
  let n ← g.node id
  if n.isRoot then throw (.rootRemoval id)
  let g ← match n.parent with
    | some p => g.removeChild p (some id)
    | none => pure g
  return g.modify id fun n => { n with parent := none }

end Storyline.Graph
