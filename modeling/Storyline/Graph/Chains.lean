import Std.Data.ExtTreeSet
import Storyline.Graph.Edges

/-!
Runs of nodes: linking a list into a chain, grafting a chain between a node and what follows it,
and walking along first children. Linking and grafting are sequences of edge operations; one that
fails half way keeps what was done before it failed.
-/

namespace Storyline.Graph

variable {γ : Type}

/-- Changes of a graph that keep what they did when they fail. -/
abbrev Edit (γ : Type) := EStateM GraphError (Graph γ)

/-- An edge operation as a change of the graph. -/
def attempt (f : Graph γ → Except GraphError (Graph γ)) : Edit γ Unit := fun g =>
  match f g with
  | .ok g' => .ok () g'
  | .error e => .error e g

/-- Makes each node the only child of the one before. -/
def linkAll : List NodeId → Edit γ Unit
  | a :: b :: rest => do
    attempt (·.setChild a (some b))
    linkAll (b :: rest)
  | _ => pure ()

/-- Links nodes in their order and answers the ends of the chain. -/
def link (nodes : List NodeId) : Edit γ (Option Chain) := do
  linkAll nodes
  return Chain.ofNodes? nodes

/-- Keeps in mind where play goes on after a node, once. -/
def remember (g : Graph γ) (id : NodeId) : Graph γ :=
  { g with resumes := g.resumes.insert id (g.continuation id) }

/-- Grafts a chain between a node and its continuation, or goes straight on to the continuation.
The continuation is the one the node had before it was first spliced. -/
def splice (id : NodeId) (branch : Option Chain) : Edit γ Unit := do
  let g ← get
  if !g.contains id then throw (.nodeNotFound id)
  let next := g.continuation id
  set (g.remember id)
  match branch with
  | some chain =>
    attempt (·.setChild chain.tail next)
    attempt (·.setChild id (some chain.head))
  | none => attempt (·.setChild id next)

/-- The nodes behind those of `past`, which are kept last first, along first children from `id` on,
up to one of `seen`; `fuel` nodes at most. -/
def walkFrom (g : Graph γ) :
    Nat → Std.ExtTreeSet NodeId → List NodeId → NodeId → List NodeId
  | 0, _, past, _ => past.reverse
  | fuel + 1, seen, past, id =>
    if seen.contains id then past.reverse
    else
      match g.child? id with
      | some c => walkFrom g fuel (seen.insert id) (id :: past) c
      | none => (id :: past).reverse

/-- The nodes along first children from a node on, ending before the first repetition. -/
def walk (g : Graph γ) (id : NodeId) : List NodeId :=
  if g.contains id then g.walkFrom (g.size + 1) ∅ [] id else []

end Storyline.Graph
