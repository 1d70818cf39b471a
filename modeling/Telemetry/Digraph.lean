import Telemetry.Table

/-!
# Directed graphs

A directed graph is a table of nodes with their successors, which are kept in the order in which the
edges were added, each once. Both ends of every edge are nodes. Its nodes are put into topological
order, and where there is none a cycle is found.
-/

namespace Telemetry

/-- The successors of every node. -/
abbrev Digraph (α : Type) := Table α (List α)

namespace Digraph

variable {α : Type} [Ord α]

/-- The nodes, in ascending order. -/
def nodes (g : Digraph α) : List α := Table.keys g

/-- The successors of a node. -/
def successors (g : Digraph α) (a : α) : List α := (Table.get? a g).getD []

/-- Adds a node, unless it is there. -/
def addNode (a : α) (g : Digraph α) : Digraph α :=
  if Table.contains a g then g else Table.insert a [] g

/-- Adds an edge, unless it is there. -/
def addEdge [BEq α] (source target : α) (g : Digraph α) : Digraph α :=
  let g := g.addNode target
  let next := g.successors source
  Table.insert source (if next.contains target then next else next ++ [target]) g

/-- The graph of a list of edges. -/
def ofEdges [BEq α] (edges : List (α × α)) : Digraph α :=
  edges.foldl (fun g e => g.addEdge e.1 e.2) []

/-! ## Topological order

Nodes are taken one after the other, each once none of its predecessors is left; among several that
can be taken the smallest comes first. The order depends on the edges alone, and is complete unless
the graph has a cycle.
-/

/-- Counts one edge into a node of the graph. -/
def countEdge (degrees : Table α Nat) (a : α) : Table α Nat :=
  match degrees.get? a with
  | none => degrees
  | some n => degrees.insert a (n + 1)

/-- The number of edges into every node. -/
def inDegrees (g : Digraph α) : Table α Nat :=
  (g.flatMap Prod.snd).foldl countEdge (g.map fun e => (e.1, 0))

/-- Takes away one edge into each of some nodes. Those into which no edge is left become ready. -/
def relax (degrees : Table α Nat) (ready : List α) : List α → Table α Nat × List α
  | [] => (degrees, ready)
  | a :: rest =>
    match degrees.get? a with
    | none => relax degrees ready rest
    | some n =>
      let ready := if n - 1 = 0 then insertOrdered a ready else ready
      relax (degrees.insert a (n - 1)) ready rest

/-- Takes at most so many nodes, beginning with the first that is ready. -/
def takeReady (g : Digraph α) : Nat → Table α Nat → List α → List α
  | 0, _, _ => []
  | _ + 1, _, [] => []
  | fuel + 1, degrees, a :: ready =>
    let (degrees, ready) := relax degrees ready (g.successors a)
    a :: takeReady g fuel degrees ready

/-- The nodes that can be taken, in order. -/
def sorted (g : Digraph α) : List α :=
  let degrees := g.inDegrees
  takeReady g g.length degrees ((degrees.filter fun e => e.2 = 0).map Prod.fst)

/-- All nodes in topological order, if there is one. -/
def order? (g : Digraph α) : Option (List α) :=
  let sorted := g.sorted
  if sorted.length < g.length then none else some sorted

/-! ## Finding a cycle

A walk goes from node to successor, depth first, and leaves aside what it knows to lie on no cycle.
It ends when it meets its own path: the part of the path from there on, closed by the node met
twice, is a cycle.
-/

variable [BEq α]

/-- Tries nodes in turn until one leads to a cycle; what was visited is handed on. -/
def firstCycle (walk : α → List α → Option (List α) × List α) :
    List α → List α → Option (List α) × List α
  | [], visited => (none, visited)
  | a :: rest, visited =>
    match walk a visited with
    | (some cycle, visited) => (some cycle, visited)
    | (none, visited) => firstCycle walk rest visited

/-- Walks on from a node that was reached along a path, at most so deep. -/
def walk (g : Digraph α) (settled : List α) :
    Nat → List α → α → List α → Option (List α) × List α
  | 0, _, _, visited => (none, visited)
  | fuel + 1, path, a, visited =>
    if path.contains a then (some (path.dropWhile (· != a) ++ [a]), visited)
    else if visited.contains a then (none, visited)
    else
      let next := (g.successors a).filter fun b => !settled.contains b
      firstCycle (walk g settled fuel (path ++ [a])) next (visited ++ [a])

/-- A cycle through none of the given nodes, if there is one. -/
def findCycle? (g : Digraph α) (settled : List α) : Option (List α) :=
  let starts := g.nodes.filter fun a => !settled.contains a
  (firstCycle (walk g settled (g.length + 1) []) starts []).1

end Digraph

end Telemetry
