/-!
# The class hierarchy as a graph of names

A `Hierarchy` has a node for every class name that has been mentioned and an edge from each class to
each of its direct supertypes. Supertypes may be mentioned before they are declared, and the same
edge may be added twice, so this is a multigraph on names and knows nothing else about classes.

Two questions are asked of it. `reaches` decides whether a name leads to another along edges, by a
depth-first search. `breadthFirst` lists everything a name leads to, nearest first; among the
supertypes of one class, the one added last is visited first.

Both searches are bounded by a fuel argument that their callers compute from the size of the graph:
a breadth-first step retires one node for good, and a depth-first step consumes one entry of a stack
that each edge enters at most once.
-/

namespace ScriptBytecode

/-! ### Searching from a neighbour function -/

section Search

variable {α : Type} [BEq α]

/-- Breadth-first search. `done` has been expanded and `queue` is waiting, both in the order of
discovery; together they are everything discovered so far. -/
def breadthFirst (next : α → List α) : Nat → List α → List α → List α
  | fuel + 1, done, a :: queue =>
    let fresh := ((next a).filter fun b ↦ !(done ++ a :: queue).contains b).eraseDups
    breadthFirst next fuel (done ++ [a]) (queue ++ fresh)
  | _, done, queue => done ++ queue

/-- Depth-first search: everything in `visited`, and all that the stack leads to. -/
def depthFirst (next : α → List α) : Nat → List α → List α → List α
  | fuel + 1, a :: stack, visited =>
    if visited.contains a then depthFirst next fuel stack visited
    else depthFirst next fuel (next a ++ stack) (a :: visited)
  | _, _, visited => visited

end Search

/-! ### The hierarchy -/

/-- Class names and the direct supertype edges between them. -/
structure Hierarchy where
  /-- Every name mentioned, in the order of first mention. -/
  nodes : List String := []
  /-- Subtype and supertype of each edge, in the order added. -/
  edges : List (String × String) := []
deriving DecidableEq, Inhabited

namespace Hierarchy

/-- Makes sure that a name has a node. -/
def addNode (h : Hierarchy) (name : String) : Hierarchy :=
  if h.nodes.contains name then h else { h with nodes := h.nodes ++ [name] }

/-- Adds an edge from a class to a direct supertype. -/
def addEdge (h : Hierarchy) (sub sup : String) : Hierarchy :=
  { h.addNode sup with edges := h.edges ++ [(sub, sup)] }

/-- Adds a class with its direct supertypes. -/
def addClass (h : Hierarchy) (name : String) (supertypes : List String) : Hierarchy :=
  supertypes.foldl (·.addEdge name ·) (h.addNode name)

/-- The direct supertypes of a class, in the order declared. -/
def supertypes (h : Hierarchy) (name : String) : List String :=
  (h.edges.filter (·.1 == name)).map (·.2)

/-- Whether both names have nodes and edges lead from one to the other. Every node leads to
itself. -/
def reaches (h : Hierarchy) (source target : String) : Bool :=
  h.nodes.contains source && h.nodes.contains target &&
    (depthFirst h.supertypes (h.edges.length + 1) [source] []).contains target

/-- A node and all it leads to, nearest first; empty for a name without a node. -/
def ancestors (h : Hierarchy) (name : String) : List String :=
  if h.nodes.contains name then
    breadthFirst (fun a ↦ (h.supertypes a).reverse) h.nodes.length [] [name]
  else []

end Hierarchy

end ScriptBytecode
