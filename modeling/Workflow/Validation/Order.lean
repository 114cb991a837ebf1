namespace Workflow

/-- A graph on the vertices below `size`. Edges are kept in the order in which they were added and
may be repeated. -/
structure Digraph where
  size : Nat
  edges : List (Nat × Nat)
  deriving Repr

namespace Digraph

/-- The targets of the edges from a vertex; the edge added last comes first. -/
def successors (g : Digraph) (v : Nat) : List Nat :=
  ((g.edges.filter (·.1 == v)).map Prod.snd).reverse

/-- The sources of the edges to a vertex; the edge added last comes first. -/
def predecessors (g : Digraph) (v : Nat) : List Nat :=
  ((g.edges.filter (·.2 == v)).map Prod.fst).reverse

/-- The vertices met by a search, and those that are finished, the last one first. -/
structure Search where
  seen : List Nat := []
  finished : List Nat := []
  deriving Repr

/-- Puts the vertices that are not seen yet on a stack, one after the other. -/
def pushUnseen (seen : List Nat) (stack : List Nat) : List Nat → List Nat
  | [] => stack
  | v :: rest => pushUnseen seen (if v ∈ seen then stack else v :: stack) rest

/-- Searches from the vertices on the stack. A vertex is left on the stack until what it leads to is
finished. The search stops at a vertex that leads to itself. `more` bounds the number of steps. -/
def explore (g : Digraph) : (more : Nat) → (stack : List Nat) → Search → Except Nat Search
  | 0, _, search => .ok search
  | _ + 1, [], search => .ok search
  | more + 1, v :: stack, search =>
    if v ∈ search.seen then
      let finished := if v ∈ search.finished then search.finished else v :: search.finished
      explore g more stack { search with finished }
    else if v ∈ g.successors v then .error v
    else
      let seen := v :: search.seen
      explore g more (pushUnseen seen (v :: stack) (g.successors v)) { search with seen }

/-- A bound on the steps of a search: each vertex is entered once, and each entry on the stack is
taken off once. -/
def steps (g : Digraph) : Nat := 2 * g.size + g.edges.length + 2

/-- Searches from each of the vertices that is not seen yet. -/
def exploreAll (g : Digraph) : List Nat → Search → Except Nat Search
  | [], search => .ok search
  | v :: rest, search =>
    if v ∈ search.seen then exploreAll g rest search
    else
      match g.explore g.steps [v] search with
      | .error u => .error u
      | .ok search => exploreAll g rest search

/-- The next unseen vertex of a search against the edges, with the stack and the seen vertices after
it. -/
def nextBack (g : Digraph) : (stack seen : List Nat) → Option (Nat × List Nat × List Nat)
  | [], _ => none
  | v :: stack, seen =>
    if v ∈ seen then nextBack g stack seen
    else
      let seen := v :: seen
      some (v, pushUnseen seen stack (g.predecessors v), seen)

/-- The first vertex that an earlier one still reaches backwards when the vertices are taken in the
given order. -/
def backEdge? (g : Digraph) : List Nat → (seen : List Nat) → Option Nat
  | [], _ => none
  | v :: rest, seen =>
    match g.nextBack [v] seen with
    | none => backEdge? g rest seen
    | some (_, stack, seen) =>
      match g.nextBack stack seen with
      | none => backEdge? g rest seen
      | some (u, _, _) => some u

/-- The vertices in an order along the edges, or a vertex that shows that there is none. A
depth-first search lists every vertex after those it leads to, and the reverse of that list is an
order if there is one. A second search against the edges checks that: no vertex may still reach an
unseen one backwards. -/
def order (g : Digraph) : Except Nat (List Nat) := do
  let search ← g.exploreAll (List.range g.size) {}
  match g.backEdge? search.finished [] with
  | some v => .error v
  | none => .ok search.finished

end Digraph

end Workflow
