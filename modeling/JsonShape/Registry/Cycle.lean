/-!
# Cycles in a graph of references

A depth-first search over a graph whose vertices are numbered. A vertex is *active* while the search
is below it and *done* once everything it leads to has been searched. An edge to an active vertex
closes a cycle, which is the part of the path from that vertex on.
-/

namespace JsonShape.Cycle

/-- The cycle that an edge back to `vertex` closes. The path is given last vertex first; the vertex
stands at both ends of the result. -/
def closing (vertex : Nat) (path : List Nat) : List Nat :=
  vertex :: ((path.takeWhile (· != vertex)).reverse ++ [vertex])

/-- Searches below a vertex. The result is the list of vertices that are done, or the cycle that was
found. A path has no vertex twice, so a budget above the number of vertices is never used up. -/
def visit (targets : Nat → List Nat) :
    (budget : Nat) → (path done : List Nat) → (vertex : Nat) → Except (List Nat) (List Nat)
  | 0, _, done, _ => .ok done
  | budget + 1, path, done, vertex =>
    if vertex ∈ done then .ok done
    else if vertex ∈ path then .error (closing vertex path)
    else do
      let done ← (targets vertex).foldlM (visit targets budget (vertex :: path)) done
      return vertex :: done

/-- The first cycle that the search from the vertices below `count` meets. -/
def find? (targets : Nat → List Nat) (count : Nat) : Option (List Nat) :=
  match (List.range count).foldlM (visit targets (count + 1) []) [] with
  | .ok _ => none
  | .error cycle => some cycle

end JsonShape.Cycle
