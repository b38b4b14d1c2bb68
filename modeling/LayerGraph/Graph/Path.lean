/-! A depth-first search for a path to a node with a given property. -/

namespace LayerGraph.Graph

variable {α : Type} [DecidableEq α]

/-- Tries a step on one candidate after the other, carrying a state along, until one succeeds. -/
def firstSome {σ β γ : Type} (step : σ → β → σ × Option γ) : σ → List β → σ × Option γ
  | state, [] => (state, none)
  | state, candidate :: rest =>
    match step state candidate with
    | (state, some found) => (state, some found)
    | (state, none) => firstSome step state rest

/-- Steps to a node, and searches on from it unless it closes. -/
def stepTo (closes : α → Bool) (explore : List α → α → List α × Option (List α)) (seen : List α)
    (next : α) : List α × Option (List α) :=
  if closes next then (seen, some [next])
  else
    match explore seen next with
    | (seen, some rest) => (seen, some (next :: rest))
    | (seen, none) => (seen, none)

/-- Looks for a way from a node to one that closes, through nodes not seen before, and yields the
nodes after the first. The fuel bounds the depth. -/
def search (successors : α → List α) (closes : α → Bool) :
    Nat → List α → α → List α × Option (List α)
  | 0, seen, _ => (seen, none)
  | fuel + 1, seen, node =>
    if seen.contains node then (seen, none)
    else
      firstSome (stepTo closes (search successors closes fuel)) (node :: seen) (successors node)

/-- A path from a node to one that closes; when there is none, the node twice. -/
def findPath (fuel : Nat) (successors : α → List α) (closes : α → Bool) (start : α) : List α :=
  match (search successors closes fuel [] start).2 with
  | some rest => start :: rest
  | none => [start, start]

end LayerGraph.Graph
