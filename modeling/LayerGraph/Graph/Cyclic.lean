import LayerGraph.Table

/-! The nodes of a finite graph that lie on a cycle, in one depth-first walk. -/

namespace LayerGraph.Graph

/-- A depth-first walk that closes one strongly connected component after the other. -/
structure Walk where
  /-- The order in which nodes were discovered. -/
  number : Table Nat Nat := {}
  /-- For each discovered node, the least number found among the open nodes it leads to. -/
  low : Table Nat Nat := {}
  /-- The open nodes, newest first. -/
  stack : List Nat := []
  /-- The nodes found on a cycle. -/
  cyclic : List Nat := []
  deriving Inhabited

namespace Walk

def numberOf (walk : Walk) (node : Nat) : Nat := (walk.number.find? node).getD 0

def lowOf (walk : Walk) (node : Nat) : Nat := (walk.low.find? node).getD 0

def enter (walk : Walk) (node : Nat) : Walk :=
  { walk with
    number := walk.number.set node walk.number.size
    low := walk.low.set node walk.number.size
    stack := node :: walk.stack }

def lower (walk : Walk) (node bound : Nat) : Walk :=
  { walk with low := walk.low.set node (min (walk.lowOf node) bound) }

/-- Closes the component of a node: the open nodes above it and the node itself. They lie on a
cycle when there is more than one of them, or when the node leads to itself. -/
def close (walk : Walk) (successors : Nat → List Nat) (node : Nat) : Walk :=
  let above := walk.stack.takeWhile (· ≠ node)
  let below := (walk.stack.dropWhile (· ≠ node)).tail
  if !above.isEmpty || (successors node).contains node then
    { walk with stack := below, cyclic := above ++ node :: walk.cyclic }
  else { walk with stack := below }

end Walk

/-- Follows one edge out of an open node, exploring what is new behind it. -/
def follow (explore : Nat → Walk → Walk) (node : Nat) (walk : Walk) (next : Nat) : Walk :=
  match walk.number.find? next with
  | none =>
    let walk := explore next walk
    walk.lower node (walk.lowOf next)
  | some number => if walk.stack.contains next then walk.lower node number else walk

/-- Walks everything not yet discovered that a node leads to. The fuel bounds the depth. -/
def visit (successors : Nat → List Nat) : Nat → Nat → Walk → Walk
  | 0, _, walk => walk
  | fuel + 1, node, walk =>
    let walk := (successors node).foldl (follow (visit successors fuel) node) (walk.enter node)
    if walk.lowOf node = walk.numberOf node then walk.close successors node else walk

/-- Walks from a node unless it has been discovered. -/
def visitNew (successors : Nat → List Nat) (fuel : Nat) (walk : Walk) (node : Nat) : Walk :=
  if walk.number.contains node then walk else visit successors fuel node walk

/-- Walks the whole graph on the nodes below the count. No path without repetition is longer than
the count, so that much fuel is enough. -/
def walkAll (count : Nat) (successors : Nat → List Nat) : Walk :=
  (List.range count).foldl (visitNew successors count) {}

/-- For each node below the count, whether it lies on a cycle. -/
def cyclicNodes (count : Nat) (successors : Nat → List Nat) : List Bool :=
  let walk := walkAll count successors
  (List.range count).map walk.cyclic.contains

end LayerGraph.Graph
