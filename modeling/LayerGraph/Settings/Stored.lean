import LayerGraph.Json
import LayerGraph.Settings

/-! Settings as JSON. -/

namespace LayerGraph.Settings

/-- A stored field: absent fields keep the default, present ones must have the right type. -/
def field {α : Type} (read : Json → Option α) (standard : α) : Option Json → Option α
  | none => some standard
  | some json => read json

def storedBool : Json → Option Bool
  | .bool b => some b
  | _ => none

def storedDepth : Json → Option Nat
  | .int n => if 0 ≤ n ∧ n < depthBound then some n.toNat else none
  | _ => none

def storedText : Json → Option String
  | .str text => some text
  | _ => none

def ofFields (hoist snapshot depth thread : Option Json) : Option Settings := do
  let standard : Settings := {}
  let hoist ← field storedBool standard.hoist hoist
  let snapshot ← field storedBool standard.snapshot snapshot
  let depth ← field storedDepth standard.maxDepth depth
  let thread ← field storedText standard.threadName thread
  return ⟨hoist, snapshot, depth, thread⟩

/-- Settings stored as an object with any of the fields, or as a list of the first few fields in
their order. -/
def ofJson? (json : Json) : Option Settings :=
  match json with
  | .obj _ =>
    ofFields (json.member? "hoist_parent_values") (json.member? "snapshot_on_error")
      (json.member? "max_depth") (json.member? "eager_thread_name")
  | .arr items =>
    if items.length ≤ 4 then ofFields items[0]? items[1]? items[2]? items[3]? else none
  | _ => none

def toJson (settings : Settings) : Json :=
  .obj [("hoist_parent_values", .bool settings.hoist),
    ("snapshot_on_error", .bool settings.snapshot),
    ("max_depth", .int settings.maxDepth),
    ("eager_thread_name", .str settings.threadName)]

end LayerGraph.Settings
