/-! The settings of a layer. -/

namespace LayerGraph

/-- How a layer answers requests. -/
structure Settings where
  /-- Keep a value found in an outer layer for the next request. -/
  hoist : Bool := true
  /-- Attach a dump to every failed request. -/
  snapshot : Bool := false
  /-- How many generators one request may have in progress. -/
  maxDepth : Nat := 1024
  /-- The name of the threads that fill eager slots. -/
  threadName : String := "stratum-eager"
  deriving DecidableEq, Inhabited, Repr

/-- What is said when a thread is to be started under the name in the settings, if it cannot have
that name: the name of a thread ends at its first null. -/
def Settings.threadRefusal? (settings : Settings) : Option String :=
  let bytes := (settings.threadName.toList.flatMap String.utf8EncodeChar).map UInt8.toNat
  if bytes.contains 0 then
    let position := bytes.idxOf 0
    let listing := String.intercalate ", " (bytes.map Nat.repr)
    some s!"thread name may not contain interior null bytes: NulError({position}, [{listing}])"
  else none

/-- Depths fit a machine word. -/
def Settings.depthBound : Nat := UInt64.size

end LayerGraph
