import LayerGraph.Settings
import LayerGraph.Text.Blank

/-! Settings from environment variables. A value that makes no sense leaves the default. -/

namespace LayerGraph

/-- The value of each variable that is set, as raw bytes. -/
abbrev Environment := String → Option ByteArray

namespace Settings

def hoistVariable : String := "STRATUM_HOIST_PARENT"
def snapshotVariable : String := "STRATUM_SNAPSHOT_ON_ERROR"
def depthVariable : String := "STRATUM_MAX_DEPTH"
def threadVariable : String := "STRATUM_EAGER_THREAD_NAME"

/-- Why the value of a variable was passed over. -/
inductive Ignored where
  | boolean (name value : String)
  | value (name : String)
  deriving DecidableEq, Repr

def readBool (text : String) : Option Bool :=
  let word := String.ofList ((Text.trim text.toList).map Char.toLower)
  if ["1", "true", "yes", "on"].contains word then some true
  else if ["0", "false", "no", "off"].contains word then some false
  else none

/-- A natural number below the bound, in decimal digits after at most one plus sign. -/
def readDepth (text : String) : Option Nat :=
  let digits :=
    match Text.trim text.toList with
    | '+' :: digits => digits
    | digits => digits
  if digits.isEmpty || !digits.all Char.isDigit then none
  else
    let depth := digits.foldl (fun n c => n * 10 + (c.toNat - '0'.toNat)) 0
    if depth < depthBound then some depth else none

/-- A boolean variable. A value that is no text at all is passed over in silence. -/
def boolFrom (environment : Environment) (name : String) : Option Bool × List Ignored :=
  match (environment name).bind String.fromUTF8? with
  | none => (none, [])
  | some text =>
    match readBool text with
    | some b => (some b, [])
    | none => (none, [.boolean name text])

def depthFrom (environment : Environment) : Option Nat × List Ignored :=
  match environment depthVariable with
  | none => (none, [])
  | some bytes =>
    match (String.fromUTF8? bytes).bind readDepth with
    | some depth => (some depth, [])
    | none => (none, [.value depthVariable])

def threadFrom (environment : Environment) : Option String :=
  match (environment threadVariable).bind String.fromUTF8? with
  | none => none
  | some text => if (Text.trim text.toList).isEmpty then none else some text

/-- The default settings with the fields that the environment sets, and what was passed over. -/
def fromEnvironment (environment : Environment) : Settings × List Ignored :=
  let hoist := boolFrom environment hoistVariable
  let snapshot := boolFrom environment snapshotVariable
  let depth := depthFrom environment
  let standard : Settings := {}
  ({ hoist := hoist.1.getD standard.hoist
     snapshot := snapshot.1.getD standard.snapshot
     maxDepth := depth.1.getD standard.maxDepth
     threadName := (threadFrom environment).getD standard.threadName },
   hoist.2 ++ snapshot.2 ++ depth.2)

end Settings

end LayerGraph
