import LayerGraph.Dump
import LayerGraph.Key

/-! Why layers cannot be built and types cannot be resolved. -/

namespace LayerGraph

/-- Why a builder yields no layer. -/
inductive BuildError where
  | duplicateSlot (key : Key)
  | ambiguousInterface (interface first second : Key)
  | missingImplementation (interface source : Key)
  | lockedOverride (key : Key)
  | nilValue (key : Key)
  | noOutputs (generator : String)
  | invalidGenerator (generator reason : String)
  | unresolvableParameter (parameter : Key) (generator : String)
  deriving DecidableEq, Repr

/-- Why a request yields no value. The engine makes its errors without a dump; one that a parameter
makes itself may bring a dump along. -/
inductive ResolutionError where
  | notFound (key : Key)
  | cyclic (key : Key) (path : List Key)
  | failed (key : Key) (generator source : String) (brought : Option Dump := none)
  | nilResult (key : Key) (generator : String)
  | canceled (key : Key)
  | tooDeep (key : Key) (limit : Nat)
  | mismatch (key : Key)
  deriving DecidableEq, Repr

/-- A failed request, with the dump that it has brought along or that its layer has attached. -/
structure Failure where
  error : ResolutionError
  snapshot : Option Dump
  deriving DecidableEq, Repr

def BuildError.message : BuildError → String
  | .duplicateSlot key => s!"duplicate registration for {key.name}"
  | .ambiguousInterface interface first second =>
    s!"interface {interface.name} is satisfied by both {first.name} and {second.name}"
  | .missingImplementation interface source =>
    s!"interface {interface.name} declared for {source.name}, which has no slot in this layer"
  | .lockedOverride key =>
    s!"cannot override {key.name}: an ancestor layer is locked and the type is not overridable"
  | .nilValue key => s!"nil value registered for {key.name}"
  | .noOutputs generator => s!"generator {generator} declares no output values"
  | .invalidGenerator generator reason => s!"invalid generator {generator}: {reason}"
  | .unresolvableParameter parameter generator =>
    s!"cannot resolve parameter {parameter.name} of generator {generator}"

namespace ResolutionError

/-- The type that the error is about. -/
def key : ResolutionError → Key
  | .notFound key | .cyclic key _ | .failed key _ _ _ | .nilResult key _ | .canceled key
  | .tooDeep key _ | .mismatch key => key

/-- The dump that the error has brought along. -/
def brought? : ResolutionError → Option Dump
  | .failed _ _ _ brought => brought
  | _ => none

def message : ResolutionError → String
  | .notFound key => s!"no slot for {key.name}"
  | .cyclic key path =>
    s!"cyclic dependency on {key.name}: " ++ " -> ".intercalate (path.map Key.name)
  | .failed key generator source _ => s!"generator {generator} for {key.name} failed: {source}"
  | .nilResult key generator => s!"generator {generator} returned nil for {key.name}"
  | .canceled key => s!"resolution of {key.name} canceled"
  | .tooDeep key limit => s!"max depth {limit} exceeded resolving {key.name}"
  | .mismatch key => s!"type mismatch for {key.name}"

end ResolutionError

end LayerGraph
