import LayerGraph.Error

/-! What generators ask for, as declared beforehand and as done when they run. -/

namespace LayerGraph

/-- What a parameter says about itself before anything runs. -/
inductive Declaration where
  | context
  | dependency (key : Key) (required : Bool)
  deriving DecidableEq, Repr

/-- How the argument for a parameter is found when its generator runs: by asking for one type, without
asking for any, or not at all. -/
inductive Supply where
  | context
  | required (key : Key)
  | optional (key : Key)
  | nothing
  /-- There is none: the parameter fails with an error that it makes itself. -/
  | refusing (key : Key) (generator source : String) (brought : Option Dump)
  deriving DecidableEq, Repr

/-- A parameter of a generator. Its declaration and its supply usually agree, but need not. -/
structure Parameter where
  declared : Declaration
  supply : Supply
  deriving DecidableEq, Repr

namespace Supply

/-- The type that is asked for. -/
def key? : Supply → Option Key
  | .context | .nothing | .refusing .. => none
  | .required key | .optional key => some key

/-- The error that the parameter makes itself. -/
def refusal? : Supply → Option ResolutionError
  | .refusing key generator source brought => some (.failed key generator source brought)
  | _ => none

def isOptional : Supply → Bool
  | .optional _ => true
  | _ => false

end Supply

namespace Declaration

def key? : Declaration → Option Key
  | .context => none
  | .dependency key _ => some key

def requiredKey? : Declaration → Option Key
  | .dependency key true => some key
  | _ => none

def isContext : Declaration → Bool
  | .context => true
  | .dependency .. => false

def text : Declaration → String
  | .context => "CallContext"
  | .dependency key true => key.shortName
  | .dependency key false => s!"Option<{key.shortName}>"

end Declaration

namespace Parameter

def context : Parameter := ⟨.context, .context⟩

def required (key : Key) : Parameter := ⟨.dependency key true, .required key⟩

def optional (key : Key) : Parameter := ⟨.dependency key false, .optional key⟩

/-- Declared as optional, yet its run fails when the type is missing. -/
def soft (key : Key) : Parameter := ⟨.dependency key false, .required key⟩

/-- Declared as a context, yet it asks for a type that nobody sees declared. -/
def hidden (key : Key) : Parameter := ⟨.context, .required key⟩

/-- Declared as required, yet never asked for. -/
def phantom (key : Key) : Parameter := ⟨.dependency key true, .nothing⟩

/-- Declared as optional, yet it fails with an error that it makes itself. -/
def refusing (key : Key) (generator source : String) (brought : Option Dump) : Parameter :=
  ⟨.dependency key false, .refusing key generator source brought⟩

end Parameter

end LayerGraph
