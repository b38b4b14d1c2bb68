import LayerGraph.Generator
import LayerGraph.Settings.Environment

/-! What happens while requests are answered: notices to observers, log entries, runs and casts. -/

namespace LayerGraph

/-- Who is told about runs and delegations. -/
inductive Observer where
  | recorder (name : String)
  | silent
  | tracing (label : Option String)
  deriving DecidableEq, Repr

/-- What an observer is told. -/
inductive Notice where
  | started (layer : Nat) (requested : Key) (generator : String)
  | finished (layer : Nat) (requested : Key) (generator : String)
  | failed (layer : Nat) (requested : Key) (generator : String) (error : ResolutionError)
  | delegated (layer : Nat) (requested : Key) (parent : Nat)
  deriving DecidableEq, Repr

inductive Level where
  | trace
  | debug
  | info
  | warn
  | error
  deriving DecidableEq, Repr

/-- What the engine writes to its log. -/
inductive LogEntry where
  | slotHit (layer : Nat) (key : Key)
  | interfaceBound (layer : Nat) (key source : Key)
  | delegating (layer : Nat) (key : Key) (parent : Nat)
  | skippingNil (key : Key)
  | eagerResolved (layer : Nat) (key : Key)
  | running (layer : Nat) (key : Key) (generator : String) (depth : Nat)
  | finished (layer : Nat) (key : Key)
  | failed (layer : Nat) (key : Key) (error : ResolutionError)
  | resolutionFailed (layer : Nat) (key : Key) (error : ResolutionError)
  | nothingFound (key : Key) (error : ResolutionError)
  | layerBuilt (layer : Nat) (label : String) (slots : Nat) (parent : Option Nat)
  | eagerFailed (layer : Nat) (key : Key) (error : ResolutionError)
  | eagerPanicked (layer : Nat) (key : Key) (message : String)
  | ignored (setting : Settings.Ignored)
  deriving DecidableEq, Repr

/-- A run in progress: where it happens, what was asked of it, and the slots it is to fill. -/
structure Frame where
  layer : Nat
  requested : Key
  outputs : List Key
  deriving DecidableEq, Repr

/-- The runs in progress for one request, innermost first. -/
abbrev Chain := List Frame

/-- What happens while commands are carried out. -/
inductive Event where
  | noticed (observer : Observer) (notice : Notice)
  /-- A type was requested from outside, with no run in progress. -/
  | asked (site : Site)
  | granted (site : Site) (value : Value)
  | denied (site : Site) (error : ResolutionError)
  /-- An empty slot was found with these runs in progress, and this kept its generator from being
  started, if anything did. -/
  | attempted (site : Site) (chain : Chain) (obstacle : Option ResolutionError)
  /-- The body of the generator at a place of a layer was entered. -/
  | ran (layer place : Nat) (tag : String) (run : Nat) (arguments : List Argument)
  /-- The body of that run came to its end. -/
  | returned (layer place run : Nat) (yield : Yield)
  /-- A cast was applied to a payload. -/
  | casted (site : Site) (tag : String) (call : Nat) (payload : String)
  /-- A slot received its value. -/
  | filled (site : Site) (value : Value)
  /-- A product met a slot that had a value, and was lost. -/
  | dropped (site : Site) (value : Value)
  | answered (reply : Reply)
  /-- A generator looked at the name of its thread. -/
  | thread (name : Option String)
  | logged (entry : LogEntry)
  /-- From here to the matching end, tasks of their own would run side by side. -/
  | raceBegan
  | raceEnded
  deriving DecidableEq, Repr

end LayerGraph
