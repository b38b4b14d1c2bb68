import LayerGraph.Trace

/-! The commands that the engine takes. -/

namespace LayerGraph

/-- What a builder registers. -/
inductive Entry (κ : Type) where
  | value (key : Key) (payload : String)
  | absent (key : Key)
  | generator (generator : Generator κ) (eager : Bool)
  | interface (interface source : Key) (cast : Cast κ)

/-- One call on a builder. -/
inductive Directive (κ : Type) where
  | register (entry : Entry κ)
  | parent (layer : String)
  | overridable (key : Key)
  | allowOverride (allow : Bool)
  | permitNil
  | lock
  | label (label : String)
  | settings (settings : Settings)
  | observe (observer : Observer)

/-- The terms of a request: the token that may cancel it, by name, and its deadline. -/
structure Terms where
  token : Option String := none
  deadline : Option Deadline := none
  deriving DecidableEq, Repr

/-- How waiting for a task on another thread ends. -/
inductive Join where
  | finished
  /-- The task was given up before it began. -/
  | dropped
  deriving DecidableEq, Repr

inductive DumpForm where
  | text
  | json
  | compact
  | find (typeName : String)
  deriving DecidableEq, Repr

/-- What the engine can be told to do, from outside or by code that it runs itself. Layers and
tokens go by name. -/
inductive Command where
  | build (name : String) (base : Option String) (directives : List (Directive Command))
  | resolve (layer : String) (key : Key) (terms : Terms)
  | resolveAsync (layer : String) (key : Key) (terms : Terms) (join : Join)
  | tryResolve (layer : String) (key : Key)
  | must (layer : String) (key : Key)
  | canResolve (layer : String) (key : Key)
  | statusOf (layer : String) (key : Key)
  | resolveBatch (layer : String) (keys : List Key)
  | dump (layer : String) (form : DumpForm)
  | profile (layer : String)
  | joinEager (layer : String)
  | dropLayer (layer : String)
  | token (name : String) (base : Option String)
  | cancel (token : String)
  | isCancelled (token : String)
  | awaitCancelled (token : String)
  | context (terms : Terms)

end LayerGraph
