import LayerGraph.Resolution

/-! Requests from outside. -/

namespace LayerGraph

/-- A request as made from outside, with no run in progress. -/
abbrev Answered := Except Failure Value

namespace Layer

/-- Resolves a type whatever the value was stored as. A failure is logged, and gets a dump of the
layer attached if the layer asks for dumps and the failure has none. -/
def request (resolve : Resolver) (layer : Layer) (key : Key) (context : Context) :
    Engine Answered := do
  Engine.emit (.asked (layer.scope.site key))
  match ← resolve layer key [] context with
  | .ok value =>
    Engine.emit (.granted (layer.scope.site key) value)
    return .ok value
  | .error error =>
    Engine.emit (.denied (layer.scope.site key) error)
    Engine.log (.resolutionFailed layer.scope.id key error)
    let world ← get
    let attached := if layer.scope.settings.snapshot then some (layer.dump world.memory) else none
    -- A dump that the error has brought along stays.
    return .error ⟨error, error.brought?.or attached⟩

/-- Resolves a type to a value of that type. -/
def resolveAs (resolve : Resolver) (layer : Layer) (key : Key) (context : Context) :
    Engine Answered := do
  match ← layer.request resolve key context with
  | .ok value =>
    match Resolution.typed key value with
    | .ok value => return .ok value
    | .error error => return .error ⟨error, none⟩
  | .error failure => return .error failure

/-- Resolves a type to a value of that type on another thread, and waits for that. -/
def resolveAsync (resolve : Resolver) (layer : Layer) (key : Key) (context : Context) :
    Join → Engine Answered
  | .finished => layer.resolveAs resolve key context
  | .dropped => return .error ⟨.canceled key, none⟩

/-- Resolves types in order up to the first failure. -/
def resolveAll (resolve : Resolver) (layer : Layer) : List Key → Engine (Except Failure Unit)
  | [] => return .ok ()
  | key :: rest => do
    match ← layer.request resolve key .background with
    | .ok _ => layer.resolveAll resolve rest
    | .error failure => return .error failure

end Layer

end LayerGraph
