import LayerGraph.Builder
import LayerGraph.Request

/-! Building a layer in a world, and filling its eager slots. -/

namespace LayerGraph

namespace Layer

/-- Fills one eager slot. Failures and panics are logged and otherwise forgotten. -/
def warmUp (resolve : Resolver) (layer : Layer) (key : Key) : Engine Unit :=
  Engine.onThread layer.scope.settings.threadName <|
    Engine.catchPanic
      (do
        match ← layer.request resolve key .background with
        | .ok _ => Engine.log (.eagerResolved layer.scope.id key)
        | .error failure => Engine.log (.eagerFailed layer.scope.id key failure.error))
      (fun message => Engine.log (.eagerPanicked layer.scope.id key message))

def eagerKeys (layer : Layer) : List Key :=
  (layer.scope.slots.entries.filter (·.2.isEager)).map (·.1)

/-- What keeps the filling of eager slots from being started. -/
def startRefusal? (layer : Layer) : Option String :=
  if layer.eagerKeys.isEmpty then none else layer.scope.settings.threadRefusal?

/-- Fills the eager slots of a new layer. If that cannot be started, it ends in a panic. -/
def fillEager (resolve : Resolver) (layer : Layer) : Engine Unit :=
  match layer.startRefusal? with
  | some message => throw (.panic message)
  | none => layer.eagerKeys.forM (layer.warmUp resolve)

end Layer

namespace Builder

def apply (layers : Table String Layer) (builder : Builder) : Directive Command → Builder
  | .register entry => builder.register entry
  | .parent name =>
    match layers.find? name with
    | some layer => { builder with parent := some layer }
    | none => builder
  | .overridable key => { builder with overridable := builder.overridable ++ [key] }
  | .allowOverride allow => { builder with allowOverride := allow }
  | .permitNil => { builder with permitNil := true }
  | .lock => { builder with locked := true }
  | .label label => { builder with label := some label }
  | .settings settings => { builder with settings := some settings }
  | .observe observer => { builder with observers := builder.observers ++ [observer] }

/-- The builder that a list of directives describes, starting from the child of a layer if one is
named. -/
def ofDirectives (layers : Table String Layer) (base : Option String)
    (directives : List (Directive Command)) : Builder :=
  directives.foldl (Builder.apply layers) { parent := base.bind layers.find? }

/-- Takes up a layer put together by a builder and fills its eager slots, one after the other. Whoever
builds it waits for that. Tasks of their own would fill several slots side by side: what happens
between `raceBegan` and `raceEnded` is one of the orders in which it may happen. -/
def commission (resolve : Resolver) (builder : Builder) (layer : Layer) : Engine Unit := do
  let racing := 1 < layer.eagerKeys.length && layer.startRefusal?.isNone
  if racing then Engine.emit .raceBegan
  builder.skipped.forM fun key => Engine.log (.skippingNil key)
  modify (World.enter layer)
  Engine.log (.layerBuilt layer.scope.id (layer.scope.label.getD "") layer.scope.slots.size
    layer.parentId?)
  layer.fillEager resolve
  if racing then Engine.emit .raceEnded

/-- Builds a layer and fills its eager slots. -/
def build (resolve : Resolver) (builder : Builder) : Engine (Except BuildError Layer) := do
  let world ← get
  match builder.assemble world.memory world.nextLayer with
  | .error error =>
    builder.skipped.forM fun key => Engine.log (.skippingNil key)
    return .error error
  | .ok layer =>
    builder.commission resolve layer
    return .ok layer

end Builder

end LayerGraph
