import LayerGraph.Construction

/-! Carrying out commands. Generators and casts may give commands too, so a request can lie inside
another one. -/

namespace LayerGraph

namespace Session

def payloadReply : Answered → Reply
  | .ok value => .payload value.payload
  | .error failure => .refused failure

/-- Does something with the layer of that name. -/
def withLayer (name : String) (action : Layer → Engine Reply) : Engine Reply := do
  match (← get).layers.find? name with
  | some layer => action layer
  | none => return .unknown name

def withToken (name : String) (action : Token → Engine Reply) : Engine Reply := do
  match (← get).tokens.find? name with
  | some token => action token
  | none => return .unknown name

/-- Carries a command out, answering requests in the given way. -/
def carryOut (resolve : Resolver) : Command → Engine Reply
  | .build name base directives => do
    let world ← get
    match ← (Builder.ofDirectives world.layers base directives).build resolve with
    | .error error => return .rejected error
    | .ok layer =>
      modify fun world => { world with layers := world.layers.set name layer }
      return .built layer.scope.id
  | .resolve name key terms =>
    withLayer name fun layer => do
      let context := (← get).contextOf terms
      return payloadReply (← layer.resolveAs resolve key context)
  | .resolveAsync name key terms join =>
    withLayer name fun layer => do
      let context := (← get).contextOf terms
      return payloadReply (← layer.resolveAsync resolve key context join)
  | .tryResolve name key =>
    withLayer name fun layer => do
      match ← layer.resolveAs resolve key .background with
      | .ok value => return .found (some value.payload)
      | .error failure =>
        Engine.log (.nothingFound key failure.error)
        return .found none
  | .must name key =>
    withLayer name fun layer => do
      match ← layer.resolveAs resolve key .background with
      | .ok value => return .payload value.payload
      | .error failure =>
        throw (.panic s!"failed to resolve {key.name}: {failure.error.message}")
  | .canResolve name key =>
    withLayer name fun layer => return .flag (layer.canResolve (← get).memory key)
  | .statusOf name key =>
    withLayer name fun layer => return .status (layer.scope.status? (← get).memory key)
  | .resolveBatch name keys =>
    withLayer name fun layer => do
      match ← layer.resolveAll resolve keys with
      | .ok _ => return .batch
      | .error failure => return .refused failure
  | .dump name form =>
    withLayer name fun layer => do
      let dump := layer.dump (← get).memory
      match form with
      | .text => return .text dump.text
      | .json => return .text dump.toJson.pretty
      | .compact => return .text dump.toJson.compact
      | .find typeName => return .row (dump.find? typeName) dump.slotCount
  | .profile name => withLayer name fun layer => return .profile layer.profile
  | .joinEager name => withLayer name fun _ => return .done
  | .dropLayer name =>
    modifyGet fun world =>
      (.flag (world.layers.contains name), { world with layers := world.layers.erase name })
  | .token name base =>
    modifyGet fun world =>
      let token : Token :=
        match base.bind world.tokens.find? with
        | some parent => parent.child world.nextToken
        | none => ⟨world.nextToken, []⟩
      (.done,
        { world with tokens := world.tokens.set name token, nextToken := world.nextToken + 1 })
  | .cancel name => withToken name fun token => do
    modify (World.cancel token)
    return .done
  | .isCancelled name => withToken name fun token =>
    return .flag (token.isCancelled (← get).signals)
  | .awaitCancelled name => withToken name fun _ => return .done
  | .context terms => do
    let world ← get
    return .text (Argument.context 0 ((world.contextOf terms).standing world.signals)).text

/-- Carries a command out; a panic becomes its reply. -/
def perform (resolve : Resolver) (command : Command) : Engine Reply :=
  Engine.catchPanic (carryOut resolve command) fun message => return .panicked message

/-- Answers requests with so many generators in progress below one another, those of requests made
by generators and casts included. -/
def resolver : Nat → Layer → Key → Chain → Context → Engine Answer
  | 0, layer, key, chain, context =>
    Resolution.within (fun _ _ _ _ _ _ => throw .outOfFuel) (fun _ => throw .outOfFuel)
      layer key chain context
  | fuel + 1, layer, key, chain, context =>
    Resolution.within (Resolution.runGenerator (resolver fuel) (perform (resolver fuel)))
      (perform (resolver fuel)) layer key chain context

/-- What a command replied and what happened meanwhile, in order. -/
structure Step where
  reply : Except Stop Reply
  events : List Event

/-- Carries out one command from outside. -/
def step (fuel : Nat) (world : World) (command : Command) : Step × World :=
  let (reply, after) := perform (resolver fuel) command world
  (⟨reply, (after.trace.take (after.trace.length - world.trace.length)).reverse⟩, after)

/-- Carries out commands one after the other from an empty world. -/
def runAll (fuel : Nat) : World → List Command → List Step
  | _, [] => []
  | world, command :: rest =>
    let (first, world) := step fuel world command
    first :: runAll fuel world rest

/-- More nesting than any request of reasonable size needs. -/
def nesting : Nat := 1000000

end Session

end LayerGraph
