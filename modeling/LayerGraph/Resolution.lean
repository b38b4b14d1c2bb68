import LayerGraph.World

/-! How a request for a type is answered: slot, interface, imported value, outer layer. A generator
runs only for an empty slot, and a value once stored stays. -/

namespace LayerGraph

def Frame.claims (frame : Frame) (layer : Nat) (key : Key) : Bool :=
  frame.layer == layer && frame.outputs.contains key

namespace Chain

def claims (chain : Chain) (layer : Nat) (key : Key) : Bool := chain.any (·.claims layer key)

/-- What was asked for from the run that claims a type up to now, and then the type again. -/
def pathTo (chain : Chain) (layer : Nat) (key : Key) : List Key :=
  let outermost := chain.reverse
  let since := outermost.dropWhile fun frame => !frame.claims layer key
  (if since.isEmpty then outermost else since).map Frame.requested ++ [key]

end Chain

abbrev Answer := Except ResolutionError Value

/-- A way to answer a request for a type in a layer, given the runs in progress. -/
abbrev Resolver := Layer → Key → Chain → Context → Engine Answer

/-- A way to run the generator behind an empty slot. -/
abbrev Runner := Layer → Key → Registered → Bool → Chain → Context → Engine Answer

namespace Resolution

/-- What keeps a generator from being started. -/
def obstacle? (layer : Layer) (key : Key) (source : Registered) (cyclic : Bool) (chain : Chain)
    (context : Context) (signals : Signals) : Option ResolutionError :=
  let scope := layer.scope
  if chain.claims scope.id key then some (.cyclic key (chain.pathTo scope.id key))
  else if cyclic then some (.cyclic key (scope.cyclePath key source))
  else if scope.settings.maxDepth ≤ chain.length then some (.tooDeep key scope.settings.maxDepth)
  else if context.isCancelled signals then some (.canceled key)
  else none

/-- A value under the type it was asked for as. -/
def typed (key : Key) (value : Value) : Answer :=
  if value.type = key then .ok value else .error (.mismatch key)

/-- The argument for a parameter that asks for no type. -/
def given (layer : Layer) (standing : Standing) : Supply → Argument
  | .context => .context layer.scope.id standing
  | _ => .untouched

/-- The argument that an answer makes. Only a missing type makes an optional one absent. -/
def accept (supply : Supply) (key : Key) : Answer → Except ResolutionError Argument
  | .ok value => (typed key value).map .value
  | .error error =>
    if supply.isOptional && error = .notFound key then .ok .absent else .error error

/-- Finds the argument for one parameter. -/
def fetch (resolve : Resolver) (layer : Layer) (chain : Chain) (context : Context)
    (supply : Supply) : Engine (Except ResolutionError Argument) := do
  match supply.key? with
  | none =>
    match supply.refusal? with
    | some error => return .error error
    | none => return .ok (given layer (context.standing (← get).signals) supply)
  | some key => return accept supply key (← resolve layer key chain context)

/-- Finds the arguments from left to right, up to the first that cannot be found. -/
def fetchAll (resolve : Resolver) (layer : Layer) (chain : Chain) (context : Context) :
    List Supply → Engine (Except ResolutionError (List Argument))
  | [] => return .ok []
  | supply :: rest => do
    match ← fetch resolve layer chain context supply with
    | .error error => return .error error
    | .ok argument =>
      match ← fetchAll resolve layer chain context rest with
      | .error error => return .error error
      | .ok arguments => return .ok (argument :: arguments)

/-- Runs the body of a generator. -/
def call (perform : Command → Engine Reply) (layer : Layer) (source : Registered)
    (arguments : List Argument) : Engine Yield := do
  let run ← Engine.countRun layer.scope.id source.place
  Engine.emit (.ran layer.scope.id source.place source.generator.tag run arguments)
  let yield ← Engine.run perform (source.generator.body run arguments)
  Engine.emit (.returned layer.scope.id source.place run yield)
  return yield

/-- Fetches the arguments and runs the body. -/
def invoke (resolve : Resolver) (perform : Command → Engine Reply) (layer : Layer)
    (source : Registered) (chain : Chain) (context : Context) :
    Engine (Except ResolutionError Yield) := do
  let supplies := source.generator.parameters.map Parameter.supply
  match ← fetchAll resolve layer chain context supplies with
  | .error error => return .error error
  | .ok arguments => return .ok (← call perform layer source arguments)

/-- The products of a generator that have a slot to go to. -/
def deliveries (scope : Scope) (source : Registered) (products : List Value) :
    List (Site × Value) :=
  (source.generator.outputs.zip products).filterMap fun (output, value) =>
    if (scope.slots.find? output).any (Backing.isFedBy source.place) then
      some (scope.site output, value)
    else none

/-- Puts a product into its slot, unless the slot has a value already. -/
def deliver (delivery : Site × Value) : Engine Unit := do
  if (← get).memory.filled.contains delivery.1 then
    Engine.emit (.dropped delivery.1 delivery.2)
  else
    Engine.remember (·.fill delivery.1 delivery.2)
    Engine.emit (.filled delivery.1 delivery.2)

/-- What a finished invocation means for the slot that was asked for. -/
def settle (layer : Layer) (key : Key) (source : Registered) :
    Except ResolutionError Yield → Engine Answer
  | .error error => return .error error
  | .ok (.failed message) => return .error (.failed key source.generator.signature message)
  | .ok (.nil output) => return .error (.nilResult output source.generator.signature)
  | .ok (.products values) => do
    (deliveries layer.scope source values).forM deliver
    match (← get).memory.filled.find? (layer.scope.site key) with
    | some value => return .ok value
    | none => return .error (.mismatch key)

/-- Tells the log and the observers how a run ended. -/
def report (layer : Layer) (key : Key) (source : Registered) : Answer → Engine Unit
  | .ok _ => do
    Engine.log (.finished layer.scope.id key)
    Engine.notify layer.scope (.finished layer.scope.id key source.generator.signature)
  | .error error => do
    Engine.log (.failed layer.scope.id key error)
    Engine.notify layer.scope (.failed layer.scope.id key source.generator.signature error)

/-- Ends a run whose invocation is over. Nothing of a run under a cancelled context is kept. -/
def conclude (layer : Layer) (key : Key) (source : Registered) (context : Context)
    (result : Except ResolutionError Yield) : Engine Answer := do
  let answer ←
    if context.isCancelled (← get).signals then pure (.error (.canceled key))
    else settle layer key source result
  report layer key source answer
  return answer

/-- Runs the generator behind an empty slot. -/
def produce (resolve : Resolver) (perform : Command → Engine Reply) (layer : Layer) (key : Key)
    (source : Registered) (chain : Chain) (context : Context) : Engine Answer := do
  let scope := layer.scope
  let outputs := Key.sort (scope.fedBy source)
  let sites := outputs.map scope.site
  if sites.any (← get).held.contains then throw .blocked
  Engine.holding sites do
    let chain := ⟨scope.id, key, outputs⟩ :: chain
    Engine.notify scope (.started scope.id key source.generator.signature)
    Engine.log (.running scope.id key source.generator.signature chain.length)
    let result ← invoke resolve perform layer source chain context
    conclude layer key source context result

/-- Runs the generator behind an empty slot unless something keeps it from being started. -/
def runGenerator (resolve : Resolver) (perform : Command → Engine Reply) : Runner :=
  fun layer key source cyclic chain context => do
    let obstacle := obstacle? layer key source cyclic chain context (← get).signals
    Engine.emit (.attempted (layer.scope.site key) chain obstacle)
    match obstacle with
    | some error =>
      Engine.notify layer.scope (.failed layer.scope.id key source.generator.signature error)
      return .error error
    | none => produce resolve perform layer key source chain context

/-- The value of a slot, from memory or by running its generator. -/
def fromSlot (run : Runner) (layer : Layer) (key : Key) (backing : Backing) (chain : Chain)
    (context : Context) : Engine Answer := do
  match (← get).memory.stored? (layer.scope.site key) backing with
  | some value =>
    Engine.log (.slotHit layer.scope.id key)
    return .ok value
  | none =>
    match backing with
    | .value value => return .ok value
    | .generated source _ cyclic => run layer key source cyclic chain context

/-- Applies the cast of an interface to the value of its source. A value bound meanwhile stays. -/
def bindValue (perform : Command → Engine Reply) (layer : Layer) (key : Key) (binding : Binding)
    (value : Value) : Engine Answer := do
  let site := layer.scope.site key
  if value.type = binding.source then
    let call ← Engine.countCast site
    Engine.emit (.casted site binding.cast.tag call value.payload)
    let payload ← Engine.run perform (binding.cast.apply call value.payload)
    Engine.log (.interfaceBound layer.scope.id key binding.source)
    Engine.remember (·.bind site ⟨key, payload⟩)
    return .ok (((← get).memory.bound.find? site).getD ⟨key, payload⟩)
  else return .error (.mismatch key)

/-- The value of an interface, from memory or through its source. -/
def fromBinding (run : Runner) (perform : Command → Engine Reply) (layer : Layer) (key : Key)
    (binding : Binding) (chain : Chain) (context : Context) : Engine Answer := do
  match (← get).memory.bound.find? (layer.scope.site key) with
  | some value => return .ok value
  | none =>
    match layer.scope.slots.find? binding.source with
    | none => return .error (.notFound binding.source)
    | some backing =>
      match ← fromSlot run layer binding.source backing chain context with
      | .error error => return .error error
      | .ok value => bindValue perform layer key binding value

/-- Keeps a value found further out, if the scope hoists. A value kept meanwhile stays. -/
def hoist (scope : Scope) (key : Key) (value : Value) : Engine Value := do
  if scope.settings.hoist then
    Engine.remember (·.importValue (scope.site key) value)
    return ((← get).memory.imported.find? (scope.site key)).getD value
  else return value

/-- Answers a request: from the slot, the interface or the imported value of the scope, and
otherwise from the scopes around it. -/
def seek (run : Runner) (perform : Command → Engine Reply) (key : Key) (chain : Chain)
    (context : Context) : Scope → List Scope → Engine Answer
  | scope, outer => do
    match scope.slots.find? key with
    | some backing => fromSlot run ⟨scope, outer⟩ key backing chain context
    | none =>
      match scope.bindings.find? key with
      | some binding => fromBinding run perform ⟨scope, outer⟩ key binding chain context
      | none =>
        match (← get).memory.imported.find? (scope.site key) with
        | some value => return .ok value
        | none =>
          match outer with
          | [] => return .error (.notFound key)
          | parent :: further =>
            Engine.notify scope (.delegated scope.id key parent.id)
            Engine.log (.delegating scope.id key parent.id)
            match ← seek run perform key chain context parent further with
            | .error error => return .error error
            | .ok value => return .ok (← hoist scope key value)

def within (run : Runner) (perform : Command → Engine Reply) : Resolver :=
  fun layer key chain context => seek run perform key chain context layer.scope layer.outer

end Resolution

end LayerGraph
