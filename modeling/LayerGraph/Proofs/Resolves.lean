import LayerGraph.Session

/-! The rules by which a request for a type is answered.

`Resolves` relates a request and the world it is made in to its answer and the world after it, with
one rule for each way to an answer. What holds of every derivation holds of every request that the
engine answers. -/

namespace LayerGraph

theorem Supply.refusal?_failed {supply : Supply} {error : ResolutionError}
    (h : supply.refusal? = some error) :
    ∃ key generator source brought, error = .failed key generator source brought := by
  cases supply with
  | refusing key generator source brought => exact ⟨_, _, _, _, (Option.some.inj h).symm⟩
  | context | required | optional | nothing => cases h

namespace World

/-- A product reaches its slot, or is lost if the slot has a value. -/
def deliver (world : World) (delivery : Site × Value) : World :=
  if world.memory.filled.contains delivery.1 then world.emit (.dropped delivery.1 delivery.2)
  else
    { world with memory := world.memory.fill delivery.1 delivery.2 }.emit
      (.filled delivery.1 delivery.2)

def report (world : World) (scope : Scope) (key : Key) (source : Registered) : Answer → World
  | .ok _ =>
    (world.emit (.logged (.finished scope.id key))).emitAll
      (scope.observers.map (Event.noticed · (.finished scope.id key source.generator.signature)))
  | .error error =>
    (world.emit (.logged (.failed scope.id key error))).emitAll
      (scope.observers.map
        (Event.noticed · (.failed scope.id key source.generator.signature error)))

/-- The world in which a run begins: its slots are locked, and its start is told. -/
def start (world : World) (scope : Scope) (key : Key) (source : Registered) (chain : Chain) :
    World :=
  let outputs := Key.sort (scope.fedBy source)
  (({ world.emit (.attempted (scope.site key) chain none) with
        held := outputs.map scope.site ++ world.held }.emitAll
      (scope.observers.map
        (Event.noticed · (.started scope.id key source.generator.signature)))).emit
    (.logged (.running scope.id key source.generator.signature (chain.length + 1))))

def obstruct (world : World) (scope : Scope) (key : Key) (source : Registered) (chain : Chain)
    (error : ResolutionError) : World :=
  (world.emit (.attempted (scope.site key) chain (some error))).emitAll
    (scope.observers.map (Event.noticed · (.failed scope.id key source.generator.signature error)))

def nextRun (world : World) (scope : Scope) (source : Registered) : Nat :=
  (world.runs.find? (scope.id, source.place)).getD 0 + 1

def enterBody (world : World) (scope : Scope) (source : Registered) (arguments : List Argument) :
    World :=
  let run := world.nextRun scope source
  { world with runs := world.runs.set (scope.id, source.place) run }.emit
    (.ran scope.id source.place source.generator.tag run arguments)

def nextCast (world : World) (site : Site) : Nat := (world.casts.find? site).getD 0 + 1

def enterCast (world : World) (site : Site) (binding : Binding) (payload : String) : World :=
  let call := world.nextCast site
  { world with casts := world.casts.set site call }.emit
    (.casted site binding.cast.tag call payload)

def bind (world : World) (scope : Scope) (key : Key) (binding : Binding) (payload : String) :
    World :=
  let world := world.emit (.logged (.interfaceBound scope.id key binding.source))
  { world with memory := world.memory.bind (scope.site key) ⟨key, payload⟩ }

/-- A scope keeps a value found further out, if it is to and has none. -/
def hoist (world : World) (scope : Scope) (key : Key) (value : Value) : World :=
  if scope.settings.hoist then
    { world with memory := world.memory.importValue (scope.site key) value }
  else world

def delegate (world : World) (scope : Scope) (key : Key) (parent : Scope) : World :=
  (world.emitAll
      (scope.observers.map (Event.noticed · (.delegated scope.id key parent.id)))).emit
    (.logged (.delegating scope.id key parent.id))

end World

namespace Scope

def locks (scope : Scope) (source : Registered) : List Site :=
  (Key.sort (scope.fedBy source)).map scope.site

def frame (scope : Scope) (key : Key) (source : Registered) : Frame :=
  ⟨scope.id, key, Key.sort (scope.fedBy source)⟩

end Scope

namespace Session

def handler : Nat → Command → Engine Reply
  | 0 => fun _ => throw .outOfFuel
  | fuel + 1 => perform (resolver fuel)

end Session

namespace Resolution

/-- What a finished invocation comes to, and the world with its products delivered. -/
def outcome (layer : Layer) (key : Key) (source : Registered) (context : Context)
    (result : Except ResolutionError Yield) (world : World) : Answer × World :=
  if context.isCancelled world.signals then (.error (.canceled key), world)
  else
    match result with
    | .error error => (.error error, world)
    | .ok (.failed message) => (.error (.failed key source.generator.signature message), world)
    | .ok (.nil output) => (.error (.nilResult output source.generator.signature), world)
    | .ok (.products values) =>
      let world := (deliveries layer.scope source values).foldl World.deliver world
      match world.memory.filled.find? (layer.scope.site key) with
      | some value => (.ok value, world)
      | none => (.error (.mismatch key), world)

/-- The ways in which a finished invocation comes to an answer. -/
inductive Outcome (layer : Layer) (key : Key) (source : Registered) (context : Context)
    (world : World) : Except ResolutionError Yield → Answer × World → Prop
  | canceled {result} (lapsed : context.isCancelled world.signals = true) :
      Outcome layer key source context world result (.error (.canceled key), world)
  | refused {error} (live : context.isCancelled world.signals = false) :
      Outcome layer key source context world (.error error) (.error error, world)
  | failed {message} (live : context.isCancelled world.signals = false) :
      Outcome layer key source context world (.ok (.failed message))
        (.error (.failed key source.generator.signature message), world)
  | nil {output} (live : context.isCancelled world.signals = false) :
      Outcome layer key source context world (.ok (.nil output))
        (.error (.nilResult output source.generator.signature), world)
  | found {values delivered value} (live : context.isCancelled world.signals = false)
      (delivers : (deliveries layer.scope source values).foldl World.deliver world = delivered)
      (filled : delivered.memory.filled.find? (layer.scope.site key) = some value) :
      Outcome layer key source context world (.ok (.products values)) (.ok value, delivered)
  | unfilled {values delivered} (live : context.isCancelled world.signals = false)
      (delivers : (deliveries layer.scope source values).foldl World.deliver world = delivered)
      (empty : delivered.memory.filled.find? (layer.scope.site key) = none) :
      Outcome layer key source context world (.ok (.products values))
        (.error (.mismatch key), delivered)

theorem outcome_rule (layer : Layer) (key : Key) (source : Registered) (context : Context)
    (result : Except ResolutionError Yield) (world : World) :
    Outcome layer key source context world result
      (outcome layer key source context result world) := by
  unfold outcome
  cases live : context.isCancelled world.signals with
  | true => exact .canceled live
  | false =>
    rw [if_neg Bool.false_ne_true]
    cases result with
    | error error => exact .refused live
    | ok yield =>
      cases yield with
      | failed message => exact .failed live
      | nil output => exact .nil live
      | products values =>
        dsimp only
        split
        · next value filled => exact .found live rfl filled
        · next empty => exact .unfilled live rfl empty

/-- The end of a run: what its invocation comes to, and the world in which that has been told. -/
def finish (layer : Layer) (key : Key) (source : Registered) (context : Context)
    (result : Except ResolutionError Yield) (world : World) : Answer × World :=
  let (answer, world) := outcome layer key source context result world
  (answer, world.report layer.scope key source answer)

def hoisted (scope : Scope) (key : Key) (value : Value) (world : World) : Value :=
  if scope.settings.hoist then
    ((world.hoist scope key value).memory.imported.find? (scope.site key)).getD value
  else value

/-- One type asked for on behalf of a run, and how it was answered. -/
structure Inquiry where
  key : Key
  before : World
  result : Except Stop Answer
  after : World

/-- The arguments that the supplies of a generator come to, given the inquiries made for them. -/
inductive Gathers (layer : Layer) (context : Context) :
    List Supply → List Inquiry → World → Except Stop (Except ResolutionError (List Argument)) →
      World → Prop
  | done {world} : Gathers layer context [] [] world (.ok (.ok [])) world
  | given {supply rest inquiries world gathered after} (unasked : supply.key? = none)
      (willing : supply.refusal? = none)
      (further : Gathers layer context rest inquiries world gathered after) :
      Gathers layer context (supply :: rest) inquiries world
        (gathered.map (Except.map (given layer (context.standing world.signals) supply :: ·))) after
  | declined {supply rest world error} (unasked : supply.key? = none)
      (refusal : supply.refusal? = some error) :
      Gathers layer context (supply :: rest) [] world (.ok (.error error)) world
  | stopped {supply rest key before stop after} (asked : supply.key? = some key) :
      Gathers layer context (supply :: rest) [⟨key, before, .error stop, after⟩] before
        (.error stop) after
  | refused {supply rest key before answer after error} (asked : supply.key? = some key)
      (unacceptable : accept supply key answer = .error error) :
      Gathers layer context (supply :: rest) [⟨key, before, .ok answer, after⟩] before
        (.ok (.error error)) after
  | found {supply rest inquiries key before answer between argument gathered after}
      (asked : supply.key? = some key) (acceptable : accept supply key answer = .ok argument)
      (further : Gathers layer context rest inquiries between gathered after) :
      Gathers layer context (supply :: rest) (⟨key, before, .ok answer, between⟩ :: inquiries)
        before (gathered.map (Except.map (argument :: ·))) after

/-- What lets a generator run for an empty slot, and what its arguments come to. -/
structure Starts (layer : Layer) (key : Key) (chain : Chain) (context : Context) (world : World)
    (source : Registered) (inquiries : List Inquiry)
    (gathered : Except Stop (Except ResolutionError (List Argument))) (between : World) : Prop where
  slot : ∃ eager cyclic, layer.scope.slots.find? key = some (.generated source eager cyclic) ∧
    obstacle? layer key source cyclic chain context world.signals = none
  empty : world.memory.filled.find? (layer.scope.site key) = none
  unlocked : ¬ (layer.scope.locks source).any world.held.contains
  gathers : Gathers layer context (source.generator.parameters.map Parameter.supply) inquiries
    (world.start layer.scope key source chain) gathered between

/-- How a run ends once its arguments have come to something. -/
inductive Ends (perform : Command → Engine Reply) (layer : Layer) (key : Key) (source : Registered)
    (context : Context) (world : World) :
    Except Stop (Except ResolutionError (List Argument)) → Except Stop Answer → World → Prop
  | unsupplied {stop} :
      Ends perform layer key source context world (.error stop) (.error stop) world
  | refused {error} :
      Ends perform layer key source context world (.ok (.error error))
        (.ok (finish layer key source context (.error error) world).1)
        (finish layer key source context (.error error) world).2
  | broken {arguments stop after}
      (body : Engine.run perform
        (source.generator.body (world.nextRun layer.scope source) arguments)
        (world.enterBody layer.scope source arguments) = (.error stop, after)) :
      Ends perform layer key source context world (.ok (.ok arguments)) (.error stop) after
  | returned {arguments yield after}
      (body : Engine.run perform
        (source.generator.body (world.nextRun layer.scope source) arguments)
        (world.enterBody layer.scope source arguments) = (.ok yield, after)) :
      Ends perform layer key source context world (.ok (.ok arguments))
        (.ok (finish layer key source context (.ok yield) (after.emit (.returned layer.scope.id
          source.place (world.nextRun layer.scope source) yield))).1)
        (finish layer key source context (.ok yield) (after.emit (.returned layer.scope.id
          source.place (world.nextRun layer.scope source) yield))).2

/-- How an interface gets its value once its source has one. -/
inductive Binds (perform : Command → Engine Reply) (scope : Scope) (key : Key) (binding : Binding)
    (value : Value) (world : World) : Except Stop Answer → World → Prop
  | mistyped (other : value.type ≠ binding.source) :
      Binds perform scope key binding value world (.ok (.error (.mismatch key))) world
  | broken {stop after} (typed : value.type = binding.source)
      (cast : Engine.run perform
        (binding.cast.apply (world.nextCast (scope.site key)) value.payload)
        (world.enterCast (scope.site key) binding value.payload) = (.error stop, after)) :
      Binds perform scope key binding value world (.error stop) after
  | bound {payload after} (typed : value.type = binding.source)
      (cast : Engine.run perform
        (binding.cast.apply (world.nextCast (scope.site key)) value.payload)
        (world.enterCast (scope.site key) binding value.payload) = (.ok payload, after)) :
      Binds perform scope key binding value world
        (.ok (.ok (((after.bind scope key binding payload).memory.bound.find?
          (scope.site key)).getD ⟨key, payload⟩)))
        (after.bind scope key binding payload)

/-- How a request for a type in a layer is answered, with so much depth of nesting left: one rule
for each way to an answer. -/
inductive Resolves : Nat → Layer → Key → Chain → Context → World → Except Stop Answer → World → Prop
  | stored {fuel scope outer key chain context world backing value}
      (slot : scope.slots.find? key = some backing)
      (present : world.memory.stored? (scope.site key) backing = some value) :
      Resolves fuel ⟨scope, outer⟩ key chain context world (.ok (.ok value))
        (world.emit (.logged (.slotHit scope.id key)))
  | exhausted {scope outer key chain context world source eager cyclic}
      (slot : scope.slots.find? key = some (.generated source eager cyclic))
      (empty : world.memory.filled.find? (scope.site key) = none) :
      Resolves 0 ⟨scope, outer⟩ key chain context world (.error .outOfFuel) world
  | obstructed {fuel scope outer key chain context world source eager cyclic error}
      (slot : scope.slots.find? key = some (.generated source eager cyclic))
      (empty : world.memory.filled.find? (scope.site key) = none)
      (obstacle : obstacle? ⟨scope, outer⟩ key source cyclic chain context world.signals =
        some error) :
      Resolves (fuel + 1) ⟨scope, outer⟩ key chain context world (.ok (.error error))
        (world.obstruct scope key source chain error)
  | blocked {fuel scope outer key chain context world source eager cyclic}
      (slot : scope.slots.find? key = some (.generated source eager cyclic))
      (empty : world.memory.filled.find? (scope.site key) = none)
      (free : obstacle? ⟨scope, outer⟩ key source cyclic chain context world.signals = none)
      (locked : (scope.locks source).any world.held.contains) :
      Resolves (fuel + 1) ⟨scope, outer⟩ key chain context world (.error .blocked)
        (world.emit (.attempted (scope.site key) chain none))
  | run {fuel scope outer key chain context world source inquiries gathered between result after}
      (starts : Starts ⟨scope, outer⟩ key chain context world source inquiries gathered between)
      (answers : ∀ inquiry ∈ inquiries,
        Resolves fuel ⟨scope, outer⟩ inquiry.key (scope.frame key source :: chain) context
          inquiry.before inquiry.result inquiry.after)
      (ends : Ends (Session.handler (fuel + 1)) ⟨scope, outer⟩ key source context between gathered
        result after) :
      Resolves (fuel + 1) ⟨scope, outer⟩ key chain context world result
        { after with held := world.held }
  | bound {fuel scope outer key chain context world binding value}
      (noSlot : scope.slots.find? key = none)
      (interface : scope.bindings.find? key = some binding)
      (present : world.memory.bound.find? (scope.site key) = some value) :
      Resolves fuel ⟨scope, outer⟩ key chain context world (.ok (.ok value)) world
  | unbacked {fuel scope outer key chain context world binding}
      (noSlot : scope.slots.find? key = none)
      (interface : scope.bindings.find? key = some binding)
      (unbound : world.memory.bound.find? (scope.site key) = none)
      (noSource : scope.slots.find? binding.source = none) :
      Resolves fuel ⟨scope, outer⟩ key chain context world (.ok (.error (.notFound binding.source)))
        world
  | unsourced {fuel scope outer key chain context world binding backing result after}
      (noSlot : scope.slots.find? key = none)
      (interface : scope.bindings.find? key = some binding)
      (unbound : world.memory.bound.find? (scope.site key) = none)
      (behind : scope.slots.find? binding.source = some backing)
      (answer : Resolves fuel ⟨scope, outer⟩ binding.source chain context world result after)
      (lost : ∀ value, result ≠ .ok (.ok value)) :
      Resolves fuel ⟨scope, outer⟩ key chain context world result after
  | cast {fuel scope outer key chain context world binding backing value between result after}
      (noSlot : scope.slots.find? key = none)
      (interface : scope.bindings.find? key = some binding)
      (unbound : world.memory.bound.find? (scope.site key) = none)
      (behind : scope.slots.find? binding.source = some backing)
      (answer : Resolves fuel ⟨scope, outer⟩ binding.source chain context world
        (.ok (.ok value)) between)
      (binds : Binds (Session.handler fuel) scope key binding value between result after) :
      Resolves fuel ⟨scope, outer⟩ key chain context world result after
  | imported {fuel scope outer key chain context world value}
      (unowned : scope.owns key = false)
      (present : world.memory.imported.find? (scope.site key) = some value) :
      Resolves fuel ⟨scope, outer⟩ key chain context world (.ok (.ok value)) world
  | missing {fuel scope key chain context world}
      (unowned : scope.owns key = false)
      (unknown : world.memory.imported.find? (scope.site key) = none) :
      Resolves fuel ⟨scope, []⟩ key chain context world (.ok (.error (.notFound key))) world
  | unavailable {fuel scope parent further key chain context world result after}
      (unowned : scope.owns key = false)
      (unknown : world.memory.imported.find? (scope.site key) = none)
      (answer : Resolves fuel ⟨parent, further⟩ key chain context
        (world.delegate scope key parent) result after)
      (lost : ∀ value, result ≠ .ok (.ok value)) :
      Resolves fuel ⟨scope, parent :: further⟩ key chain context world result after
  | delegated {fuel scope parent further key chain context world value between}
      (unowned : scope.owns key = false)
      (unknown : world.memory.imported.find? (scope.site key) = none)
      (answer : Resolves fuel ⟨parent, further⟩ key chain context
        (world.delegate scope key parent) (.ok (.ok value)) between) :
      Resolves fuel ⟨scope, parent :: further⟩ key chain context world
        (.ok (.ok (hoisted scope key value between))) (between.hoist scope key value)

end Resolution

end LayerGraph
