import LayerGraph.Memory

/-! The state that commands act on, and the computations that change it. -/

namespace LayerGraph

/-- Everything that commands can see or change. -/
structure World where
  layers : Table String Layer := {}
  /-- Every layer built so far, newest first. A layer without a name may still be an outer one. -/
  built : List Layer := []
  tokens : Table String Token := {}
  memory : Memory := {}
  /-- How often the generator at a place of a layer has run. -/
  runs : Table (Nat × Nat) Nat := {}
  /-- How often the cast to an interface of a layer has been applied. -/
  casts : Table Site Nat := {}
  nextLayer : Nat := 1
  nextToken : Nat := 0
  signals : Signals := {}
  /-- The slots locked by the runs in progress. -/
  held : List Site := []
  /-- The name of the thread at work, if it has one. -/
  thread : Option String := none
  /-- What has happened, newest first. -/
  trace : List Event := []

/-- Why control never comes back from something. -/
inductive Stop where
  | panic (message : String)
  /-- A request waits for a slot that its own caller holds. -/
  | blocked
  | outOfFuel
  deriving DecidableEq, Repr

/-- A computation on the world. One that stops leaves the world as it was at that moment. -/
abbrev Engine := ExceptT Stop (StateM World)

namespace World

def emit (event : Event) (world : World) : World := { world with trace := event :: world.trace }

def emitAll (events : List Event) (world : World) : World :=
  { world with trace := events.reverse ++ world.trace }

def cancel (token : Token) (world : World) : World :=
  { world with
    signals := { world.signals with cancelled := token.id :: world.signals.cancelled } }

/-- Lets time pass. Only code that is run takes time: what is done around it takes none. -/
def elapse (time : Nat) (world : World) : World :=
  { world with signals := { world.signals with now := world.signals.now + time } }

/-- Takes up a new layer, and with it the next id. -/
def enter (layer : Layer) (world : World) : World :=
  { world with nextLayer := world.nextLayer + 1, built := layer :: world.built }

/-- The context that terms mean at this moment. -/
def contextOf (world : World) (terms : Terms) : Context :=
  { token := terms.token.bind world.tokens.find?
    deadline := terms.deadline.map (Deadline.instant world.signals.now) }

end World

namespace Engine

def emit (event : Event) : Engine Unit := modify (World.emit event)

def log (entry : LogEntry) : Engine Unit := emit (.logged entry)

/-- Tells every observer of a scope, in the order in which they were added. -/
def notify (scope : Scope) (notice : Notice) : Engine Unit :=
  modify (World.emitAll (scope.observers.map (Event.noticed · notice)))

def remember (change : Memory → Memory) : Engine Unit :=
  modify fun world => { world with memory := change world.memory }

/-- Counts one more run of a generator and yields its number. -/
def countRun (layer place : Nat) : Engine Nat :=
  modifyGet fun world =>
    let run := (world.runs.find? (layer, place)).getD 0 + 1
    (run, { world with runs := world.runs.set (layer, place) run })

/-- Counts one more call of a cast and yields its number. -/
def countCast (site : Site) : Engine Nat :=
  modifyGet fun world =>
    let call := (world.casts.find? site).getD 0 + 1
    (call, { world with casts := world.casts.set site call })

/-- Holds locks for as long as something takes, however it ends. -/
def holding {α : Type} (sites : List Site) (action : Engine α) : Engine α := fun world =>
  let (result, after) := action { world with held := sites ++ world.held }
  (result, { after with held := world.held })

/-- Does something on a thread of that name. -/
def onThread {α : Type} (name : String) (action : Engine α) : Engine α := fun world =>
  let (result, after) := action { world with thread := some name }
  (result, { after with thread := world.thread })

/-- Does something and turns a panic into an answer. -/
def catchPanic {α : Type} (action : Engine α) (answer : String → Engine α) : Engine α :=
  fun world =>
    match action world with
    | (.error (.panic message), after) => answer message after
    | (result, after) => (result, after)

/-- Lets outside code run. Its commands are carried out and their replies recorded. -/
def run {α : Type} (perform : Command → Engine Reply) : Act Command α → Engine α
  | .done result => pure result
  | .panic message => throw (.panic message)
  | .cancel name next => do
    modify fun world =>
      match world.tokens.find? name with
      | some token => world.cancel token
      | none => world
    run perform next
  | .elapse time next => do
    modify (World.elapse time)
    run perform next
  | .noteThread next => do
    emit (.thread (← get).thread)
    run perform next
  | .perform command next => do
    let reply ← perform command
    emit (.answered reply)
    run perform (next reply)

end Engine

end LayerGraph
