import LayerGraph.Session

/-! The written form of replies and of what happened. -/

namespace LayerGraph

/-- Whether a log shows its debug and trace entries. -/
abbrev Verbose := Bool

def Settings.report (settings : Settings) : Json :=
  .obj [("eager_thread_name", .str settings.threadName),
    ("hoist_parent_values", .bool settings.hoist),
    ("max_depth", .str (toString settings.maxDepth)),
    ("snapshot_on_error", .bool settings.snapshot)]

def SlotRow.report (row : SlotRow) : Json :=
  .obj [("type_name", .str row.typeName), ("status", .str row.status.word),
    ("signature", .ofOption .str row.signature), ("eager", .bool row.eager)]

namespace Key

def report (key : Key) : Json := .str key.name

end Key

def BuildError.report (error : BuildError) : Json :=
  let named (kind : String) (fields : List (String × Json)) : Json :=
    .obj ([("error", .str kind), ("message", .str error.message)] ++ fields)
  match error with
  | .duplicateSlot key => named "DuplicateSlot" [("key", key.report)]
  | .ambiguousInterface interface first second =>
    named "AmbiguousInterface"
      [("interface", interface.report), ("first", first.report), ("second", second.report)]
  | .missingImplementation interface source =>
    named "MissingImplementation" [("interface", interface.report), ("source", source.report)]
  | .lockedOverride key => named "LockedOverride" [("key", key.report)]
  | .nilValue key => named "NilValue" [("key", key.report)]
  | .noOutputs generator => named "NoOutputs" [("generator", .str generator)]
  | .invalidGenerator generator reason =>
    named "InvalidGenerator" [("generator", .str generator), ("reason", .str reason)]
  | .unresolvableParameter parameter generator =>
    named "UnresolvableParameter" [("parameter", parameter.report), ("generator", .str generator)]

def Failure.report (failure : Failure) : Json :=
  let named (kind : String) (fields : List (String × Json)) : Json :=
    .obj ([("error", .str kind), ("message", .str failure.error.message),
        ("key", failure.error.key.report)] ++ fields ++
      (match failure.snapshot with
       | some dump => [("snapshot", .str dump.text)]
       | none => []))
  match failure.error with
  | .notFound _ => named "SlotNotFound" []
  | .cyclic _ path => named "CyclicDependency" [("path", .arr (path.map Key.report))]
  | .failed _ generator source _ =>
    named "GeneratorError" [("generator", .str generator), ("source", .str source)]
  | .nilResult _ generator => named "NilGeneratorResult" [("generator", .str generator)]
  | .canceled _ => named "Canceled" []
  | .tooDeep _ limit => named "DepthExceeded" [("depth", .str (toString limit))]
  | .mismatch _ => named "TypeMismatch" []

def Profile.report (profile : Profile) : Json :=
  .obj [("id", .int profile.id), ("label", .ofOption .str profile.label),
    ("parent", .ofOption .ofNat profile.parent), ("locked", .bool profile.locked),
    ("config", profile.settings.report), ("ancestry", .arr (profile.ancestry.map .ofNat)),
    ("debug", .str profile.debug)]

namespace Reply

def ok (answer : Json) : Json := .obj [("ok", answer)]

def report : Reply → Json
  | .done => ok .null
  | .built layer => ok (.int layer)
  | .payload answer => ok (.str answer)
  | .found answer => ok (.ofOption .str answer)
  | .flag answer => ok (.bool answer)
  | .status answer => ok (.ofOption (fun status => .str status.word) answer)
  | .batch => ok (.str "done")
  | .text answer => ok (.str answer)
  | .row shown count => .obj [("ok", .ofOption SlotRow.report shown), ("count", .int count)]
  | .profile answer => ok answer.report
  | .rejected error => error.report
  | .refused failure => failure.report
  | .panicked message => .obj [("panic", .str message)]
  | .unknown name => .obj [("error", .str "BadInput"), ("message", .str s!"unknown name {name}")]

end Reply

namespace Level

def word : Level → String
  | .trace => "TRACE"
  | .debug => "DEBUG"
  | .info => "INFO"
  | .warn => "WARN"
  | .error => "ERROR"

def isShown (verbose : Verbose) : Level → Bool
  | .trace | .debug => verbose
  | .info | .warn | .error => true

end Level

/-- A log line: level, message and fields, the fields sorted by name. -/
structure LogLine where
  level : Level
  message : String
  fields : List (String × Json)

namespace LogLine

def report (line : LogLine) : Json :=
  .arr [.str "log", .str line.level.word, .str line.message, .obj line.fields]

end LogLine

namespace LogEntry

def line : LogEntry → LogLine
  | .slotHit layer key => ⟨.trace, "slot hit", [("layer", .int layer), ("ty", key.report)]⟩
  | .interfaceBound layer key source =>
    ⟨.trace, "interface bound",
      [("layer", .int layer), ("source", source.report), ("ty", key.report)]⟩
  | .delegating layer key parent =>
    ⟨.trace, "delegating to parent",
      [("layer", .int layer), ("parent", .int parent), ("ty", key.report)]⟩
  | .skippingNil key => ⟨.trace, "skipping nil value", [("ty", key.report)]⟩
  | .eagerResolved layer key =>
    ⟨.trace, "eager slot resolved", [("layer", .int layer), ("ty", key.report)]⟩
  | .running layer key generator depth =>
    ⟨.debug, "running generator", [("depth", .int depth), ("generator", .str generator),
      ("layer", .int layer), ("ty", key.report)]⟩
  | .finished layer key =>
    ⟨.debug, "generator finished", [("layer", .int layer), ("ty", key.report)]⟩
  | .failed layer key error =>
    ⟨.debug, "generator failed",
      [("error", .str error.message), ("layer", .int layer), ("ty", key.report)]⟩
  | .resolutionFailed layer key error =>
    ⟨.debug, "resolution failed",
      [("error", .str error.message), ("layer", .int layer), ("ty", key.report)]⟩
  | .nothingFound key error =>
    ⟨.debug, "try_resolve found nothing", [("error", .str error.message), ("ty", key.report)]⟩
  | .layerBuilt layer label slots parent =>
    ⟨.debug, "layer built",
      [("label", .str label), ("layer", .int layer)] ++
        (match parent with
         | some parent => [("parent", .int parent)]
         | none => []) ++
        [("slots", .int slots)]⟩
  | .eagerFailed layer key error =>
    ⟨.warn, "eager resolution failed",
      [("error", .str error.message), ("layer", .int layer), ("ty", key.report)]⟩
  | .eagerPanicked layer key message =>
    ⟨.error, "eager generator panicked",
      [("layer", .int layer), ("panic", .str message), ("ty", key.report)]⟩
  | .ignored (.boolean name value) =>
    ⟨.warn, "ignoring unparsable boolean", [("value", .str value), ("var", .str name)]⟩
  | .ignored (.value name) => ⟨.warn, "ignoring unparsable value", [("var", .str name)]⟩

/-- Whether the entry tells of an eager slot that could not be filled. -/
def isEagerFailure : LogEntry → Bool
  | .eagerFailed .. | .eagerPanicked .. => true
  | _ => false

end LogEntry

namespace Notice

/-- What a recorder writes down. -/
def record (name : String) : Notice → Json
  | .started layer key generator =>
    .arr [.str name, .str "start", .int layer, key.report, .str generator]
  | .finished layer key generator =>
    .arr [.str name, .str "finish", .int layer, key.report, .str generator]
  | .failed layer key generator error =>
    .arr [.str name, .str "fail", .int layer, key.report, .str generator, error.key.report,
      .str error.message]
  | .delegated layer key parent =>
    .arr [.str name, .str "delegate", .int layer, key.report, .int parent]

/-- What a tracing observer logs. It keeps silent about starts. -/
def traced (label : String) : Notice → Option LogLine
  | .started .. => none
  | .finished layer key generator =>
    some ⟨.info, "generator finished", [("generator", .str generator), ("label", .str label),
      ("layer", .int layer), ("ty", key.report)]⟩
  | .failed layer key generator error =>
    some ⟨.warn, "generator failed", [("error", .str error.message), ("generator", .str generator),
      ("label", .str label), ("layer", .int layer), ("ty", key.report)]⟩
  | .delegated layer key parent =>
    some ⟨.info, "delegated to parent", [("label", .str label), ("layer", .int layer),
      ("parent", .int parent), ("ty", key.report)]⟩

end Notice

namespace Event

/-- The written form of an event, if it is shown at all. -/
def report? (verbose : Verbose) : Event → Option Json
  | .noticed (.recorder name) notice => some (notice.record name)
  | .noticed .silent _ => none
  | .noticed (.tracing label) notice => (notice.traced (label.getD "stratum")).map LogLine.report
  | .ran _ _ tag run _ => some (.arr [.str "run", .str tag, .int run])
  | .casted _ tag call _ => some (.arr [.str "cast", .str tag, .int call])
  | .asked .. | .granted .. | .denied .. | .attempted .. | .returned .. | .filled .. | .dropped .. =>
    none
  | .answered reply => some (.arr [.str "during", reply.report])
  | .thread name => some (.arr [.str "thread", .ofOption .str name])
  | .logged entry => if entry.line.level.isShown verbose then some entry.line.report else none
  | .raceBegan | .raceEnded => none

/-- Whether an event is the same in whatever order tasks run side by side. -/
def survivesRace : Event → Bool
  | .ran .. => true
  | .logged entry => entry.isEagerFailure
  | _ => false

end Event

namespace Trace

/-- Splits a trace after the end of the race that it starts inside of. -/
def splitRace : Nat → List Event → List Event × List Event
  | _, [] => ([], [])
  | depth, .raceBegan :: rest =>
    let (inside, after) := splitRace (depth + 1) rest
    (.raceBegan :: inside, after)
  | 0, .raceEnded :: rest => ([], rest)
  | depth + 1, .raceEnded :: rest =>
    let (inside, after) := splitRace depth rest
    (.raceEnded :: inside, after)
  | depth, event :: rest =>
    let (inside, after) := splitRace depth rest
    (event :: inside, after)

/-- What is certain about a race: the events whose order does not matter, sorted by their text. -/
def settleRace (verbose : Verbose) (events : List Event) : List Json :=
  ((events.filter Event.survivesRace).filterMap (Event.report? verbose)).mergeSort
    fun a b => a.compact ≤ b.compact

theorem splitRace_length (depth : Nat) (events : List Event) :
    (splitRace depth events).2.length ≤ events.length := by
  fun_induction splitRace depth events <;> simp_all <;> omega

/-- The written form of a trace. -/
def report (verbose : Verbose) (events : List Event) : List Json :=
  match events with
  | [] => []
  | .raceBegan :: rest =>
    settleRace verbose (splitRace 0 rest).1 ++ report verbose (splitRace 0 rest).2
  | event :: rest => (event.report? verbose).toList ++ report verbose rest
termination_by events.length
decreasing_by
  · have := splitRace_length 0 rest
    simp only [List.length_cons]
    omega
  · simp

end Trace

def Session.Step.report (verbose : Verbose) (step : Session.Step) : Json :=
  let events :=
    match Trace.report verbose step.events with
    | [] => []
    | events => [("events", Json.arr events)]
  match step.reply with
  | .error .blocked => .obj ([("error", .str "Blocked")] ++ events)
  | .error .outOfFuel => .obj ([("error", .str "OutOfFuel")] ++ events)
  | .error (.panic message) => .obj ([("panic", .str message)] ++ events)
  | .ok reply =>
    match reply.report with
    | .obj members => .obj (members ++ events)
    | other => other

end LayerGraph
