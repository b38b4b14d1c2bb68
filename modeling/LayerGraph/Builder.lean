import LayerGraph.Graph.Cyclic
import LayerGraph.Memory

/-! From registrations to a layer: the first offence ends the attempt, and a layer that comes out is
valid as a whole. -/

namespace LayerGraph

/-- Everything a layer is made from. -/
structure Builder where
  parent : Option Layer := none
  entries : List (Entry Command) := []
  overridable : List Key := []
  allowOverride : Bool := false
  permitNil : Bool := false
  locked : Bool := false
  label : Option String := none
  settings : Option Settings := none
  observers : List Observer := []

/-- An interface as registered, before it is known whether its source has a slot. -/
structure Declared where
  interface : Key
  source : Key
  cast : Cast Command

/-- What the entries read so far amount to. -/
structure Ledger where
  slots : Table Key Backing := {}
  generators : List Registered := []
  interfaces : List Declared := []
  /-- Absent values passed over, in order. -/
  skipped : List Key := []

namespace Builder

def register (builder : Builder) (entry : Entry Command) : Builder :=
  { builder with entries := builder.entries ++ [entry] }

/-- The scopes around the layer to be built. -/
def outer (builder : Builder) : List Scope :=
  match builder.parent with
  | none => []
  | some layer => layer.ancestry

def underLock (builder : Builder) : Bool := builder.outer.any Scope.locked

def markedAbove (builder : Builder) (key : Key) : Bool :=
  builder.outer.any (·.overridable.contains key)

/-- Whether a type registered before may be registered again. A builder's own marks do not count. -/
def mayReplace (builder : Builder) (key : Key) : Except BuildError Unit :=
  if !builder.allowOverride then .error (.duplicateSlot key)
  else if builder.underLock && !builder.markedAbove key then .error (.lockedOverride key)
  else .ok ()

/-- Gives a slot its backing, a later registration in place of an earlier one. -/
def occupy (builder : Builder) (slots : Table Key Backing) (key : Key) (backing : Backing) :
    Except BuildError (Table Key Backing) :=
  if slots.contains key then do
    builder.mayReplace key
    return slots.set key backing
  else .ok (slots.set key backing)

def enter (builder : Builder) (ledger : Ledger) : Entry Command → Except BuildError Ledger
  | .value key payload => do
    let slots ← builder.occupy ledger.slots key (.value ⟨key, payload⟩)
    return { ledger with slots }
  | .absent key =>
    if builder.permitNil then .ok { ledger with skipped := ledger.skipped ++ [key] }
    else .error (.nilValue key)
  | .generator generator eager => do
    generator.check
    let source : Registered := ⟨ledger.generators.length, generator⟩
    let slots ← generator.outputs.foldlM
      (fun slots output => builder.occupy slots output (.generated source eager false)) ledger.slots
    return { ledger with slots, generators := ledger.generators ++ [source] }
  | .interface interface source cast =>
    .ok { ledger with interfaces := ledger.interfaces ++ [⟨interface, source, cast⟩] }

/-- Reads entries in order up to the first offence. -/
def scan (builder : Builder) (ledger : Ledger) : List (Entry Command) → Ledger × Option BuildError
  | [] => (ledger, none)
  | entry :: rest =>
    match builder.enter ledger entry with
    | .ok ledger => builder.scan ledger rest
    | .error error => (ledger, some error)

def ledger (builder : Builder) : Ledger × Option BuildError := builder.scan {} builder.entries

/-- Binds one interface to a slot of this layer. -/
def bindInterface (builder : Builder) (slots : Table Key Backing) (bindings : Table Key Binding)
    (declared : Declared) : Except BuildError (Table Key Binding) :=
  if !slots.contains declared.source then
    .error (.missingImplementation declared.interface declared.source)
  else
    match bindings.find? declared.interface with
    | some previous =>
      if builder.allowOverride then
        .ok (bindings.set declared.interface ⟨declared.source, declared.cast⟩)
      else .error (.ambiguousInterface declared.interface previous.source declared.source)
    | none => .ok (bindings.set declared.interface ⟨declared.source, declared.cast⟩)

/-- The generators that still feed a slot. -/
def feeding (slots : Table Key Backing) (generators : List Registered) : List Registered :=
  generators.filter fun source =>
    source.generator.outputs.any fun output =>
      (slots.find? output).any (Backing.isFedBy source.place)

/-- The first required parameter that nothing here or further out provides. -/
def unresolvable? (builder : Builder) (memory : Memory) (slots : Table Key Backing)
    (bindings : Table Key Binding) (generators : List Registered) : Option BuildError :=
  generators.findSome? fun source =>
    (source.generator.declarations.filterMap Declaration.requiredKey?).findSome? fun key =>
      if slots.contains key || bindings.contains key ||
          builder.parent.any (·.canResolve memory key) then none
      else some (.unresolvableParameter key source.generator.signature)

/-- The index, among the given generators, of the one behind a type. -/
def producer? (slots : Table Key Backing) (bindings : Table Key Binding)
    (generators : List Registered) (key : Key) : Option Nat := do
  let slot ← if slots.contains key then some key else (bindings.find? key).map Binding.source
  let source ← (← slots.find? slot).source?
  generators.findIdx? (·.place == source.place)

/-- The places of the generators that depend on themselves within this layer. -/
def cyclicPlaces (slots : Table Key Backing) (bindings : Table Key Binding)
    (generators : List Registered) : List Nat :=
  let successors (index : Nat) : List Nat :=
    match generators[index]? with
    | none => []
    | some source =>
      (source.generator.declarations.filterMap Declaration.key?).filterMap
        (producer? slots bindings generators)
  let flags := Graph.cyclicNodes generators.length successors
  ((generators.zip flags).filter (·.2)).map (·.1.place)

def markCyclic (places : List Nat) : Backing → Backing
  | .value value => .value value
  | .generated source eager _ => .generated source eager (places.contains source.place)

/-- Checks everything and puts the layer together under the given id. The entries are read first,
then the interfaces, then the parameters of the generators that are left. -/
def assemble (builder : Builder) (memory : Memory) (id : Nat) : Except BuildError Layer :=
  match builder.ledger with
  | (_, some error) => .error error
  | (ledger, none) => do
    let bindings ← ledger.interfaces.foldlM (builder.bindInterface ledger.slots) {}
    let generators := feeding ledger.slots ledger.generators
    match builder.unresolvable? memory ledger.slots bindings generators with
    | some error => .error error
    | none =>
      let places := cyclicPlaces ledger.slots bindings generators
      let inherited := builder.parent.map (·.scope.settings)
      return {
        scope := {
          id
          label := builder.label
          locked := builder.locked
          slots := ⟨ledger.slots.entries.map fun (key, backing) => (key, markCyclic places backing)⟩
          bindings
          overridable := builder.overridable
          settings := (builder.settings <|> inherited).getD {}
          observers := (builder.parent.map (·.scope.observers)).getD [] ++ builder.observers }
        outer := builder.outer }

/-- The absent values passed over before the entries ended or an offence was found. -/
def skipped (builder : Builder) : List Key := builder.ledger.1.skipped

end Builder

end LayerGraph
