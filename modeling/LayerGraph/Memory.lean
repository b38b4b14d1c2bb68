import LayerGraph.Layer

/-! What requests leave behind, and what a layer shows of it. -/

namespace LayerGraph

/-- The values that requests have left behind. -/
structure Memory where
  /-- Values of slots whose generator has run. -/
  filled : Table Site Value := {}
  /-- Values of interfaces whose cast has been applied. -/
  bound : Table Site Value := {}
  /-- Values found in an outer layer. -/
  imported : Table Site Value := {}
  deriving Inhabited

namespace Memory

/-- The value that a slot has, if it has one. -/
def stored? (memory : Memory) (site : Site) : Backing → Option Value
  | .value value => some value
  | .generated .. => memory.filled.find? site

def fill (memory : Memory) (site : Site) (value : Value) : Memory :=
  { memory with filled := memory.filled.add site value }

def bind (memory : Memory) (site : Site) (value : Value) : Memory :=
  { memory with bound := memory.bound.add site value }

def importValue (memory : Memory) (site : Site) (value : Value) : Memory :=
  { memory with imported := memory.imported.add site value }

/-- The types for which a layer holds a value of an outer layer. -/
def importedKeys (memory : Memory) (layer : Nat) : List Key :=
  (memory.imported.keys.filter (·.layer = layer)).map Site.key

end Memory

namespace Scope

def site (scope : Scope) (key : Key) : Site := ⟨scope.id, key⟩

def slotStatus (scope : Scope) (memory : Memory) (key : Key) : Backing → Status
  | .value _ => .value
  | .generated .. => if memory.filled.contains (scope.site key) then .resolved else .pending

/-- How this scope itself would answer for a type. An interface has the status of its slot. -/
def status? (scope : Scope) (memory : Memory) (key : Key) : Option Status :=
  match scope.slots.find? key with
  | some backing => some (scope.slotStatus memory key backing)
  | none =>
    match scope.bindings.find? key with
    | some binding =>
      (scope.slots.find? binding.source).map (scope.slotStatus memory binding.source)
    | none => if memory.imported.contains (scope.site key) then some .imported else none

/-- Whether this scope has a slot, an interface or an imported value for a type. -/
def knows (scope : Scope) (memory : Memory) (key : Key) : Bool :=
  scope.owns key || memory.imported.contains (scope.site key)

def dump (scope : Scope) (memory : Memory) : LayerDump :=
  let slots := scope.slots.entries.map fun (key, backing) =>
    { typeName := key.name
      status := scope.slotStatus memory key backing
      signature := backing.source?.map (·.generator.signature)
      eager := backing.isEager : SlotRow }
  let imports := (memory.importedKeys scope.id).map fun key =>
    { typeName := key.name, status := .imported, signature := none, eager := false : SlotRow }
  let interfaces := scope.bindings.entries.map fun (interface, binding) =>
    { interface := interface.name
      source := binding.source.name
      bound := memory.bound.contains (scope.site interface) : InterfaceRow }
  LayerDump.sort
    { id := scope.id
      label := scope.label
      locked := scope.locked
      slots := slots ++ imports
      interfaces := interfaces }

end Scope

namespace Layer

def canResolve (layer : Layer) (memory : Memory) (key : Key) : Bool :=
  layer.ancestry.any (·.knows memory key)

def dump (layer : Layer) (memory : Memory) : Dump := ⟨layer.ancestry.map (·.dump memory)⟩

end Layer

end LayerGraph
