import LayerGraph.Json

/-! Listings of the state of layers, as text and as JSON. -/

namespace LayerGraph

/-- Where the value of a slot comes from. -/
inductive Status where
  | value
  | pending
  | resolved
  | imported
  deriving DecidableEq, Repr

namespace Status

def word : Status → String
  | .value => "value"
  | .pending => "pending"
  | .resolved => "resolved"
  | .imported => "imported"

/-- The name under which a status is exported. -/
def exportName : Status → String
  | .value => "DirectValue"
  | .pending => "GeneratorPending"
  | .resolved => "GeneratorResolved"
  | .imported => "ImportedFromParent"

def rank : Status → Nat
  | .value => 0
  | .pending => 1
  | .resolved => 2
  | .imported => 3

end Status

/-- One slot, or one imported value, of a dumped layer. -/
structure SlotRow where
  typeName : String
  status : Status
  signature : Option String
  eager : Bool
  deriving DecidableEq, Repr

structure InterfaceRow where
  interface : String
  source : String
  bound : Bool
  deriving DecidableEq, Repr

structure LayerDump where
  id : Nat
  label : Option String
  locked : Bool
  slots : List SlotRow
  interfaces : List InterfaceRow
  deriving DecidableEq, Repr

/-- The state of a layer and the layers around it, innermost first. -/
structure Dump where
  layers : List LayerDump
  deriving DecidableEq, Repr

/-- Fills a text up with blanks to so many characters. -/
def padTo (width : Nat) (text : String) : String :=
  text ++ String.ofList (List.replicate (width - text.length) ' ')

namespace SlotRow

/-- Rows are ordered by type name, then by status. -/
def le (a b : SlotRow) : Bool :=
  if a.typeName = b.typeName then a.status.rank ≤ b.status.rank else a.typeName ≤ b.typeName

def text (width : Nat) (row : SlotRow) : String :=
  "  " ++ padTo width row.typeName ++ "  " ++ padTo 8 row.status.word ++
    (match row.signature with
     | some signature => "  " ++ signature
     | none => "") ++
    (if row.eager then "  [eager]" else "") ++ "\n"

def toJson (row : SlotRow) : Json :=
  .obj [("type_name", .str row.typeName), ("status", .str row.status.exportName),
    ("signature", .ofOption .str row.signature), ("eager", .bool row.eager)]

end SlotRow

namespace InterfaceRow

def le (a b : InterfaceRow) : Bool := a.interface ≤ b.interface

def text (row : InterfaceRow) : String :=
  "  " ++ row.interface ++ " => " ++ row.source ++ (if row.bound then "  (bound)" else "") ++ "\n"

def toJson (row : InterfaceRow) : Json :=
  .obj [("interface", .str row.interface), ("source", .str row.source), ("bound", .bool row.bound)]

end InterfaceRow

namespace LayerDump

def sort (layer : LayerDump) : LayerDump :=
  { layer with
    slots := layer.slots.mergeSort SlotRow.le
    interfaces := layer.interfaces.mergeSort InterfaceRow.le }

/-- The width of the name column: the longest name, counted in bytes. -/
def width (layer : LayerDump) : Nat :=
  layer.slots.foldl (fun n row => max n row.typeName.utf8ByteSize) 0

def heading (layer : LayerDump) : String :=
  "layer " ++ toString layer.id ++
    (match layer.label with
     | some label => " \"" ++ label ++ "\""
     | none => "") ++
    (if layer.locked then " (locked)" else "") ++ "\n"

def text (layer : LayerDump) : String :=
  layer.heading ++ String.join (layer.slots.map (SlotRow.text layer.width)) ++
    String.join (layer.interfaces.map InterfaceRow.text)

def slot? (layer : LayerDump) (typeName : String) : Option SlotRow :=
  layer.slots.find? (·.typeName == typeName)

def toJson (layer : LayerDump) : Json :=
  .obj [("id", .int layer.id), ("label", .ofOption .str layer.label),
    ("locked", .bool layer.locked),
    ("slots", .arr (layer.slots.map SlotRow.toJson)),
    ("interfaces", .arr (layer.interfaces.map InterfaceRow.toJson))]

end LayerDump

namespace Dump

/-- The layers one after the other with an empty line between them. -/
def text (dump : Dump) : String := "\n".intercalate (dump.layers.map LayerDump.text)

/-- The row of the innermost layer that has one of that name. -/
def find? (dump : Dump) (typeName : String) : Option SlotRow :=
  dump.layers.findSome? (·.slot? typeName)

def slotCount (dump : Dump) : Nat :=
  dump.layers.foldl (fun count layer => count + layer.slots.length) 0

def toJson (dump : Dump) : Json := .obj [("layers", .arr (dump.layers.map LayerDump.toJson))]

end Dump

end LayerGraph
