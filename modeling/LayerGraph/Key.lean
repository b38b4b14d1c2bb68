/-! Names of types: how they are shortened, shown and ordered. -/

namespace LayerGraph

/-- The name of a type. Two types are the same exactly when their names are. -/
structure Key where
  name : String
  deriving DecidableEq, Hashable, Inhabited, Repr

namespace Key

/-- Characters that end a path inside a type name. -/
def isDelimiter (c : Char) : Bool :=
  ['<', '>', ',', ' ', '(', ')', '[', ']', ';', '&', '*'].contains c

/-- Scans a type name with the path segment read so far, newest character first.
A colon drops the segment; a delimiter, or the end, writes it out. -/
def shortenFrom (segment : List Char) : List Char → List Char
  | [] => segment.reverse
  | c :: rest =>
    if c = ':' then shortenFrom [] rest
    else if isDelimiter c then segment.reverse ++ c :: shortenFrom [] rest
    else shortenFrom (c :: segment) rest

def shorten (name : List Char) : List Char := shortenFrom [] name

/-- The type name without module paths, also inside generic arguments. -/
def shortName (key : Key) : String := String.ofList (shorten key.name.toList)

/-- The key as diagnostics show it. -/
def debug (key : Key) : String := s!"TypeKey({key.name})"

/-- Keys are ordered by name, code point by code point. -/
instance : Ord Key := ⟨fun a b => compare a.name b.name⟩

def le (a b : Key) : Bool := decide (a.name ≤ b.name)

def sort (keys : List Key) : List Key := keys.mergeSort le

/-- The type that a value produced for `key` by mistake has: never `key` itself. -/
def other (key : Key) : Key := ⟨key.name ++ "?"⟩

end Key

/-- A type as seen from one layer. -/
structure Site where
  layer : Nat
  key : Key
  deriving DecidableEq, Repr

end LayerGraph
