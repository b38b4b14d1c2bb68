import LayerGraph.Parameter

/-! One-line signatures of generators. -/

namespace LayerGraph.Signature

/-- Cuts a reversed path at its last separator: the reversed last segment, and the reversed path
before it when there is a separator. -/
def cutLast : List Char → List Char × Option (List Char)
  | [] => ([], none)
  | ':' :: ':' :: before => ([], some before)
  | c :: rest => (c :: (cutLast rest).1, (cutLast rest).2)

def closureMark : List Char := "\x7b\x7bclosure\x7d\x7d".toList

/-- The label of a function: of its type name up to the first angle bracket, the last segment,
and for a closure also the segment before it. -/
def labelOf (function : List Char) : List Char :=
  let path := function.takeWhile (· ≠ '<')
  match cutLast path.reverse with
  | (last, before) =>
    if last.reverse = closureMark then
      match before with
      | some outer => (cutLast outer).1.reverse ++ "::".toList ++ closureMark
      | none => closureMark
    else last.reverse

def label (function : String) : String := String.ofList (labelOf function.toList)

def outputText : List Key → String
  | [] => "()"
  | [key] => key.shortName
  | keys => "(" ++ ", ".intercalate (keys.map Key.shortName) ++ ")"

/-- One line that names a function, its parameters and its outputs. -/
def render (function : String) (parameters : List Declaration) (outputs : List Key) : String :=
  label function ++ "(" ++ ", ".intercalate (parameters.map Declaration.text) ++ ") -> " ++
    outputText outputs

end LayerGraph.Signature
