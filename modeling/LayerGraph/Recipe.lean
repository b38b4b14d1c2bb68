import LayerGraph.Command

/-! Generators and casts that follow a script. -/

namespace LayerGraph

/-- What one run of a scripted generator does, in the order of the fields. -/
structure Run where
  noteThread : Bool := false
  during : List Command := []
  cancel : Option String := none
  panic : Option String := none
  failure : Option String := none
  /-- The outputs that come out absent. -/
  nil : List Nat := []
  /-- The outputs that come out as a value of another type. -/
  wrong : List Nat := []
  /-- How many outputs are handed over, if not all. -/
  short : Option Nat := none

/-- A generator whose runs are listed one by one; the last of them repeats. -/
structure Recipe where
  tag : String
  parameters : List Parameter := []
  outputs : List Key := []
  runs : List Run := []
  /-- Leave the arguments out of the payloads. -/
  brief : Bool := false
  function : Option String := none

namespace Recipe

/-- Gives commands one after the other whatever the replies are. -/
def performAll {α : Type} (next : Act Command α) : List Command → Act Command α
  | [] => next
  | command :: rest => .perform command fun _ => performAll next rest

def runAt (recipe : Recipe) (run : Nat) : Run :=
  (recipe.runs[min run recipe.runs.length - 1]?).getD {}

/-- How an argument shows in a payload. A named function sees of its context only whether it is
cancelled. -/
def argumentText (recipe : Recipe) (argument : Argument) : String :=
  match recipe.function, argument with
  | some _, .context _ standing => Argument.word standing.cancelled
  | _, argument => argument.text

def payload (recipe : Recipe) (run output : Nat) (arguments : List Argument) : String :=
  s!"{recipe.tag}#{run}.{output}" ++
    (if recipe.brief then "" else "[" ++ ",".intercalate (arguments.map recipe.argumentText) ++ "]")

/-- The outputs of a run. An absent output counts even if it is not to be handed over. -/
def yield (recipe : Recipe) (run : Nat) (arguments : List Argument) (script : Run) : Yield :=
  let isNil (i : Nat) : Bool := script.nil.contains i && !script.wrong.contains i
  match recipe.outputs.zipIdx.find? (isNil ·.2) with
  | some (output, _) => .nil output
  | none =>
    let values := recipe.outputs.zipIdx.map fun (output, i) =>
      { type := if script.wrong.contains i then output.other else output
        payload := recipe.payload run i arguments : Value }
    .products (values.take (script.short.getD values.length))

def body (recipe : Recipe) (run : Nat) (arguments : List Argument) : Act Command Yield :=
  let script := recipe.runAt run
  let ending : Act Command Yield :=
    match script.panic with
    | some message => .panic message
    | none =>
      match script.failure with
      | some message => .done (.failed message)
      | none => .done (recipe.yield run arguments script)
  let cancelling :=
    match script.cancel with
    | some token => .cancel token ending
    | none => ending
  let performing := performAll cancelling script.during
  if script.noteThread then .noteThread performing else performing

/-- The name of a function that is not named: a closure inside a generic function. -/
def closureName : String := "make<_>::\x7b\x7bclosure\x7d\x7d"

def generator (recipe : Recipe) : Generator Command :=
  { tag := recipe.tag
    function := recipe.function.getD closureName
    parameters := recipe.parameters
    outputs := recipe.outputs
    body := recipe.body }

end Recipe

/-- A cast that marks the payload, and gives commands the first time it is applied. -/
def scriptedCast (tag : String) (during : List Command) : Cast Command :=
  { tag
    apply := fun call source =>
      Recipe.performAll (.done (s!"{tag}~{call}<{source}>")) (if call = 1 then during else []) }

end LayerGraph
