import LayerGraph.Cancellation
import LayerGraph.Reply
import LayerGraph.Signature
import LayerGraph.Text.Quoted

/-! Values, and the outside code that makes them: generators and casts. -/

namespace LayerGraph

/-- A value together with the type it was stored as. -/
structure Value where
  type : Key
  payload : String
  deriving DecidableEq, Inhabited, Repr

/-- What a generator receives for one parameter. -/
inductive Argument where
  | value (value : Value)
  | absent
  | context (layer : Nat) (standing : Standing)
  | untouched
  deriving DecidableEq, Repr

/-- What a generator hands over when it returns. -/
inductive Yield where
  | products (values : List Value)
  | nil (output : Key)
  | failed (message : String)
  deriving DecidableEq, Repr

/-- What code outside the engine does until it returns: it may cancel tokens, let time pass, look
at the thread it runs on, and give commands to the engine. -/
inductive Act (κ α : Type) where
  | done (result : α)
  | panic (message : String)
  | cancel (token : String) (next : Act κ α)
  | elapse (time : Nat) (next : Act κ α)
  | noteThread (next : Act κ α)
  | perform (command : κ) (next : Reply → Act κ α)

/-- A function that produces the values of one or more types. Its body may depend on how often it
has run before. -/
structure Generator (κ : Type) where
  tag : String
  function : String
  parameters : List Parameter
  outputs : List Key
  body : Nat → List Argument → Act κ Yield

/-- A function that turns a value of one type into a value of an interface. -/
structure Cast (κ : Type) where
  tag : String
  apply : Nat → String → Act κ String

namespace Argument

def word (b : Bool) : String := if b then "true" else "false"

def text : Argument → String
  | .value v => v.payload
  | .absent => "-"
  | .untouched => "~"
  | .context layer standing =>
    let deadline :=
      match standing.expired with
      | none => "none"
      | some true => "past"
      | some false => "future"
    s!"ctx@{layer}(cancelled=" ++ word standing.cancelled ++ ",token=" ++
      word standing.tokenCancelled ++ ",deadline=" ++ deadline ++ ")"

end Argument

namespace Generator

variable {κ : Type}

def declarations (generator : Generator κ) : List Declaration :=
  generator.parameters.map Parameter.declared

def signature (generator : Generator κ) : String :=
  Signature.render generator.function generator.declarations generator.outputs

/-- The generator as diagnostics show it. -/
def debug (generator : Generator κ) : String :=
  "Generator \x7b signature: " ++ Text.quoted generator.signature ++ " \x7d"

/-- What the shape of a generator rules out, whatever layer it is registered in. -/
def check (generator : Generator κ) : Except BuildError Unit :=
  if generator.outputs.isEmpty then .error (.noOutputs generator.signature)
  else if 1 < (generator.declarations.filter Declaration.isContext).length then
    .error (.invalidGenerator generator.signature "more than one CallContext parameter")
  else if generator.outputs.Nodup then .ok ()
  else .error (.invalidGenerator generator.signature "the same type is produced twice")

end Generator

end LayerGraph
