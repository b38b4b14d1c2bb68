import LayerGraph.Error
import LayerGraph.Settings

/-! What a command answers. -/

namespace LayerGraph

/-- What a layer tells about itself. -/
structure Profile where
  id : Nat
  label : Option String
  parent : Option Nat
  locked : Bool
  settings : Settings
  ancestry : List Nat
  debug : String
  deriving DecidableEq, Repr

/-- The answer to a command. -/
inductive Reply where
  | done
  | built (layer : Nat)
  | payload (text : String)
  | found (payload : Option String)
  | flag (answer : Bool)
  | status (status : Option Status)
  | batch
  | text (text : String)
  | row (row : Option SlotRow) (count : Nat)
  | profile (profile : Profile)
  | rejected (error : BuildError)
  | refused (failure : Failure)
  | panicked (message : String)
  | unknown (name : String)
  deriving DecidableEq, Repr

end LayerGraph
