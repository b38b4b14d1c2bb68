/-! Tokens, deadlines, and the contexts that carry them. -/

namespace LayerGraph

/-- A token carries the tokens it was made from, nearest first. -/
structure Token where
  id : Nat
  ancestors : List Nat := []
  deriving DecidableEq, Repr

/-- What a context is judged by: the tokens cancelled so far, and the time. -/
structure Signals where
  cancelled : List Nat := []
  now : Nat := 0
  deriving DecidableEq, Inhabited, Repr

/-- What a request is made with. A context without a token stands for one whose own token nobody
cancels: code that cancels the context it was handed cancels a token by its name. -/
structure Context where
  token : Option Token := none
  deadline : Option Nat := none
  deriving DecidableEq, Inhabited, Repr

/-- How a context stands at some moment. -/
structure Standing where
  cancelled : Bool
  tokenCancelled : Bool
  /-- Whether the deadline, if there is one, has passed. -/
  expired : Option Bool
  deriving DecidableEq, Repr

namespace Token

def child (parent : Token) (id : Nat) : Token := ⟨id, parent.id :: parent.ancestors⟩

/-- A token is cancelled with any token it was made from. -/
def isCancelled (signals : Signals) (token : Token) : Bool :=
  (token.id :: token.ancestors).any signals.cancelled.contains

end Token

namespace Context

/-- No deadline, and a token that nobody cancels. -/
def background : Context := {}

def tokenCancelled (signals : Signals) (context : Context) : Bool :=
  context.token.any (·.isCancelled signals)

/-- A context is over once its token is cancelled or its deadline has come. -/
def isCancelled (signals : Signals) (context : Context) : Bool :=
  context.tokenCancelled signals || context.deadline.any (· ≤ signals.now)

def standing (signals : Signals) (context : Context) : Standing :=
  ⟨context.isCancelled signals, context.tokenCancelled signals,
    context.deadline.map fun deadline => decide (deadline ≤ signals.now)⟩

end Context

/-- A deadline seen from the moment a request is made. Time passes only while bodies and casts run,
as far as they say so. -/
inductive Deadline where
  | past
  | zero
  | future
  deriving DecidableEq, Repr

namespace Deadline

def day : Nat := 86400

def instant (now : Nat) : Deadline → Nat
  | past => now - 1
  | zero => now
  | future => now + day

end Deadline

end LayerGraph
