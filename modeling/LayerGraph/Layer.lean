import LayerGraph.Command
import LayerGraph.Graph.Path
import LayerGraph.Table

/-! Layers as built: slots, interfaces bound to slots, and the scopes around them. -/

namespace LayerGraph

/-- A generator with its place among the generators registered in its layer. -/
structure Registered where
  place : Nat
  generator : Generator Command

/-- Where a slot gets its value from. -/
inductive Backing where
  | value (value : Value)
  | generated (source : Registered) (eager cyclic : Bool)

/-- An interface answered by the slot of another type of the same layer. -/
structure Binding where
  source : Key
  cast : Cast Command

/-- One layer without what surrounds it. Nothing in it ever changes. -/
structure Scope where
  id : Nat
  label : Option String
  locked : Bool
  /-- The slots in the order in which their types were first registered. -/
  slots : Table Key Backing
  bindings : Table Key Binding
  overridable : List Key
  settings : Settings
  observers : List Observer

/-- A scope and the scopes around it, nearest first. -/
structure Layer where
  scope : Scope
  outer : List Scope

namespace Backing

def source? : Backing → Option Registered
  | .value _ => none
  | .generated source _ _ => some source

def isEager : Backing → Bool
  | .value _ => false
  | .generated _ eager _ => eager

/-- Whether the generator at that place backs the slot. -/
def isFedBy (place : Nat) : Backing → Bool
  | .value _ => false
  | .generated source _ _ => source.place == place

end Backing

namespace Scope

/-- What is behind a type in this scope: its slot, or the slot that its interface is bound to. -/
def behind? (scope : Scope) (key : Key) : Option Backing :=
  match scope.slots.find? key with
  | some backing => some backing
  | none =>
    match scope.bindings.find? key with
    | some binding => scope.slots.find? binding.source
    | none => none

def owns (scope : Scope) (key : Key) : Bool :=
  scope.slots.contains key || scope.bindings.contains key

/-- The outputs of a generator that still go to this scope's slots. -/
def fedBy (scope : Scope) (source : Registered) : List Key :=
  source.generator.outputs.filter fun output =>
    (scope.slots.find? output).any (Backing.isFedBy source.place)

/-- The declared dependencies of whatever generator is behind a type, as far as generators of this
scope are behind them. -/
def dependencies (scope : Scope) (key : Key) : List Key :=
  match (scope.behind? key).bind Backing.source? with
  | none => []
  | some source =>
    (source.generator.declarations.filterMap Declaration.key?).filter fun dependency =>
      ((scope.behind? dependency).bind Backing.source?).isSome

/-- A path of declared dependencies from a type back to an output of its own generator. -/
def cyclePath (scope : Scope) (key : Key) (source : Registered) : List Key :=
  Graph.findPath (scope.slots.size + scope.bindings.size + 1) scope.dependencies
    (fun candidate => (scope.behind? candidate).any (Backing.isFedBy source.place)) key

end Scope

namespace Layer

def ancestry (layer : Layer) : List Scope := layer.scope :: layer.outer

def parent? (layer : Layer) : Option Layer :=
  match layer.outer with
  | [] => none
  | scope :: outer => some ⟨scope, outer⟩

def parentId? (layer : Layer) : Option Nat := layer.outer.head?.map Scope.id

/-- The layer as diagnostics show it. -/
def debug (layer : Layer) : String :=
  let optional (text : Option String) : String :=
    match text with
    | none => "None"
    | some text => "Some(" ++ text ++ ")"
  "Layer \x7b id: " ++ toString layer.scope.id ++
    ", label: " ++ optional (layer.scope.label.map Text.quoted) ++
    ", slots: " ++ toString layer.scope.slots.size ++
    ", observers: " ++ toString layer.scope.observers.length ++
    ", parent: " ++ optional (layer.parentId?.map toString) ++ " \x7d"

def profile (layer : Layer) : Profile :=
  { id := layer.scope.id
    label := layer.scope.label
    parent := layer.parentId?
    locked := layer.scope.locked
    settings := layer.scope.settings
    ancestry := layer.ancestry.map Scope.id
    debug := layer.debug }

end Layer

end LayerGraph
