import LayerGraph.Proofs.Provenance

/-! Whom a layer tells.

An observer that is added to the builder of a layer is told by that layer and by every layer inside
it, once for each time that it was added on the way in. -/

namespace LayerGraph

/-- An observer as added to the builder of a layer. The same observer may be added several times. -/
structure Registration where
  layer : Nat
  index : Nat
  observer : Observer
  deriving DecidableEq, Repr

namespace Scope

def ownRegistrations (scope : Scope) (inherited : Nat) : List Registration :=
  (scope.observers.drop inherited).zipIdx.map fun (observer, index) => ⟨scope.id, index, observer⟩

/-- The registrations of a scope and the scopes around it, the outermost first. -/
def registrations : List Scope → List Registration
  | [] => []
  | scope :: outer =>
    registrations outer ++ scope.ownRegistrations (registrations outer).length

variable {scope : Scope} {outer : List Scope} {inherited : Nat} {registration : Registration}

theorem map_observer_ownRegistrations :
    (scope.ownRegistrations inherited).map Registration.observer =
      scope.observers.drop inherited := by
  rw [ownRegistrations, List.map_map]
  exact List.zipIdx_map_fst _ _

theorem layer_of_mem_ownRegistrations (h : registration ∈ scope.ownRegistrations inherited) :
    registration.layer = scope.id := by
  obtain ⟨_, -, rfl⟩ := List.mem_map.mp h
  rfl

theorem ownRegistrations_nodup : (scope.ownRegistrations inherited).Nodup := by
  have hindices : ((scope.ownRegistrations inherited).map Registration.index).Nodup := by
    rw [ownRegistrations, List.map_map]
    have hsnd := List.zipIdx_map_snd 0 (scope.observers.drop inherited)
    rw [show (Registration.index ∘ fun (pair : Observer × Nat) =>
      (⟨scope.id, pair.2, pair.1⟩ : Registration)) = Prod.snd from rfl, hsnd]
    exact List.nodup_range'
  exact hindices.of_map _

theorem layer_of_mem_registrations (h : registration ∈ registrations outer) :
    registration.layer ∈ outer.map Scope.id := by
  induction outer with
  | nil => cases h
  | cons scope outer ih =>
    rcases List.mem_append.mp h with h | h
    · exact List.mem_cons_of_mem _ (ih h)
    · rw [layer_of_mem_ownRegistrations h]
      exact List.mem_cons_self

theorem registrations_nodup (distinct : (outer.map Scope.id).Nodup) :
    (registrations outer).Nodup := by
  induction outer with
  | nil => exact List.nodup_nil
  | cons scope outer ih =>
    obtain ⟨hfresh, hrest⟩ := List.nodup_cons.mp distinct
    refine List.nodup_append.mpr
      ⟨ih hrest, ownRegistrations_nodup, fun first hfirst second hsecond => ?_⟩
    rintro rfl
    have hlayer := layer_of_mem_registrations hfirst
    rw [layer_of_mem_ownRegistrations hsecond] at hlayer
    exact hfresh hlayer

end Scope

namespace Layer

/-- The registrations that are told of what happens in a layer. -/
def registrations (layer : Layer) : List Registration := Scope.registrations layer.ancestry

/-- Whether a layer is the one with that id or lies inside it. -/
def within (layer : Layer) (id : Nat) : Bool := (layer.ancestry.map Scope.id).contains id

end Layer

def World.Inherits (world : World) : Prop :=
  ∀ layer ∈ world.built, ∀ parent further, layer.outer = parent :: further →
    parent.observers <+: layer.scope.observers

/-- A layer that has been put together has the observers of its parent and then those of its
builder. -/
theorem Builder.assemble_observers {builder : Builder} {memory : Memory} {id : Nat} {layer : Layer}
    (h : builder.assemble memory id = .ok layer) :
    layer.scope.observers =
      (builder.parent.map (·.scope.observers)).getD [] ++ builder.observers := by
  obtain ⟨ledger, bindings, -, -, -, rfl⟩ := assemble_eq_ok_iff.mp h
  rfl

namespace World.Inherits

theorem initial : World.Inherits {} := fun _ h => nomatch h

theorem enter {world : World} (inherits : world.Inherits) {builder : Builder} {layer : Layer}
    (assembled : builder.assemble world.memory world.nextLayer = .ok layer) :
    (world.enter layer).Inherits := by
  intro other hother parent further houter
  rcases List.mem_cons.mp hother with rfl | hmem
  · obtain ⟨-, -, -, -, -, -, hbuilder, -⟩ := Builder.assemble_inv assembled
    rw [Builder.assemble_observers assembled]
    rw [hbuilder, Builder.outer] at houter
    cases hparent : builder.parent with
    | none =>
      rw [hparent] at houter
      cases houter
    | some known =>
      rw [hparent] at houter
      obtain ⟨rfl, -⟩ := List.cons.inj houter
      exact List.prefix_append _ _
  · exact inherits other hmem parent further houter

theorem of_built {world after : World} (built : after.built = world.built)
    (inherits : world.Inherits) : after.Inherits :=
  fun layer h => inherits layer (built ▸ h)

theorem invariant : Session.Invariant fun world => world.Valid ∧ world.Inherits :=
  .of_built of_built fun _ inherits _ assembled => inherits.enter assembled

end World.Inherits

theorem Resolution.Resolves.inherits {fuel : Nat} {layer : Layer} {key : Key} {chain : Chain}
    {context : Context} {world after : World} {result : Except Stop Answer}
    (resolves : Resolves fuel layer key chain context world result after)
    (hosts : world.Hosts layer) (inherits : world.Inherits) : after.Inherits :=
  resolves.keeps_of_built World.Inherits.of_built
    (fun less _ {_} => (World.Lasts.of_built World.Inherits.of_built).outside (fun _ _ => trivial)
      (World.Inherits.invariant.handler less)) hosts inherits

theorem Session.Reachable.inherits {world : World} (reachable : Reachable world) :
    world.Inherits :=
  (reachable.keeps World.Inherits.invariant ⟨.initial, .initial⟩).2

section

variable {world : World} {layer inner : Layer} {registration : Registration}

theorem World.Inherits.map_observer_registrations (inherits : world.Inherits) (valid : world.Valid)
    (known : layer ∈ world.built) :
    layer.registrations.map Registration.observer = layer.scope.observers := by
  obtain ⟨scope, outer⟩ := layer
  induction outer generalizing scope with
  | nil => exact Scope.map_observer_ownRegistrations
  | cons parent further ih =>
    have hparent := ih parent (valid.outer _ known parent further rfl)
    obtain ⟨added, hadded⟩ : parent.observers <+: scope.observers :=
      inherits _ known parent further rfl
    have hlength : (Scope.registrations (parent :: further)).length = parent.observers.length :=
      (List.length_map _).symm.trans (congrArg List.length hparent)
    change List.map _ (Scope.registrations (parent :: further) ++ _) = scope.observers
    rw [List.map_append, Scope.map_observer_ownRegistrations, hlength, ← hadded, List.drop_left]
    exact congrArg (· ++ added) hparent

theorem World.Valid.registrations_nodup (valid : world.Valid) (known : layer ∈ world.built) :
    layer.registrations.Nodup :=
  Scope.registrations_nodup (valid.proper known).distinct

/-- What is registered with a layer is told of what happens in the layers within it, and of nothing
else. -/
theorem World.Valid.mem_registrations_iff (valid : world.Valid) (known : layer ∈ world.built)
    (registered : registration ∈ layer.registrations) (own : registration.layer = layer.scope.id)
    (inside : inner ∈ world.built) :
    registration ∈ inner.registrations ↔ inner.within layer.scope.id = true := by
  rw [Layer.within, List.contains_iff_mem]
  constructor
  · intro h
    rw [← own]
    exact Scope.layer_of_mem_registrations h
  · intro h
    obtain ⟨scope, outer⟩ := inner
    induction outer generalizing scope with
    | nil =>
      obtain hid := List.mem_singleton.mp h
      obtain rfl := valid.unique _ known _ inside hid
      exact registered
    | cons parent further ih =>
      rcases List.mem_cons.mp h with hid | h
      · obtain rfl := valid.unique _ known _ inside hid
        exact registered
      · exact List.mem_append_left _ (ih parent (valid.outer _ inside parent further rfl) h)

end

end LayerGraph
