import LayerGraph.Proofs.Stability

/-! An interface has a value only after its source has one.

The value of an interface is made of the value of its source, which has to be of the type that the
interface is bound to. Since values stay, whatever an interface has is backed from then on. -/

namespace LayerGraph

/-- The slot has a value of the type that is expected of it. -/
def Scope.Stores (scope : Scope) (memory : Memory) (key : Key) : Prop :=
  ∃ backing value, scope.slots.find? key = some backing ∧
    memory.stored? (scope.site key) backing = some value ∧ value.type = key

theorem Scope.Stores.extend {scope : Scope} {before after : Memory} {key : Key}
    (stores : scope.Stores before key) (extends_ : before.Extends after) :
    scope.Stores after key := by
  obtain ⟨backing, value, slot, stored, typed⟩ := stores
  exact ⟨backing, value, slot, extends_.stored? stored, typed⟩

/-- The slot that a type of this scope comes down to: its own, or that of its interface's source. -/
def Scope.target? (scope : Scope) (key : Key) : Option Key :=
  match scope.slots.find? key with
  | some _ => some key
  | none => (scope.bindings.find? key).map Binding.source

/-- The slot behind a type, in the scope that owns it, has a value of its own type. -/
def Layer.Stores (layer : Layer) (memory : Memory) (key : Key) : Prop :=
  ∃ owner target, layer.owner? key = some owner ∧ owner.target? key = some target ∧
    owner.Stores memory target

namespace Layer

variable {scope parent : Scope} {outer further : List Scope} {memory : Memory} {key : Key}

theorem stores_of_slot {backing : Backing} (slot : scope.slots.find? key = some backing) :
    Stores ⟨scope, outer⟩ memory key ↔ scope.Stores memory key := by
  simp [Stores, owner?_of_slot slot, Scope.target?, slot]

theorem stores_of_binding {binding : Binding} (noSlot : scope.slots.find? key = none)
    (interface : scope.bindings.find? key = some binding) :
    Stores ⟨scope, outer⟩ memory key ↔ scope.Stores memory binding.source := by
  simp [Stores, owner?_of_binding interface, Scope.target?, noSlot, interface]

theorem stores_of_unowned (unowned : scope.owns key = false) :
    Stores ⟨scope, parent :: further⟩ memory key ↔ Stores ⟨parent, further⟩ memory key := by
  simp [Stores, owner?_of_unowned unowned]

theorem not_stores_of_missing (unowned : scope.owns key = false) :
    ¬ Stores ⟨scope, []⟩ memory key := by
  simp [Stores, owner?, ancestry, unowned]

end Layer

theorem Scope.stores_iff {scope : Scope} {memory : Memory} {key : Key} {backing : Backing}
    (slot : scope.slots.find? key = some backing) :
    scope.Stores memory key ↔
      ∃ value, memory.stored? (scope.site key) backing = some value ∧ value.type = key := by
  simp [Scope.Stores, slot]

/-- Imports agree with the cells, and every interface that has a value has one of its own type, and a
source that has one too. -/
structure World.Backed (world : World) : Prop where
  faithful : world.Faithful
  bound : ∀ layer ∈ world.built, ∀ key value,
    world.memory.bound.find? (layer.scope.site key) = some value →
      value.type = key ∧ ∃ binding, layer.scope.bindings.find? key = some binding ∧
        layer.scope.Stores world.memory binding.source

namespace World.Backed

variable {world after : World} {layer : Layer} {key : Key} {source : Registered}

theorem initial : World.Backed {} where
  faithful _ h := by cases h
  bound _ h := by cases h

theorem of_same (backed : world.Backed) (built : after.built = world.built)
    (memory : world.memory.Extends after.memory)
    (bound : after.memory.bound = world.memory.bound)
    (imported : after.memory.imported = world.memory.imported) : after.Backed := by
  refine ⟨backed.faithful.of_same built memory imported, fun layer known key value hbound => ?_⟩
  rw [built] at known
  rw [bound] at hbound
  obtain ⟨typed, binding, interface, stores⟩ := backed.bound layer known key value hbound
  exact ⟨typed, binding, interface, stores.extend memory⟩

theorem emit (backed : world.Backed) (event : Event) : (world.emit event).Backed :=
  backed.of_same rfl (.refl _) rfl rfl

theorem emitAll (backed : world.Backed) (events : List Event) : (world.emitAll events).Backed :=
  backed.of_same rfl (.refl _) rfl rfl

theorem sidestep (backed : world.Backed) (sidesteps : world.Sidesteps after) : after.Backed :=
  backed.of_same sidesteps.built (sidesteps.memory ▸ .refl _) (by rw [sidesteps.memory])
    (by rw [sidesteps.memory])

theorem deliver (backed : world.Backed) (delivery : Site × Value) :
    (world.deliver delivery).Backed := by
  have hextends := (Advances.deliver world delivery).memory
  unfold World.deliver at hextends ⊢
  split
  · exact backed.emit _
  · next h =>
    rw [if_neg h] at hextends
    exact backed.of_same rfl hextends rfl rfl

theorem finish (backed : world.Backed) (layer : Layer) (key : Key) (source : Registered)
    (context : Context) (result : Except ResolutionError Yield) :
    (Resolution.finish layer key source context result world).2.Backed := by
  refine Resolution.finish_keeps World.Backed (fun _ _ delivery _ _ h => h.deliver delivery)
    (fun answer between h => ?_) backed
  cases answer with
  | error error => exact (h.emit _).emitAll _
  | ok value => exact (h.emit _).emitAll _

theorem hoist (backed : world.Backed) (hosts : world.Hosts layer) {value : Value}
    (hcell : layer.cell? world.memory key = some value) :
    (world.hoist layer.scope key value).Backed := by
  have hextends := (Grows.hoist world layer.scope key value).memory
  refine ⟨backed.faithful.hoist hosts hcell, ?_⟩
  intro other known found held hbound
  have hunchanged : (world.hoist layer.scope key value).built = world.built ∧
      (world.hoist layer.scope key value).memory.bound = world.memory.bound := by
    unfold World.hoist
    split <;> exact ⟨rfl, rfl⟩
  rw [hunchanged.1] at known
  rw [hunchanged.2] at hbound
  obtain ⟨typed, binding, interface, stores⟩ := backed.bound other known found held hbound
  exact ⟨typed, binding, interface, stores.extend hextends⟩

theorem bind (backed : world.Backed) (hosts : world.Hosts layer) {binding : Binding}
    (interface : layer.scope.bindings.find? key = some binding)
    (stores : layer.scope.Stores world.memory binding.source) (payload : String) :
    (world.bind layer.scope key binding payload).Backed := by
  have hextends := (Grows.bind world layer.scope key binding payload).memory
  refine ⟨backed.faithful.of_same rfl hextends rfl, fun other known found value hbound => ?_⟩
  cases hold : world.memory.bound.find? (other.scope.site found) with
  | some held =>
    obtain ⟨typed, earlier, hinterface, hstores⟩ := backed.bound other known found held hold
    obtain rfl := Option.some.inj ((hextends.bound _ held hold).symm.trans hbound)
    exact ⟨typed, earlier, hinterface, hstores.extend hextends⟩
  | none =>
    have hadd : (world.memory.bound.add (layer.scope.site key) ⟨key, payload⟩).find?
        (other.scope.site found) = some value := hbound
    rw [Table.find?_add] at hadd
    split at hadd
    · next hsite =>
      obtain ⟨hid, rfl⟩ := Site.mk.inj hsite
      obtain rfl := hosts.1.unique other known layer hosts.2 hid
      rw [hold] at hadd
      obtain rfl := Option.some.inj hadd
      exact ⟨rfl, binding, interface, stores.extend hextends⟩
    · cases hold.symm.trans hadd

theorem enter (backed : world.Backed) (valid : world.Valid) {builder : Builder}
    (assembled : builder.assemble world.memory world.nextLayer = .ok layer) :
    (world.enter layer).Backed := by
  obtain ⟨-, -, -, -, -, hid, -⟩ := Builder.assemble_inv assembled
  refine ⟨backed.faithful.enter valid assembled, fun other known found value hbound => ?_⟩
  rcases List.mem_cons.mp known with rfl | hmem
  · obtain ⟨old, hold, hsame, -⟩ := valid.bound _ value hbound
    have hlt := valid.ids old hold
    have hsame : old.scope.id = other.scope.id := hsame
    omega
  · exact backed.bound other hmem found value hbound

theorem conclude (backed : world.Backed) (layer : Layer) (key : Key)
    (result : Except Stop Answer) : (world.conclude layer key result).Backed := by
  rcases result with stop | (error | value)
  · exact backed
  · exact (backed.emit _).emit _
  · exact backed.emit _

theorem outside {α : Type} {perform : Command → Engine Reply}
    (h : ∀ command, Engine.Keeps (fun world => world.Valid ∧ world.Backed) (perform command))
    (act : Act Command α) :
    Engine.Keeps (fun world => world.Valid ∧ world.Backed) (Engine.run perform act) :=
  .outside (fun h sidesteps => ⟨h.1.sidestep sidesteps, h.2.sidestep sidesteps⟩)
    (fun h _ => ⟨h.1.emit _, h.2.emit _⟩) h act

end World.Backed

namespace Resolution

open Engine (Keeps)

variable {fuel : Nat} {layer : Layer} {key : Key} {chain : Chain} {context : Context}
  {world after : World} {result : Except Stop Answer}

theorem Resolves.stored_value {backing : Backing} {value : Value}
    (resolves : Resolves fuel layer key chain context world result after)
    (slot : layer.scope.slots.find? key = some backing) (hosts : world.Hosts layer)
    (faithful : world.Faithful) (h : result = .ok (.ok value)) :
    after.memory.stored? (layer.scope.site key) backing = some value := by
  have hcell := (resolves.faithful hosts faithful).2 value h
  obtain ⟨scope, outer⟩ := layer
  rwa [Layer.cell?_of_slot slot] at hcell

theorem Resolves.backed_of_keeps
    (keeps : ∀ less ≤ fuel, ∀ {α : Type} (act : Act Command α),
      Keeps (fun world => world.Valid ∧ world.Backed) (Engine.run (Session.handler less) act))
    (resolves : Resolves fuel layer key chain context world result after)
    (hosts : world.Hosts layer) (backed : world.Backed) : after.Backed := by
  induction resolves with
  | stored => exact backed.emit _
  | exhausted => exact backed
  | obstructed => exact (backed.emit _).emitAll _
  | blocked => exact backed.emit _
  | @run fuel scope outer key chain context world source inquiries gathered between result after
      starts answers ends ih =>
    have hstart : (world.start scope key source chain).Backed :=
      backed.of_same rfl (.refl _) rfl rfl
    obtain ⟨-, hbetween⟩ := starts.hosted World.Backed answers (fun inquiry hinquiry =>
      ih inquiry hinquiry fun less hless => keeps less (Nat.le_succ_of_le hless)) hosts hstart
    have hends := ends.keeps (fun world => world.Hosts ⟨scope, outer⟩ ∧ world.Backed)
      (fun arguments h => ⟨h.1.enterBody arguments, h.2.of_same rfl (.refl _) rfl rfl⟩)
      (fun _ _ => (keeps _ (Nat.le_refl _) _).hosts ⟨scope, outer⟩)
      (fun _ _ _ h => ⟨h.1.emit _, h.2.emit _⟩)
      (fun result _ h => ⟨h.1.finish key source context result, h.2.finish _ _ _ _ result⟩) hbetween
    exact hends.2.of_same rfl (.refl _) rfl rfl
  | bound => exact backed
  | unbacked => exact backed
  | unsourced noSlot interface unbound behind answer lost ih => exact ih keeps hosts backed
  | @cast fuel scope outer key chain context world binding backing value between result after
      noSlot interface unbound behind answer binds ih =>
    have hbetween := hosts.grow answer.grows (answer.valid hosts)
    by_cases typed : value.type = binding.source
    · -- What the source answered with is still there when the cast is over.
      have hstores : scope.Stores between.memory binding.source :=
        ⟨backing, value, behind, answer.stored_value behind hosts backed.faithful rfl, typed⟩
      have hbinds := binds.keeps (fun world => (world.Hosts ⟨scope, outer⟩ ∧ world.Backed) ∧
          scope.Stores world.memory binding.source)
        (fun payload h => ⟨⟨h.1.1.enterCast _ _ payload, h.1.2.of_same rfl (.refl _) rfl rfl⟩, h.2⟩)
        (fun call payload world h => ⟨(keeps fuel (Nat.le_refl _) _).hosts ⟨scope, outer⟩ world h.1,
          h.2.extend (run_grows (Session.handler_grows fuel) _ world).memory⟩)
        (fun payload between h => ⟨⟨⟨h.1.1.1.bind h.1.1.2 noSlot interface payload, h.1.1.2⟩,
          h.1.2.bind h.1.1 interface h.2 payload⟩,
            h.2.extend (World.Grows.bind between scope key binding payload).memory⟩)
        ⟨⟨hbetween, ih keeps hosts backed⟩, hstores⟩
      exact hbinds.1.2
    · cases binds with
      | mistyped => exact ih keeps hosts backed
      | broken typed' => exact absurd typed' typed
      | bound typed' => exact absurd typed' typed
  | imported => exact backed
  | missing => exact backed
  | @unavailable fuel scope parent further key chain context world result after unowned unknown
      answer lost ih =>
    exact ih keeps (hosts.delegate _ _ _).parent (backed.of_same rfl (.refl _) rfl rfl)
  | @delegated fuel scope parent further key chain context world value between unowned unknown
      answer ih =>
    have hstart : (world.delegate scope key parent).Backed := backed.of_same rfl (.refl _) rfl rfl
    obtain ⟨hhosts, -, hcell⟩ := answer.delegated_cell unowned hosts backed.faithful
    exact (ih keeps (hosts.delegate _ _ _).parent hstart).hoist hhosts hcell

end Resolution

theorem World.Backed.invariant :
    Session.Invariant fun world => world.Valid ∧ world.Backed := by
  refine .of_valid ?_ ?_ ?_ ?_ ?_
  · exact fun backed sidesteps => backed.sidestep sidesteps
  · exact fun backed _ => backed.emit _
  · exact fun name backed _ => backed.of_same rfl (.refl _) rfl rfl
  · exact fun valid backed _ assembled => backed.enter valid assembled
  · intro fuel keeps layer key context world hosts backed
    have hresolves := Resolution.resolver_resolves fuel layer key [] context
      (world.emit (.asked (layer.scope.site key)))
    rw [Layer.request_world]
    exact (hresolves.backed_of_keeps (fun less hless => outside (keeps less hless))
      (hosts.emit _) (backed.emit _)).conclude layer key _

theorem Session.Reachable.backed {world : World} (reachable : Reachable world) : world.Backed :=
  (reachable.keeps World.Backed.invariant ⟨.initial, .initial⟩).2

namespace Resolution

variable {fuel : Nat} {layer : Layer} {key : Key} {chain : Chain} {context : Context}
  {world after : World} {result : Except Stop Answer}

theorem Resolves.backed (resolves : Resolves fuel layer key chain context world result after)
    (hosts : world.Hosts layer) (backed : world.Backed) : after.Backed :=
  resolves.backed_of_keeps
    (fun less _ => World.Backed.outside (World.Backed.invariant.handler less)) hosts backed

theorem stores_iff_of_cell {value : Value} (hosts : world.Hosts layer) (backed : world.Backed)
    (hcell : layer.cell? world.memory key = some value) :
    layer.Stores world.memory key ↔ value.type = key := by
  obtain ⟨owner, howner, hcell⟩ := Option.bind_eq_some_iff.mp hcell
  obtain ⟨further, known⟩ :=
    hosts.1.built_of_mem_ancestry hosts.2 (List.mem_of_find?_eq_some howner)
  have hstores : layer.Stores world.memory key ↔
      ∃ target, owner.target? key = some target ∧ owner.Stores world.memory target := by
    simp [Layer.Stores, howner]
  rw [hstores]
  unfold Scope.cell? at hcell
  cases slot : owner.slots.find? key with
  | some backing =>
    rw [slot] at hcell
    simp [Scope.target?, slot, Scope.stores_iff slot, hcell]
  | none =>
    rw [slot] at hcell
    dsimp only at hcell
    split at hcell
    · obtain ⟨typed, binding, interface, stores⟩ :=
        backed.bound ⟨owner, further⟩ known key value hcell
      have interface : owner.bindings.find? key = some binding := interface
      simp [Scope.target?, slot, interface, stores, typed]
    · cases hcell

end Resolution

end LayerGraph
