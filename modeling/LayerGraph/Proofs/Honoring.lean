import LayerGraph.Proofs.Evaluation
import LayerGraph.Proofs.Snapshots

/-! Values of the types that they are for.

What a run leaves in a slot is a product that its body has handed over. A body that gives no
commands hands over what it comes to by itself, so nothing but the bodies behind a type decides
whether the values of the type are of that type. -/

namespace LayerGraph

theorem Act.Silent.outcome? {α : Type} {act : Act Command α} (silent : act.Silent)
    {perform : Command → Engine Reply} {world : World} {result : α}
    (h : (Engine.run perform act world).1 = .ok result) : act.outcome? = some result := by
  induction act generalizing world with
  | done => exact congrArg some (Except.ok.inj h)
  | panic => cases h
  | cancel name next ih => exact ih silent h
  | elapse time next ih => exact ih silent h
  | noteThread next ih => exact ih silent h
  | perform => exact silent.elim

/-- The slot gets values of its type: the body of its generator hands over no others for it. -/
def Scope.Fills (scope : Scope) (key : Key) : Prop :=
  ∀ source eager cyclic, scope.slots.find? key = some (.generated source eager cyclic) →
    ∀ run arguments products,
      (source.generator.body run arguments).outcome? = some (.products products) →
        ∀ value, (key, value) ∈ source.generator.outputs.zip products → value.type = key

/-- Whatever makes the values of a type in this scope makes values of that type: the slot that the
type comes down to gets values of its own type, and the cast to an interface comes to its end. -/
structure Scope.Honors (scope : Scope) (key : Key) : Prop where
  fills : ∀ target, scope.target? key = some target → scope.Fills target
  casts : scope.slots.find? key = none → ∀ binding, scope.bindings.find? key = some binding →
    ∀ call payload, ∃ result, (binding.cast.apply call payload).outcome? = some result

/-- What makes the values of a type for a layer is in the scope that owns the type. -/
def Layer.Honors (layer : Layer) (key : Key) : Prop :=
  ∀ scope, layer.owner? key = some scope → scope.Honors key

def Event.IsNoReturn (event : Event) : Prop :=
  ∀ id place run yield, event ≠ .returned id place run yield

theorem Event.IsIncidental.isNoReturn {event : Event} (h : event.IsIncidental) :
    event.IsNoReturn := by
  rintro id place run yield rfl
  exact h

def World.Utters (world : World) (id place run : Nat) (yield : Yield) : Prop :=
  ∃ layer ∈ world.built, layer.scope.id = id ∧ ∃ key source eager cyclic,
    layer.scope.slots.find? key = some (.generated source eager cyclic) ∧ source.place = place ∧
    ∃ arguments, (source.generator.body run arguments).Silent →
      (source.generator.body run arguments).outcome? = some yield

def World.Candid (world : World) : Prop :=
  ∀ id place run yield, .returned id place run yield ∈ world.trace →
    world.Utters id place run yield

namespace World.Candid

variable {world after : World}

theorem initial : World.Candid {} := fun id place run yield h => by cases h

theorem later (candid : world.Candid) (built : world.built <:+ after.built) (events : List Event)
    (trace : after.trace = events ++ world.trace) (plain : ∀ event ∈ events, event.IsNoReturn) :
    after.Candid := by
  intro id place run yield h
  rw [trace] at h
  rcases List.mem_append.mp h with hnew | hold
  · exact (plain _ hnew id place run yield rfl).elim
  · obtain ⟨layer, known, hutters⟩ := candid id place run yield hold
    exact ⟨layer, built.mem known, hutters⟩

theorem lasts : World.Lasts Event.IsNoReturn World.Candid where
  logged _ := nofun
  later candid built _ _ _ events trace _ plain :=
    candid.later (built ▸ List.suffix_rfl) events trace plain

theorem returned (candid : world.Candid) {id place run : Nat} {yield : Yield}
    (utters : world.Utters id place run yield) :
    (world.emit (.returned id place run yield)).Candid := by
  intro id' place' run' yield' h
  rcases List.mem_cons.mp h with hnew | hold
  · obtain ⟨rfl, rfl, rfl, rfl⟩ := Event.returned.inj hnew
    exact utters
  · exact candid id' place' run' yield' hold

end World.Candid

namespace Resolution

open Engine (Keeps)

variable {fuel : Nat} {layer : Layer} {key : Key} {source : Registered} {chain : Chain}
  {context : Context} {world after : World} {result : Except Stop Answer}

theorem Ends.candid {eager cyclic : Bool}
    {gathered : Except Stop (Except ResolutionError (List Argument))}
    (keeps : ∀ {α : Type} (act : Act Command α),
      Keeps (fun world => world.Valid ∧ world.Candid) (Engine.run (Session.handler fuel) act))
    (ends : Ends (Session.handler fuel) layer key source context world gathered result after)
    (slot : layer.scope.slots.find? key = some (.generated source eager cyclic))
    (hosts : world.Hosts layer) (candid : world.Candid) : after.Candid := by
  have lasts := World.Candid.lasts
  have hfinish {result : Except ResolutionError Yield} {between : World} (h : between.Candid) :
      (finish layer key source context result between).2.Candid :=
    lasts.finish h _ _ _ _ _ (fun _ _ => nofun) (fun _ _ => nofun) fun _ _ => nofun
  have hentered (arguments : List Argument) :
      (world.enterBody layer.scope source arguments).Candid :=
    lasts.enterBody candid arguments fun _ => nofun
  have hbody (arguments : List Argument) :=
    (keeps (source.generator.body (world.nextRun layer.scope source) arguments)).hosts layer _
      ⟨hosts.enterBody arguments, hentered arguments⟩
  cases ends with
  | unsupplied => exact candid
  | refused => exact hfinish candid
  | @broken arguments stop _ body =>
    have hlast := hbody arguments
    rw [body] at hlast
    exact hlast.2
  | @returned arguments yield last body =>
    have hlast := hbody arguments
    rw [body] at hlast
    refine hfinish (hlast.2.returned ⟨layer, hlast.1.2, rfl, key, source, eager, cyclic, slot, rfl,
      arguments, fun silent => ?_⟩)
    exact silent.outcome? (congrArg Prod.fst body)

theorem Resolves.candid_of_keeps
    (keeps : ∀ less ≤ fuel, ∀ {α : Type} (act : Act Command α),
      Keeps (fun world => world.Valid ∧ world.Candid) (Engine.run (Session.handler less) act))
    (resolves : Resolves fuel layer key chain context world result after)
    (hosts : world.Hosts layer) (candid : world.Candid) : after.Candid := by
  -- Of all that a request does, only the end of a run tells of a body that has returned.
  refine resolves.lasting World.Candid.lasts (fun _ _ _ => nofun) (fun _ _ => nofun)
    (fun _ _ _ _ => nofun) keeps ?_ ?_ (Nat.le_refl _) hosts candid
  · intro less layer key chain world source inquiries gathered between result after hless starts _
      ends _ _ hhosts hbetween
    obtain ⟨eager, cyclic, slot, -⟩ := starts.slot
    exact ends.candid (keeps _ hless) slot hhosts hbetween
  · intro less scope parent further key chain world value between _ _ _ _ hbetween
    have hhoist : (between.hoist scope key value).built = between.built ∧
        (between.hoist scope key value).trace = between.trace := by
      unfold World.hoist
      split <;> exact ⟨rfl, rfl⟩
    exact hbetween.later (hhoist.1 ▸ List.suffix_rfl) [] hhoist.2 (by simp)

end Resolution

theorem World.Candid.invariant : Session.Invariant fun world => world.Valid ∧ world.Candid := by
  refine lasts.invariant_of_resolves (fun _ hevent => hevent.isNoReturn) (fun _ => nofun)
    (fun _ _ => nofun) (fun _ _ => nofun) ?_ ?_
  · exact fun _ candid _ _ => candid.later (List.suffix_cons _ _) [] rfl (by simp)
  · exact fun keeps _ _ _ _ _ _ resolves hosts candid => resolves.candid_of_keeps keeps hosts candid

theorem Session.Reachable.candid {world : World} (reachable : Reachable world) : world.Candid :=
  (reachable.keeps World.Candid.invariant ⟨.initial, .initial⟩).2

theorem Resolution.Resolves.candid {fuel : Nat} {layer : Layer} {key : Key} {chain : Chain}
    {context : Context} {world after : World} {result : Except Stop Answer}
    (resolves : Resolves fuel layer key chain context world result after)
    (hosts : world.Hosts layer) (candid : world.Candid) : after.Candid :=
  resolves.candid_of_keeps
    (fun less _ {_} => World.Candid.lasts.outside (fun _ hevent => hevent.isNoReturn)
      (World.Candid.invariant.handler less)) hosts candid

/-- A world in which it is known where the values come from that slots, interfaces and imports
have. -/
structure World.Vouched (world : World) : Prop where
  accountable : world.Accountable
  backed : world.Backed
  candid : world.Candid

namespace World.Vouched

variable {world after : World} {layer : Layer} {key : Key} {value : Value}

theorem emit (vouched : world.Vouched) {event : Event} (idle : event.IsIdle)
    (plain : event.IsNoReturn) : (world.emit event).Vouched :=
  ⟨World.Accountable.lasts.emit vouched.accountable idle, vouched.backed.emit event,
    World.Candid.lasts.emit vouched.candid plain⟩

theorem stored_typed (vouched : world.Vouched) (hosts : world.Hosts layer)
    (silent : layer.scope.Silent) (fills : layer.scope.Fills key) {backing : Backing}
    (slot : layer.scope.slots.find? key = some backing)
    (stored : world.memory.stored? (layer.scope.site key) backing = some value) :
    value.type = key := by
  have sound := hosts.1.sound layer hosts.2
  cases backing with
  | value found =>
    obtain rfl := Option.some.inj stored
    exact sound.typed key found slot
  | generated source eager cyclic =>
    obtain ⟨run, products, hreturned, hpair⟩ :=
      Resolution.handed_over hosts vouched.accountable slot stored
    obtain ⟨author, hauthor, hauthorId, output, maker, first, flag, hmade, hplace, given,
      houtcome⟩ := vouched.candid _ _ _ _ hreturned
    -- There is one layer of this identity and one generator at this place in it, so the body that
    -- has returned is that of the slot.
    obtain rfl := hosts.1.unique author hauthor layer hosts.2 hauthorId
    obtain ⟨rfl, -, -⟩ := sound.placed _ _ _ _ _ _ _ _ hmade slot hplace
    have hsilent := silent.bodies output maker first flag hmade run given
    exact fills maker eager cyclic slot run given products (houtcome hsilent) value hpair

theorem cell_typed (vouched : world.Vouched) (hosts : world.Hosts layer)
    (silent : ∀ scope ∈ layer.ancestry, scope.Silent) (honors : layer.Honors key)
    (hcell : layer.cell? world.memory key = some value) : value.type = key := by
  obtain ⟨scope, howner, hstored⟩ := Option.bind_eq_some_iff.mp hcell
  have hscope : scope ∈ layer.ancestry := List.mem_of_find?_eq_some howner
  obtain ⟨outer, hbuilt⟩ := hosts.1.built_of_mem_ancestry hosts.2 hscope
  unfold Scope.cell? at hstored
  split at hstored
  · next backing slot =>
    have hfills : scope.Fills key :=
      (honors scope howner).fills key (by simp [Scope.target?, slot])
    exact @stored_typed _ ⟨scope, outer⟩ _ _ vouched ⟨hosts.1, hbuilt⟩ (silent scope hscope) hfills
      _ slot hstored
  · split at hstored
    · exact (vouched.backed.bound _ hbuilt key value hstored).1
    · cases hstored

end World.Vouched

theorem Session.Reachable.vouched {world : World} (reachable : Reachable world) : world.Vouched :=
  ⟨reachable.arises.accountable.2, reachable.backed, reachable.candid⟩

theorem Resolution.Resolves.vouched {fuel : Nat} {layer : Layer} {key : Key} {chain : Chain}
    {context : Context} {world after : World} {result : Except Stop Answer}
    (resolves : Resolves fuel layer key chain context world result after)
    (hosts : world.Hosts layer) (vouched : world.Vouched) : after.Vouched :=
  ⟨resolves.accountable hosts vouched.accountable, resolves.backed hosts vouched.backed,
    resolves.candid hosts vouched.candid⟩

/-- A request for a type whose makers honor it is granted a value of the type, or none. -/
theorem Resolution.Resolves.typed {fuel : Nat} {layer : Layer} {key : Key} {chain : Chain}
    {context : Context} {world after : World} {value : Value}
    (resolves : Resolves fuel layer key chain context world (.ok (.ok value)) after)
    (hosts : world.Hosts layer) (vouched : world.Vouched)
    (silent : ∀ scope ∈ layer.ancestry, scope.Silent) (honors : layer.Honors key) :
    value.type = key :=
  (resolves.vouched hosts vouched).cell_typed (resolves.hosts hosts hosts) silent honors
    ((resolves.faithful hosts vouched.accountable.faithful).2 value rfl)

end LayerGraph
