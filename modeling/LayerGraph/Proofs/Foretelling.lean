import LayerGraph.Proofs.Bindings
import LayerGraph.Proofs.Delegation
import LayerGraph.Proofs.Honoring
import LayerGraph.Proofs.Laziness

/-! What the status of a type foretells.

The status of a type is read off three tables, and a request for the type goes its own way through
them. The two come to the same: a type with a value, or with one behind its interface, is granted
at once, a pending one takes a run of its generator, and an absent one is looked for further out. -/

namespace LayerGraph

/-- The ways in which the status of a type can change: an empty slot gets its value, and a value of
a layer further out is imported. -/
inductive Status.Moves : Option Status → Option Status → Prop
  | stays (status) : Moves status status
  | resolves : Moves (some .pending) (some .resolved)
  | imports : Moves none (some .imported)

theorem Status.Moves.trans {first second third : Option Status} (hfirst : Moves first second)
    (hsecond : Moves second third) : Moves first third := by
  cases hfirst with
  | stays => exact hsecond
  | resolves =>
    cases hsecond
    exact .resolves
  | imports =>
    cases hsecond
    exact .imports

theorem Table.Extends.contains {κ α : Type} [DecidableEq κ] {table later : Table κ α}
    (extends_ : table.Extends later) {key : κ} (h : table.contains key = true) :
    later.contains key = true := by
  obtain ⟨value, hvalue⟩ := Option.isSome_iff_exists.mp h
  exact Option.isSome_iff_exists.mpr ⟨value, extends_ key value hvalue⟩

namespace Scope

variable {scope : Scope} {key target : Key} {backing : Backing} {memory before after : Memory}

theorem status?_of_target (behind : scope.target? key = some target) :
    scope.status? memory key =
      (scope.slots.find? target).map (scope.slotStatus memory target) := by
  unfold target? at behind
  unfold status?
  cases slot : scope.slots.find? key with
  | some backing =>
    rw [slot] at behind
    obtain rfl := Option.some.inj behind
    rw [slot]
    rfl
  | none =>
    rw [slot] at behind
    obtain ⟨binding, interface, rfl⟩ := Option.map_eq_some_iff.mp behind
    rw [interface]

theorem target?_eq_none_iff : scope.target? key = none ↔ scope.owns key = false := by
  unfold target?
  rw [owns_eq_false_iff]
  cases scope.slots.find? key <;> simp

theorem owns_of_target? (behind : scope.target? key = some target) : scope.owns key = true := by
  by_contra unowned
  cases behind.symm.trans (target?_eq_none_iff.mpr (Bool.eq_false_iff.mpr unowned))

theorem status?_of_unowned (unowned : scope.owns key = false) :
    scope.status? memory key =
      if memory.imported.contains (scope.site key) then some .imported else none := by
  obtain ⟨noSlot, noInterface⟩ := owns_eq_false_iff.mp unowned
  unfold status?
  rw [noSlot, noInterface]

theorem slotStatus_moves (extends_ : before.Extends after) (key : Key) (backing : Backing) :
    Status.Moves (some (scope.slotStatus before key backing))
      (some (scope.slotStatus after key backing)) := by
  cases backing with
  | value value => exact .stays _
  | generated source eager cyclic =>
    dsimp only [slotStatus]
    by_cases hbefore : before.filled.contains (scope.site key) = true
    · have hafter := Table.Extends.contains extends_.filled hbefore
      rw [if_pos hbefore, if_pos hafter]
      exact .stays _
    · rw [if_neg hbefore]
      by_cases hafter : after.filled.contains (scope.site key) = true
      · rw [if_pos hafter]
        exact .resolves
      · rw [if_neg hafter]
        exact .stays _

/-- While the memory grows, a status moves in no other way. -/
theorem status?_moves (extends_ : before.Extends after) (key : Key) :
    Status.Moves (scope.status? before key) (scope.status? after key) := by
  cases behind : scope.target? key with
  | some target =>
    rw [status?_of_target behind, status?_of_target behind]
    cases scope.slots.find? target with
    | none => exact .stays _
    | some backing => exact slotStatus_moves extends_ target backing
  | none =>
    have unowned := target?_eq_none_iff.mp behind
    rw [status?_of_unowned unowned, status?_of_unowned unowned]
    by_cases hbefore : before.imported.contains (scope.site key) = true
    · have hafter := Table.Extends.contains extends_.imported hbefore
      rw [if_pos hbefore, if_pos hafter]
      exact .stays _
    · rw [if_neg hbefore]
      split
      · exact .imports
      · exact .stays _

theorem status?_of_generated {source : Registered} {eager cyclic : Bool}
    (behind : scope.target? key = some target)
    (slot : scope.slots.find? target = some (.generated source eager cyclic)) :
    scope.status? memory key =
      some (if memory.filled.contains (scope.site target) then .resolved else .pending) := by
  rw [status?_of_target behind, slot]
  rfl

theorem status?_pending_iff (behind : scope.target? key = some target)
    (slot : scope.slots.find? target = some backing) :
    scope.status? memory key = some .pending ↔
      memory.stored? (scope.site target) backing = none := by
  cases backing with
  | value value =>
    rw [status?_of_target behind, slot]
    simp [slotStatus, Memory.stored?]
  | generated source eager cyclic =>
    have hstored : memory.filled.contains (scope.site target) = true ↔
        memory.filled.find? (scope.site target) ≠ none := Option.isSome_iff_ne_none
    rw [status?_of_generated behind slot, Memory.stored?]
    by_cases filled : memory.filled.contains (scope.site target) = true
    · simp [filled, hstored.mp filled]
    · simp [filled, not_not.mp (mt hstored.mpr filled)]

theorem pending_inv (pending : scope.status? memory key = some .pending) :
    ∃ target source eager cyclic, scope.target? key = some target ∧
      scope.slots.find? target = some (.generated source eager cyclic) ∧
      memory.filled.find? (scope.site target) = none := by
  cases behind : scope.target? key with
  | none =>
    rw [status?_of_unowned (target?_eq_none_iff.mp behind)] at pending
    split at pending <;> cases pending
  | some target =>
    cases slot : scope.slots.find? target with
    | none => simp [status?_of_target behind, slot] at pending
    | some backing =>
      have empty := (status?_pending_iff behind slot).mp pending
      cases backing with
      | value => cases empty
      | generated source eager cyclic => exact ⟨target, source, eager, cyclic, rfl, slot, empty⟩

theorem absent_inv (sound : scope.Sound) (absent : scope.status? memory key = none) :
    scope.owns key = false ∧ memory.imported.find? (scope.site key) = none := by
  cases behind : scope.target? key with
  | none =>
    have unowned := target?_eq_none_iff.mp behind
    rw [status?_of_unowned unowned] at absent
    split at absent
    · cases absent
    · next unknown => exact ⟨unowned, by simpa [Table.contains] using unknown⟩
  | some target =>
    obtain ⟨backing, slot⟩ : ∃ backing, scope.slots.find? target = some backing := by
      unfold target? at behind
      split at behind
      · next backing own => exact ⟨backing, Option.some.inj behind ▸ own⟩
      · obtain ⟨binding, interface, rfl⟩ := Option.map_eq_some_iff.mp behind
        exact sound.bound key binding interface
    simp [status?_of_target behind, slot] at absent

end Scope

namespace World

/-- In between, no run begins or ends, no body is entered, and no slot gets a value. -/
structure Rests (before after : World) : Prop extends before.Idles after where
  runs : after.runs = before.runs

namespace Rests

variable {world between after : World}

theorem refl (world : World) : world.Rests world := ⟨.refl world, rfl⟩

theorem trans (hfirst : world.Rests between) (hsecond : between.Rests after) :
    world.Rests after :=
  ⟨hfirst.toIdles.trans hsecond.toIdles, hsecond.runs.trans hfirst.runs⟩

theorem emit (world : World) {event : Event} (aside : event.IsAside) :
    world.Rests (world.emit event) :=
  ⟨.emit world aside, rfl⟩

theorem obstruct {scope : Scope} {key : Key} {source : Registered} {chain : Chain}
    {error : ResolutionError} (obstructs : error.Obstructs key) :
    world.Rests (world.obstruct scope key source chain error) :=
  ⟨.obstruct obstructs, rfl⟩

theorem conclude (world : World) (layer : Layer) (key : Key) (result : Except Stop Answer) :
    world.Rests (world.conclude layer key result) := by
  refine ⟨.conclude world layer key result, ?_⟩
  rcases result with stop | (error | value) <;> rfl

end Rests

end World

def Granted {ε : Type} (result : Except Stop (Except ε Value)) : Prop :=
  ∃ value, result = .ok (.ok value)

instance {ε : Type} (result : Except Stop (Except ε Value)) : Decidable (Granted result) :=
  match result with
  | .ok (.ok value) => .isTrue ⟨value, rfl⟩
  | .ok (.error _) => .isFalse nofun
  | .error _ => .isFalse nofun

theorem not_granted_iff {ε : Type} {result : Except Stop (Except ε Value)} :
    ¬ Granted result ↔ ∀ value, result ≠ .ok (.ok value) :=
  not_exists

namespace Resolution

variable {fuel : Nat} {scope : Scope} {outer : List Scope} {key target : Key} {binding : Binding}
  {backing : Backing} {source : Registered} {eager cyclic : Bool} {value : Value} {chain : Chain}
  {context : Context} {world between after : World} {result : Except Stop Answer}

theorem Binds.rests {perform : Command → Engine Reply}
    (binds : Binds perform scope key binding value world result after)
    (silent : ∀ call payload, (binding.cast.apply call payload).Silent) : world.Rests after :=
  ⟨binds.idles silent, binds.keeps (fun moment => moment.runs = world.runs) (fun _ h => h)
    (fun call payload => (silent call payload).keeps_aside
      (fun h sidesteps => sidesteps.runs.trans h) fun _ h => h)
    (fun _ _ h => h) rfl⟩

theorem Binds.granted {perform : Command → Engine Reply}
    (binds : Binds perform scope key binding value world result after)
    (returns : ∀ call payload, ∃ found, (binding.cast.apply call payload).outcome? = some found)
    (typed : value.type = binding.source) : Granted result := by
  cases binds with
  | mistyped other => exact absurd typed other
  | broken _ cast =>
    obtain ⟨found, houtcome⟩ := returns (world.nextCast (scope.site key)) value.payload
    have hresult := Act.run_of_outcome? houtcome perform
      (world.enterCast (scope.site key) binding value.payload)
    rw [cast] at hresult
    cases hresult
  | bound => exact ⟨_, rfl⟩

/-- A request for a type comes down to one for a slot: it comes to what that comes to, or its cast
is applied to the value of the slot. -/
theorem Resolves.target_inv
    (resolves : Resolves fuel ⟨scope, outer⟩ key chain context world result after)
    (behind : scope.target? key = some target) (slot : scope.slots.find? target = some backing)
    (unbound : scope.slots.find? key = none →
      world.memory.bound.find? (scope.site key) = none) :
    ∃ found between, Resolves fuel ⟨scope, outer⟩ target chain context world found between ∧
      ((result = found ∧ after = between) ∨
        ∃ binding value, scope.slots.find? key = none ∧
          scope.bindings.find? key = some binding ∧ binding.source = target ∧
          found = .ok (.ok value) ∧
          Binds (Session.handler fuel) scope key binding value between result after) := by
  unfold Scope.target? at behind
  cases own : scope.slots.find? key with
  | some backing' =>
    rw [own] at behind
    obtain rfl := Option.some.inj behind
    exact ⟨result, after, resolves, .inl ⟨rfl, rfl⟩⟩
  | none =>
    rw [own] at behind
    obtain ⟨binding, interface, rfl⟩ := Option.map_eq_some_iff.mp behind
    obtain ⟨noSource, -⟩ | ⟨backing', found, between, -, answer, hends⟩ :=
      resolves.interface_inv own interface (unbound own)
    · cases noSource.symm.trans slot
    · refine ⟨found, between, answer, ?_⟩
      rcases hends with ⟨-, rfl, rfl⟩ | ⟨value, hvalue, binds⟩
      · exact .inl ⟨rfl, rfl⟩
      · exact .inr ⟨binding, value, rfl, interface, rfl, hvalue, binds⟩

/-- Where the makers of a type honor it, a request for it is granted exactly if one for the slot is
that it comes down to, and nothing but a cast happens after that. -/
theorem Resolves.through (hosts : world.Hosts ⟨scope, outer⟩) (vouched : world.Vouched)
    (silent : scope.Silent) (honors : scope.Honors key)
    (resolves : Resolves fuel ⟨scope, outer⟩ key chain context world result after)
    (behind : scope.target? key = some target) (slot : scope.slots.find? target = some backing)
    (unbound : scope.slots.find? key = none →
      world.memory.bound.find? (scope.site key) = none) :
    ∃ found between, Resolves fuel ⟨scope, outer⟩ target chain context world found between ∧
      between.Rests after ∧ (Granted result ↔ Granted found) ∧
      (¬ Granted found → result = found) := by
  obtain ⟨found, between, answer, hends⟩ := resolves.target_inv behind slot unbound
  refine ⟨found, between, answer, ?_⟩
  rcases hends with ⟨rfl, rfl⟩ | ⟨binding, value, own, interface, rfl, rfl, binds⟩
  · exact ⟨.refl after, Iff.rfl, fun _ => rfl⟩
  · have hosts' := answer.hosts hosts hosts
    have typed : value.type = binding.source :=
      (answer.vouched hosts vouched).stored_typed hosts' silent (honors.fills _ behind) slot
        (answer.stored_value slot hosts vouched.accountable.faithful rfl)
    have hgranted := binds.granted (honors.casts own binding interface) typed
    exact ⟨binds.rests (silent.casts key binding interface),
      iff_of_true hgranted ⟨value, rfl⟩, fun h => absurd ⟨value, rfl⟩ h⟩

theorem Resolves.ready (hosts : world.Hosts ⟨scope, outer⟩) (vouched : world.Vouched)
    (silent : scope.Silent) (honors : scope.owns key = true → scope.Honors key)
    (resolves : Resolves fuel ⟨scope, outer⟩ key chain context world result after) {status : Status}
    (hstatus : scope.status? world.memory key = some status) (ready : status ≠ .pending) :
    Granted result ∧ world.Rests after := by
  have hat_once {value : Value} (found : Resolves fuel ⟨scope, outer⟩ key chain context world
      (.ok (.ok value)) world) : Granted result ∧ world.Rests after := by
    obtain ⟨rfl, rfl⟩ := Prod.mk.inj (resolves.eq_resolver.symm.trans found.eq_resolver)
    exact ⟨⟨value, rfl⟩, .refl _⟩
  cases behind : scope.target? key with
  | none =>
    have unowned := Scope.target?_eq_none_iff.mp behind
    rw [Scope.status?_of_unowned unowned] at hstatus
    split at hstatus
    · next hcontains =>
      obtain ⟨value, present⟩ := Option.isSome_iff_exists.mp hcontains
      exact hat_once (.imported unowned present)
    · cases hstatus
  | some target =>
    cases slot : scope.slots.find? target with
    | none => simp [Scope.status?_of_target behind, slot] at hstatus
    | some backing =>
      -- Not being pending, the slot has a value, from which a cast may still be to be made.
      have hstored : world.memory.stored? (scope.site target) backing ≠ none := by
        rw [Ne, ← Scope.status?_pending_iff behind slot, hstatus]
        simpa using ready
      obtain ⟨held, stored⟩ := Option.ne_none_iff_exists'.mp hstored
      have howned := Scope.owns_of_target? behind
      by_cases unbound : scope.slots.find? key = none →
        world.memory.bound.find? (scope.site key) = none
      · obtain ⟨found, between, answer, hrests, hgranted, -⟩ :=
          resolves.through hosts vouched silent (honors howned) behind slot unbound
        obtain ⟨rfl, rfl⟩ := answer.eq_stored slot stored
        have hhit : world.Rests (world.emit (.logged (.slotHit scope.id target))) :=
          .emit world trivial
        exact ⟨hgranted.mpr ⟨held, rfl⟩, hhit.trans hrests⟩
      · -- The interface has a value already.
        obtain ⟨own, hbound⟩ := Classical.not_imp.mp unbound
        obtain ⟨value, present⟩ := Option.ne_none_iff_exists'.mp hbound
        rw [Scope.target?, own] at behind
        obtain ⟨binding, interface, -⟩ := Option.map_eq_some_iff.mp behind
        exact hat_once (.bound own interface present)

/-- A request for an empty slot that nothing keeps from being filled begins with a start of its
generator. -/
theorem Resolves.begins
    (resolves : Resolves (fuel + 1) ⟨scope, outer⟩ key chain context world result after)
    (slot : scope.slots.find? key = some (.generated source eager cyclic))
    (empty : world.memory.filled.find? (scope.site key) = none) (unheld : world.held = [])
    (free : obstacle? ⟨scope, outer⟩ key source cyclic chain context world.signals = none) :
    (world.start scope key source chain).Advances after := by
  cases resolves with
  | stored slot' present =>
    obtain rfl := Option.some.inj (slot.symm.trans slot')
    cases empty.symm.trans present
  | obstructed slot' _ obstacle =>
    obtain ⟨rfl, -, rfl⟩ := Backing.generated.inj (Option.some.inj (slot.symm.trans slot'))
    cases free.symm.trans obstacle
  | blocked _ _ _ locked => simp [unheld] at locked
  | run starts answers ends =>
    have hgathered := starts.gathers.chain World.Grows.refl (fun h h' => h.trans h')
      fun inquiry hinquiry => (answers inquiry hinquiry).grows
    obtain ⟨early, flag, slot', -⟩ := starts.slot
    obtain ⟨rfl, -, -⟩ := Backing.generated.inj (Option.some.inj (slot.symm.trans slot'))
    exact (hgathered.toAdvances.trans (ends.grows (Session.handler_grows _)).1).trans (.hold _ _)
  | bound noSlot | unbacked noSlot | unsourced noSlot | cast noSlot => cases noSlot.symm.trans slot
  | imported unowned | missing unowned | unavailable unowned | delegated unowned =>
    cases (Scope.owns_eq_false_iff.mp unowned).1.symm.trans slot

/-- What a request for a pending type comes to. -/
theorem Resolves.pending (hosts : world.Hosts ⟨scope, outer⟩) (vouched : world.Vouched)
    (silent : scope.Silent) (honors : scope.Honors key) (unheld : world.held = [])
    (resolves : Resolves (fuel + 1) ⟨scope, outer⟩ key chain context world result after)
    (behind : scope.target? key = some target)
    (slot : scope.slots.find? target = some (.generated source eager cyclic))
    (empty : world.memory.filled.find? (scope.site target) = none) :
    (match obstacle? ⟨scope, outer⟩ target source cyclic chain context world.signals with
      | some error => result = .ok (.error error) ∧ world.Rests after
      | none => (world.start scope target source chain).Advances after) ∧
    (Granted result ↔ after.memory.filled.contains (scope.site target) = true) := by
  have unbound (own : scope.slots.find? key = none) :
      world.memory.bound.find? (scope.site key) = none := by
    rw [Scope.target?, own] at behind
    obtain ⟨binding, interface, rfl⟩ := Option.map_eq_some_iff.mp behind
    refine vouched.backed.unbound hosts.2 interface slot fun value stored => ?_
    cases empty.symm.trans stored
  obtain ⟨found, between, answer, hrests, hgranted, hlost⟩ :=
    resolves.through hosts vouched silent honors behind slot unbound
  constructor
  -- The slot settles whether the generator is started; the cast after it does not undo that.
  · cases obstacle : obstacle? ⟨scope, outer⟩ target source cyclic chain context world.signals with
    | some error =>
      have obstructed : Resolves (fuel + 1) ⟨scope, outer⟩ target chain context world _ _ :=
        .obstructed slot empty obstacle
      obtain ⟨rfl, rfl⟩ := Prod.mk.inj (answer.eq_resolver.symm.trans obstructed.eq_resolver)
      have hobstruct : world.Rests (world.obstruct scope target source chain error) :=
        .obstruct (obstructs_of_obstacle? obstacle)
      exact ⟨hlost (by simp [Granted]), hobstruct.trans hrests⟩
    | none => exact (answer.begins slot empty unheld obstacle).trans hrests.advances
  · rw [hgranted, Table.contains, hrests.filled]
    constructor
    · rintro ⟨value, rfl⟩
      have hstored := answer.stored_value slot hosts vouched.accountable.faithful rfl
      exact Option.isSome_iff_exists.mpr ⟨value, hstored⟩
    · intro hfilled
      by_contra lost
      have hempty := answer.fruitless hosts slot (not_granted_iff.mp lost)
      simp [hempty] at hfilled

theorem contains_hoist (unknown : world.memory.imported.find? (scope.site key) = none) :
    (world.hoist scope key value).memory.imported.contains (scope.site key) = true ↔
      scope.settings.hoist = true := by
  unfold World.hoist Table.contains
  split
  · next hoists =>
    change ((world.memory.imported.add (scope.site key) value).find? _).isSome = true ↔ _
    rw [Table.find?_add, if_pos rfl, unknown]
    simp [hoists]
  · next hoists => simp [unknown, hoists]

/-- A request for an absent type imports it if it is granted and the scope is to keep what it finds,
and in no other case. -/
theorem Resolves.imports_iff (hosts : world.Hosts ⟨scope, outer⟩)
    (silent : ∀ inner ∈ Layer.ancestry ⟨scope, outer⟩, inner.Silent)
    (resolves : Resolves fuel ⟨scope, outer⟩ key chain context world result after)
    (unowned : scope.owns key = false)
    (unknown : world.memory.imported.find? (scope.site key) = none) :
    after.memory.imported.contains (scope.site key) = true ↔
      Granted result ∧ scope.settings.hoist = true := by
  have hresolver := resolves.eq_resolver
  rw [resolver_of_unowned unowned, unknown] at hresolver
  cases outer with
  | nil =>
    obtain ⟨rfl, rfl⟩ := Prod.mk.inj hresolver
    simp [Table.contains, unknown, Granted]
  | cons parent further =>
    have hparent := resolver_resolves fuel ⟨parent, further⟩ key chain context
      (world.delegate scope key parent)
    -- What the layers further out do is no import of this one.
    have houtside : (scope.site key).layer ∉ (Layer.ancestry ⟨parent, further⟩).map Scope.id :=
      hosts.1.id_notMem_outer hosts.2
    have hsilent : ∀ inner ∈ Layer.ancestry ⟨parent, further⟩, inner.Silent :=
      fun inner hinner => silent inner (List.mem_cons_of_mem _ hinner)
    have hconfined := hparent.confined (.of_silent hsilent key)
    have hunknown := (hconfined.outside houtside).2.2.trans unknown
    dsimp only at hresolver
    revert hresolver hunknown
    rcases Session.resolver fuel ⟨parent, further⟩ key chain context
      (world.delegate scope key parent) with ⟨stop | (error | value), between⟩
    · rintro hresolver hunknown
      obtain ⟨rfl, rfl⟩ := Prod.mk.inj hresolver
      simp [Table.contains, hunknown, Granted]
    · rintro hresolver hunknown
      obtain ⟨rfl, rfl⟩ := Prod.mk.inj hresolver
      simp [Table.contains, hunknown, Granted]
    · rintro hresolver hunknown
      obtain ⟨rfl, rfl⟩ := Prod.mk.inj hresolver
      rw [and_iff_right ⟨_, rfl⟩]
      exact contains_hoist hunknown

theorem resolver_emit {layer : Layer} (silent : ∀ inner ∈ layer.ancestry, inner.Silent)
    (hosts : world.Hosts layer) (faithful : world.Faithful) (event : Event) :
    (Session.resolver fuel layer key chain context (world.emit event)).1 =
      (Session.resolver fuel layer key chain context world).1 := by
  obtain ⟨last, hfollows, -⟩ := (resolver_resolves fuel layer key chain context world).follow
    (Simulation.shift world.trace (event :: world.trace)) silent (fun _ _ => trivial) hosts
    faithful (.inl rfl) ⟨[], rfl, rfl⟩
  rw [Layer.hoisting_id, Nat.add_zero] at hfollows
  have hresult := congrArg Prod.fst hfollows.eq_resolver
  exact hresult

end Resolution

namespace Layer

variable {layer other : Layer} {key : Key} {memory memory' : Memory} {result : Except Stop Answer}

theorem Honors.of_owns (honors : layer.Honors key) (owned : layer.scope.owns key = true) :
    layer.scope.Honors key :=
  honors _ (List.find?_cons_of_pos owned)

theorem granted_reply_iff (typed : ∀ value, result = .ok (.ok value) → value.type = key) :
    Granted (result.map (layer.reply memory key)) ↔ Granted result := by
  rcases result with stop | (error | value)
  · simp [Granted, Except.map]
  · simp [Granted, Except.map, reply]
  · simp [Granted, Except.map, reply, typed value rfl]

/-- Requests of two layers differ in nothing but the dumps on failures, if the engine answers them
the same. -/
theorem mapError_reply (answer : Answer) :
    (layer.reply memory key answer).mapError Failure.error =
      (other.reply memory' key answer).mapError Failure.error := by
  cases answer <;> rfl

end Layer

theorem World.conclude_memory (world : World) (layer : Layer) (key : Key)
    (result : Except Stop Answer) : (world.conclude layer key result).memory = world.memory := by
  rcases result with stop | (error | value) <;> rfl

namespace Session

open Resolution

section Foretelling

variable {world : World} {layer : Layer} {key : Key}

/-- A request as the engine carries it out. -/
theorem Reachable.request_resolves (reachable : Reachable world) (known : layer ∈ world.built)
    (silent : ∀ scope ∈ layer.ancestry, scope.Silent) (honors : layer.Honors key) (fuel : Nat)
    (context : Context) :
    ∃ result after,
      Resolves fuel layer key [] context (world.emit (.asked (layer.scope.site key))) result
        after ∧
      layer.resolveAs (resolver fuel) key context world =
        (result.map (layer.reply after.memory key), after.conclude layer key result) ∧
      (Granted (result.map (layer.reply after.memory key)) ↔ Granted result) := by
  have hosts : (world.emit (.asked (layer.scope.site key))).Hosts layer :=
    ⟨reachable.valid.emit _, known⟩
  have hvouched : (world.emit (.asked (layer.scope.site key))).Vouched :=
    reachable.vouched.emit trivial nofun
  have hresolves := resolver_resolves fuel layer key [] context
    (world.emit (.asked (layer.scope.site key)))
  refine ⟨_, _, hresolves, Layer.resolveAs_eq rfl, Layer.granted_reply_iff fun value hvalue => ?_⟩
  rw [hvalue] at hresolves
  exact hresolves.typed hosts hvouched silent honors

theorem Reachable.grants_ready (reachable : Reachable world) (known : layer ∈ world.built)
    (silent : ∀ scope ∈ layer.ancestry, scope.Silent) (honors : layer.Honors key) {status : Status}
    (hstatus : layer.scope.status? world.memory key = some status) (ready : status ≠ .pending)
    (fuel : Nat) (context : Context) :
    let ended := layer.resolveAs (resolver fuel) key context world
    Granted ended.1 ∧ world.Rests ended.2 := by
  obtain ⟨result, after, resolves, hended, hgranted⟩ :=
    reachable.request_resolves known silent honors fuel context
  have hosts : (world.emit (.asked (layer.scope.site key))).Hosts layer :=
    ⟨reachable.valid.emit _, known⟩
  have hasked : world.Rests (world.emit (.asked (layer.scope.site key))) := .emit world trivial
  obtain ⟨granted, hrests⟩ := resolves.ready hosts (reachable.vouched.emit trivial nofun)
    (silent _ List.mem_cons_self) honors.of_owns hstatus ready
  dsimp only
  rw [hended]
  exact ⟨hgranted.mpr granted, (hasked.trans hrests).trans (.conclude _ _ _ _)⟩

theorem Reachable.starts_pending (reachable : Reachable world) (known : layer ∈ world.built)
    (silent : ∀ scope ∈ layer.ancestry, scope.Silent) (honors : layer.Honors key)
    (pending : layer.scope.status? world.memory key = some .pending) :
    ∃ target source eager cyclic, layer.scope.target? key = some target ∧
      layer.scope.slots.find? target = some (.generated source eager cyclic) ∧
      ∀ fuel context,
        let asked := world.emit (.asked (layer.scope.site key))
        let ended := layer.resolveAs (resolver (fuel + 1)) key context world
        (match obstacle? layer target source cyclic [] context world.signals with
          | some error => (∃ snapshot, ended.1 = .ok (.error ⟨error, snapshot⟩)) ∧
              world.Rests ended.2
          | none => (asked.start layer.scope target source []).Advances ended.2) ∧
        layer.scope.status? ended.2.memory key =
          some (if Granted ended.1 then .resolved else .pending) := by
  obtain ⟨target, source, eager, cyclic, behind, slot, empty⟩ := Scope.pending_inv pending
  refine ⟨target, source, eager, cyclic, behind, slot, fun fuel context => ?_⟩
  obtain ⟨result, after, resolves, hended, hgranted⟩ :=
    reachable.request_resolves known silent honors (fuel + 1) context
  have hosts : (world.emit (.asked (layer.scope.site key))).Hosts layer :=
    ⟨reachable.valid.emit _, known⟩
  have hasked : world.Rests (world.emit (.asked (layer.scope.site key))) := .emit world trivial
  have howned := Scope.owns_of_target? behind
  obtain ⟨hstarts, hfilled⟩ := resolves.pending hosts (reachable.vouched.emit trivial nofun)
    (silent _ List.mem_cons_self) (honors.of_owns howned) reachable.held behind slot empty
  have hconcluded : after.Rests (after.conclude layer key result) := .conclude _ _ _ _
  dsimp only
  rw [hended]
  constructor
  · revert hstarts
    change (match obstacle? layer target source cyclic [] context world.signals with
        | some error => result = .ok (.error error) ∧ _
        | none => _) → _
    cases obstacle? layer target source cyclic [] context world.signals with
    | some error =>
      rintro ⟨rfl, hrests⟩
      exact ⟨⟨_, rfl⟩, (hasked.trans hrests).trans hconcluded⟩
    | none =>
      intro hadvances
      exact hadvances.trans hconcluded.advances
  · rw [Scope.status?_of_generated behind slot, World.conclude_memory]
    simp only [hgranted, hfilled]

/-- A request for an absent type is answered by the layer further out that owns the type, if there
is one, and the answer is kept if it is a value and the layer is to keep what it finds. -/
theorem Reachable.delegates_absent (reachable : Reachable world) (known : layer ∈ world.built)
    (silent : ∀ scope ∈ layer.ancestry, scope.Silent) (honors : layer.Honors key)
    (absent : layer.scope.status? world.memory key = none) :
    layer.scope.owns key = false ∧
      world.memory.imported.find? (layer.scope.site key) = none ∧
      ∀ fuel context,
        let ended := layer.resolveAs (resolver fuel) key context world
        (layer.owner? key = none → ∃ snapshot, ended.1 = .ok (.error ⟨.notFound key, snapshot⟩)) ∧
        (∀ below owner outer, layer.ancestry = below ++ owner :: outer →
          (∀ inner ∈ below, inner.owns key = false) → owner.owns key = true →
            ended.1.map (Except.mapError Failure.error) =
              (Layer.resolveAs (resolver fuel) ⟨owner, outer⟩ key context world).1.map
                (Except.mapError Failure.error)) ∧
        layer.scope.status? ended.2.memory key =
          if Granted ended.1 ∧ layer.scope.settings.hoist = true then some .imported else none := by
  obtain ⟨unowned, unknown⟩ := Scope.absent_inv (reachable.valid.sound layer known) absent
  refine ⟨unowned, unknown, fun fuel context => ?_⟩
  obtain ⟨result, after, resolves, hended, hgranted⟩ :=
    reachable.request_resolves known silent honors fuel context
  have hosts : (world.emit (.asked (layer.scope.site key))).Hosts layer :=
    ⟨reachable.valid.emit _, known⟩
  have faithful : (world.emit (.asked (layer.scope.site key))).Faithful :=
    World.Faithful.lasts.emit reachable.coherent.imports trivial
  dsimp only
  rw [hended]
  refine ⟨fun ownerless => ?_, fun below owner outer hancestry hbelow owned => ?_, ?_⟩
  · obtain ⟨last, hresolver, -⟩ :=
      @resolver_of_ownerless fuel layer key [] context _ hosts faithful ownerless
    obtain ⟨rfl, rfl⟩ := Prod.mk.inj (resolves.eq_resolver.symm.trans hresolver)
    exact ⟨_, rfl⟩
  · have houter : ∀ inner ∈ Layer.ancestry ⟨owner, outer⟩, inner.Silent := by
      intro inner hinner
      refine silent inner ?_
      rw [hancestry]
      exact List.mem_append_right _ hinner
    have hfurther : world.Hosts ⟨owner, outer⟩ :=
      World.Hosts.further ⟨reachable.valid, known⟩ hancestry
    have howner := (resolver_of_owner hancestry hbelow owned silent hosts faithful fuel []
      context).1
    rw [resolves.eq_resolver, resolver_emit houter hfurther reachable.coherent.imports,
      ← resolver_emit houter hfurther reachable.coherent.imports (.asked (owner.site key))]
      at howner
    -- Both requests begin by noting that they were made, which the answers do not depend on.
    have hanswer : result = (resolver fuel ⟨owner, outer⟩ key [] context
        (world.emit (.asked (owner.site key)))).1 := howner
    rw [Layer.resolveAs_eq rfl, ← hanswer]
    rcases result with stop | answer
    · rfl
    · exact congrArg Except.ok (Layer.mapError_reply answer)
  · have himports := resolves.imports_iff hosts silent unowned unknown
    rw [Scope.status?_of_unowned unowned, World.conclude_memory]
    simp only [hgranted, himports]

/-- With nesting for all the generators of a layer, a request comes to an answer unless some code
panics. -/
theorem Reachable.stops_by_panic (reachable : Reachable world) (known : layer ∈ world.built)
    (silent : ∀ scope ∈ layer.ancestry, scope.Silent) (honors : layer.Honors key) {fuel : Nat}
    (nesting : layer.generatorCount < fuel) (context : Context) {stop : Stop}
    (h : (layer.resolveAs (resolver fuel) key context world).1 = .error stop) :
    ∃ message, stop = .panic message := by
  obtain ⟨result, after, resolves, hended, -⟩ :=
    reachable.request_resolves known silent honors fuel context
  rw [hended] at h
  rcases result with other | answer
  · obtain rfl : other = stop := Except.error.inj h
    exact resolves.panics silent (reachable.valid.proper known) reachable.held nesting
  · cases h

end Foretelling

/-- The world after these commands, each with its own bound on nesting. -/
def pursue (world : World) (commands : List (Nat × Command)) : World :=
  commands.foldl (fun world (fuel, command) => (step fuel world command).2) world

/-- While commands are carried out, a status moves in no other way. -/
theorem pursue_moves (scope : Scope) (key : Key) (world : World)
    (commands : List (Nat × Command)) :
    Status.Moves (scope.status? world.memory key)
      (scope.status? (pursue world commands).memory key) := by
  induction commands generalizing world with
  | nil => exact .stays _
  | cons first rest ih =>
    have hstep : Status.Moves (scope.status? world.memory key)
        (scope.status? (step first.1 world first.2).2.memory key) :=
      Scope.status?_moves (perform_grows first.1 first.2 world).memory key
    exact hstep.trans (ih _)

/-- The status of a type foretells what a request for it comes to. Let the bodies and casts of a
layer and of those around it give no commands, and let whatever makes the values of the type make
values of that type.

If the layer reports the type as a value, resolved or imported, a request for it is granted in any
context, and no generator is started. If it is pending, a request starts the generator of the slot
that the type comes down to, or fails with what keeps it from being started; from then on the type
is resolved if the request was granted, and else it is pending still. If it is absent, the layer has
no slot, no interface and no imported value for it, and a request is answered as the nearest layer
that owns the type answers it, or fails as nothing is found; from then on the type is imported if
the request was granted and the layer keeps what it finds, and else it is absent still. Statuses
change in these two ways only, whatever is asked for. That casts come to their end is part of the
condition: see `panics_of_casts_are_not_foretold`. -/
theorem statuses_foretell_requests {world : World} (reachable : Reachable world) {layer : Layer}
    (known : layer ∈ world.built) (silent : ∀ scope ∈ layer.ancestry, scope.Silent) {key : Key}
    (honors : layer.Honors key) :
    (∀ status, layer.scope.status? world.memory key = some status → status ≠ .pending →
      ∀ fuel context,
        let ended := layer.resolveAs (resolver fuel) key context world
        Granted ended.1 ∧ world.Rests ended.2) ∧
    (layer.scope.status? world.memory key = some .pending →
      ∃ target source eager cyclic, layer.scope.target? key = some target ∧
        layer.scope.slots.find? target = some (.generated source eager cyclic) ∧
        ∀ fuel context,
          let asked := world.emit (.asked (layer.scope.site key))
          let ended := layer.resolveAs (resolver (fuel + 1)) key context world
          (match obstacle? layer target source cyclic [] context world.signals with
            | some error => (∃ snapshot, ended.1 = .ok (.error ⟨error, snapshot⟩)) ∧
                world.Rests ended.2
            | none => (asked.start layer.scope target source []).Advances ended.2) ∧
          layer.scope.status? ended.2.memory key =
            some (if Granted ended.1 then .resolved else .pending)) ∧
    (layer.scope.status? world.memory key = none →
      layer.scope.owns key = false ∧ world.memory.imported.find? (layer.scope.site key) = none ∧
      ∀ fuel context,
        let ended := layer.resolveAs (resolver fuel) key context world
        (layer.owner? key = none →
          ∃ snapshot, ended.1 = .ok (.error ⟨.notFound key, snapshot⟩)) ∧
        (∀ below owner outer, layer.ancestry = below ++ owner :: outer →
          (∀ inner ∈ below, inner.owns key = false) → owner.owns key = true →
            ended.1.map (Except.mapError Failure.error) =
              (Layer.resolveAs (resolver fuel) ⟨owner, outer⟩ key context world).1.map
                (Except.mapError Failure.error)) ∧
        layer.scope.status? ended.2.memory key =
          if Granted ended.1 ∧ layer.scope.settings.hoist = true then some .imported else none) ∧
    (∀ fuel context, layer.generatorCount < fuel → ∀ stop,
      (layer.resolveAs (resolver fuel) key context world).1 = .error stop →
        ∃ message, stop = .panic message) ∧
    (∀ fuel other asked chain context before,
      Status.Moves (layer.scope.status? before.memory key)
        (layer.scope.status? (resolver fuel other asked chain context before).2.memory key)) ∧
    ∀ commands, Status.Moves (layer.scope.status? world.memory key)
      (layer.scope.status? (pursue world commands).memory key) := by
  refine ⟨fun status hstatus ready fuel context => ?_, ?_, ?_, fun fuel context nesting stop => ?_,
    fun fuel other asked chain context before => ?_, ?_⟩
  · exact reachable.grants_ready known silent honors hstatus ready fuel context
  · exact reachable.starts_pending known silent honors
  · exact reachable.delegates_absent known silent honors
  · exact reachable.stops_by_panic known silent honors nesting context
  · exact Scope.status?_moves (resolver_resolves fuel other asked chain context before).grows.memory
      key
  · exact pursue_moves layer.scope key world

/-- An interface is reported to be ready as soon as its source is. If the cast panics when it is applied
next, so does a request for the interface, which is reported to be ready as before. -/
theorem panics_of_casts_are_not_foretold {world : World} {layer : Layer} {key : Key}
    {binding : Binding} {backing : Backing} {held : Value} {message : String}
    (noSlot : layer.scope.slots.find? key = none)
    (interface : layer.scope.bindings.find? key = some binding)
    (unbound : world.memory.bound.find? (layer.scope.site key) = none)
    (behind : layer.scope.slots.find? binding.source = some backing)
    (stored : world.memory.stored? (layer.scope.site binding.source) backing = some held)
    (typed : held.type = binding.source)
    (panics : binding.cast.apply (world.nextCast (layer.scope.site key)) held.payload =
      .panic message) (fuel : Nat) (context : Context) :
    let ended := layer.resolveAs (resolver fuel) key context world
    (∃ status, layer.scope.status? world.memory key = some status ∧ status ≠ .pending) ∧
      ended.1 = .error (.panic message) ∧ ended.2.memory = world.memory := by
  obtain ⟨scope, outer⟩ := layer
  have behind' : scope.target? key = some binding.source := by
    simp only [Scope.target?, noSlot, interface]
    rfl
  have ready : scope.status? world.memory key ≠ some .pending := by
    rw [Ne, Scope.status?_pending_iff behind' behind, stored]
    exact Option.some_ne_none held
  obtain ⟨status, hstatus⟩ : ∃ status, scope.status? world.memory key = some status := by
    rw [Scope.status?_of_target behind', behind]
    exact ⟨_, rfl⟩
  -- The request finds the source, and then the cast panics.
  let asked := world.emit (.asked (scope.site key))
  let found := asked.emit (.logged (.slotHit scope.id binding.source))
  have resolves : Resolves fuel ⟨scope, outer⟩ key [] context asked (.error (.panic message))
      (found.enterCast (scope.site key) binding held.payload) := by
    refine .cast noSlot interface unbound behind (.stored behind stored) (.broken typed ?_)
    change Engine.run _ (binding.cast.apply (world.nextCast (scope.site key)) held.payload) _ = _
    rw [panics]
    rfl
  refine ⟨⟨status, hstatus, fun h => ready (h ▸ hstatus)⟩, ?_⟩
  rw [Layer.resolveAs_eq resolves.eq_resolver]
  exact ⟨rfl, rfl⟩

def stamp (name : String) : Generator Command :=
  ⟨name, "stamp", [], [⟨name⟩], fun _ _ => .done (.products [⟨⟨name⟩, "stamped"⟩])⟩

def plainTurn : Cast Command := ⟨"turn", fun _ payload => .done payload⟩

def stampScope (id : Nat) (name : String) (bindings : Table Key Binding) : Scope :=
  { id, label := none, locked := false, bindings
    slots := ⟨[(⟨name⟩, .generated ⟨0, stamp name⟩ false false)]⟩
    overridable := [], settings := {}, observers := [] }

section Stamping

variable {id : Nat} {name : String} {bindings : Table Key Binding} {key : Key}

theorem stampScope_slot {backing : Backing}
    (slot : (stampScope id name bindings).slots.find? key = some backing) :
    key = ⟨name⟩ ∧ backing = .generated ⟨0, stamp name⟩ false false := by
  simpa [stampScope] using Table.mem_entries_of_find? slot

theorem stampScope_silent (casts : ∀ key binding, bindings.find? key = some binding →
    ∀ call payload, (binding.cast.apply call payload).Silent) :
    (stampScope id name bindings).Silent := by
  refine ⟨fun key source eager cyclic slot run arguments => ?_, casts⟩
  obtain ⟨rfl, -, -⟩ := Backing.generated.inj (stampScope_slot slot).2
  trivial

theorem stampScope_fills : (stampScope id name bindings).Fills key := by
  intro source eager cyclic slot run arguments products houtcome value hpair
  obtain ⟨rfl, hbacking⟩ := stampScope_slot slot
  obtain ⟨rfl, -, -⟩ := Backing.generated.inj hbacking
  obtain rfl := Yield.products.inj (Option.some.inj houtcome)
  obtain ⟨-, rfl⟩ := Prod.mk.inj (List.mem_singleton.mp hpair)
  rfl

end Stamping

/-- A generator with an interface to what it makes, and another generator further out. -/
def awaitedLayer : Layer :=
  ⟨stampScope 2 "Wheel" ⟨[(⟨"dyn Turn"⟩, ⟨⟨"Wheel"⟩, plainTurn⟩)]⟩, [stampScope 1 "Cog" {}]⟩

def awaitedWorld : World :=
  (step 1 (step 1 {} (.build "base" none [.register (.generator (stamp "Cog") false)])).2
    (.build "app" none [.parent "base", .register (.generator (stamp "Wheel") false),
      .register (.interface ⟨"dyn Turn"⟩ ⟨"Wheel"⟩ plainTurn)])).2

theorem awaitedLayer_known : awaitedLayer ∈ awaitedWorld.built := .head _

theorem awaitedLayer_silent : ∀ scope ∈ awaitedLayer.ancestry, scope.Silent := by
  intro scope hscope
  rcases List.mem_pair.mp hscope with rfl | rfl
  · refine stampScope_silent fun key binding interface call payload => ?_
    obtain ⟨-, rfl⟩ := Prod.mk.inj (List.mem_singleton.mp (Table.mem_entries_of_find? interface))
    trivial
  · exact stampScope_silent fun key binding interface => nomatch interface

theorem awaitedLayer_honors_interface : awaitedLayer.Honors ⟨"dyn Turn"⟩ := by
  intro scope howner
  obtain rfl : awaitedLayer.scope = scope := Option.some.inj howner
  refine ⟨fun _ _ => stampScope_fills, fun _ binding interface call payload => ?_⟩
  obtain rfl := Option.some.inj interface
  exact ⟨_, rfl⟩

theorem awaitedLayer_honors_outer : awaitedLayer.Honors ⟨"Cog"⟩ := by
  intro scope howner
  obtain rfl : stampScope 1 "Cog" {} = scope := Option.some.inj howner
  exact ⟨fun _ _ => stampScope_fills, fun _ binding interface => nomatch interface⟩

/-- The interface is pending until the generator has run. From then on it is granted in any context,
though its cast has not been applied yet. What is made further out is absent until it is asked
for. -/
theorem statuses_foretell_requests_awaited :
    Reachable awaitedWorld ∧ awaitedLayer ∈ awaitedWorld.built ∧
    awaitedLayer.scope.status? awaitedWorld.memory ⟨"dyn Turn"⟩ = some .pending ∧
    awaitedLayer.scope.status? (awaitedLayer.resolveAs (resolver 1) ⟨"dyn Turn"⟩ .background
      awaitedWorld).2.memory ⟨"dyn Turn"⟩ = some .resolved ∧
    (∃ after, after = (step 1 awaitedWorld (.resolve "app" ⟨"Wheel"⟩ {})).2 ∧
      awaitedLayer.scope.status? after.memory ⟨"dyn Turn"⟩ = some .resolved ∧
      after.memory.bound.find? (awaitedLayer.scope.site ⟨"dyn Turn"⟩) = none ∧
      ∀ fuel context,
        Granted (awaitedLayer.resolveAs (resolver fuel) ⟨"dyn Turn"⟩ context after).1 ∧
        after.Rests (awaitedLayer.resolveAs (resolver fuel) ⟨"dyn Turn"⟩ context after).2) ∧
    awaitedLayer.scope.status? awaitedWorld.memory ⟨"Cog"⟩ = none ∧
    awaitedLayer.scope.status? (awaitedLayer.resolveAs (resolver 1) ⟨"Cog"⟩ .background
      awaitedWorld).2.memory ⟨"Cog"⟩ = some .imported := by
  have reachable : Reachable awaitedWorld := .step (.step .initial _ _) _ _
  have pending : awaitedLayer.scope.status? awaitedWorld.memory ⟨"dyn Turn"⟩ = some .pending := by
    decide +kernel
  have absent : awaitedLayer.scope.status? awaitedWorld.memory ⟨"Cog"⟩ = none := by
    decide +kernel
  obtain ⟨-, hpending, -⟩ := statuses_foretell_requests reachable awaitedLayer_known
    awaitedLayer_silent awaitedLayer_honors_interface
  obtain ⟨-, -, habsent, -⟩ := statuses_foretell_requests reachable awaitedLayer_known
    awaitedLayer_silent awaitedLayer_honors_outer
  refine ⟨reachable, awaitedLayer_known, pending, ?_, ⟨_, rfl, ?_⟩, absent, ?_⟩
  · obtain ⟨target, source, eager, cyclic, -, -, hrequests⟩ := hpending pending
    refine (hrequests 0 .background).2.trans ?_
    rw [if_pos (by decide +kernel)]
  · have known : awaitedLayer ∈
        (step 1 awaitedWorld (.resolve "app" ⟨"Wheel"⟩ {})).2.built :=
      mem_built_step awaitedLayer_known _ _
    have resolved : awaitedLayer.scope.status?
        (step 1 awaitedWorld (.resolve "app" ⟨"Wheel"⟩ {})).2.memory ⟨"dyn Turn"⟩ =
          some .resolved := by
      decide +kernel
    refine ⟨resolved, by decide +kernel, ?_⟩
    exact (statuses_foretell_requests (.step reachable _ _) known awaitedLayer_silent
      awaitedLayer_honors_interface).1 _ resolved (by decide)
  · obtain ⟨-, -, hrequests⟩ := habsent absent
    refine (hrequests 1 .background).2.2.trans ?_
    rw [if_pos (by decide +kernel)]

end Session

end LayerGraph
