import LayerGraph.Proofs.Adequacy

/-! The rules determine the answer: what they allow for a request is what the engine does. -/

namespace LayerGraph.Resolution

variable {fuel : Nat} {layer : Layer} {scope : Scope} {outer : List Scope} {key : Key}
  {source : Registered} {chain : Chain} {context : Context} {world after last : World}
  {result other : Except Stop Answer}

theorem Ends.unique {perform : Command → Engine Reply}
    {gathered : Except Stop (Except ResolutionError (List Argument))}
    (ends : Ends perform layer key source context world gathered result after)
    (also : Ends perform layer key source context world gathered other last) :
    result = other ∧ after = last := by
  cases ends with
  | unsupplied =>
    cases also with
    | unsupplied => exact ⟨rfl, rfl⟩
  | refused =>
    cases also with
    | refused => exact ⟨rfl, rfl⟩
  | broken body =>
    cases also with
    | broken body' =>
      obtain ⟨hstop, rfl⟩ := Prod.mk.inj (body.symm.trans body')
      cases hstop
      exact ⟨rfl, rfl⟩
    | returned body' => cases (Prod.mk.inj (body.symm.trans body')).1
  | returned body =>
    cases also with
    | broken body' => cases (Prod.mk.inj (body.symm.trans body')).1
    | returned body' =>
      obtain ⟨hyield, rfl⟩ := Prod.mk.inj (body.symm.trans body')
      cases hyield
      exact ⟨rfl, rfl⟩

theorem Binds.unique {perform : Command → Engine Reply} {binding : Binding} {value : Value}
    (binds : Binds perform scope key binding value world result after)
    (also : Binds perform scope key binding value world other last) :
    result = other ∧ after = last := by
  cases binds with
  | mistyped other =>
    cases also with
    | mistyped other' => exact ⟨rfl, rfl⟩
    | broken typed cast => exact absurd typed other
    | bound typed cast => exact absurd typed other
  | broken typed cast =>
    cases also with
    | mistyped other => exact absurd typed other
    | broken typed' cast' =>
      obtain ⟨hstop, rfl⟩ := Prod.mk.inj (cast.symm.trans cast')
      cases hstop
      exact ⟨rfl, rfl⟩
    | bound typed' cast' => cases (Prod.mk.inj (cast.symm.trans cast')).1
  | bound typed cast =>
    cases also with
    | mistyped other => exact absurd typed other
    | broken typed' cast' => cases (Prod.mk.inj (cast.symm.trans cast')).1
    | bound typed' cast' =>
      obtain ⟨hpayload, rfl⟩ := Prod.mk.inj (cast.symm.trans cast')
      cases hpayload
      exact ⟨rfl, rfl⟩

theorem Gathers.fetchAll_eq {resolve : Resolver} {supplies : List Supply}
    {inquiries : List Inquiry} {gathered : Except Stop (Except ResolutionError (List Argument))}
    (gathers : Gathers layer context supplies inquiries world gathered after)
    (answers : ∀ inquiry ∈ inquiries, resolve layer inquiry.key chain context inquiry.before =
      (inquiry.result, inquiry.after)) :
    fetchAll resolve layer chain context supplies world = (gathered, after) := by
  induction gathers with
  | done => rfl
  | given unasked willing further ih =>
    rw [fetchAll_cons, fetch_given unasked willing]
    dsimp only
    rw [ih answers]
  | declined unasked refusal => rw [fetchAll_cons, fetch_declined unasked refusal]
  | stopped asked =>
    rw [fetchAll_cons, fetch_asked asked, answers _ List.mem_cons_self]
    rfl
  | refused asked unacceptable =>
    rw [fetchAll_cons, fetch_asked asked, answers _ List.mem_cons_self]
    dsimp only [Except.map]
    rw [unacceptable]
  | found asked acceptable further ih =>
    rw [fetchAll_cons, fetch_asked asked, answers _ List.mem_cons_self]
    dsimp only [Except.map]
    rw [acceptable]
    dsimp only
    rw [ih fun inquiry hinquiry => answers inquiry (List.mem_cons_of_mem _ hinquiry)]

theorem resolver_of_slot {backing : Backing} (slot : scope.slots.find? key = some backing) :
    Session.resolver fuel ⟨scope, outer⟩ key chain context world =
      fromSlot (runner fuel) ⟨scope, outer⟩ key backing chain context world := by
  rw [resolver_eq_within, within, seek.eq_def]
  dsimp only
  rw [slot]

theorem resolver_of_empty {eager cyclic : Bool}
    (slot : scope.slots.find? key = some (.generated source eager cyclic))
    (empty : world.memory.filled.find? (scope.site key) = none) :
    Session.resolver fuel ⟨scope, outer⟩ key chain context world =
      runner fuel ⟨scope, outer⟩ key source cyclic chain context world := by
  rw [resolver_of_slot slot, fromSlot, Engine.get_bind_apply]
  dsimp only [Memory.stored?]
  rw [empty]

theorem resolver_of_attempt {eager cyclic : Bool}
    (slot : scope.slots.find? key = some (.generated source eager cyclic))
    (empty : world.memory.filled.find? (scope.site key) = none) :
    Session.resolver (fuel + 1) ⟨scope, outer⟩ key chain context world =
      match obstacle? ⟨scope, outer⟩ key source cyclic chain context world.signals with
      | some error => (.ok (.error error), world.obstruct scope key source chain error)
      | none => produce (Session.resolver fuel) (Session.handler (fuel + 1)) ⟨scope, outer⟩ key
          source chain context (world.emit (.attempted (scope.site key) chain none)) := by
  rw [resolver_of_empty slot empty, runner, runGenerator, Engine.get_bind_apply]
  dsimp only
  rw [Engine.emit_bind_apply]
  cases obstacle? ⟨scope, outer⟩ key source cyclic chain context world.signals <;> rfl

theorem produce_blocked {resolve : Resolver} {perform : Command → Engine Reply}
    (locked : (scope.locks source).any world.held.contains) :
    produce resolve perform ⟨scope, outer⟩ key source chain context
        (world.emit (.attempted (scope.site key) chain none)) =
      (.error .blocked, world.emit (.attempted (scope.site key) chain none)) := by
  unfold produce
  rw [Engine.get_bind_apply]
  simp only [Scope.locks] at locked
  simp only [World.emit, locked]
  rfl

theorem resolver_of_binding {binding : Binding} (noSlot : scope.slots.find? key = none)
    (interface : scope.bindings.find? key = some binding) :
    Session.resolver fuel ⟨scope, outer⟩ key chain context world =
      fromBinding (runner fuel) (Session.handler fuel) ⟨scope, outer⟩ key binding chain context
        world := by
  rw [resolver_eq_within, within, seek.eq_def]
  dsimp only
  rw [noSlot, interface]

/-- An interface without a value is answered from the answer for its source. -/
theorem resolver_of_unbound {binding : Binding} {backing : Backing}
    (noSlot : scope.slots.find? key = none)
    (interface : scope.bindings.find? key = some binding)
    (unbound : world.memory.bound.find? (scope.site key) = none)
    (behind : scope.slots.find? binding.source = some backing) :
    Session.resolver fuel ⟨scope, outer⟩ key chain context world =
      match Session.resolver fuel ⟨scope, outer⟩ binding.source chain context world with
      | (.ok (.ok value), between) =>
        bindValue (Session.handler fuel) ⟨scope, outer⟩ key binding value between
      | (result, between) => (result, between) := by
  rw [resolver_of_binding noSlot interface, resolver_of_slot behind, fromBinding,
    Engine.get_bind_apply]
  dsimp only
  rw [unbound, behind]
  dsimp only
  rw [Engine.bind_apply]
  rcases fromSlot (runner fuel) ⟨scope, outer⟩ binding.source backing chain context world with
    ⟨stop | (error | value), between⟩ <;> rfl

/-- A type that a scope does not own is answered from its imports, or further out. -/
theorem resolver_of_unowned (unowned : scope.owns key = false) :
    Session.resolver fuel ⟨scope, outer⟩ key chain context world =
      match world.memory.imported.find? (scope.site key), outer with
      | some value, _ => (.ok (.ok value), world)
      | none, [] => (.ok (.error (.notFound key)), world)
      | none, parent :: further =>
        match Session.resolver fuel ⟨parent, further⟩ key chain context
          (world.delegate scope key parent) with
        | (.ok (.ok value), between) =>
          (.ok (.ok (hoisted scope key value between)), between.hoist scope key value)
        | (result, between) => (result, between) := by
  rw [resolver_eq_within, within, seek_unowned _ _ unowned]
  rfl

/-- What the rules allow is what the engine does. -/
theorem Resolves.eq_resolver
    (resolves : Resolves fuel layer key chain context world result after) :
    Session.resolver fuel layer key chain context world = (result, after) := by
  induction resolves with
  | stored slot present =>
    rw [resolver_of_slot slot]
    unfold fromSlot
    rw [Engine.get_bind_apply]
    rw [present]
    rfl
  | exhausted slot empty =>
    rw [resolver_of_empty slot empty]
    rfl
  | obstructed slot empty obstacle =>
    rw [resolver_of_attempt slot empty, obstacle]
  | blocked slot empty free locked =>
    rw [resolver_of_attempt slot empty, free]
    exact produce_blocked locked
  | @run fuel scope outer key chain context world source inquiries gathered between result after
      starts answers ends ih =>
    obtain ⟨⟨eager, cyclic, slot, free⟩, empty, unlocked, gathers⟩ := starts
    have fetched := gathers.fetchAll_eq ih
    have also := @invoke_conclude_ends (Session.handler (fuel + 1)) (Session.resolver fuel)
      ⟨scope, outer⟩ key source (scope.frame key source :: chain) context
      (world.start scope key source chain)
    rw [fetched] at also
    obtain ⟨hresult, hafter⟩ := also.unique ends
    rw [resolver_of_attempt slot empty, free]
    dsimp only
    rw [produce_apply _ _ _ _ _ _ _ _ unlocked]
    dsimp only
    rw [hresult, hafter]
  | bound noSlot interface present =>
    rw [resolver_of_binding noSlot interface, fromBinding, Engine.get_bind_apply]
    dsimp only
    rw [present]
    rfl
  | unbacked noSlot interface unbound noSource =>
    rw [resolver_of_binding noSlot interface, fromBinding, Engine.get_bind_apply]
    dsimp only
    rw [unbound, noSource]
    rfl
  | @unsourced _ _ _ _ _ _ _ _ _ result _ noSlot interface unbound behind answer lost ih =>
    rw [resolver_of_unbound noSlot interface unbound behind, ih]
    rcases result with stop | (error | value)
    · rfl
    · rfl
    · exact absurd rfl (lost value)
  | @cast _ _ _ _ _ _ _ binding _ value _ _ _ noSlot interface unbound behind answer binds ih =>
    rw [resolver_of_unbound noSlot interface unbound behind, ih]
    obtain ⟨hresult, hafter⟩ := (bindValue_binds _ binding value).unique binds
    exact Prod.ext hresult hafter
  | imported unowned present => rw [resolver_of_unowned unowned, present]
  | missing unowned unknown => rw [resolver_of_unowned unowned, unknown]
  | @unavailable _ _ _ _ _ _ _ _ result _ unowned unknown answer lost ih =>
    rw [resolver_of_unowned unowned, unknown]
    dsimp only
    rw [ih]
    rcases result with stop | (error | value)
    · rfl
    · rfl
    · exact absurd rfl (lost value)
  | delegated unowned unknown answer ih =>
    rw [resolver_of_unowned unowned, unknown]
    dsimp only
    rw [ih]

end LayerGraph.Resolution
