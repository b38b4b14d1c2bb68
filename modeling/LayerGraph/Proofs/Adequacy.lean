import LayerGraph.Proofs.Engine
import LayerGraph.Proofs.Resolves

/-! The engine follows the rules: each request it answers has a derivation. -/

namespace LayerGraph

theorem Scope.owns_eq_false_iff {scope : Scope} {key : Key} :
    scope.owns key = false ↔ scope.slots.find? key = none ∧ scope.bindings.find? key = none := by
  simp [owns, Table.contains]

namespace Resolution

theorem deliver_apply (delivery : Site × Value) (world : World) :
    deliver delivery world = (.ok (), world.deliver delivery) := by
  unfold deliver World.deliver
  rw [Engine.get_bind_apply]
  split <;> rfl

theorem forM_deliver_apply (deliveries : List (Site × Value)) (world : World) :
    deliveries.forM deliver world = (.ok (), deliveries.foldl World.deliver world) := by
  induction deliveries generalizing world with
  | nil => rfl
  | cons delivery rest ih =>
    change (deliver delivery >>= fun _ => rest.forM deliver) world = _
    rw [Engine.bind_apply_ok (deliver_apply delivery world)]
    exact ih (world.deliver delivery)

theorem report_apply (layer : Layer) (key : Key) (source : Registered) (answer : Answer)
    (world : World) :
    report layer key source answer world = (.ok (), world.report layer.scope key source answer) := by
  cases answer <;> rfl

theorem settle_apply (layer : Layer) (key : Key) (source : Registered) (context : Context)
    (result : Except ResolutionError Yield) (world : World)
    (live : ¬ context.isCancelled world.signals) :
    settle layer key source result world =
      (.ok (outcome layer key source context result world).1,
        (outcome layer key source context result world).2) := by
  unfold settle outcome
  rw [if_neg live]
  match result with
  | .error error => rfl
  | .ok (.failed message) => rfl
  | .ok (.nil output) => rfl
  | .ok (.products values) =>
    simp only [Engine.bind_apply_ok (forM_deliver_apply _ world), Engine.get_bind_apply]
    generalize (deliveries layer.scope source values).foldl World.deliver world = after
    cases after.memory.filled.find? (layer.scope.site key) <;> rfl

theorem conclude_apply (layer : Layer) (key : Key) (source : Registered) (context : Context)
    (result : Except ResolutionError Yield) (world : World) :
    conclude layer key source context result world =
      (.ok (finish layer key source context result world).1,
        (finish layer key source context result world).2) := by
  unfold conclude finish
  rw [Engine.get_bind_apply]
  by_cases live : context.isCancelled world.signals
  · simp only [if_pos live, outcome]
    rw [Engine.pure_bind_apply, Engine.bind_apply_ok (report_apply layer key source _ world)]
    rfl
  · simp only [if_neg live]
    rw [Engine.bind_apply_ok (settle_apply layer key source context result world live),
      Engine.bind_apply_ok (report_apply layer key source _ _)]
    rfl

theorem call_apply (perform : Command → Engine Reply) (layer : Layer) (source : Registered)
    (arguments : List Argument) (world : World) :
    call perform layer source arguments world =
      (Engine.run perform (source.generator.body (world.nextRun layer.scope source) arguments) >>=
        fun yield => do
          Engine.emit (.returned layer.scope.id source.place (world.nextRun layer.scope source) yield)
          return yield) (world.enterBody layer.scope source arguments) :=
  rfl

theorem hoist_apply (scope : Scope) (key : Key) (value : Value) (world : World) :
    hoist scope key value world =
      (.ok (hoisted scope key value world), world.hoist scope key value) := by
  unfold hoist hoisted World.hoist
  split <;> rfl

/-- After its first argument a run looks for the others, unless that one could not be had. -/
theorem fetchAll_cons (resolve : Resolver) (layer : Layer) (chain : Chain) (context : Context)
    (supply : Supply) (rest : List Supply) (world : World) :
    fetchAll resolve layer chain context (supply :: rest) world =
      match fetch resolve layer chain context supply world with
      | (.error stop, after) => (.error stop, after)
      | (.ok (.error error), after) => (.ok (.error error), after)
      | (.ok (.ok argument), after) =>
        ((fetchAll resolve layer chain context rest after).1.map (Except.map (argument :: ·)),
          (fetchAll resolve layer chain context rest after).2) := by
  rw [fetchAll, Engine.bind_apply]
  rcases fetch resolve layer chain context supply world with ⟨result, after⟩
  rcases result with stop | (error | argument)
  · rfl
  · rfl
  · dsimp only
    rw [Engine.bind_apply]
    rcases fetchAll resolve layer chain context rest after with ⟨gathered, last⟩
    rcases gathered with stop | (error | arguments) <;> rfl

theorem fetch_given {resolve : Resolver} {layer : Layer} {chain : Chain} {context : Context}
    {supply : Supply} (unasked : supply.key? = none) (willing : supply.refusal? = none)
    (world : World) :
    fetch resolve layer chain context supply world =
      (.ok (.ok (given layer (context.standing world.signals) supply)), world) := by
  unfold fetch
  rw [unasked, willing]
  rfl

theorem fetch_declined {resolve : Resolver} {layer : Layer} {chain : Chain} {context : Context}
    {supply : Supply} {error : ResolutionError} (unasked : supply.key? = none)
    (refusal : supply.refusal? = some error) (world : World) :
    fetch resolve layer chain context supply world = (.ok (.error error), world) := by
  unfold fetch
  rw [unasked, refusal]
  rfl

theorem fetch_asked {resolve : Resolver} {layer : Layer} {chain : Chain} {context : Context}
    {supply : Supply} {key : Key} (asked : supply.key? = some key) (world : World) :
    fetch resolve layer chain context supply world =
      ((resolve layer key chain context world).1.map (accept supply key),
        (resolve layer key chain context world).2) := by
  unfold fetch
  rw [asked]
  change (resolve layer key chain context >>= _) world = _
  rw [Engine.bind_apply]
  rcases resolve layer key chain context world with ⟨result, after⟩
  cases result <;> rfl

/-- The arguments found from left to right come from the answers to one inquiry after the other. -/
theorem fetchAll_gathers {resolve : Resolver} {layer : Layer} {chain : Chain} {context : Context}
    (answered : Inquiry → Prop)
    (h : ∀ key world, answered ⟨key, world, (resolve layer key chain context world).1,
      (resolve layer key chain context world).2⟩)
    (supplies : List Supply) (world : World) :
    ∃ inquiries, Gathers layer context supplies inquiries world
        (fetchAll resolve layer chain context supplies world).1
        (fetchAll resolve layer chain context supplies world).2 ∧
      ∀ inquiry ∈ inquiries, answered inquiry := by
  induction supplies generalizing world with
  | nil => exact ⟨[], .done, by simp⟩
  | cons supply rest ih =>
    rw [fetchAll_cons]
    cases hkey : supply.key? with
    | none =>
      cases hrefusal : supply.refusal? with
      | some error =>
        rw [fetch_declined hkey hrefusal]
        exact ⟨[], .declined hkey hrefusal, by simp⟩
      | none =>
        rw [fetch_given hkey hrefusal]
        obtain ⟨inquiries, further, hall⟩ := ih world
        exact ⟨inquiries, .given hkey hrefusal further, hall⟩
    | some key =>
      have hanswered := h key world
      rw [fetch_asked hkey]
      revert hanswered
      rcases resolve layer key chain context world with ⟨result, between⟩
      intro hanswered
      rcases result with stop | answer
      · exact ⟨[⟨key, world, .error stop, between⟩], .stopped hkey, by simpa using hanswered⟩
      · dsimp only [Except.map]
        cases hargument : accept supply key answer with
        | error error => exact ⟨[_], .refused hkey hargument, by simpa using hanswered⟩
        | ok argument =>
          obtain ⟨inquiries, further, hall⟩ := ih between
          refine ⟨_ :: inquiries, .found hkey hargument further, ?_⟩
          intro inquiry hinquiry
          rcases List.mem_cons.mp hinquiry with rfl | hrest
          · exact hanswered
          · exact hall inquiry hrest

theorem produce_apply (resolve : Resolver) (perform : Command → Engine Reply) (layer : Layer)
    (key : Key) (source : Registered) (chain : Chain) (context : Context) (world : World)
    (unlocked : ¬ (layer.scope.locks source).any world.held.contains) :
    produce resolve perform layer key source chain context
        (world.emit (.attempted (layer.scope.site key) chain none)) =
      let run := (invoke resolve perform layer source (layer.scope.frame key source :: chain)
        context >>= conclude layer key source context) (world.start layer.scope key source chain)
      (run.1, { run.2 with held := world.held }) := by
  unfold produce
  rw [Engine.get_bind_apply]
  simp only [Scope.locks] at unlocked
  simp only [World.emit, unlocked]
  rfl

theorem invoke_conclude_ends (perform : Command → Engine Reply) {resolve : Resolver} {layer : Layer}
    {key : Key} {source : Registered} {chain : Chain} {context : Context} {world : World} :
    Ends perform layer key source context
      (fetchAll resolve layer chain context
        (source.generator.parameters.map Parameter.supply) world).2
      (fetchAll resolve layer chain context
        (source.generator.parameters.map Parameter.supply) world).1
      ((invoke resolve perform layer source chain context >>= conclude layer key source context)
        world).1
      ((invoke resolve perform layer source chain context >>= conclude layer key source context)
        world).2 := by
  rw [Engine.bind_apply, invoke, Engine.bind_apply]
  rcases fetchAll resolve layer chain context _ world with ⟨gathered, between⟩
  rcases gathered with stop | (error | arguments)
  · exact .unsupplied
  · dsimp only
    rw [Engine.pure_apply]
    dsimp only
    rw [conclude_apply]
    exact .refused
  · dsimp only
    rw [Engine.bind_apply, call_apply, Engine.bind_apply]
    rcases hbody : Engine.run perform
      (source.generator.body (between.nextRun layer.scope source) arguments)
      (between.enterBody layer.scope source arguments) with ⟨result, after⟩
    cases result with
    | error stop => exact .broken hbody
    | ok yield =>
      simp only [Engine.emit_bind_apply, Engine.pure_apply]
      rw [conclude_apply]
      exact .returned hbody

def runner : Nat → Runner
  | 0 => fun _ _ _ _ _ _ => throw .outOfFuel
  | fuel + 1 => runGenerator (Session.resolver fuel) (Session.perform (Session.resolver fuel))

theorem resolver_eq_within (fuel : Nat) :
    Session.resolver fuel = within (runner fuel) (Session.handler fuel) := by
  cases fuel <;> rfl

def Adequate (fuel : Nat) : Prop :=
  ∀ layer key chain context world,
    Resolves fuel layer key chain context world
      (Session.resolver fuel layer key chain context world).1
      (Session.resolver fuel layer key chain context world).2

variable {fuel : Nat} {scope : Scope} {outer : List Scope} {key : Key} {chain : Chain}
  {context : Context} {world : World}

theorem runGenerator_resolves (deeper : Adequate fuel) {source : Registered} {eager cyclic : Bool}
    (slot : scope.slots.find? key = some (.generated source eager cyclic))
    (empty : world.memory.filled.find? (scope.site key) = none) :
    Resolves (fuel + 1) ⟨scope, outer⟩ key chain context world
      (runner (fuel + 1) ⟨scope, outer⟩ key source cyclic chain context world).1
      (runner (fuel + 1) ⟨scope, outer⟩ key source cyclic chain context world).2 := by
  have hrunner : runner (fuel + 1) =
    runGenerator (Session.resolver fuel) (Session.perform (Session.resolver fuel)) := rfl
  rw [hrunner, runGenerator, Engine.get_bind_apply]
  dsimp only
  rw [Engine.emit_bind_apply]
  cases hobstacle : obstacle? ⟨scope, outer⟩ key source cyclic chain context world.signals with
  | some error => exact .obstructed slot empty hobstacle
  | none =>
    dsimp only
    by_cases hlocked : (scope.locks source).any world.held.contains
    · have hblocked : produce (Session.resolver fuel) (Session.perform (Session.resolver fuel))
          ⟨scope, outer⟩ key source chain context
          (world.emit (.attempted (scope.site key) chain none)) =
          (.error .blocked, world.emit (.attempted (scope.site key) chain none)) := by
        unfold produce
        rw [Engine.get_bind_apply]
        simp only [Scope.locks] at hlocked
        simp only [World.emit, hlocked]
        rfl
      rw [hblocked]
      exact .blocked slot empty hobstacle hlocked
    · rw [produce_apply _ _ _ _ _ _ _ _ hlocked]
      obtain ⟨inquiries, gathers, answers⟩ := fetchAll_gathers
        (fun inquiry => Resolves fuel ⟨scope, outer⟩ inquiry.key
          (scope.frame key source :: chain) context inquiry.before inquiry.result inquiry.after)
        (fun key world => deeper _ key _ _ world)
        (source.generator.parameters.map Parameter.supply) (world.start scope key source chain)
      exact .run ⟨⟨eager, cyclic, slot, hobstacle⟩, empty, hlocked, gathers⟩ answers
        (invoke_conclude_ends _)

theorem fromSlot_resolves (deeper : ∀ less, fuel = less + 1 → Adequate less) {backing : Backing}
    (slot : scope.slots.find? key = some backing) :
    Resolves fuel ⟨scope, outer⟩ key chain context world
      (fromSlot (runner fuel) ⟨scope, outer⟩ key backing chain context world).1
      (fromSlot (runner fuel) ⟨scope, outer⟩ key backing chain context world).2 := by
  unfold fromSlot
  rw [Engine.get_bind_apply]
  cases hstored : world.memory.stored? (scope.site key) backing with
  | some value => exact .stored slot hstored
  | none =>
    cases backing with
    | value value => cases hstored
    | generated source eager cyclic =>
      cases fuel with
      | zero => exact .exhausted slot hstored
      | succ less => exact runGenerator_resolves (deeper less rfl) slot hstored

theorem bindValue_binds (perform : Command → Engine Reply) (binding : Binding) (value : Value) :
    Binds perform scope key binding value world
      (bindValue perform ⟨scope, outer⟩ key binding value world).1
      (bindValue perform ⟨scope, outer⟩ key binding value world).2 := by
  unfold bindValue
  by_cases typed : value.type = binding.source
  · rw [if_pos typed]
    change Binds perform scope key binding value world
      ((Engine.run perform (binding.cast.apply (world.nextCast (scope.site key)) value.payload) >>=
        _) (world.enterCast (scope.site key) binding value.payload)).1
      ((Engine.run perform (binding.cast.apply (world.nextCast (scope.site key)) value.payload) >>=
        _) (world.enterCast (scope.site key) binding value.payload)).2
    rw [Engine.bind_apply]
    rcases hcast : Engine.run perform
      (binding.cast.apply (world.nextCast (scope.site key)) value.payload)
      (world.enterCast (scope.site key) binding value.payload) with ⟨result, after⟩
    cases result with
    | error stop => exact .broken typed hcast
    | ok payload => exact .bound typed hcast
  · rw [if_neg typed]
    exact .mistyped typed

theorem fromBinding_resolves (deeper : ∀ less, fuel = less + 1 → Adequate less) {binding : Binding}
    (noSlot : scope.slots.find? key = none) (interface : scope.bindings.find? key = some binding) :
    Resolves fuel ⟨scope, outer⟩ key chain context world
      (fromBinding (runner fuel) (Session.handler fuel) ⟨scope, outer⟩ key binding chain context
        world).1
      (fromBinding (runner fuel) (Session.handler fuel) ⟨scope, outer⟩ key binding chain context
        world).2 := by
  unfold fromBinding
  rw [Engine.get_bind_apply]
  cases hbound : world.memory.bound.find? (scope.site key) with
  | some value => exact .bound noSlot interface hbound
  | none =>
    cases behind : scope.slots.find? binding.source with
    | none => exact .unbacked noSlot interface hbound behind
    | some backing =>
      dsimp only
      have answer : Resolves fuel ⟨scope, outer⟩ binding.source chain context world
          (fromSlot (runner fuel) ⟨scope, outer⟩ binding.source backing chain context world).1
          (fromSlot (runner fuel) ⟨scope, outer⟩ binding.source backing chain context world).2 :=
        fromSlot_resolves deeper behind
      revert answer
      rw [Engine.bind_apply]
      rcases fromSlot (runner fuel) ⟨scope, outer⟩ binding.source backing chain context world with
        ⟨result, between⟩
      intro answer
      rcases result with stop | (error | value)
      · exact .unsourced noSlot interface hbound behind answer (by simp)
      · exact .unsourced noSlot interface hbound behind answer (by simp)
      · exact .cast noSlot interface hbound behind answer (bindValue_binds _ binding value)

theorem seek_resolves_owned (deeper : ∀ less, fuel = less + 1 → Adequate less)
    (owned : scope.owns key = true) :
    Resolves fuel ⟨scope, outer⟩ key chain context world
      (seek (runner fuel) (Session.handler fuel) key chain context scope outer world).1
      (seek (runner fuel) (Session.handler fuel) key chain context scope outer world).2 := by
  unfold seek
  cases hslot : scope.slots.find? key with
  | some backing => exact fromSlot_resolves deeper hslot
  | none =>
    cases hbinding : scope.bindings.find? key with
    | some binding => exact fromBinding_resolves deeper hslot hbinding
    | none => simp [Scope.owns, Table.contains, hslot, hbinding] at owned

/-- A scope that does not own a type looks among its imported values, and then further out. -/
theorem seek_unowned (run : Runner) (perform : Command → Engine Reply)
    (unowned : scope.owns key = false) :
    seek run perform key chain context scope outer world =
      match world.memory.imported.find? (scope.site key), outer with
      | some value, _ => (.ok (.ok value), world)
      | none, [] => (.ok (.error (.notFound key)), world)
      | none, parent :: further =>
        match seek run perform key chain context parent further
          (world.delegate scope key parent) with
        | (.ok (.ok value), between) =>
          (.ok (.ok (hoisted scope key value between)), between.hoist scope key value)
        | (result, between) => (result, between) := by
  obtain ⟨hslot, hbinding⟩ := Scope.owns_eq_false_iff.mp unowned
  rw [seek.eq_def]
  dsimp only
  rw [hslot, hbinding]
  dsimp only
  rw [Engine.get_bind_apply]
  cases world.memory.imported.find? (scope.site key) with
  | some value => rfl
  | none =>
    cases outer with
    | nil => rfl
    | cons parent further =>
      dsimp only
      rw [Engine.notify_bind_apply, Engine.log_bind_apply]
      have hworld : World.emit (.logged (.delegating scope.id key parent.id))
        (world.emitAll (scope.observers.map (Event.noticed · (.delegated scope.id key parent.id)))) =
        world.delegate scope key parent := rfl
      rw [hworld, Engine.bind_apply]
      rcases seek run perform key chain context parent further (world.delegate scope key parent) with
        ⟨result, between⟩
      rcases result with stop | (error | value)
      · rfl
      · rfl
      · dsimp only
        rw [Engine.bind_apply_ok (hoist_apply scope key value between)]
        rfl

theorem seek_resolves (deeper : ∀ less, fuel = less + 1 → Adequate less) :
    Resolves fuel ⟨scope, outer⟩ key chain context world
      (seek (runner fuel) (Session.handler fuel) key chain context scope outer world).1
      (seek (runner fuel) (Session.handler fuel) key chain context scope outer world).2 := by
  induction outer generalizing scope world with
  | nil =>
    cases howns : scope.owns key with
    | true => exact seek_resolves_owned deeper howns
    | false =>
      rw [seek_unowned _ _ howns]
      cases himported : world.memory.imported.find? (scope.site key) with
      | some value => exact .imported howns himported
      | none => exact .missing howns himported
  | cons parent further ih =>
    cases howns : scope.owns key with
    | true => exact seek_resolves_owned deeper howns
    | false =>
      have answer := @ih parent (world.delegate scope key parent)
      rw [seek_unowned _ _ howns]
      cases himported : world.memory.imported.find? (scope.site key) with
      | some value => exact .imported howns himported
      | none =>
        dsimp only
        revert answer
        rcases seek (runner fuel) (Session.handler fuel) key chain context parent further
          (world.delegate scope key parent) with ⟨result, between⟩
        intro answer
        rcases result with stop | (error | value)
        · exact .unavailable howns himported answer (by simp)
        · exact .unavailable howns himported answer (by simp)
        · exact .delegated howns himported answer

theorem resolver_resolves (fuel : Nat) : Adequate fuel := by
  induction fuel with
  | zero =>
    intro layer key chain context world
    rw [resolver_eq_within]
    exact seek_resolves fun less h => by cases h
  | succ fuel ih =>
    intro layer key chain context world
    rw [resolver_eq_within]
    exact seek_resolves fun less h => by
      obtain rfl := Nat.succ.inj h
      exact ih

end Resolution

end LayerGraph
