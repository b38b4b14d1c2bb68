import LayerGraph.Proofs.Cycles
import LayerGraph.Proofs.Determinacy

/-! The moments of a request.

While a request is answered, generators run inside one another, and errors come up and are passed on
or given up. The moments of a request are the worlds it passes through, each with the runs that are
in progress and with what comes up there, read off the engine's own steps. -/

namespace LayerGraph

/-- A run in progress: where and for what it runs, and the world in which it began. -/
structure Invocation where
  scope : Scope
  requested : Key
  source : Registered
  begun : World

def Invocation.frame (run : Invocation) : Frame := run.scope.frame run.requested run.source

abbrev Invocations := List Invocation

def Invocations.chain (runs : Invocations) : Chain := runs.map Invocation.frame

/-- What comes up at a moment: nothing, an error, or a parameter that makes do without its type. -/
inductive Turn where
  | passing
  | raised (error : ResolutionError)
  | absorbed (key : Key)
  deriving DecidableEq, Repr

/-- A world that a request passes through, with the runs in progress. -/
structure Moment where
  runs : Invocations
  world : World
  turn : Turn

def Engine.passes {α : Type} (perform : Command → Engine Reply) : Act Command α → World → List World
  | .done _, world | .panic _, world => [world]
  | .cancel name next, world =>
    world :: passes perform next
      (match world.tokens.find? name with
      | some token => world.cancel token
      | none => world)
  | .elapse time next, world => world :: passes perform next (world.elapse time)
  | .noteThread next, world => world :: passes perform next (world.emit (.thread world.thread))
  | .perform command next, world =>
    world ::
      match perform command world with
      | (.ok reply, after) => passes perform (next reply) (after.emit (.answered reply))
      | (.error _, after) => [after]

theorem Engine.mem_passes {α : Type} (perform : Command → Engine Reply) (act : Act Command α)
    (world : World) : world ∈ passes perform act world := by
  cases act <;> simp [passes]

theorem Engine.after_mem_passes {α : Type} {perform : Command → Engine Reply}
    {act : Act Command α} {world after : World} {result : Except Stop α}
    (h : Engine.run perform act world = (result, after)) : after ∈ passes perform act world := by
  induction act generalizing world with
  | done => exact List.mem_singleton.mpr (Prod.mk.inj h).2.symm
  | panic => exact List.mem_singleton.mpr (Prod.mk.inj h).2.symm
  | cancel name next ih => exact List.mem_cons_of_mem _ (ih h)
  | elapse time next ih => exact List.mem_cons_of_mem _ (ih h)
  | noteThread next ih => exact List.mem_cons_of_mem _ (ih h)
  | perform command next ih =>
    rw [Engine.run, bind_apply] at h
    rw [passes]
    refine List.mem_cons_of_mem _ ?_
    revert h
    rcases perform command world with ⟨stop | reply, between⟩
    · intro h
      exact List.mem_singleton.mpr (Prod.mk.inj h).2.symm
    · intro h
      exact ih reply h

namespace Resolution

abbrev Chronicle := Layer → Key → Invocations → Context → World → List Moment

abbrev Attempt :=
  Layer → Key → Registered → Bool → Invocations → Context → World → List Moment

def verdict (runs : Invocations) (after : World) (supply : Supply) (key : Key) (answer : Answer) :
    List Moment :=
  match answer, accept supply key answer with
  | .ok _, .error error => [⟨runs, after, .raised error⟩]
  | .error _, .ok _ => [⟨runs, after, .absorbed key⟩]
  | _, _ => []

def fetchMoments (resolve : Resolver) (chronicle : Chronicle) (layer : Layer) (runs : Invocations)
    (context : Context) : List Supply → World → List Moment
  | [], _ => []
  | supply :: rest, world =>
    match supply.key? with
    | none =>
      match supply.refusal? with
      | some error => [⟨runs, world, .raised error⟩]
      | none => fetchMoments resolve chronicle layer runs context rest world
    | some key =>
      chronicle layer key runs context world ++
        match resolve layer key runs.chain context world with
        | (.error _, _) => []
        | (.ok answer, after) =>
          verdict runs after supply key answer ++
            match accept supply key answer with
            | .error _ => []
            | .ok _ => fetchMoments resolve chronicle layer runs context rest after

def endMoment (run : Invocation) (layer : Layer) (runs : Invocations) (context : Context)
    (result : Except ResolutionError Yield) (world : World) : Moment :=
  let (answer, after) := outcome layer run.requested run.source context result world
  ⟨run :: runs, after,
    if context.isCancelled world.signals then .raised (.canceled run.requested)
    else
      match result, answer with
      | .ok _, .error error => .raised error
      | _, _ => .passing⟩

def closingMoments (perform : Command → Engine Reply) (layer : Layer) (run : Invocation)
    (runs : Invocations) (context : Context) :
    Except Stop (Except ResolutionError (List Argument)) → World → List Moment
  | .error _, _ => []
  | .ok (.error error), world => [endMoment run layer runs context (.error error) world]
  | .ok (.ok arguments), world =>
    let number := world.nextRun layer.scope run.source
    let body := run.source.generator.body number arguments
    let entered := world.enterBody layer.scope run.source arguments
    (Engine.passes perform body entered).map (⟨run :: runs, ·, .passing⟩) ++
      match Engine.run perform body entered with
      | (.error _, _) => []
      | (.ok yield, after) =>
        [endMoment run layer runs context (.ok yield)
          (after.emit (.returned layer.scope.id run.source.place number yield))]

def runAt (layer : Layer) (key : Key) (source : Registered) (runs : Invocations) (world : World) :
    Invocation :=
  ⟨layer.scope, key, source, world.start layer.scope key source runs.chain⟩

def runMoments (resolve : Resolver) (perform : Command → Engine Reply) (chronicle : Chronicle)
    (layer : Layer) (key : Key) (source : Registered) (runs : Invocations) (context : Context)
    (world : World) : List Moment :=
  let run := runAt layer key source runs world
  let supplies := source.generator.parameters.map Parameter.supply
  let (gathered, between) :=
    fetchAll resolve layer (Invocations.chain (run :: runs)) context supplies run.begun
  ⟨run :: runs, run.begun, .passing⟩ ::
    (fetchMoments resolve chronicle layer (run :: runs) context supplies run.begun ++
      closingMoments perform layer run runs context gathered between)

def attemptMoments (resolve : Resolver) (perform : Command → Engine Reply) (chronicle : Chronicle)
    (layer : Layer) (key : Key) (source : Registered) (cyclic : Bool) (runs : Invocations)
    (context : Context) (world : World) : List Moment :=
  match obstacle? layer key source cyclic runs.chain context world.signals with
  | some error =>
    [⟨runs, world.obstruct layer.scope key source runs.chain error, .raised error⟩]
  | none =>
    if (layer.scope.locks source).any world.held.contains then []
    else runMoments resolve perform chronicle layer key source runs context world

def slotMoments (attempt : Attempt)
    (layer : Layer) (key : Key) (backing : Backing) (runs : Invocations) (context : Context)
    (world : World) : List Moment :=
  match world.memory.stored? (layer.scope.site key) backing, backing with
  | none, .generated source _ cyclic => attempt layer key source cyclic runs context world
  | _, _ => []

def castMoments (perform : Command → Engine Reply) (scope : Scope) (key : Key) (binding : Binding)
    (runs : Invocations) (world : World) : Except Stop Answer → List Moment
  | .ok (.ok value) =>
    if value.type = binding.source then
      (Engine.passes perform
        (binding.cast.apply (world.nextCast (scope.site key)) value.payload)
        (world.enterCast (scope.site key) binding value.payload)).map (⟨runs, ·, .passing⟩)
    else [⟨runs, world, .raised (.mismatch key)⟩]
  | _ => []

def bindingMoments (run : Runner) (perform : Command → Engine Reply)
    (attempt : Attempt)
    (layer : Layer) (key : Key) (binding : Binding) (runs : Invocations) (context : Context)
    (world : World) : List Moment :=
  match world.memory.bound.find? (layer.scope.site key), layer.scope.slots.find? binding.source with
  | some _, _ => []
  | none, none => [⟨runs, world, .raised (.notFound binding.source)⟩]
  | none, some backing =>
    let (result, between) :=
      fromSlot run layer binding.source backing runs.chain context world
    ⟨runs, world, .passing⟩ ::
      (slotMoments attempt layer binding.source backing runs context world ++
        castMoments perform layer.scope key binding runs between result)

def seekMoments (run : Runner) (perform : Command → Engine Reply)
    (attempt : Attempt)
    (key : Key) (runs : Invocations) (context : Context) : Scope → List Scope → World → List Moment
  | scope, outer, world =>
    ⟨runs, world, .passing⟩ ::
      match scope.slots.find? key with
      | some backing => slotMoments attempt ⟨scope, outer⟩ key backing runs context world
      | none =>
        match scope.bindings.find? key with
        | some binding =>
          bindingMoments run perform attempt ⟨scope, outer⟩ key binding runs context world
        | none =>
          match world.memory.imported.find? (scope.site key) with
          | some _ => []
          | none =>
            match outer with
            | [] => [⟨runs, world, .raised (.notFound key)⟩]
            | parent :: further =>
              seekMoments run perform attempt key runs context parent further
                (world.delegate scope key parent)

def moments : Nat → Chronicle
  | 0 => fun layer key runs context world =>
    seekMoments (runner 0) (Session.handler 0) (fun _ _ _ _ _ _ _ => []) key runs context
      layer.scope layer.outer world
  | fuel + 1 => fun layer key runs context world =>
    seekMoments (runner (fuel + 1)) (Session.handler (fuel + 1))
      (attemptMoments (Session.resolver fuel) (Session.handler (fuel + 1)) (moments fuel)) key runs
      context layer.scope layer.outer world

def attempts : Nat → Attempt
  | 0 => fun _ _ _ _ _ _ _ => []
  | fuel + 1 => attemptMoments (Session.resolver fuel) (Session.handler (fuel + 1)) (moments fuel)

section

variable {fuel : Nat} {scope : Scope} {outer : List Scope} {key : Key} {runs : Invocations}
  {context : Context} {world : World}

theorem moments_eq_seekMoments (fuel : Nat) (layer : Layer) :
    moments fuel layer key runs context world =
      seekMoments (runner fuel) (Session.handler fuel) (attempts fuel) key runs context layer.scope
        layer.outer world := by
  cases fuel <;> rfl

theorem fetchMoments_of_given {resolve : Resolver} {chronicle : Chronicle} {layer : Layer}
    {supply : Supply} {rest : List Supply} (unasked : supply.key? = none)
    (willing : supply.refusal? = none) :
    fetchMoments resolve chronicle layer runs context (supply :: rest) world =
      fetchMoments resolve chronicle layer runs context rest world := by
  rw [fetchMoments, unasked, willing]

theorem fetchMoments_of_declined {resolve : Resolver} {chronicle : Chronicle} {layer : Layer}
    {supply : Supply} {rest : List Supply} {error : ResolutionError}
    (unasked : supply.key? = none) (refusal : supply.refusal? = some error) :
    fetchMoments resolve chronicle layer runs context (supply :: rest) world =
      [⟨runs, world, .raised error⟩] := by
  rw [fetchMoments, unasked, refusal]

theorem fetchMoments_of_answer {resolve : Resolver} {chronicle : Chronicle} {layer : Layer}
    {supply : Supply} {rest : List Supply} {answer : Answer} {after : World}
    (asked : supply.key? = some key)
    (answers : resolve layer key runs.chain context world = (.ok answer, after)) :
    fetchMoments resolve chronicle layer runs context (supply :: rest) world =
      chronicle layer key runs context world ++
        (verdict runs after supply key answer ++
          match accept supply key answer with
          | .error _ => []
          | .ok _ => fetchMoments resolve chronicle layer runs context rest after) := by
  rw [fetchMoments, asked]
  dsimp only
  rw [answers]

theorem of_mem_verdict {supply : Supply} {answer : Answer} {after : World} {moment : Moment}
    (h : moment ∈ verdict runs after supply key answer) :
    moment.runs = runs ∧ moment.world = after := by
  unfold verdict at h
  split at h
  · obtain rfl := List.mem_singleton.mp h
    exact ⟨rfl, rfl⟩
  · obtain rfl := List.mem_singleton.mp h
    exact ⟨rfl, rfl⟩
  · cases h

theorem entry_mem_moments (fuel : Nat) (layer : Layer) :
    ⟨runs, world, .passing⟩ ∈ moments fuel layer key runs context world := by
  rw [moments_eq_seekMoments, seekMoments.eq_def]
  exact List.mem_cons_self

theorem moments_of_slot {backing : Backing} (slot : scope.slots.find? key = some backing) :
    moments fuel ⟨scope, outer⟩ key runs context world =
      ⟨runs, world, .passing⟩ ::
        slotMoments (attempts fuel) ⟨scope, outer⟩ key backing runs context world := by
  rw [moments_eq_seekMoments, seekMoments.eq_def]
  dsimp only
  rw [slot]

theorem moments_of_stored {backing : Backing} {value : Value}
    (slot : scope.slots.find? key = some backing)
    (present : world.memory.stored? (scope.site key) backing = some value) :
    moments fuel ⟨scope, outer⟩ key runs context world = [⟨runs, world, .passing⟩] := by
  rw [moments_of_slot slot, slotMoments.eq_def]
  dsimp only
  rw [present]

theorem moments_of_empty {source : Registered} {eager cyclic : Bool}
    (slot : scope.slots.find? key = some (.generated source eager cyclic))
    (empty : world.memory.filled.find? (scope.site key) = none) :
    moments fuel ⟨scope, outer⟩ key runs context world =
      ⟨runs, world, .passing⟩ ::
        attempts fuel ⟨scope, outer⟩ key source cyclic runs context world := by
  rw [moments_of_slot slot, slotMoments.eq_def]
  dsimp only [Memory.stored?]
  rw [empty]

theorem moments_of_obstacle {source : Registered} {eager cyclic : Bool} {error : ResolutionError}
    (slot : scope.slots.find? key = some (.generated source eager cyclic))
    (empty : world.memory.filled.find? (scope.site key) = none)
    (obstacle : obstacle? ⟨scope, outer⟩ key source cyclic runs.chain context
      world.signals = some error) :
    moments (fuel + 1) ⟨scope, outer⟩ key runs context world =
      [⟨runs, world, .passing⟩,
        ⟨runs, world.obstruct scope key source runs.chain error, .raised error⟩] := by
  rw [moments_of_empty slot empty, attempts, attemptMoments, obstacle]

theorem moments_of_run {source : Registered} {inquiries : List Inquiry}
    {gathered : Except Stop (Except ResolutionError (List Argument))} {between : World}
    (starts : Starts ⟨scope, outer⟩ key runs.chain context world source inquiries
      gathered between)
    (answers : ∀ inquiry ∈ inquiries,
      Resolves fuel ⟨scope, outer⟩ inquiry.key (scope.frame key source :: runs.chain)
        context inquiry.before inquiry.result inquiry.after) :
    let run := runAt ⟨scope, outer⟩ key source runs world
    moments (fuel + 1) ⟨scope, outer⟩ key runs context world =
      ⟨runs, world, .passing⟩ :: ⟨run :: runs, run.begun, .passing⟩ ::
        (fetchMoments (Session.resolver fuel) (moments fuel) ⟨scope, outer⟩ (run :: runs) context
            (source.generator.parameters.map Parameter.supply) run.begun ++
          closingMoments (Session.handler (fuel + 1)) ⟨scope, outer⟩ run runs context gathered
            between) := by
  obtain ⟨⟨eager, cyclic, slot, free⟩, empty, unlocked, gathers⟩ := starts
  have fetched := gathers.fetchAll_eq fun inquiry hinquiry =>
    (answers inquiry hinquiry).eq_resolver
  rw [moments_of_empty slot empty, attempts, attemptMoments, free]
  dsimp only
  have hfetched : fetchAll (Session.resolver fuel) ⟨scope, outer⟩
      (Invocations.chain (runAt ⟨scope, outer⟩ key source runs world :: runs)) context
      (source.generator.parameters.map Parameter.supply)
      (runAt ⟨scope, outer⟩ key source runs world).begun = (gathered, between) := fetched
  rw [if_neg unlocked, runMoments, hfetched]

theorem moments_of_binding {binding : Binding} (noSlot : scope.slots.find? key = none)
    (interface : scope.bindings.find? key = some binding) :
    moments fuel ⟨scope, outer⟩ key runs context world =
      ⟨runs, world, .passing⟩ ::
        bindingMoments (runner fuel) (Session.handler fuel) (attempts fuel) ⟨scope, outer⟩ key
          binding runs context world := by
  rw [moments_eq_seekMoments, seekMoments.eq_def]
  dsimp only
  rw [noSlot, interface]

theorem moments_of_bound {binding : Binding} {value : Value}
    (noSlot : scope.slots.find? key = none)
    (interface : scope.bindings.find? key = some binding)
    (present : world.memory.bound.find? (scope.site key) = some value) :
    moments fuel ⟨scope, outer⟩ key runs context world = [⟨runs, world, .passing⟩] := by
  rw [moments_of_binding noSlot interface, bindingMoments]
  dsimp only
  rw [present]

theorem moments_of_unbacked {binding : Binding} (noSlot : scope.slots.find? key = none)
    (interface : scope.bindings.find? key = some binding)
    (unbound : world.memory.bound.find? (scope.site key) = none)
    (noSource : scope.slots.find? binding.source = none) :
    moments fuel ⟨scope, outer⟩ key runs context world =
      [⟨runs, world, .passing⟩, ⟨runs, world, .raised (.notFound binding.source)⟩] := by
  rw [moments_of_binding noSlot interface, bindingMoments]
  dsimp only
  rw [unbound, noSource]

/-- An interface without a value goes through the moments of its source first. -/
theorem moments_of_unbound {binding : Binding} {backing : Backing}
    (noSlot : scope.slots.find? key = none)
    (interface : scope.bindings.find? key = some binding)
    (unbound : world.memory.bound.find? (scope.site key) = none)
    (behind : scope.slots.find? binding.source = some backing)
    {result : Except Stop Answer} {between : World}
    (answer : Resolves fuel ⟨scope, outer⟩ binding.source runs.chain context world result
      between) :
    moments fuel ⟨scope, outer⟩ key runs context world =
      ⟨runs, world, .passing⟩ ::
        (moments fuel ⟨scope, outer⟩ binding.source runs context world ++
          castMoments (Session.handler fuel) scope key binding runs between result) := by
  have hanswer := answer.eq_resolver
  rw [resolver_of_slot behind] at hanswer
  rw [moments_of_binding noSlot interface, bindingMoments]
  dsimp only
  rw [unbound, behind]
  dsimp only
  rw [hanswer, moments_of_slot behind]
  rfl

theorem moments_of_unowned (unowned : scope.owns key = false) :
    moments fuel ⟨scope, outer⟩ key runs context world =
      ⟨runs, world, .passing⟩ ::
        match world.memory.imported.find? (scope.site key), outer with
        | some _, _ => []
        | none, [] => [⟨runs, world, .raised (.notFound key)⟩]
        | none, parent :: further =>
          moments fuel ⟨parent, further⟩ key runs context (world.delegate scope key parent) := by
  obtain ⟨noSlot, noBinding⟩ := Scope.owns_eq_false_iff.mp unowned
  rw [moments_eq_seekMoments, seekMoments.eq_def]
  dsimp only
  rw [noSlot, noBinding]
  cases world.memory.imported.find? (scope.site key) with
  | some value => rfl
  | none =>
    cases outer with
    | nil => rfl
    | cons parent further =>
      dsimp only
      rw [moments_eq_seekMoments]

theorem outcome_signals (layer : Layer) (key : Key) (source : Registered) (context : Context)
    (result : Except ResolutionError Yield) (world : World) :
    (outcome layer key source context result world).2.signals = world.signals := by
  refine outcome_keeps (fun between => between.signals = world.signals)
    (fun _ _ delivery _ between h => ?_) rfl
  refine Eq.trans ?_ h
  unfold World.deliver
  split <;> rfl

theorem finish_signals (layer : Layer) (key : Key) (source : Registered) (context : Context)
    (result : Except ResolutionError Yield) (world : World) :
    (finish layer key source context result world).2.signals = world.signals := by
  refine Eq.trans ?_ (outcome_signals layer key source context result world)
  unfold finish World.report
  dsimp only
  split <;> rfl

theorem Ends.exists_moment {perform : Command → Engine Reply} {layer : Layer}
    {gathered : Except Stop (Except ResolutionError (List Argument))} {answer : Answer}
    {after : World} (run : Invocation)
    (ends : Ends perform layer run.requested run.source context world gathered (.ok answer) after) :
    ∃ moment ∈ closingMoments perform layer run runs context gathered world,
      moment.world.signals = after.signals := by
  have hend (result : Except ResolutionError Yield) (world : World) :
      (endMoment run layer runs context result world).world.signals =
        (finish layer run.requested run.source context result world).2.signals :=
    (outcome_signals _ _ _ _ _ _).trans (finish_signals _ _ _ _ _ _).symm
  generalize hresult : Except.ok answer = result at ends
  cases ends with
  | unsupplied => cases hresult
  | refused => exact ⟨_, List.mem_singleton_self _, hend _ _⟩
  | broken => cases hresult
  | returned body =>
    rw [closingMoments, body]
    exact ⟨_, List.mem_append_right _ (List.mem_singleton_self _), hend _ _⟩

/-- The signals at the end of a request are those at one of its moments. -/
theorem Resolves.exists_moment {layer : Layer} {chain : Chain} {result : Except Stop Answer}
    {answer : Answer} {after : World}
    (resolves : Resolves fuel layer key chain context world result after)
    (hchain : chain = runs.chain) (hanswer : result = .ok answer) :
    ∃ moment ∈ moments fuel layer key runs context world,
      moment.world.signals = after.signals := by
  induction resolves generalizing runs answer with
  | stored | obstructed | bound | unbacked | imported | missing =>
    exact ⟨_, entry_mem_moments _ _, rfl⟩
  | exhausted | blocked => cases hanswer
  | @run _ scope outer key _ _ world source _ _ _ _ _ starts answers ends ih =>
    subst hchain hanswer
    obtain ⟨moment, hmoment, hsignals⟩ := ends.exists_moment
      (runAt ⟨scope, outer⟩ key source runs world)
    rw [moments_of_run starts answers]
    refine ⟨moment, ?_, hsignals⟩
    exact List.mem_cons_of_mem _ (List.mem_cons_of_mem _ (List.mem_append_right _ hmoment))
  | unsourced noSlot interface unbound behind resolved lost ih =>
    subst hchain
    obtain ⟨moment, hmoment, hsignals⟩ := ih rfl hanswer
    rw [moments_of_unbound noSlot interface unbound behind resolved]
    exact ⟨moment, List.mem_cons_of_mem _ (List.mem_append_left _ hmoment), hsignals⟩
  | cast noSlot interface unbound behind resolved binds ih =>
    subst hchain hanswer
    obtain ⟨moment, hmoment, hsignals⟩ := ih rfl rfl
    rw [moments_of_unbound noSlot interface unbound behind resolved, castMoments]
    generalize hresult : Except.ok answer = result at binds
    cases binds with
    | mistyped other =>
      exact ⟨moment, List.mem_cons_of_mem _ (List.mem_append_left _ hmoment), hsignals⟩
    | broken => cases hresult
    | bound typed cast =>
      rw [if_pos typed]
      have hlast := Engine.after_mem_passes cast
      exact ⟨_, List.mem_cons_of_mem _ (List.mem_append_right _ (List.mem_map_of_mem hlast)), rfl⟩
  | unavailable unowned unknown resolved lost ih =>
    obtain ⟨moment, hmoment, hsignals⟩ := ih hchain hanswer
    rw [moments_of_unowned unowned, unknown]
    exact ⟨moment, List.mem_cons_of_mem _ hmoment, hsignals⟩
  | delegated unowned unknown resolved ih =>
    obtain ⟨moment, hmoment, hsignals⟩ := ih hchain rfl
    rw [moments_of_unowned unowned, unknown]
    refine ⟨moment, List.mem_cons_of_mem _ hmoment, hsignals.trans ?_⟩
    unfold World.hoist
    split <;> rfl

end

end Resolution

def Layer.moments (fuel : Nat) (layer : Layer) (key : Key) (context : Context) (world : World) :
    List Moment :=
  let asked := world.emit (.asked (layer.scope.site key))
  let (result, after) := Session.resolver fuel layer key [] context asked
  Resolution.moments fuel layer key [] context asked ++
    match result with
    | .ok (.ok value) =>
      if value.type = key then []
      else [⟨[], after.conclude layer key result, .raised (.mismatch key)⟩]
    | _ => []

end LayerGraph
