import LayerGraph.Proofs.Propagation
import LayerGraph.Proofs.Unmarked
import LayerGraph.Proofs.EagerOrder

/-! Filling an eager slot, and asking for it later.

An eager slot is filled by a request like any other, made before its layer has a name and on a thread
of its own. Outside code that gives no commands sees nothing of names, marks and threads. So the
request comes to the same when the layer was built without marks, has its name, and is asked from
outside. -/

namespace LayerGraph

/-- Silent code does the same whoever would carry out commands. -/
theorem Act.Silent.run_eq {α : Type} {act : Act Command α} (silent : act.Silent)
    (perform perform' : Command → Engine Reply) :
    Engine.run perform act = Engine.run perform' act := by
  induction act with
  | done result => rfl
  | panic message => rfl
  | cancel name next ih => rw [Engine.run, Engine.run, ih silent]
  | elapse time next ih => rw [Engine.run, Engine.run, ih silent]
  | noteThread next ih => rw [Engine.run, Engine.run, ih silent]
  | perform command next ih => exact silent.elim

/-- Whether an event tells on which thread something happens, or how the filling of an eager slot
came out. -/
def Event.isOfFilling : Event → Bool
  | .thread _ => true
  | .logged (.eagerResolved ..) | .logged (.eagerFailed ..) | .logged (.eagerPanicked ..) => true
  | _ => false

/-- The world without eager marks on its layers, without word of eager slots being filled, and without
the names of threads. -/
def World.unmarked (world : World) : World :=
  { world with
    layers := ⟨world.layers.entries.map fun (name, layer) => (name, layer.unmarked)⟩
    built := world.built.map Layer.unmarked
    trace := world.trace.filter fun event => !event.isOfFilling }

/-- Two worlds that go on from the given ones side by side, with the same layers and threads as
these. Apart from layers, threads, and word of eager slots being filled they are the same. -/
structure World.Beside (start start' world other : World) : Prop where
  layers : world.layers = start.layers
  layers' : other.layers = start'.layers
  built : world.built = start.built
  built' : other.built = start'.built
  thread : world.thread = start.thread
  thread' : other.thread = start'.thread
  tokens : other.tokens = world.tokens
  memory : other.memory = world.memory
  runs : other.runs = world.runs
  casts : other.casts = world.casts
  nextLayer : other.nextLayer = world.nextLayer
  nextToken : other.nextToken = world.nextToken
  signals : other.signals = world.signals
  held : other.held = world.held
  told : other.trace.filter (fun event => !event.isOfFilling) =
    world.trace.filter fun event => !event.isOfFilling

/-- The one layer is the other, with its eager marks or without them, and no code of theirs gives
commands. -/
structure Layer.Demarks (layer layer' : Layer) : Prop where
  same : layer' = layer ∨ layer' = layer.unmarked
  silent : ∀ scope ∈ layer.ancestry, scope.Silent

namespace Layer.Demarks

variable {layer layer' : Layer} {key : Key} {source source' : Registered}

theorem scope (demarks : layer.Demarks layer') : layer.scope.Mirrors layer'.scope := by
  rcases demarks.same with rfl | rfl
  · exact .refl _
  · exact Scope.mirrors_unmarked _

theorem parent? (demarks : layer.Demarks layer') :
    Option.Rel Layer.Demarks layer.parent? layer'.parent? := by
  have hsame : layer'.parent? = layer.parent? := by
    rcases demarks.same with rfl | rfl <;> rfl
  rw [hsame]
  obtain ⟨scope, outer⟩ := layer
  match outer, demarks.silent with
  | [], _ => exact .none
  | parent :: further, silent =>
    exact .some ⟨.inl rfl, fun other hother => silent other (List.mem_cons_of_mem _ hother)⟩

theorem source_eq (demarks : layer.Demarks layer')
    (counterparts : Counterparts layer.scope.slots layer'.scope.slots source source') :
    source' = source := by
  obtain ⟨key, eager, eager', cyclic, cyclic', slot, slot'⟩ := counterparts
  rcases demarks.same with rfl | rfl
  · exact (Backing.generated.inj (Option.some.inj (slot'.symm.trans slot))).1
  · have hslot := (find?_unmarkAll layer.scope.slots key).symm.trans slot'
    rw [slot] at hslot
    exact (Backing.generated.inj (Option.some.inj hslot)).1.symm

end Layer.Demarks

namespace World.Beside

variable {start start' world other : World} {layer layer' : Layer}

theorem emit (beside : World.Beside start start' world other) (event : Event) :
    World.Beside start start' (world.emit event) (other.emit event) :=
  { beside with
    told := by
      change List.filter _ (event :: other.trace) = List.filter _ (event :: world.trace)
      rw [List.filter_cons, List.filter_cons, beside.told] }

theorem hear (beside : World.Beside start start' world other) {event : Event}
    (filling : event.isOfFilling = true) :
    World.Beside start start' (world.emit event) other :=
  { beside with
    told := by
      change _ = List.filter _ (event :: world.trace)
      rw [List.filter_cons_of_neg (by simp [filling])]
      exact beside.told }

theorem remember (beside : World.Beside start start' world other) (change : Memory → Memory) :
    World.Beside start start' { world with memory := change world.memory }
      { other with memory := change other.memory } :=
  { beside with memory := congrArg change beside.memory }

theorem deliver (beside : World.Beside start start' world other) (delivery : Site × Value) :
    World.Beside start start' (world.deliver delivery) (other.deliver delivery) := by
  unfold World.deliver
  rw [beside.memory]
  split
  · exact beside.emit _
  · have hfilled := beside.remember (·.fill delivery.1 delivery.2)
    rw [beside.memory] at hfilled
    exact hfilled.emit _

theorem hoist (beside : World.Beside start start' world other) (scope : Scope) (key : Key)
    (value : Value) : World.Beside start start' (world.hoist scope key value)
      (other.hoist scope key value) := by
  unfold World.hoist
  split
  · exact beside.remember (·.importValue (scope.site key) value)
  · exact beside

theorem enterBody (beside : World.Beside start start' world other) (scope : Scope)
    (source : Registered) (arguments : List Argument) :
    World.Beside start start' (world.enterBody scope source arguments)
      (other.enterBody scope source arguments) := by
  have hcounted (run : Nat) : World.Beside start start'
      { world with runs := world.runs.set (scope.id, source.place) run }
      { other with runs := other.runs.set (scope.id, source.place) run } :=
    { beside with runs := congrArg (·.set (scope.id, source.place) run) beside.runs }
  unfold World.enterBody World.nextRun
  rw [beside.runs]
  have hworlds := hcounted ((world.runs.find? (scope.id, source.place)).getD 0 + 1)
  rw [beside.runs] at hworlds
  exact hworlds.emit _

theorem enterCast (beside : World.Beside start start' world other) (site : Site)
    (binding : Binding) (payload : String) :
    World.Beside start start' (world.enterCast site binding payload)
      (other.enterCast site binding payload) := by
  have hcounted (call : Nat) : World.Beside start start'
      { world with casts := world.casts.set site call }
      { other with casts := other.casts.set site call } :=
    { beside with casts := congrArg (·.set site call) beside.casts }
  unfold World.enterCast World.nextCast
  rw [beside.casts]
  have hworlds := hcounted ((world.casts.find? site).getD 0 + 1)
  rw [beside.casts] at hworlds
  exact hworlds.emit _

theorem mirroring (start start' : World) :
    Mirroring Layer.Demarks (World.Beside start start') where
  scope demarks := demarks.scope
  parent demarks := demarks.parent?
  signals beside := beside.signals
  tokens beside := beside.tokens
  held beside := beside.held
  memory beside := beside.memory
  casts beside := beside.casts
  runs beside demarks counterparts := by
    rw [beside.runs, demarks.scope.id, demarks.source_eq counterparts]
  emit event _ beside := beside.emit event
  note beside := { beside with told := beside.told }
  signal signals beside := { beside with signals := rfl }
  hold held beside := { beside with held := rfl }
  enterBody arguments beside demarks counterparts := by
    have hworlds := beside.enterBody
    unfold World.enterBody World.nextRun at hworlds ⊢
    rw [demarks.scope.id, demarks.source_eq counterparts]
    exact hworlds _ _ arguments
  returned run yield beside demarks counterparts := by
    rw [demarks.scope.id, demarks.source_eq counterparts]
    exact beside.emit _
  deliver beside demarks counterparts h := beside.deliver _
  enterCast site binding payload beside := beside.enterCast site binding payload
  bind payload beside demarks noSlot interface := by
    unfold World.bind
    rw [demarks.scope.id, demarks.scope.site]
    exact (beside.emit _).remember fun memory => memory.bind _ _
  hoist value beside demarks unowned := by
    have hworlds := beside.hoist
    unfold World.hoist at hworlds ⊢
    rw [demarks.scope.settings, demarks.scope.site]
    exact hworlds _ _ value

end World.Beside

inductive Layer.Outcome (layer : Layer) (key : Key) : Reply → LogEntry → Prop
  | granted : Layer.Outcome layer key .batch (.eagerResolved layer.scope.id key)
  | refused (failure : Failure) :
      Layer.Outcome layer key (.refused failure) (.eagerFailed layer.scope.id key failure.error)
  | panicked (message : String) :
      Layer.Outcome layer key (.panicked message) (.eagerPanicked layer.scope.id key message)

theorem Layer.Outcome.isOfFilling {layer : Layer} {key : Key} {reply : Reply} {entry : LogEntry}
    (outcome : layer.Outcome key reply entry) : Event.isOfFilling (.logged entry) = true := by
  cases outcome <;> rfl

namespace Session

open Engine (Agree Couples Meets)

/-- Both requests were answered with the same value, or failed for the same reason. What is attached
to a failure may differ. -/
def Concur (answered answered' : Answered) : Prop :=
  answered'.mapError Failure.error = answered.mapError Failure.error

variable {start start' world other : World} {layer layer' : Layer} {fuel : Nat} {key : Key}

theorem resolver_demarked (demarks : layer.Demarks layer') (key : Key) (chain : Chain)
    (context : Context) :
    Couples (World.Beside start start') Eq (resolver fuel layer key chain context)
      (resolver fuel layer' key chain context) := by
  have mirroring := World.Beside.mirroring start start'
  have hrun {α : Type} {act : Act Command α} (silent : act.Silent)
      (perform : Command → Engine Reply) :
      Couples (World.Beside start start') Eq (Engine.run perform act)
        (Engine.run perform act) := by
    rw [silent.run_eq perform fun _ => throw .blocked]
    exact mirroring.run_couples act fun _ => .throw _
  refine mirroring.resolver_couples (fun less _ => ⟨?_, ?_⟩) key chain context demarks
  · intro layer layer' key source eager cyclic demarks slot run arguments
    exact hrun ((demarks.silent _ List.mem_cons_self).bodies key source eager cyclic slot run _) _
  · intro layer layer' key binding demarks interface call payload
    exact hrun ((demarks.silent _ List.mem_cons_self).casts key binding interface call payload) _

theorem request_demarked (demarks : layer.Demarks layer') (key : Key) (context : Context) :
    Couples (World.Beside start start') Concur (layer.request (resolver fuel) key context)
      (layer'.request (resolver fuel) key context) := by
  have mirroring := World.Beside.mirroring start start'
  unfold Layer.request
  rw [demarks.scope.site, demarks.scope.id]
  refine .bind (mirroring.emit_couples rfl) fun _ _ _ => ?_
  refine .bind_same (resolver_demarked demarks key [] context) fun answer => ?_
  cases answer with
  | ok value => exact .bind (mirroring.emit_couples rfl) fun _ _ _ => .pure rfl
  | error error =>
    refine .bind (mirroring.emit_couples rfl) fun _ _ _ => ?_
    refine .bind (mirroring.emit_couples rfl) fun _ _ _ => ?_
    exact .get_bind fun world other beside => .pure beside rfl

theorem resolveBatch_apply {name : String} (named : world.layers.find? name = some layer)
    (key : Key) :
    perform (resolver fuel) (.resolveBatch name [key]) world =
      match layer.request (resolver fuel) key .background world with
      | (.ok (.ok _), after) => (.ok .batch, after)
      | (.ok (.error failure), after) => (.ok (.refused failure), after)
      | (.error (.panic message), after) => (.ok (.panicked message), after)
      | (.error stop, after) => (.error stop, after) := by
  unfold perform Engine.catchPanic
  rw [carryOut, withLayer, Engine.get_bind_apply, named]
  dsimp only
  rw [Layer.resolveAll, Engine.bind_apply, Engine.bind_apply]
  rcases layer.request (resolver fuel) key .background world with
    ⟨(_ | _ | _) | (_ | _), after⟩ <;> rfl

/-- An eager slot is filled as it would be by a request made later, by name and from outside. -/
theorem warmUp_deferred (demarks : layer.Demarks layer')
    (beside : World.Beside (layer.warming world) other (layer.warming world) other) {name : String}
    (named : other.layers.find? name = some layer') {result : Except Stop Answered} {after : World}
    (filled : layer.request (resolver fuel) key .background (layer.warming world) = (result, after))
    (panics : ∀ stop, result = .error stop → ∃ message, stop = .panic message) :
    ∃ after' reply entry, World.Beside (layer.warming world) other after after' ∧
      layer.Outcome key reply entry ∧
      layer.warmUp (resolver fuel) key world =
        (.ok (), { after.emit (.logged entry) with thread := world.thread }) ∧
      perform (resolver fuel) (.resolveBatch name [key]) other = (.ok reply, after') ∧
      (reply ≠ .batch → ∀ value, result ≠ .ok (.ok value)) := by
  have hmeets : Meets (World.Beside (layer.warming world) other) Concur
      (layer.request (resolver fuel) key .background (layer.warming world))
      (layer'.request (resolver fuel) key .background other) :=
    request_demarked demarks key .background _ _ beside
  rw [Layer.warmUp_apply, resolveBatch_apply named]
  revert hmeets
  rw [filled]
  rcases layer'.request (resolver fuel) key .background other with ⟨result', after'⟩
  intro hmeets
  obtain ⟨hworlds, hresults⟩ := hmeets
  cases hresults with
  | stopped stop =>
    obtain ⟨message, rfl⟩ := panics stop rfl
    exact ⟨after', _, _, hworlds, .panicked message, rfl, rfl, fun _ value h => nomatch h⟩
  | @answered answered answered' concur =>
    rcases answered with failure | value <;> rcases answered' with failure' | value'
    · obtain ⟨error, snapshot⟩ := failure
      obtain rfl : failure'.error = error := Except.error.inj concur
      exact ⟨after', _, _, hworlds, .refused failure', rfl, rfl, fun _ value h => nomatch h⟩
    · cases concur
    · cases concur
    · exact ⟨after', _, _, hworlds, .granted, rfl, rfl, fun h => absurd rfl h⟩

theorem request_fruitless {source : Registered} {eager cyclic : Bool} {context : Context}
    {result : Except Stop Answered} {after : World} (hosts : world.Hosts layer)
    (slot : layer.scope.slots.find? key = some (.generated source eager cyclic))
    (h : layer.request (resolver fuel) key context world = (result, after))
    (lost : ∀ value, result ≠ .ok (.ok value)) :
    after.memory.filled.find? (layer.scope.site key) = none := by
  have hosts : (world.emit (.asked (layer.scope.site key))).Hosts layer :=
    ⟨hosts.1.emit _, hosts.2⟩
  have hresolves := Resolution.resolver_resolves fuel layer key [] context
    (world.emit (.asked (layer.scope.site key)))
  have hworld := Layer.request_world (resolver fuel) layer key context world
  dsimp only at hworld
  rcases hanswer : resolver fuel layer key [] context (world.emit (.asked (layer.scope.site key)))
    with ⟨answer, between⟩
  rw [hanswer] at hresolves hworld
  rw [h] at hworld
  have hempty : between.memory.filled.find? (layer.scope.site key) = none := by
    refine hresolves.fruitless hosts slot fun value hvalue => ?_
    have hvalue : answer = .ok (.ok value) := hvalue
    subst hvalue
    rw [Layer.request_granted hanswer] at h
    exact lost value (congrArg Prod.fst h).symm
  have hmemory : (between.conclude layer key answer).memory = between.memory := by
    rcases answer with stop | (error | value) <;> rfl
  have hafter : after = between.conclude layer key answer := hworld
  rwa [hafter, hmemory]

/-- Apart from eager marks, a world in which the only eager slot of a new layer has been filled is
the world in which it has been asked for later. -/
theorem closing_unmarked {after after' : World} {name : String} {entry : LogEntry}
    (beside : World.Beside (layer.warming world) other after after')
    (filling : Event.isOfFilling (.logged entry) = true) (serial : layer.races = false)
    (layers : other.layers = world.layers.set name layer.unmarked)
    (built : other.built.map Layer.unmarked = world.built.map Layer.unmarked)
    (thread : other.thread = world.thread) :
    (layer.closing name { after.emit (.logged entry) with thread := world.thread }).unmarked =
      after'.unmarked := by
  have hlayers : (⟨(after.layers.set name layer).entries.map fun (name, layer) =>
      (name, layer.unmarked)⟩ : Table String Layer) =
        ⟨after'.layers.entries.map fun (name, layer) => (name, layer.unmarked)⟩ := by
    have hbefore : after.layers = world.layers := beside.layers
    rw [beside.layers', layers, hbefore, Table.set_map, Table.set_map, layer.unmarked_unmarked]
  have hbuilt : after.built.map Layer.unmarked = after'.built.map Layer.unmarked := by
    have hbefore : after.built = world.built := beside.built
    rw [beside.built', built, hbefore]
  have htold : (after.emit (.logged entry)).trace.filter (fun event => !event.isOfFilling) =
      after'.trace.filter fun event => !event.isOfFilling :=
    (beside.hear filling).told.symm
  unfold Layer.closing
  rw [serial]
  unfold World.unmarked
  rw [beside.tokens, beside.memory, beside.runs, beside.casts, beside.nextLayer, beside.nextToken,
    beside.signals, beside.held, beside.thread', thread, ← hlayers, ← hbuilt, ← htold]
  rfl

end Session

end LayerGraph
