import LayerGraph.Proofs.Validity

/-! Properties of worlds that most of what happens leaves alone.

Much of what a request does adds a value to the memory and an event to the trace, and no more. A
property that lasts through values and through such events need not be looked at again at each of
these steps. -/

namespace LayerGraph

/-- A property that lasts while no layer is taken up, nothing is imported, only such events are added
to the trace, and every slot that gets a value is told of. What the engine tells the log is always
among the events. -/
structure World.Lasts (plain : Event → Prop) (holds : World → Prop) : Prop where
  logged : ∀ entry, plain (.logged entry)
  later : ∀ {world after : World}, holds world → after.built = world.built →
    after.nextLayer = world.nextLayer → world.memory.Extends after.memory →
    after.memory.imported = world.memory.imported →
    ∀ events, after.trace = events ++ world.trace →
      (∀ site value, after.memory.filled.find? site = some value →
        world.memory.filled.find? site = some value ∨ .filled site value ∈ events) →
      (∀ event ∈ events, plain event) → holds after

namespace World.Lasts

variable {plain : Event → Prop} {holds : World → Prop} {world : World} {scope : Scope} {key : Key}
  {source : Registered}

theorem of_built
    (same : ∀ {world after : World}, after.built = world.built → holds world → holds after) :
    World.Lasts (fun _ => True) holds :=
  ⟨fun _ => trivial, fun h built _ _ _ _ _ _ _ => same built h⟩

theorem emit (lasts : World.Lasts plain holds) (h : holds world) {event : Event}
    (hevent : plain event) : holds (world.emit event) :=
  lasts.later h rfl rfl (.refl _) rfl [event] rfl (fun _ _ => .inl) (by simpa using hevent)

theorem log (lasts : World.Lasts plain holds) (h : holds world) (entry : LogEntry) :
    holds (world.emit (.logged entry)) :=
  lasts.emit h (lasts.logged entry)

theorem noticed (lasts : World.Lasts plain holds) (h : holds world) (scope : Scope)
    {notice : Notice} (hnotice : ∀ observer, plain (.noticed observer notice)) :
    holds (world.emitAll (scope.observers.map (Event.noticed · notice))) := by
  refine lasts.later h rfl rfl (.refl _) rfl _ rfl (fun _ _ => .inl) fun event hevent => ?_
  obtain ⟨observer, -, rfl⟩ := List.mem_map.mp (List.mem_reverse.mp hevent)
  exact hnotice observer

theorem sidestep {after : World} (lasts : World.Lasts plain holds) (h : holds world)
    (sidesteps : world.Sidesteps after) : holds after :=
  lasts.later h sidesteps.built sidesteps.nextLayer (sidesteps.memory ▸ .refl _)
    (by rw [sidesteps.memory]) [] sidesteps.trace (fun _ _ h => .inl (sidesteps.memory ▸ h))
    (by simp)

theorem hold (lasts : World.Lasts plain holds) (h : holds world) (held : List Site) :
    holds { world with held } :=
  lasts.later h rfl rfl (.refl _) rfl [] rfl (fun _ _ => .inl) (by simp)

theorem name (lasts : World.Lasts plain holds) (h : holds world) (name : String) (layer : Layer) :
    holds { world with layers := world.layers.set name layer } :=
  lasts.later h rfl rfl (.refl _) rfl [] rfl (fun _ _ => .inl) (by simp)

theorem deliver (lasts : World.Lasts plain holds) (h : holds world) (delivery : Site × Value)
    (hfilled : plain (.filled delivery.1 delivery.2))
    (hdropped : plain (.dropped delivery.1 delivery.2)) : holds (world.deliver delivery) := by
  have memory := (World.Advances.deliver world delivery).memory
  cases hslot : world.memory.filled.find? delivery.1 with
  | some old =>
    have hdeliver : world.deliver delivery = world.emit (.dropped delivery.1 delivery.2) :=
      if_pos (by simp [Table.contains, hslot])
    rw [hdeliver]
    exact lasts.emit h hdropped
  | none =>
    obtain ⟨hdeliver, hfind⟩ := Resolution.deliver_of_empty hslot
    rw [hdeliver] at memory hfind ⊢
    refine lasts.later h rfl rfl memory rfl [_] rfl (fun site value hvalue => ?_)
      (by simpa using hfilled)
    rw [hfind] at hvalue
    split at hvalue
    · next hsite =>
      obtain rfl := Option.some.inj hvalue
      exact .inr (by rw [hsite]; exact List.mem_cons_self)
    · exact .inl hvalue

theorem delegate (lasts : World.Lasts plain holds) (h : holds world) (scope : Scope) (key : Key)
    (parent : Scope)
    (hnotice : ∀ observer, plain (.noticed observer (.delegated scope.id key parent.id))) :
    holds (world.delegate scope key parent) :=
  lasts.log (lasts.noticed h scope hnotice) (.delegating scope.id key parent.id)

theorem obstruct {chain : Chain} {error : ResolutionError} (lasts : World.Lasts plain holds)
    (h : holds (world.emit (.attempted (scope.site key) chain (some error))))
    (hnotice : ∀ observer, plain (.noticed observer
      (.failed scope.id key source.generator.signature error))) :
    holds (world.obstruct scope key source chain error) :=
  lasts.noticed h scope hnotice

theorem start {chain : Chain} (lasts : World.Lasts plain holds)
    (h : holds (world.emit (.attempted (scope.site key) chain none)))
    (hnotice : ∀ observer, plain (.noticed observer
      (.started scope.id key source.generator.signature))) :
    holds (world.start scope key source chain) :=
  lasts.log (lasts.noticed (lasts.hold h (scope.locks source ++ world.held)) scope hnotice)
    (.running scope.id key source.generator.signature (chain.length + 1))

theorem enterBody (lasts : World.Lasts plain holds) (h : holds world) (arguments : List Argument)
    (hran : ∀ run, plain (.ran scope.id source.place source.generator.tag run arguments)) :
    holds (world.enterBody scope source arguments) :=
  lasts.later h rfl rfl (.refl _) rfl [_] rfl (fun _ _ => .inl) (by simpa using hran _)

theorem enterCast {site : Site} {binding : Binding} {payload : String}
    (lasts : World.Lasts plain holds) (h : holds world)
    (hcasted : ∀ call, plain (.casted site binding.cast.tag call payload)) :
    holds (world.enterCast site binding payload) :=
  lasts.later h rfl rfl (.refl _) rfl [_] rfl (fun _ _ => .inl) (by simpa using hcasted _)

theorem bind (lasts : World.Lasts plain holds) (h : holds world) (scope : Scope) (key : Key)
    (binding : Binding) (payload : String) : holds (world.bind scope key binding payload) :=
  lasts.later h rfl rfl (World.Grows.bind world scope key binding payload).memory rfl [_] rfl
    (fun _ _ => .inl) (by simpa using lasts.logged _)

theorem report (lasts : World.Lasts plain holds) (h : holds world) (scope : Scope) (key : Key)
    (source : Registered) (answer : Answer)
    (hnotice : ∀ observer notice, plain (.noticed observer notice)) :
    holds (world.report scope key source answer) := by
  cases answer with
  | ok value => exact lasts.noticed (lasts.log h (.finished scope.id key)) scope (hnotice · _)
  | error error =>
    exact lasts.noticed (lasts.log h (.failed scope.id key error)) scope (hnotice · _)

theorem finish (lasts : World.Lasts plain holds) (h : holds world) (layer : Layer) (key : Key)
    (source : Registered) (context : Context) (result : Except ResolutionError Yield)
    (hnotice : ∀ observer notice, plain (.noticed observer notice))
    (hfilled : ∀ site value, plain (.filled site value))
    (hdropped : ∀ site value, plain (.dropped site value)) :
    holds (Resolution.finish layer key source context result world).2 :=
  Resolution.finish_keeps holds
    (fun _ _ delivery _ _ h => lasts.deliver h delivery (hfilled _ _) (hdropped _ _))
    (fun answer _ h => lasts.report h _ _ _ answer hnotice) h

theorem conclude (lasts : World.Lasts plain holds) (h : holds world) (layer : Layer) (key : Key)
    (result : Except Stop Answer) (hgranted : ∀ site value, plain (.granted site value))
    (hdenied : ∀ site error, plain (.denied site error)) :
    holds (world.conclude layer key result) := by
  rcases result with stop | (error | value)
  · exact h
  · exact lasts.log (lasts.emit h (hdenied _ error)) _
  · exact lasts.emit h (hgranted _ value)

theorem outside {α : Type} {perform : Command → Engine Reply} (lasts : World.Lasts plain holds)
    (incidental : ∀ event : Event, event.IsIncidental → plain event)
    (h : ∀ command, Engine.Keeps (fun world => world.Valid ∧ holds world) (perform command))
    (act : Act Command α) :
    Engine.Keeps (fun world => world.Valid ∧ holds world) (Engine.run perform act) := by
  refine .outside ?_ ?_ h act
  · exact fun h sidesteps => ⟨h.1.sidestep sidesteps, lasts.sidestep h.2 sidesteps⟩
  · exact fun h hevent => ⟨h.1.emit _, lasts.emit h.2 (incidental _ hevent)⟩

/-- What lasts, and outlasts requests and new layers, is an invariant of valid worlds. -/
theorem invariant (lasts : World.Lasts plain holds)
    (incidental : ∀ event : Event, event.IsIncidental → plain event)
    (enter : ∀ {world : World} {layer} {builder : Builder}, world.Valid → holds world →
      (∀ parent, builder.parent = some parent → parent ∈ world.built) →
      builder.assemble world.memory world.nextLayer = .ok layer → holds (world.enter layer))
    (request : ∀ {fuel}, (∀ less ≤ fuel, ∀ {α : Type} (act : Act Command α),
        Engine.Keeps (fun world => world.Valid ∧ holds world)
          (Engine.run (Session.handler less) act)) →
      ∀ {layer} key context {world : World}, world.Hosts layer → holds world →
        holds (layer.request (Session.resolver fuel) key context world).2) :
    Session.Invariant fun world => world.Valid ∧ holds world := by
  refine .of_valid ?_ ?_ ?_ enter ?_
  · exact fun h sidesteps => lasts.sidestep h sidesteps
  · exact fun h hevent => lasts.emit h (incidental _ hevent)
  · exact fun name h known => lasts.name h name _
  · exact fun keeps layer key context world hosts h =>
      request (fun less hless => lasts.outside incidental (keeps less hless)) key context hosts h

/-- What lasts through the ends of requests, and outlasts the way to their answers and new layers, is
an invariant of valid worlds. -/
theorem invariant_of_resolves (lasts : World.Lasts plain holds)
    (incidental : ∀ event : Event, event.IsIncidental → plain event)
    (hasked : ∀ site, plain (.asked site))
    (hgranted : ∀ site value, plain (.granted site value))
    (hdenied : ∀ site error, plain (.denied site error))
    (enter : ∀ {world : World} {layer} {builder : Builder}, world.Valid → holds world →
      (∀ parent, builder.parent = some parent → parent ∈ world.built) →
      builder.assemble world.memory world.nextLayer = .ok layer → holds (world.enter layer))
    (resolves : ∀ {fuel}, (∀ less ≤ fuel, ∀ {α : Type} (act : Act Command α),
        Engine.Keeps (fun world => world.Valid ∧ holds world)
          (Engine.run (Session.handler less) act)) →
      ∀ {layer key context world result after},
        Resolution.Resolves fuel layer key [] context world result after → world.Hosts layer →
          holds world → holds after) :
    Session.Invariant fun world => world.Valid ∧ holds world := by
  refine lasts.invariant incidental enter ?_
  intro fuel keeps layer key context world hosts h
  have hafter := resolves keeps (Resolution.resolver_resolves fuel layer key [] context
    (world.emit (.asked (layer.scope.site key)))) (hosts.emit _) (lasts.emit h (hasked _))
  rw [Layer.request_world]
  exact lasts.conclude hafter layer key _ hgranted hdenied

end World.Lasts

namespace Resolution

variable {plain : Event → Prop} {holds : World → Prop} {fuel : Nat} {layer : Layer} {key : Key}
  {context : Context} {world after : World} {result : Except Stop Answer}

/-- What lasts through all that a run has told outlasts the end of one, if it outlasts the body. -/
theorem Ends.lasting_of_body {source : Registered}
    {gathered : Except Stop (Except ResolutionError (List Argument))}
    (lasts : World.Lasts plain holds)
    (keeps : ∀ run arguments, Engine.Keeps (fun world => world.Valid ∧ holds world)
      (Engine.run (Session.handler fuel) (source.generator.body run arguments)))
    (hran : ∀ layer place tag run arguments, plain (.ran layer place tag run arguments))
    (hreturned : ∀ layer place run yield, plain (.returned layer place run yield))
    (hnotice : ∀ observer notice, plain (.noticed observer notice))
    (hfilled : ∀ site value, plain (.filled site value))
    (hdropped : ∀ site value, plain (.dropped site value))
    (ends : Ends (Session.handler fuel) layer key source context world gathered result after)
    (hosts : world.Hosts layer) (h : holds world) : holds after := by
  have hends := ends.keeps (fun world => world.Hosts layer ∧ holds world)
    (fun arguments h => ⟨h.1.enterBody arguments, lasts.enterBody h.2 arguments fun _ => hran ..⟩)
    (fun run arguments => (keeps run arguments).hosts layer)
    (fun _ _ _ h => ⟨h.1.emit _, lasts.emit h.2 (hreturned ..)⟩)
    (fun result _ h => ⟨h.1.finish _ _ _ _,
      lasts.finish h.2 _ _ _ _ result hnotice hfilled hdropped⟩)
    ⟨hosts, h⟩
  exact hends.2

/-- What lasts through all that a run has told outlasts the end of one, if it outlasts the commands
given meanwhile. -/
theorem Ends.lasting {source : Registered}
    {gathered : Except Stop (Except ResolutionError (List Argument))}
    (lasts : World.Lasts plain holds)
    (keeps : ∀ {α : Type} (act : Act Command α),
      Engine.Keeps (fun world => world.Valid ∧ holds world)
        (Engine.run (Session.handler fuel) act))
    (hran : ∀ layer place tag run arguments, plain (.ran layer place tag run arguments))
    (hreturned : ∀ layer place run yield, plain (.returned layer place run yield))
    (hnotice : ∀ observer notice, plain (.noticed observer notice))
    (hfilled : ∀ site value, plain (.filled site value))
    (hdropped : ∀ site value, plain (.dropped site value))
    (ends : Ends (Session.handler fuel) layer key source context world gathered result after)
    (hosts : world.Hosts layer) (h : holds world) : holds after :=
  ends.lasting_of_body lasts (fun _ _ => keeps _) hran hreturned hnotice hfilled hdropped hosts h

theorem Binds.lasting_of_cast {binding : Binding} {value : Value} (lasts : World.Lasts plain holds)
    (keeps : ∀ call payload, Engine.Keeps (fun world => world.Valid ∧ holds world)
      (Engine.run (Session.handler fuel) (binding.cast.apply call payload)))
    (hcasted : ∀ site tag call payload, plain (.casted site tag call payload))
    (binds : Binds (Session.handler fuel) layer.scope key binding value world result after)
    (noSlot : layer.scope.slots.find? key = none)
    (interface : layer.scope.bindings.find? key = some binding)
    (hosts : world.Hosts layer) (h : holds world) : holds after := by
  have hbinds := binds.keeps (fun world => world.Hosts layer ∧ holds world)
    (fun payload h => ⟨h.1.enterCast _ _ payload, lasts.enterCast h.2 fun _ => hcasted ..⟩)
    (fun call payload => (keeps call payload).hosts layer)
    (fun payload between h => ⟨⟨h.1.1.bind h.1.2 noSlot interface payload, h.1.2⟩,
      lasts.bind h.2 _ _ _ _⟩)
    ⟨hosts, h⟩
  exact hbinds.2

/-- What lasts through casts outlasts the binding of an interface, if it outlasts the commands given
meanwhile. -/
theorem Binds.lasting {binding : Binding} {value : Value} (lasts : World.Lasts plain holds)
    (keeps : ∀ {α : Type} (act : Act Command α),
      Engine.Keeps (fun world => world.Valid ∧ holds world)
        (Engine.run (Session.handler fuel) act))
    (hcasted : ∀ site tag call payload, plain (.casted site tag call payload))
    (binds : Binds (Session.handler fuel) layer.scope key binding value world result after)
    (noSlot : layer.scope.slots.find? key = none)
    (interface : layer.scope.bindings.find? key = some binding)
    (hosts : world.Hosts layer) (h : holds world) : holds after :=
  binds.lasting_of_cast lasts (fun _ _ => keeps _) hcasted noSlot interface hosts h

/-- What lasts outlasts requests, if it outlasts the ends of runs and the imports, and the commands
given meanwhile. -/
theorem Resolves.lasting {chain : Chain} {most : Nat} (lasts : World.Lasts plain holds)
    (hattempted : ∀ site chain obstacle, plain (.attempted site chain obstacle))
    (hnotice : ∀ observer notice, plain (.noticed observer notice))
    (hcasted : ∀ site tag call payload, plain (.casted site tag call payload))
    (keeps : ∀ less ≤ most, ∀ {α : Type} (act : Act Command α),
      Engine.Keeps (fun world => world.Valid ∧ holds world)
        (Engine.run (Session.handler less) act))
    (runs : ∀ {less layer key chain world source inquiries gathered between result after},
      less + 1 ≤ most →
      Starts layer key chain context world source inquiries gathered between →
      (∀ inquiry ∈ inquiries,
        Resolves less layer inquiry.key (layer.scope.frame key source :: chain) context
          inquiry.before inquiry.result inquiry.after) →
      Ends (Session.handler (less + 1)) layer key source context between gathered result after →
      world.Hosts layer → holds world → between.Hosts layer → holds between → holds after)
    (hoists : ∀ {less scope parent further key chain world value between},
      scope.owns key = false →
      Resolves less ⟨parent, further⟩ key chain context (world.delegate scope key parent)
        (.ok (.ok value)) between →
      world.Hosts ⟨scope, parent :: further⟩ → holds world → holds between →
        holds (between.hoist scope key value))
    (resolves : Resolves fuel layer key chain context world result after)
    (hfuel : fuel ≤ most) (hosts : world.Hosts layer) (h : holds world) : holds after := by
  induction resolves with
  | stored => exact lasts.log h _
  | exhausted | bound | unbacked | imported | missing => exact h
  | obstructed => exact lasts.obstruct (lasts.emit h (hattempted ..)) fun _ => hnotice ..
  | blocked => exact lasts.emit h (hattempted ..)
  | @run fuel scope outer key chain context world source inquiries gathered between result after
      starts answers ends ih =>
    obtain ⟨-, hhosts, hbetween⟩ := starts.hosted holds answers
      (fun inquiry hinquiry => ih inquiry hinquiry runs hoists (Nat.le_of_succ_le hfuel))
      hosts (lasts.start (lasts.emit h (hattempted ..)) fun _ => hnotice ..)
    exact lasts.hold (runs hfuel starts answers ends hosts h hhosts hbetween) _
  | unsourced noSlot interface unbound behind answer lost ih => exact ih runs hoists hfuel hosts h
  | @cast fuel scope outer key chain context world binding backing value between result after
      noSlot interface unbound behind answer binds ih =>
    exact @Binds.lasting _ _ _ ⟨scope, outer⟩ _ _ _ _ _ _ lasts (keeps _ hfuel) hcasted binds
      noSlot interface (answer.hosts hosts hosts) (ih runs hoists hfuel hosts h)
  | unavailable unowned unknown answer lost ih =>
    exact ih runs hoists hfuel (hosts.delegate _ _ _).parent
      (lasts.delegate h _ _ _ fun _ => hnotice ..)
  | delegated unowned unknown answer ih =>
    exact hoists unowned answer hosts h (ih runs hoists hfuel (hosts.delegate _ _ _).parent
      (lasts.delegate h _ _ _ fun _ => hnotice ..))

/-- What depends on nothing but the layers that have been built outlasts requests, if it outlasts
the commands given meanwhile. -/
theorem Resolves.keeps_of_built {chain : Chain}
    (same : ∀ {world after : World}, after.built = world.built → holds world → holds after)
    (keeps : ∀ less ≤ fuel, ∀ {α : Type} (act : Act Command α),
      Engine.Keeps (fun world => world.Valid ∧ holds world)
        (Engine.run (Session.handler less) act))
    (resolves : Resolves fuel layer key chain context world result after)
    (hosts : world.Hosts layer) (h : holds world) : holds after := by
  have lasts := World.Lasts.of_built same
  refine resolves.lasting lasts (fun _ _ _ => trivial) (fun _ _ => trivial)
    (fun _ _ _ _ => trivial) keeps ?_ ?_ (Nat.le_refl _) hosts h
  · intro _ _ _ _ _ _ _ _ _ _ _ hless _ _ ends _ _ hhosts hbetween
    exact ends.lasting lasts (keeps _ hless) (fun _ _ _ _ _ => trivial) (fun _ _ _ _ => trivial)
      (fun _ _ => trivial) (fun _ _ => trivial) (fun _ _ => trivial) hhosts hbetween
  · intro _ scope _ _ key _ _ value between _ _ _ _ hbetween
    refine same ?_ hbetween
    unfold World.hoist
    split <;> rfl

end Resolution

/-- What depends on nothing but the layers that have been built is an invariant of valid worlds if
it outlasts new layers. -/
theorem Session.Invariant.of_built {holds : World → Prop}
    (same : ∀ {world after : World}, after.built = world.built → holds world → holds after)
    (enter : ∀ {world : World} {layer} {builder : Builder}, world.Valid → holds world →
      (∀ parent, builder.parent = some parent → parent ∈ world.built) →
      builder.assemble world.memory world.nextLayer = .ok layer → holds (world.enter layer)) :
    Invariant fun world => world.Valid ∧ holds world := by
  have lasts := World.Lasts.of_built same
  exact lasts.invariant_of_resolves (fun _ _ => trivial) (fun _ => trivial) (fun _ _ => trivial)
    (fun _ _ => trivial) enter
    fun keeps _ _ _ _ _ _ resolves hosts h => resolves.keeps_of_built same keeps hosts h

end LayerGraph
