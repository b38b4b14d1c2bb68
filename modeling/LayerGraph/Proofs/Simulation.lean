import LayerGraph.Proofs.Cycles

/-! One world following another.

If two worlds agree on what a request looks at, and go on agreeing while the same is done to both,
then a request that is answered in the one is answered the same in the other. The layer asked in the
other world may differ in what it hoists, and there may be more nesting left there. -/

namespace LayerGraph

def Scope.hoisting (choose : Bool → Bool) (scope : Scope) : Scope :=
  { scope with settings := { scope.settings with hoist := choose scope.settings.hoist } }

def Layer.hoisting (choose : Bool → Bool) (layer : Layer) : Layer :=
  ⟨layer.scope.hoisting choose, layer.outer.map (Scope.hoisting choose)⟩

@[simp] theorem Layer.hoisting_id (layer : Layer) : layer.hoisting id = layer := by
  have hscope : Scope.hoisting id = id := rfl
  unfold hoisting
  rw [hscope, List.map_id]
  rfl

/-- A relation between worlds that agree on what requests look at in the layers inside, and that is
kept while the same is done to both. -/
structure Simulation (choose : Bool → Bool) (inside : Nat → Prop)
    (R : World → World → Prop) : Prop where
  signals : ∀ {world other}, R world other → other.signals = world.signals
  tokens : ∀ {world other}, R world other → other.tokens = world.tokens
  thread : ∀ {world other}, R world other → other.thread = world.thread
  held : ∀ {world other}, R world other → other.held = world.held
  filled : ∀ {world other} site, R world other → inside site.layer →
    other.memory.filled.find? site = world.memory.filled.find? site
  bound : ∀ {world other} site, R world other → inside site.layer →
    other.memory.bound.find? site = world.memory.bound.find? site
  runs : ∀ {world other layer place}, R world other → inside layer →
    other.runs.find? (layer, place) = world.runs.find? (layer, place)
  casts : ∀ {world other} site, R world other → inside site.layer →
    other.casts.find? site = world.casts.find? site
  unknown : ∀ {world other site}, R world other → inside site.layer →
    world.memory.imported.find? site = none → other.memory.imported.find? site = none
  emit : ∀ {world other} event, R world other → R (world.emit event) (other.emit event)
  signal : ∀ {world other} signals, R world other →
    R { world with signals } { other with signals }
  hold : ∀ {world other} held, R world other → R { world with held } { other with held }
  fill : ∀ {world other} site value, R world other → inside site.layer →
    R { world with memory := world.memory.fill site value }
      { other with memory := other.memory.fill site value }
  bind : ∀ {world other} site value, R world other → inside site.layer →
    R { world with memory := world.memory.bind site value }
      { other with memory := other.memory.bind site value }
  countRun : ∀ {world other layer} place run, R world other → inside layer →
    R { world with runs := world.runs.set (layer, place) run }
      { other with runs := other.runs.set (layer, place) run }
  countCast : ∀ {world other site} call, R world other → inside site.layer →
    R { world with casts := world.casts.set site call }
      { other with casts := other.casts.set site call }
  /-- What the one world has imported the other comes by. -/
  imported : ∀ {world other} {layer : Layer} {key value} fuel chain context, R world other →
    world.Hosts layer → world.Faithful → (∀ scope ∈ layer.ancestry, inside scope.id) →
    layer.scope.owns key = false →
    world.memory.imported.find? (layer.scope.site key) = some value →
      ∃ last, Resolution.Resolves fuel (layer.hoisting choose) key chain context other
        (.ok (.ok value)) last ∧ R world last
  /-- What the one world imports the other passes on as well, imported or not. -/
  hoist : ∀ {world other} {layer : Layer} {key value}, R world other → world.Hosts layer →
    world.Faithful → inside layer.scope.id → layer.cell? world.memory key = some value →
      Resolution.hoisted (layer.scope.hoisting choose) key value other =
          Resolution.hoisted layer.scope key value world ∧
        R (world.hoist layer.scope key value) (other.hoist (layer.scope.hoisting choose) key value)

namespace Simulation

variable {choose : Bool → Bool} {inside : Nat → Prop} {R : World → World → Prop}
  {world other : World} {scope : Scope} {key : Key} {source : Registered}

theorem emitAll (simulation : Simulation choose inside R) (events : List Event)
    (h : R world other) : R (world.emitAll events) (other.emitAll events) := by
  induction events generalizing world other with
  | nil => exact h
  | cons event rest ih =>
    have hrest := ih (simulation.emit event h)
    simpa [World.emit, World.emitAll] using hrest

theorem stored? (simulation : Simulation choose inside R) (h : R world other)
    (known : inside scope.id) (key : Key) (backing : Backing) :
    other.memory.stored? (scope.site key) backing =
      world.memory.stored? (scope.site key) backing := by
  cases backing with
  | value value => rfl
  | generated source eager cyclic => exact simulation.filled _ h known

theorem obstruct (simulation : Simulation choose inside R) (h : R world other) (chain : Chain)
    (error : ResolutionError) :
    R (world.obstruct scope key source chain error)
      (other.obstruct (scope.hoisting choose) key source chain error) :=
  simulation.emitAll _ (simulation.emit _ h)

theorem start (simulation : Simulation choose inside R) (h : R world other) (chain : Chain) :
    R (world.start scope key source chain)
      (other.start (scope.hoisting choose) key source chain) := by
  have hheld := simulation.hold (scope.locks source ++ world.held)
    (simulation.emit (.attempted (scope.site key) chain none) h)
  rw [← simulation.held h] at hheld
  have hstart := simulation.emit (.logged (.running scope.id key source.generator.signature
    (chain.length + 1))) (simulation.emitAll (scope.observers.map
      (Event.noticed · (.started scope.id key source.generator.signature))) hheld)
  rw [simulation.held h] at hstart
  unfold World.start
  rw [simulation.held h]
  exact hstart

theorem delegate (simulation : Simulation choose inside R) (h : R world other) (parent : Scope) :
    R (world.delegate scope key parent)
      (other.delegate (scope.hoisting choose) key (parent.hoisting choose)) :=
  simulation.emit _ (simulation.emitAll _ h)

theorem report (simulation : Simulation choose inside R) (h : R world other) (scope : Scope)
    (key : Key) (source : Registered) (answer : Answer) :
    R (world.report scope key source answer)
      (other.report (scope.hoisting choose) key source answer) := by
  cases answer with
  | ok value => exact simulation.emitAll _ (simulation.emit _ h)
  | error error => exact simulation.emitAll _ (simulation.emit _ h)

theorem nextRun_eq (simulation : Simulation choose inside R) (h : R world other)
    (known : inside scope.id) (source : Registered) :
    other.nextRun (scope.hoisting choose) source = world.nextRun scope source := by
  have hruns : other.runs.find? (scope.id, source.place) =
      world.runs.find? (scope.id, source.place) := simulation.runs h known
  unfold World.nextRun
  change (other.runs.find? (scope.id, source.place)).getD 0 + 1 = _
  rw [hruns]

theorem enterBody (simulation : Simulation choose inside R) (h : R world other)
    (known : inside scope.id) (source : Registered) (arguments : List Argument) :
    R (world.enterBody scope source arguments)
      (other.enterBody (scope.hoisting choose) source arguments) := by
  have hrun := simulation.nextRun_eq h known source
  unfold World.enterBody
  dsimp only
  rw [hrun]
  exact simulation.emit _ (simulation.countRun source.place _ h known)

theorem nextCast_eq (simulation : Simulation choose inside R) (h : R world other)
    (known : inside scope.id) (key : Key) :
    other.nextCast (scope.site key) = world.nextCast (scope.site key) := by
  unfold World.nextCast
  rw [simulation.casts (scope.site key) h known]

theorem enterCast (simulation : Simulation choose inside R) (h : R world other)
    (known : inside scope.id) (key : Key) (binding : Binding) (payload : String) :
    R (world.enterCast (scope.site key) binding payload)
      (other.enterCast (scope.site key) binding payload) := by
  unfold World.enterCast
  dsimp only
  rw [simulation.nextCast_eq h known key]
  exact simulation.emit _ (simulation.countCast _ h known)

theorem bindInterface (simulation : Simulation choose inside R) (h : R world other)
    (known : inside scope.id) (key : Key) (binding : Binding) (payload : String) :
    R (world.bind scope key binding payload)
      (other.bind (scope.hoisting choose) key binding payload) :=
  simulation.bind (scope.site key) ⟨key, payload⟩
    (simulation.emit (.logged (.interfaceBound scope.id key binding.source)) h) known

theorem deliver (simulation : Simulation choose inside R) (h : R world other)
    {delivery : Site × Value} (known : inside delivery.1.layer) :
    R (world.deliver delivery) (other.deliver delivery) := by
  unfold World.deliver Table.contains
  rw [simulation.filled _ h known]
  split
  · exact simulation.emit _ h
  · exact simulation.emit _ (simulation.fill _ delivery.2 h known)

theorem deliverAll (simulation : Simulation choose inside R) {deliveries : List (Site × Value)}
    (known : ∀ delivery ∈ deliveries, inside delivery.1.layer) (h : R world other) :
    R (deliveries.foldl World.deliver world) (deliveries.foldl World.deliver other) := by
  induction deliveries generalizing world other with
  | nil => exact h
  | cons delivery rest ih =>
    refine ih (fun next hnext => known next (List.mem_cons_of_mem _ hnext)) ?_
    exact simulation.deliver h (known delivery List.mem_cons_self)

/-- Silent code does the same in both worlds, whoever would carry out its commands. -/
theorem run (simulation : Simulation choose inside R) {α : Type} {act : Act Command α}
    (silent : act.Silent) (perform perform' : Command → Engine Reply) (h : R world other) :
    (Engine.run perform' act other).1 = (Engine.run perform act world).1 ∧
      R (Engine.run perform act world).2 (Engine.run perform' act other).2 := by
  induction act generalizing world other with
  | done result => exact ⟨rfl, h⟩
  | panic message => exact ⟨rfl, h⟩
  | cancel name next ih =>
    rw [Engine.run, Engine.run, Engine.modify_bind_apply, Engine.modify_bind_apply,
      simulation.tokens h]
    refine ih silent ?_
    cases world.tokens.find? name with
    | none => exact h
    | some token =>
      have hsignal := simulation.signal { world.signals with
        cancelled := token.id :: world.signals.cancelled } h
      dsimp only
      unfold World.cancel
      rw [simulation.signals h]
      exact hsignal
  | elapse time next ih =>
    rw [Engine.run, Engine.run, Engine.modify_bind_apply, Engine.modify_bind_apply]
    refine ih silent ?_
    have hsignal := simulation.signal { world.signals with now := world.signals.now + time } h
    unfold World.elapse
    rw [simulation.signals h]
    exact hsignal
  | noteThread next ih =>
    rw [Engine.run, Engine.run, Engine.get_bind_apply, Engine.get_bind_apply,
      Engine.emit_bind_apply, Engine.emit_bind_apply, simulation.thread h]
    exact ih silent (simulation.emit _ h)
  | perform command next ih => exact silent.elim

end Simulation

namespace Resolution

variable {choose : Bool → Bool} {inside : Nat → Prop} {R : World → World → Prop} {layer : Layer}
  {key : Key} {source : Registered} {context : Context} {world other after : World}
  {result : Except Stop Answer}

theorem outcome_follows (simulation : Simulation choose inside R) (known : inside layer.scope.id)
    (key : Key) (source : Registered) (context : Context)
    (invocation : Except ResolutionError Yield) (h : R world other) :
    (outcome (layer.hoisting choose) key source context invocation other).1 =
        (outcome layer key source context invocation world).1 ∧
      R (outcome layer key source context invocation world).2
        (outcome (layer.hoisting choose) key source context invocation other).2 := by
  unfold outcome
  rw [simulation.signals h]
  split
  · exact ⟨rfl, h⟩
  · cases invocation with
    | error error => exact ⟨rfl, h⟩
    | ok yield =>
      cases yield with
      | failed message => exact ⟨rfl, h⟩
      | nil output => exact ⟨rfl, h⟩
      | products products =>
        have hdelivered : R ((deliveries layer.scope source products).foldl World.deliver world)
            ((deliveries layer.scope source products).foldl World.deliver other) := by
          refine simulation.deliverAll (fun delivery hdelivery => ?_) h
          obtain ⟨output, -, -, hsite⟩ := mem_deliveries.mp hdelivery
          exact hsite ▸ known
        have hfilled := simulation.filled (layer.scope.site key) hdelivered known
        have hdeliveries : deliveries (layer.hoisting choose).scope source products =
          deliveries layer.scope source products := rfl
        have hsite : (layer.hoisting choose).scope.site key = layer.scope.site key := rfl
        dsimp only
        rw [hdeliveries, hsite, hfilled]
        split
        · exact ⟨rfl, hdelivered⟩
        · exact ⟨rfl, hdelivered⟩

theorem finish_follows (simulation : Simulation choose inside R) (known : inside layer.scope.id)
    (key : Key) (source : Registered) (context : Context)
    (invocation : Except ResolutionError Yield) (h : R world other) :
    (finish (layer.hoisting choose) key source context invocation other).1 =
        (finish layer key source context invocation world).1 ∧
      R (finish layer key source context invocation world).2
        (finish (layer.hoisting choose) key source context invocation other).2 := by
  obtain ⟨hanswer, hafter⟩ := outcome_follows simulation known key source context invocation h
  refine ⟨hanswer, ?_⟩
  have hreport := simulation.report hafter layer.scope key source
    (outcome layer key source context invocation world).1
  rw [← hanswer] at hreport
  unfold finish
  dsimp only
  rw [← hanswer]
  exact hreport

/-- However a run of silent code ends, it ends so in the other world. -/
theorem Ends.follow {perform : Command → Engine Reply}
    {gathered : Except Stop (Except ResolutionError (List Argument))} {eager cyclic : Bool}
    (ends : Ends perform layer key source context world gathered result after)
    (simulation : Simulation choose inside R) (known : inside layer.scope.id)
    (silent : layer.scope.Silent)
    (slot : layer.scope.slots.find? key = some (.generated source eager cyclic))
    (perform' : Command → Engine Reply) (h : R world other) :
    ∃ last, Ends perform' (layer.hoisting choose) key source context other gathered result last ∧
      R after last := by
  have hrun : other.nextRun (layer.hoisting choose).scope source =
    world.nextRun layer.scope source := simulation.nextRun_eq h known source
  -- What the body comes to in the other world.
  have hbody (arguments : List Argument) := simulation.run
    (silent.bodies key source eager cyclic slot (world.nextRun layer.scope source) arguments)
    perform perform' (simulation.enterBody h known source arguments)
  cases ends with
  | unsupplied => exact ⟨other, .unsupplied, h⟩
  | @refused error =>
    obtain ⟨hanswer, hafter⟩ :=
      finish_follows simulation known key source context (.error error) h
    exact ⟨_, hanswer ▸ .refused, hafter⟩
  | @broken arguments stop _ body =>
    obtain ⟨hresult, hafter⟩ := hbody arguments
    rw [body] at hresult hafter
    exact ⟨_, .broken (Prod.ext (hrun.symm ▸ hresult) rfl), hrun.symm ▸ hafter⟩
  | @returned arguments yield between body =>
    obtain ⟨hresult, hafter⟩ := hbody arguments
    rw [body] at hresult hafter
    have hreturned := simulation.emit (.returned layer.scope.id source.place
      (world.nextRun layer.scope source) yield) hafter
    obtain ⟨hanswer, hlast⟩ :=
      finish_follows simulation known key source context (.ok yield) hreturned
    refine ⟨_, hanswer ▸ ?_, hlast⟩
    rw [← hrun] at hresult ⊢
    exact .returned (Prod.ext hresult rfl)

theorem Binds.follow {perform : Command → Engine Reply} {scope : Scope}
    {binding : Binding} {value : Value}
    (binds : Binds perform scope key binding value world result after)
    (simulation : Simulation choose inside R) (known : inside scope.id) (silent : scope.Silent)
    (interface : scope.bindings.find? key = some binding)
    (perform' : Command → Engine Reply) (h : R world other) :
    ∃ last, Binds perform' (scope.hoisting choose) key binding value other result last ∧
      R after last := by
  have hcall : other.nextCast ((scope.hoisting choose).site key) =
    world.nextCast (scope.site key) := simulation.nextCast_eq h known key
  have hcast := simulation.run
    (silent.casts key binding interface (world.nextCast (scope.site key)) value.payload)
    perform perform' (simulation.enterCast h known key binding value.payload)
  cases binds with
  | mistyped different => exact ⟨other, .mistyped different, h⟩
  | broken typed cast =>
    obtain ⟨hresult, hafter⟩ := hcast
    rw [cast] at hresult hafter
    exact ⟨_, .broken typed (Prod.ext (hcall.symm ▸ hresult) rfl), hcall.symm ▸ hafter⟩
  | @bound payload between typed cast =>
    obtain ⟨hresult, hafter⟩ := hcast
    rw [cast] at hresult hafter
    have hbind := simulation.bindInterface hafter known key binding payload
    have hvalue := simulation.bound (scope.site key) hbind known
    refine ⟨_, ?_, hbind⟩
    rw [← hvalue]
    rw [← hcall] at hresult ⊢
    exact .bound typed (Prod.ext hresult rfl)

/-- The arguments of a run come to the same in both worlds if the inquiries made for them do. -/
theorem Gathers.follow {supplies : List Supply} {inquiries : List Inquiry}
    {gathered : Except Stop (Except ResolutionError (List Argument))}
    (gathers : Gathers layer context supplies inquiries world gathered after)
    (simulation : Simulation choose inside R) (answered : Inquiry → Prop)
    (answers : ∀ inquiry ∈ inquiries, ∀ before, R inquiry.before before →
      ∃ last, answered ⟨inquiry.key, before, inquiry.result, last⟩ ∧ R inquiry.after last)
    (h : R world other) :
    ∃ same last, Gathers (layer.hoisting choose) context supplies same other gathered last ∧
      (∀ inquiry ∈ same, answered inquiry) ∧ R after last := by
  induction gathers generalizing other with
  | done => exact ⟨[], other, .done, by simp, h⟩
  | @given supply rest inquiries world gathered after unasked willing further ih =>
    obtain ⟨same, last, hgathers, hanswered, hlast⟩ := ih answers h
    refine ⟨same, last, ?_, hanswered, hlast⟩
    rw [← simulation.signals h]
    exact .given unasked willing hgathers
  | declined unasked refusal => exact ⟨[], other, .declined unasked refusal, by simp, h⟩
  | stopped asked =>
    obtain ⟨last, hanswered, hlast⟩ := answers _ List.mem_cons_self other h
    exact ⟨_, last, .stopped asked, by simpa using hanswered, hlast⟩
  | refused asked unacceptable =>
    obtain ⟨last, hanswered, hlast⟩ := answers _ List.mem_cons_self other h
    exact ⟨_, last, .refused asked unacceptable, by simpa using hanswered, hlast⟩
  | found asked acceptable further ih =>
    obtain ⟨between, hanswered, hbetween⟩ := answers _ List.mem_cons_self other h
    obtain ⟨same, last, hgathers, hrest, hlast⟩ :=
      ih (fun inquiry hinquiry => answers inquiry (List.mem_cons_of_mem _ hinquiry)) hbetween
    refine ⟨_, last, .found asked acceptable hgathers, ?_, hlast⟩
    intro inquiry hinquiry
    rcases List.mem_cons.mp hinquiry with rfl | hmem
    · exact hanswered
    · exact hrest inquiry hmem

theorem Gathers.stops {supplies : List Supply} {inquiries : List Inquiry}
    {gathered : Except Stop (Except ResolutionError (List Argument))}
    (gathers : Gathers layer context supplies inquiries world gathered after) {stop : Stop}
    (h : ∃ inquiry ∈ inquiries, inquiry.result = .error stop) : gathered = .error stop := by
  induction gathers with
  | done => simp at h
  | given unasked willing further ih => rw [ih h]; rfl
  | declined => simp at h
  | stopped asked => simpa using h
  | refused asked unacceptable => simp at h
  | found asked acceptable further ih =>
    obtain ⟨inquiry, hinquiry, hresult⟩ := h
    rcases List.mem_cons.mp hinquiry with rfl | hmem
    · cases hresult
    · rw [ih ⟨inquiry, hmem, hresult⟩]
      rfl

/-- A request of a layer of silent code is answered the same in the other world. It may have more
nesting left there, unless it was nesting that it ran out of. -/
theorem Resolves.follow {fuel : Nat} {chain : Chain}
    (resolves : Resolves fuel layer key chain context world result after)
    (simulation : Simulation choose inside R) (silent : ∀ scope ∈ layer.ancestry, scope.Silent)
    (known : ∀ scope ∈ layer.ancestry, inside scope.id) (hosts : world.Hosts layer)
    (faithful : world.Faithful) {extra : Nat}
    (finished : extra = 0 ∨ result ≠ .error .outOfFuel) (h : R world other) :
    ∃ last, Resolves (fuel + extra) (layer.hoisting choose) key chain context other result last ∧
      R after last := by
  induction resolves generalizing other with
  | @stored fuel scope outer key chain context world backing value slot present =>
    have hstored := simulation.stored? h (known scope List.mem_cons_self) key backing
    exact ⟨_, .stored slot (hstored.trans present), simulation.emit _ h⟩
  | @exhausted scope outer key chain context world source eager cyclic slot empty =>
    have hempty := simulation.filled (scope.site key) h (known scope List.mem_cons_self)
    rcases finished with rfl | hfinished
    · exact ⟨other, .exhausted slot (hempty.trans empty), h⟩
    · exact absurd rfl hfinished
  | @obstructed fuel scope outer key chain context world source eager cyclic error slot empty
      obstacle =>
    have hempty := simulation.filled (scope.site key) h (known scope List.mem_cons_self)
    rw [← simulation.signals h] at obstacle
    rw [Nat.add_right_comm]
    exact ⟨_, .obstructed slot (hempty.trans empty) obstacle, simulation.obstruct h chain error⟩
  | @blocked fuel scope outer key chain context world source eager cyclic slot empty free locked =>
    have hempty := simulation.filled (scope.site key) h (known scope List.mem_cons_self)
    rw [← simulation.signals h] at free
    rw [← simulation.held h] at locked
    rw [Nat.add_right_comm]
    exact ⟨_, .blocked slot (hempty.trans empty) free locked, simulation.emit _ h⟩
  | @run fuel scope outer key chain context world source inquiries gathered between result after
      starts answers ends ih =>
    obtain ⟨hbefore, -⟩ := starts.hosted World.Faithful answers
      (fun inquiry hinquiry hhosts h => ((answers inquiry hinquiry).faithful hhosts h).1)
      hosts faithful
    obtain ⟨⟨eager, cyclic, slot, free⟩, empty, unlocked, gathers⟩ := starts
    have hknown := known scope List.mem_cons_self
    have hempty := simulation.filled (scope.site key) h hknown
    have hfinished (inquiry : Inquiry) (hinquiry : inquiry ∈ inquiries) :
        extra = 0 ∨ inquiry.result ≠ .error .outOfFuel := by
      refine finished.imp_right fun hresult hstop => hresult ?_
      have hgathered := gathers.stops ⟨inquiry, hinquiry, hstop⟩
      subst hgathered
      cases ends
      rfl
    obtain ⟨same, middle, hgathers, hanswers, hmiddle⟩ := gathers.follow simulation
      (fun inquiry => Resolves (fuel + extra) (Layer.hoisting choose ⟨scope, outer⟩) inquiry.key
        (scope.frame key source :: chain) context inquiry.before inquiry.result inquiry.after)
      (fun inquiry hinquiry before hinquired => ih inquiry hinquiry silent known
        (hbefore inquiry hinquiry).1 (hbefore inquiry hinquiry).2 (hfinished inquiry hinquiry)
        hinquired)
      (simulation.start h chain)
    obtain ⟨last, hends, hlast⟩ := ends.follow simulation hknown (silent scope List.mem_cons_self)
      slot (Session.handler (fuel + extra + 1)) hmiddle
    rw [← simulation.signals h] at free
    rw [← simulation.held h] at unlocked
    rw [Nat.add_right_comm]
    refine ⟨_, .run ⟨⟨eager, cyclic, slot, free⟩, hempty.trans empty, unlocked, hgathers⟩ hanswers
      hends, ?_⟩
    rw [simulation.held h]
    exact simulation.hold _ hlast
  | @bound fuel scope outer key chain context world binding value noSlot interface present =>
    have hbound := simulation.bound (scope.site key) h (known scope List.mem_cons_self)
    exact ⟨other, .bound noSlot interface (hbound.trans present), h⟩
  | @unbacked fuel scope outer key chain context world binding noSlot interface unbound noSource =>
    have hbound := simulation.bound (scope.site key) h (known scope List.mem_cons_self)
    exact ⟨other, .unbacked noSlot interface (hbound.trans unbound) noSource, h⟩
  | @unsourced fuel scope outer key chain context world binding backing result after noSlot
      interface unbound behind answer lost ih =>
    have hbound := simulation.bound (scope.site key) h (known scope List.mem_cons_self)
    obtain ⟨last, hanswer, hlast⟩ := ih silent known hosts faithful finished h
    exact ⟨last, .unsourced noSlot interface (hbound.trans unbound) behind hanswer lost, hlast⟩
  | @cast fuel scope outer key chain context world binding backing value between result after
      noSlot interface unbound behind answer binds ih =>
    have hknown := known scope List.mem_cons_self
    have hbound := simulation.bound (scope.site key) h hknown
    obtain ⟨middle, hanswer, hmiddle⟩ := ih silent known hosts faithful (.inr (by simp)) h
    obtain ⟨last, hbinds, hlast⟩ := binds.follow simulation hknown
      (silent scope List.mem_cons_self) interface (Session.handler (fuel + extra)) hmiddle
    exact ⟨last, .cast noSlot interface (hbound.trans unbound) behind hanswer hbinds, hlast⟩
  | @imported fuel scope outer key chain context world value unowned present =>
    exact simulation.imported _ _ _ h hosts faithful known unowned present
  | @missing fuel scope key chain context world unowned unknown =>
    have hunknown := simulation.unknown h (known scope List.mem_cons_self) unknown
    exact ⟨other, .missing unowned hunknown, h⟩
  | @unavailable fuel scope parent further key chain context world result after unowned unknown
      answer lost ih =>
    have hunknown := simulation.unknown h (known scope List.mem_cons_self) unknown
    obtain ⟨last, hanswer, hlast⟩ := ih (fun inner h => silent inner (List.mem_cons_of_mem _ h))
      (fun inner h => known inner (List.mem_cons_of_mem _ h)) (hosts.delegate _ _ _).parent faithful
      finished (simulation.delegate h parent)
    exact ⟨last, .unavailable unowned hunknown hanswer lost, hlast⟩
  | @delegated fuel scope parent further key chain context world value between unowned unknown
      answer ih =>
    have hunknown := simulation.unknown h (known scope List.mem_cons_self) unknown
    obtain ⟨middle, hanswer, hmiddle⟩ := ih
      (fun inner h => silent inner (List.mem_cons_of_mem _ h))
      (fun inner h => known inner (List.mem_cons_of_mem _ h)) (hosts.delegate _ _ _).parent faithful
      (.inr (by simp)) (simulation.delegate h parent)
    obtain ⟨hhosts, hfaithful, hcell⟩ := answer.delegated_cell unowned hosts faithful
    obtain ⟨hvalue, hlast⟩ := simulation.hoist hmiddle hhosts hfaithful
      (known scope List.mem_cons_self) hcell
    refine ⟨_, ?_, hlast⟩
    rw [← hvalue]
    exact .delegated unowned hunknown hanswer

end Resolution

end LayerGraph
