import LayerGraph.Proofs.Interfaces
import LayerGraph.Proofs.Termination
import LayerGraph.Proofs.Moments

/-! The requests that a request is answered through.

An interface asks its source, a scope asks the next one, and a run asks for one argument after the
other. Whenever an empty slot is found, it has been come to in this way, and the runs in progress are
those on the way. -/

namespace LayerGraph

open Relation

/-- The slot that a request for a type comes down to, with its scope: the owner's slot for the type,
or for the source of the owner's interface. -/
def Layer.target? (layer : Layer) (key : Key) : Option (Scope × Key) :=
  (layer.owner? key).bind fun owner => (owner.target? key).map (owner, ·)

namespace Layer

variable {scope parent : Scope} {outer further : List Scope} {key : Key}

theorem target?_of_slot {backing : Backing} (slot : scope.slots.find? key = some backing) :
    target? ⟨scope, outer⟩ key = some (scope, key) := by
  simp [target?, owner?_of_slot slot, Scope.target?, slot]

theorem target?_of_binding {binding : Binding} {backing : Backing}
    (noSlot : scope.slots.find? key = none) (interface : scope.bindings.find? key = some binding)
    (behind : scope.slots.find? binding.source = some backing) :
    target? ⟨scope, outer⟩ key = target? ⟨scope, outer⟩ binding.source := by
  rw [target?_of_slot behind]
  simp [target?, owner?_of_binding interface, Scope.target?, noSlot, interface]

theorem target?_of_unowned (unowned : scope.owns key = false) :
    target? ⟨scope, parent :: further⟩ key = target? ⟨parent, further⟩ key := by
  simp [target?, owner?_of_unowned unowned]

end Layer

/-- A request for a type of a layer, with the runs in progress, in the world that it is made in. -/
structure Call where
  fuel : Nat
  layer : Layer
  key : Key
  runs : Invocations
  world : World

/-- An attempt to start a generator, with all that had happened before, newest first. -/
structure Attempted where
  site : Site
  chain : Chain
  obstacle : Option ResolutionError
  past : List Event

def Attempted.In (attempt : Attempted) (trace : List Event) : Prop :=
  .attempted attempt.site attempt.chain attempt.obstacle :: attempt.past <:+ trace

namespace Call

open Resolution

/-- One request makes another: an interface asks its source, a scope asks the next one, or a run
asks for an argument after it has found the ones before. -/
inductive Leads (context : Context) : Call → Call → Prop
  | source {fuel scope outer key runs world binding backing}
      (noSlot : scope.slots.find? key = none)
      (interface : scope.bindings.find? key = some binding)
      (unbound : world.memory.bound.find? (scope.site key) = none)
      (behind : scope.slots.find? binding.source = some backing) :
      Leads context ⟨fuel, ⟨scope, outer⟩, key, runs, world⟩
        ⟨fuel, ⟨scope, outer⟩, binding.source, runs, world⟩
  | parent {fuel scope parent further key runs world} (unowned : scope.owns key = false)
      (unknown : world.memory.imported.find? (scope.site key) = none) :
      Leads context ⟨fuel, ⟨scope, parent :: further⟩, key, runs, world⟩
        ⟨fuel, ⟨parent, further⟩, key, runs, world.delegate scope key parent⟩
  | argument {fuel layer key runs world source eager cyclic earlier supply later asked arguments
        before}
      (slot : layer.scope.slots.find? key = some (.generated source eager cyclic))
      (empty : world.memory.filled.find? (layer.scope.site key) = none)
      (free : obstacle? layer key source cyclic runs.chain context world.signals = none)
      (unlocked : ¬ (layer.scope.locks source).any world.held.contains)
      (supplies : source.generator.parameters.map Parameter.supply = earlier ++ supply :: later)
      (asks : supply.key? = some asked)
      (found : fetchAll (Session.resolver fuel) layer
        (Invocations.chain (runAt layer key source runs world :: runs)) context earlier
        (runAt layer key source runs world).begun = (.ok (.ok arguments), before)) :
      Leads context ⟨fuel + 1, layer, key, runs, world⟩
        ⟨fuel, layer, asked, runAt layer key source runs world :: runs, before⟩

structure Meets (context : Context) (call : Call) (attempt : Attempted) : Prop where
  site : attempt.site = call.layer.scope.site call.key
  chain : attempt.chain = call.runs.chain
  past : attempt.past = call.world.trace
  slot : ∃ source eager cyclic,
    call.layer.scope.slots.find? call.key = some (.generated source eager cyclic) ∧
      attempt.obstacle =
        obstacle? call.layer call.key source cyclic call.runs.chain context call.world.signals
  empty : call.world.memory.filled.find? (call.layer.scope.site call.key) = none

def Makes (context : Context) (request : Call) (attempt : Attempted) : Prop :=
  ∃ call, ReflTransGen (Leads context) request call ∧ call.Meets context attempt

theorem Makes.head {context : Context} {request call : Call} {attempt : Attempted}
    (leads : Leads context request call) (makes : call.Makes context attempt) :
    request.Makes context attempt := by
  obtain ⟨last, hpath, hmeets⟩ := makes
  exact ⟨last, .head leads hpath, hmeets⟩

end Call

/-- A run that began below the given ones, of a generator of a layer or of one around it, has found
its first arguments and now asks for a type that comes down to this slot. -/
def Invocation.Fetches (top : Layer) (context : Context) (runs : Invocations) (run : Invocation)
    (scope : Scope) (key : Key) : Prop :=
  ∃ fuel outer earlier supply later asked arguments before,
    run.scope :: outer <:+ top.ancestry ∧
    run.source.generator.parameters.map Parameter.supply = earlier ++ supply :: later ∧
    supply.key? = some asked ∧
    Resolution.fetchAll (Session.resolver fuel) ⟨run.scope, outer⟩ (Invocations.chain (run :: runs))
      context earlier run.begun = (.ok (.ok arguments), before) ∧
    Layer.target? ⟨run.scope, outer⟩ asked = some (scope, key)

/-- The innermost of the runs in progress fetches what comes down to this slot, each other run what
comes down to the slot that the next one is to fill, and the first slot of all is what the type that
a layer was asked for comes down to. -/
def Invocations.Pursue (top : Layer) (requested : Key) (context : Context) :
    Invocations → Scope → Key → Prop
  | [], scope, key => top.target? requested = some (scope, key)
  | run :: runs, scope, key =>
    run.Fetches top context runs scope key ∧ Pursue top requested context runs run.scope run.requested

structure Call.Belongs (top : Layer) (requested : Key) (context : Context) (call : Call) : Prop where
  within : call.layer.ancestry <:+ top.ancestry
  placed : ∀ run ∈ call.runs, run.frame.RunsIn top run.scope run.source
  climbs : call.runs.chain.Climbs top
  pursue : ∀ scope key, call.layer.target? call.key = some (scope, key) →
    call.runs.Pursue top requested context scope key

namespace Call.Belongs

open Resolution

variable {top : Layer} {requested : Key} {context : Context} {call next : Call}

theorem scope_mem (belongs : call.Belongs top requested context) :
    call.layer.scope ∈ top.ancestry :=
  belongs.within.mem List.mem_cons_self

theorem leads (belongs : call.Belongs top requested context) (leads : Leads context call next) :
    next.Belongs top requested context := by
  cases leads with
  | source noSlot interface unbound behind =>
    refine { belongs with pursue := fun scope key h => belongs.pursue scope key ?_ }
    exact (Layer.target?_of_binding noSlot interface behind).trans h
  | parent unowned unknown =>
    refine { belongs with within := (List.suffix_cons _ _).trans belongs.within
                          pursue := fun scope key h => belongs.pursue scope key ?_ }
    exact (Layer.target?_of_unowned unowned).trans h
  | @argument fuel layer key runs world source eager cyclic earlier supply later asked arguments
      before slot empty free unlocked supplies asks found =>
    refine ⟨belongs.within, fun run hrun => ?_, belongs.climbs.push belongs.scope_mem slot
      (unclaimed_of_obstacle?_none free), fun scope other h => ⟨?_, ?_⟩⟩
    · rcases List.mem_cons.mp hrun with rfl | hmem
      · exact ⟨belongs.scope_mem, rfl, ⟨eager, cyclic, slot⟩, rfl⟩
      · exact belongs.placed run hmem
    · exact ⟨fuel, layer.outer, earlier, supply, later, asked, arguments, before, belongs.within,
        supplies, asks, found, h⟩
    · exact belongs.pursue layer.scope key (Layer.target?_of_slot slot)

end Call.Belongs

def Layer.call (fuel : Nat) (layer : Layer) (key : Key) (world : World) : Call :=
  ⟨fuel, layer, key, [], world.emit (.asked (layer.scope.site key))⟩

theorem Layer.belongs_of_path {fuel : Nat} {layer : Layer} {key : Key} {world : World}
    {context : Context} {call : Call}
    (path : ReflTransGen (Call.Leads context) (layer.call fuel key world) call) :
    call.Belongs layer key context := by
  induction path with
  | refl =>
    have hplaced : ∀ run ∈ (layer.call fuel key world).runs,
        run.frame.RunsIn layer run.scope run.source := fun run h => by cases h
    exact ⟨List.suffix_rfl, hplaced, .nil layer, fun scope other h => h⟩
  | tail _ leads ih => exact ih.leads leads

namespace Resolution

variable {layer : Layer} {key : Key} {chain : Chain} {context : Context} {world after : World}

/-- Each inquiry of a run is made when the arguments before it have been found. -/
theorem Gathers.reached {resolve : Resolver} {supplies : List Supply} {inquiries : List Inquiry}
    {gathered : Except Stop (Except ResolutionError (List Argument))}
    (gathers : Gathers layer context supplies inquiries world gathered after)
    (answers : ∀ inquiry ∈ inquiries, resolve layer inquiry.key chain context inquiry.before =
      (inquiry.result, inquiry.after)) :
    ∀ inquiry ∈ inquiries, ∃ earlier supply later arguments,
      supplies = earlier ++ supply :: later ∧ supply.key? = some inquiry.key ∧
        fetchAll resolve layer chain context earlier world =
          (.ok (.ok arguments), inquiry.before) := by
  induction gathers with
  | done => simp
  | @given supply _ _ world _ _ unasked willing further ih =>
    intro inquiry hinquiry
    obtain ⟨earlier, other, later, arguments, rfl, hasked, hfetched⟩ := ih answers inquiry hinquiry
    refine ⟨supply :: earlier, other, later,
      Resolution.given layer (context.standing world.signals) supply :: arguments, rfl, hasked, ?_⟩
    rw [fetchAll_cons, fetch_given unasked willing]
    dsimp only
    rw [hfetched]
    rfl
  | declined => simp
  | stopped asked =>
    intro inquiry hinquiry
    obtain rfl := List.mem_singleton.mp hinquiry
    exact ⟨[], _, _, [], rfl, asked, rfl⟩
  | refused asked unacceptable =>
    intro inquiry hinquiry
    obtain rfl := List.mem_singleton.mp hinquiry
    exact ⟨[], _, _, [], rfl, asked, rfl⟩
  | @found supply rest inquiries key before answer between argument gathered after asked acceptable
      further ih =>
    intro inquiry hinquiry
    rcases List.mem_cons.mp hinquiry with rfl | hmem
    · exact ⟨[], _, _, [], rfl, asked, rfl⟩
    · obtain ⟨earlier, other, later, arguments, rfl, hasked, hfetched⟩ :=
        ih (fun other hother => answers other (List.mem_cons_of_mem _ hother)) inquiry hmem
      refine ⟨supply :: earlier, other, later, argument :: arguments, rfl, hasked, ?_⟩
      rw [fetchAll_cons, fetch_asked asked, answers _ List.mem_cons_self]
      dsimp only [Except.map]
      rw [acceptable]
      dsimp only
      rw [hfetched]

/-- A run makes the inquiries that it is answered. -/
theorem Starts.leads {fuel : Nat} {scope : Scope} {outer : List Scope} {runs : Invocations}
    {source : Registered} {inquiries : List Inquiry} {between : World}
    {gathered : Except Stop (Except ResolutionError (List Argument))}
    (starts : Starts ⟨scope, outer⟩ key runs.chain context world source inquiries gathered between)
    (answers : ∀ inquiry ∈ inquiries,
      Resolves fuel ⟨scope, outer⟩ inquiry.key (scope.frame key source :: runs.chain) context
        inquiry.before inquiry.result inquiry.after) :
    ∀ inquiry ∈ inquiries, Call.Leads context ⟨fuel + 1, ⟨scope, outer⟩, key, runs, world⟩
      ⟨fuel, ⟨scope, outer⟩, inquiry.key, runAt ⟨scope, outer⟩ key source runs world :: runs,
        inquiry.before⟩ := by
  intro inquiry hinquiry
  obtain ⟨eager, cyclic, slot, free⟩ := starts.slot
  obtain ⟨earlier, supply, later, arguments, hsupplies, hasked, hfetched⟩ :=
    starts.gathers.reached (fun other hother => (answers other hother).eq_resolver) inquiry hinquiry
  exact .argument slot starts.empty free starts.unlocked hsupplies hasked hfetched

end Resolution

def Layer.CodeKeeps (layer : Layer) (fuel : Nat) (holds : World → Prop) : Prop :=
  ∀ scope ∈ layer.ancestry, ∀ less ≤ fuel,
    (∀ key source eager cyclic, scope.slots.find? key = some (.generated source eager cyclic) →
      ∀ run arguments, Engine.Keeps (fun world => world.Valid ∧ holds world)
        (Engine.run (Session.handler less) (source.generator.body run arguments))) ∧
    ∀ key binding, scope.bindings.find? key = some binding → ∀ call payload,
      Engine.Keeps (fun world => world.Valid ∧ holds world)
        (Engine.run (Session.handler less) (binding.cast.apply call payload))

namespace Layer.CodeKeeps

variable {layer : Layer} {fuel : Nat} {holds : World → Prop}

theorem of_keeps (keeps : ∀ less ≤ fuel, ∀ {α : Type} (act : Act Command α),
    Engine.Keeps (fun world => world.Valid ∧ holds world)
      (Engine.run (Session.handler less) act)) : layer.CodeKeeps fuel holds :=
  fun _ _ less hless => ⟨fun _ _ _ _ _ _ _ => keeps less hless _, fun _ _ _ _ _ => keeps less hless _⟩

theorem of_silent {plain : Event → Prop} (lasts : World.Lasts plain holds)
    (incidental : ∀ event : Event, event.IsIncidental → plain event)
    (silent : ∀ scope ∈ layer.ancestry, scope.Silent) : layer.CodeKeeps fuel holds := by
  have hkeeps {α : Type} {act : Act Command α} (silent : act.Silent) (less : Nat) :
      Engine.Keeps (fun world => world.Valid ∧ holds world)
        (Engine.run (Session.handler less) act) :=
    silent.keeps (fun h sidesteps => ⟨h.1.sidestep sidesteps, lasts.sidestep h.2 sidesteps⟩)
      fun h hevent => ⟨h.1.emit _, lasts.emit h.2 (incidental _ hevent)⟩
  intro scope hscope less _
  exact ⟨fun key source eager cyclic slot run arguments =>
      hkeeps ((silent scope hscope).bodies key source eager cyclic slot run arguments) less,
    fun key binding interface call payload =>
      hkeeps ((silent scope hscope).casts key binding interface call payload) less⟩

theorem less {other : Nat} (keeps : layer.CodeKeeps fuel holds) (h : other ≤ fuel) :
    layer.CodeKeeps other holds :=
  fun scope hscope less hless => keeps scope hscope less (Nat.le_trans hless h)

theorem parent {scope parent : Scope} {further : List Scope}
    (keeps : CodeKeeps ⟨scope, parent :: further⟩ fuel holds) :
    CodeKeeps ⟨parent, further⟩ fuel holds :=
  fun other hother => keeps other (List.mem_cons_of_mem _ hother)

end Layer.CodeKeeps

def World.Attests (allowed : List Layer → Attempted → Prop) (world : World) : Prop :=
  ∀ attempt : Attempted, attempt.In world.trace → allowed world.built attempt

namespace World.Attests

variable {allowed : List Layer → Attempted → Prop} {world after : World}

theorem initial : World.Attests allowed {} := by
  intro attempt h
  have hnil := List.suffix_nil.mp h
  cases hnil

theorem advance (attests : world.Attests allowed)
    (mono : ∀ built later attempt, built <:+ later → allowed built attempt → allowed later attempt)
    (built : world.built <:+ after.built) (events : List Event)
    (trace : after.trace = events ++ world.trace) (plain : ∀ event ∈ events, event.IsNoAttempt) :
    after.Attests allowed := by
  intro attempt hin
  unfold Attempted.In at hin
  rw [trace] at hin
  obtain ⟨later, hlater⟩ := hin
  rcases split_append hlater.symm with ⟨between, rfl, -⟩ | ⟨between, -, hold⟩
  · exact (plain _ (List.mem_append_right _ List.mem_cons_self)).elim
  · exact mono _ _ _ built (attests attempt ⟨between, hold.symm⟩)

theorem lasts
    (mono : ∀ built later attempt, built <:+ later → allowed built attempt → allowed later attempt) :
    World.Lasts Event.IsNoAttempt (World.Attests allowed) where
  logged _ := trivial
  later attests built _ _ _ events trace _ plain :=
    attests.advance mono (built ▸ List.suffix_rfl) events trace plain

theorem attempt (attests : world.Attests allowed) {site : Site} {chain : Chain}
    {obstacle : Option ResolutionError}
    (h : allowed world.built ⟨site, chain, obstacle, world.trace⟩) :
    (world.emit (.attempted site chain obstacle)).Attests allowed := by
  intro attempt hin
  rcases List.suffix_cons_iff.mp hin with hnew | hold
  · obtain ⟨hevent, hpast⟩ := List.cons.inj hnew
    obtain ⟨site, chain, obstacle, past⟩ := attempt
    obtain ⟨rfl, rfl, rfl⟩ := Event.attempted.inj hevent
    obtain rfl := hpast
    exact h
  · exact attests attempt hold

end World.Attests

namespace Resolution

variable {fuel : Nat} {layer : Layer} {key : Key} {chain : Chain} {context : Context}
  {world after : World} {result : Except Stop Answer}

theorem Resolves.attests_of_keeps {allowed : List Layer → Attempted → Prop} {runs : Invocations}
    (resolves : Resolves fuel layer key chain context world result after)
    (mono : ∀ built later attempt, built <:+ later → allowed built attempt → allowed later attempt)
    (keeps : layer.CodeKeeps fuel (World.Attests allowed)) (hosts : world.Hosts layer)
    (hchain : chain = runs.chain)
    (makes : ∀ built attempt, world.built <:+ built →
      Call.Makes context ⟨fuel, layer, key, runs, world⟩ attempt → allowed built attempt)
    (attests : world.Attests allowed) : after.Attests allowed := by
  have lasts := World.Attests.lasts mono
  induction resolves generalizing runs with
  | stored => exact lasts.log attests _
  | exhausted => exact attests
  | @obstructed fuel scope outer key chain context world source eager cyclic error slot empty
      obstacle =>
    subst hchain
    refine lasts.obstruct (attests.attempt (makes _ _ List.suffix_rfl ?_)) fun _ => trivial
    exact ⟨_, .refl, rfl, rfl, rfl, ⟨source, eager, cyclic, slot, obstacle.symm⟩, empty⟩
  | @blocked fuel scope outer key chain context world source eager cyclic slot empty free locked =>
    subst hchain
    refine attests.attempt (makes _ _ List.suffix_rfl ?_)
    exact ⟨_, .refl, rfl, rfl, rfl, ⟨source, eager, cyclic, slot, free.symm⟩, empty⟩
  | @run fuel scope outer key chain context world source inquiries gathered between result after
      starts answers ends ih =>
    subst hchain
    obtain ⟨eager, cyclic, slot, free⟩ := starts.slot
    have hattempt : allowed world.built ⟨scope.site key, runs.chain, none, world.trace⟩ :=
      makes _ _ List.suffix_rfl
        ⟨_, .refl, rfl, rfl, rfl, ⟨source, eager, cyclic, slot, free.symm⟩, starts.empty⟩
    have hstart : (world.start scope key source runs.chain).Attests allowed :=
      lasts.start (attests.attempt hattempt) fun _ => trivial
    have hleads := starts.leads answers
    have hgrown := starts.gathers.before (fun between => world.built <:+ between.built)
      (fun inquiry hinquiry h => h.trans (answers inquiry hinquiry).grows.built)
      (World.Advances.start world scope key source runs.chain).built
    obtain ⟨-, hhosts, hbetween⟩ := starts.hosted (World.Attests allowed) answers
      (fun inquiry hinquiry hhosts h => ih inquiry hinquiry (keeps.less (Nat.le_succ _)) hhosts
        (show _ = Invocations.chain (runAt ⟨scope, outer⟩ key source runs world :: runs) from rfl)
        (fun built attempt hbuilt hmakes => makes built attempt
          ((hgrown inquiry hinquiry).trans hbuilt) (.head (hleads inquiry hinquiry) hmakes)) h)
      hosts hstart
    have hends := ends.lasting_of_body lasts
      ((keeps scope List.mem_cons_self _ (Nat.le_refl _)).1 key source eager cyclic slot)
      (fun _ _ _ _ _ => trivial) (fun _ _ _ _ => trivial) (fun _ _ => trivial)
      (fun _ _ => trivial) (fun _ _ => trivial) hhosts hbetween
    exact lasts.hold hends _
  | bound => exact attests
  | unbacked => exact attests
  | unsourced noSlot interface unbound behind answer lost ih =>
    exact ih keeps hosts hchain
      (fun built attempt hbuilt hmakes => makes built attempt hbuilt
        (.head (.source noSlot interface unbound behind) hmakes)) attests
  | @cast fuel scope outer key chain context world binding backing value between result after
      noSlot interface unbound behind answer binds ih =>
    have hbetween := ih keeps hosts hchain
      (fun built attempt hbuilt hmakes => makes built attempt hbuilt
        (.head (.source noSlot interface unbound behind) hmakes)) attests
    exact @Binds.lasting_of_cast _ _ _ ⟨scope, outer⟩ _ _ _ _ _ _ lasts
      ((keeps scope List.mem_cons_self _ (Nat.le_refl _)).2 key binding interface)
      (fun _ _ _ _ => trivial) binds noSlot interface (answer.hosts hosts hosts) hbetween
  | imported => exact attests
  | missing => exact attests
  | @unavailable fuel scope parent further key chain context world result after unowned unknown
      answer lost ih =>
    exact ih keeps.parent (hosts.delegate _ _ _).parent hchain
      (fun built attempt hbuilt hmakes => makes built attempt hbuilt
        (.head (.parent unowned unknown) hmakes))
      (lasts.delegate attests scope key parent fun _ => trivial)
  | @delegated fuel scope parent further key chain context world value between unowned unknown
      answer ih =>
    have hbetween := ih keeps.parent (hosts.delegate _ _ _).parent hchain
      (fun built attempt hbuilt hmakes => makes built attempt hbuilt
        (.head (.parent unowned unknown) hmakes))
      (lasts.delegate attests scope key parent fun _ => trivial)
    unfold World.hoist
    split
    · exact hbetween.advance mono List.suffix_rfl [] rfl (by simp)
    · exact hbetween

end Resolution

open Session Resolution

/-- A request from outside makes such attempts only as are allowed of it, if the code that it runs
does. -/
theorem World.Attests.request {allowed : List Layer → Attempted → Prop} {fuel : Nat} {layer : Layer}
    {key : Key} {context : Context} {world : World} (attests : world.Attests allowed)
    (mono : ∀ built later attempt, built <:+ later → allowed built attempt → allowed later attempt)
    (keeps : layer.CodeKeeps fuel (World.Attests allowed)) (hosts : world.Hosts layer)
    (makes : ∀ built attempt, world.built <:+ built →
      (layer.call fuel key world).Makes context attempt → allowed built attempt) :
    (layer.request (resolver fuel) key context world).2.Attests allowed := by
  have lasts := World.Attests.lasts mono
  have hasked : (world.emit (.asked (layer.scope.site key))).Attests allowed :=
    lasts.emit attests trivial
  have hafter := (resolver_resolves fuel layer key [] context _).attests_of_keeps mono keeps
    (hosts.emit _) (show [] = Invocations.chain [] from rfl) makes hasked
  rw [Layer.request_world]
  exact lasts.conclude hafter layer key _ (fun _ _ => trivial) fun _ _ => trivial

/-- If no code gives commands, all attempts during a request are made on its way. -/
theorem Layer.request_attempts {fuel : Nat} {layer : Layer} {key : Key} {context : Context}
    {world : World} (hosts : world.Hosts layer) (silent : ∀ scope ∈ layer.ancestry, scope.Silent)
    {attempt : Attempted}
    (h : attempt.In (layer.request (resolver fuel) key context world).2.trace) :
    attempt.In world.trace ∨ (layer.call fuel key world).Makes context attempt := by
  let allowed (_ : List Layer) (attempt : Attempted) : Prop :=
    attempt.In world.trace ∨ (layer.call fuel key world).Makes context attempt
  have mono : ∀ built later attempt, built <:+ later → allowed built attempt →
      allowed later attempt := fun _ _ _ _ h => h
  have hattests : world.Attests allowed := fun attempt h => .inl h
  exact hattests.request mono
    (.of_silent (World.Attests.lasts mono) (fun _ hevent => hevent.isNoAttempt) silent) hosts
    (fun _ _ _ hmakes => .inr hmakes) attempt h

/-- The attempt was made on the way of a request from outside, whoever made that one. -/
def Attempted.Stems (attempt : Attempted) (built : List Layer) : Prop :=
  ∃ layer ∈ built, ∃ fuel key world context, (layer.call fuel key world).Makes context attempt

/-- Every attempt is made on the way of a request, whatever commands are given. -/
theorem World.Attests.invariant :
    Invariant fun world => world.Valid ∧ world.Attests fun built attempt => attempt.Stems built := by
  have mono : ∀ (built later : List Layer) (attempt : Attempted), built <:+ later →
      attempt.Stems built → attempt.Stems later := by
    intro built later attempt hbuilt h
    obtain ⟨layer, hlayer, hrest⟩ := h
    exact ⟨layer, hbuilt.mem hlayer, hrest⟩
  refine (World.Attests.lasts mono).invariant (fun _ hevent => hevent.isNoAttempt) ?_ ?_
  · exact fun _ attests _ _ => attests.advance mono (List.suffix_cons _ _) [] rfl (by simp)
  · intro fuel keeps layer key context world hosts attests
    exact attests.request mono (.of_keeps keeps) hosts fun built attempt hbuilt hmakes =>
      ⟨layer, hbuilt.mem hosts.2, fuel, key, world, context, hmakes⟩

theorem Session.Reachable.stems {world : World} (reachable : Reachable world) {attempt : Attempted}
    (h : attempt.In world.trace) : attempt.Stems world.built :=
  (reachable.keeps World.Attests.invariant ⟨.initial, .initial⟩).2 attempt h

end LayerGraph
