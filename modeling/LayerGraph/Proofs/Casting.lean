import LayerGraph.Proofs.Bracketing
import LayerGraph.Proofs.Interfaces

/-! When the cast of an interface is applied, and what becomes of its result.

A cast is applied to the value of its source once that has been found, and only as long as the
interface has no value. What the interface gets is the result of an application. -/

namespace LayerGraph

/-- The beginning of an application of a cast, with all that had happened before, newest first. -/
structure Applied where
  site : Site
  tag : String
  call : Nat
  payload : String
  past : List Event

def Applied.events (applied : Applied) : List Event :=
  .casted applied.site applied.tag applied.call applied.payload :: applied.past

def Applied.In (applied : Applied) (trace : List Event) : Prop := applied.events <:+ trace

def Event.IsNoCast : Event → Prop
  | .casted .. => False
  | _ => True

theorem Event.IsIncidental.isNoCast {event : Event} (h : event.IsIncidental) : event.IsNoCast := by
  cases event <;> trivial

namespace Applied

variable {applied : Applied} {events trace later : List Event}

theorem In.before_or_after (h : applied.In later) (earlier : trace <:+ later) :
    applied.In trace ∨ trace <:+ applied.past := by
  rcases List.suffix_or_suffix_of_suffix h earlier with hin | hlater
  · exact .inl hin
  · rcases List.suffix_cons_iff.mp hlater with heq | hpast
    · exact .inl (heq ▸ List.suffix_rfl)
    · exact .inr hpast

theorem In.not_past (h : applied.In trace) : ¬ trace <:+ applied.past := by
  intro hpast
  have hlonger := h.length_le
  have hshorter := hpast.length_le
  rw [Applied.events, List.length_cons] at hlonger
  omega

theorem In.of_append (h : applied.In (events ++ trace)) (plain : ∀ event ∈ events, event.IsNoCast) :
    applied.In trace := by
  obtain ⟨newer, hnewer⟩ := h
  rcases split_append hnewer.symm with ⟨between, rfl, -⟩ | ⟨between, -, htrace⟩
  · exact (plain _ (List.mem_append_right _ List.mem_cons_self)).elim
  · exact ⟨between, htrace.symm⟩

end Applied

/-- The cast is the one of an interface of these layers. The slot of its source has got a value of
its type before, and the cast is applied to that. -/
def Applied.Follows (applied : Applied) (built : List Layer) : Prop :=
  ∃ layer ∈ built, ∃ key binding backing held, applied.site = layer.scope.site key ∧
    layer.scope.bindings.find? key = some binding ∧ applied.tag = binding.cast.tag ∧
    layer.scope.slots.find? binding.source = some backing ∧
    (backing = .value held ∨ .filled (layer.scope.site binding.source) held ∈ applied.past) ∧
    held.type = binding.source ∧ applied.payload = held.payload

theorem Applied.Follows.mono {applied : Applied} {built more : List Layer}
    (follows : applied.Follows built) (h : built ⊆ more) : applied.Follows more := by
  obtain ⟨layer, known, rest⟩ := follows
  exact ⟨layer, h known, rest⟩

theorem World.Advances.unbound {before after : World} {site : Site}
    (advances : before.Advances after) (unbound : after.memory.bound.find? site = none) :
    before.memory.bound.find? site = none := by
  cases hbound : before.memory.bound.find? site with
  | none => rfl
  | some value => cases (advances.memory.bound site value hbound).symm.trans unbound

structure Query where
  fuel : Nat
  layer : Layer
  key : Key
  chain : Chain
  context : Context
  before : World
  result : Except Stop Answer
  after : World

def Query.site (query : Query) : Site := query.layer.scope.site query.key

def Query.Occurs (query : Query) : Prop :=
  Resolution.Resolves query.fuel query.layer query.key query.chain query.context query.before
    query.result query.after

structure World.Steady (world : World) : Prop where
  backed : world.Backed
  regular : world.Regular

/-- An application of the cast of an interface to the value of its source, on a request for the
interface. It takes from the world in which the cast begins to the one in which it has come to its
end or stops. -/
structure Application where
  query : Query
  binding : Binding
  held : Value
  call : Nat
  begun : World
  outcome : Except Stop String
  ended : World

namespace Application

def site (application : Application) : Site := application.query.site

/-- While the application is in progress, its own interface is requested. -/
def Reenters (application : Application) : Prop :=
  ∃ query : Query, query.Occurs ∧ query.layer = application.query.layer ∧
    query.key = application.query.key ∧ application.begun.Advances query.before ∧
    query.after.Advances application.ended

def Panics (application : Application) : Prop :=
  ∃ message, application.outcome = .error (.panic message)

/-- The application is made while the interface has no value. The slot of the source has one, of its
type, and the cast runs on the payload of that. -/
structure Runs (application : Application) : Prop where
  ready : application.begun.Valid ∧ application.begun.Steady
  occurs : application.query.Occurs
  noSlot : application.query.layer.scope.slots.find? application.query.key = none
  interface : application.query.layer.scope.bindings.find? application.query.key =
    some application.binding
  stored : ∃ backing,
    application.query.layer.scope.slots.find? application.binding.source = some backing ∧
    application.begun.memory.stored?
      (application.query.layer.scope.site application.binding.source) backing =
        some application.held
  typed : application.held.type = application.binding.source
  unbound : application.begun.memory.bound.find? application.site = none
  told : ∃ past, application.begun.trace = .casted application.site application.binding.cast.tag
    application.call application.held.payload :: past
  run : Engine.run (Session.handler application.query.fuel)
    (application.binding.cast.apply application.call application.held.payload) application.begun =
      (application.outcome, application.ended)
  entered : application.query.before.Advances application.begun
  left : application.ended.Advances application.query.after

structure In (application : Application) (world : World) : Prop where
  known : application.query.layer ∈ world.built
  done : application.query.after.Advances world

theorem In.later {application : Application} {world after : World} (h : application.In world)
    (advances : world.Advances after) : application.In after :=
  ⟨advances.built.mem h.known, h.done.trans advances⟩

end Application

namespace World

def Made (world : World) (past : List Event) (site : Site) (value : Value) : Prop :=
  ∃ (application : Application) (payload : String), application.Runs ∧ application.In world ∧
    application.site = site ∧ application.outcome = .ok payload ∧
    value = ⟨application.query.key, payload⟩ ∧ past <:+ application.begun.trace.tail

theorem Made.later {world after : World} {past : List Event} {site : Site} {value : Value}
    (made : world.Made past site value) (advances : world.Advances after) :
    after.Made past site value := by
  obtain ⟨application, payload, runs, inside, rest⟩ := made
  exact ⟨application, payload, runs, inside.later advances, rest⟩

theorem Made.since {world : World} {past earlier : List Event} {site : Site} {value : Value}
    (made : world.Made past site value) (h : earlier <:+ past) : world.Made earlier site value := by
  obtain ⟨application, payload, runs, inside, site, result, same, since⟩ := made
  exact ⟨application, payload, runs, inside, site, result, same, h.trans since⟩

structure Refrains (before after : World) : Prop where
  advances : before.Advances after
  bound : after.memory.bound = before.memory.bound
  trace : ∃ events, after.trace = events ++ before.trace ∧ ∀ event ∈ events, event.IsNoCast

namespace Refrains

variable {world between after : World} {scope : Scope} {key : Key} {source : Registered}

theorem refl (world : World) : world.Refrains world := ⟨.refl _, rfl, [], rfl, by simp⟩

theorem trans (hfirst : world.Refrains between) (hsecond : between.Refrains after) :
    world.Refrains after := by
  obtain ⟨earlier, hearlier, hplain⟩ := hfirst.trace
  obtain ⟨later, hlater, hplain'⟩ := hsecond.trace
  refine ⟨hfirst.advances.trans hsecond.advances, hsecond.bound.trans hfirst.bound,
    later ++ earlier, by rw [hlater, hearlier, List.append_assoc], fun event hevent => ?_⟩
  exact (List.mem_append.mp hevent).elim (hplain' event) (hplain event)

theorem emit (world : World) {event : Event} (plain : event.IsNoCast) :
    world.Refrains (world.emit event) :=
  ⟨.emit _ _, rfl, [event], rfl, by simpa using plain⟩

theorem noticed (world : World) (scope : Scope) (notice : Notice) :
    world.Refrains (world.emitAll (scope.observers.map (Event.noticed · notice))) := by
  refine ⟨.emitAll _ _, rfl, _, rfl, fun event hevent => ?_⟩
  obtain ⟨observer, -, rfl⟩ := List.mem_map.mp (List.mem_reverse.mp hevent)
  trivial

theorem hold (world : World) (held : List Site) : world.Refrains { world with held } :=
  ⟨.hold _ _, rfl, [], rfl, by simp⟩

theorem sidestep (sidesteps : world.Sidesteps after) : world.Refrains after :=
  ⟨.sidestep sidesteps, by rw [sidesteps.memory], [], sidesteps.trace, by simp⟩

theorem name (world : World) (name : String) (layer : Layer) :
    world.Refrains { world with layers := world.layers.set name layer } :=
  ⟨{ Advances.refl _ with }, rfl, [], rfl, by simp⟩

theorem enter (world : World) (layer : Layer) : world.Refrains (world.enter layer) :=
  ⟨.enter _ _, rfl, [], rfl, by simp⟩

theorem start (world : World) (scope : Scope) (key : Key) (source : Registered) (chain : Chain) :
    world.Refrains (world.start scope key source chain) :=
  (((emit _ (by trivial)).trans (hold _ _)).trans (noticed _ scope _)).trans (emit _ (by trivial))

theorem obstruct (world : World) (scope : Scope) (key : Key) (source : Registered) (chain : Chain)
    (error : ResolutionError) : world.Refrains (world.obstruct scope key source chain error) :=
  (emit _ (by trivial)).trans (noticed _ scope _)

theorem delegate (world : World) (scope : Scope) (key : Key) (parent : Scope) :
    world.Refrains (world.delegate scope key parent) :=
  (noticed _ scope _).trans (emit _ (by trivial))

theorem enterBody (world : World) (scope : Scope) (source : Registered)
    (arguments : List Argument) : world.Refrains (world.enterBody scope source arguments) :=
  ⟨(Grows.enterBody _ _ _ _).toAdvances, rfl, [_], rfl, by simp [Event.IsNoCast]⟩

theorem deliver (world : World) (delivery : Site × Value) :
    world.Refrains (world.deliver delivery) := by
  have advances := Advances.deliver world delivery
  unfold World.deliver at advances ⊢
  split
  · exact emit _ (by trivial)
  · next h =>
    rw [if_neg h] at advances
    exact ⟨advances, rfl, [_], rfl, by simp [Event.IsNoCast]⟩

theorem report (world : World) (scope : Scope) (key : Key) (source : Registered)
    (answer : Answer) : world.Refrains (world.report scope key source answer) := by
  cases answer <;> exact (emit _ (by trivial)).trans (noticed _ scope _)

theorem finish (world : World) (layer : Layer) (key : Key) (source : Registered)
    (context : Context) (result : Except ResolutionError Yield) :
    world.Refrains (Resolution.finish layer key source context result world).2 :=
  Resolution.finish_keeps world.Refrains (fun _ _ delivery _ _ h => h.trans (deliver _ delivery))
    (fun answer _ h => h.trans (report _ _ _ _ answer)) (refl world)

theorem hoist (world : World) (scope : Scope) (key : Key) (value : Value) :
    world.Refrains (world.hoist scope key value) := by
  have advances := (Grows.hoist world scope key value).toAdvances
  unfold World.hoist at advances ⊢
  split
  · next h =>
    rw [if_pos h] at advances
    exact ⟨advances, rfl, [], rfl, by simp⟩
  · exact refl world

theorem conclude (world : World) (layer : Layer) (key : Key) (result : Except Stop Answer) :
    world.Refrains (world.conclude layer key result) := by
  rcases result with stop | (error | value)
  · exact refl world
  · exact (emit _ (by trivial)).trans (emit _ (by trivial))
  · exact emit _ (by trivial)

theorem not_past (refrains : world.Refrains after) {applied : Applied}
    (hin : applied.In after.trace) : ¬ world.trace <:+ applied.past := by
  obtain ⟨events, trace, plain⟩ := refrains.trace
  rw [trace] at hin
  exact (hin.of_append plain).not_past

end Refrains

/-- From the one world to the other, casts have been applied only for interfaces without a value, to
what their sources had got, and what interfaces have got is what came of that. -/
structure Applies (before after : World) : Prop where
  advances : before.Advances after
  fresh : ∀ applied : Applied, applied.In after.trace → before.trace <:+ applied.past →
    before.memory.bound.find? applied.site = none
  follows : ∀ applied : Applied, applied.In after.trace → before.trace <:+ applied.past →
    applied.Follows after.built
  made : ∀ site value, after.memory.bound.find? site = some value →
    before.memory.bound.find? site = some value ∨ after.Made before.trace site value

namespace Applies

variable {before world between after : World} {site : Site}

theorem of_refrains (refrains : world.Refrains after) : world.Applies after where
  advances := refrains.advances
  fresh _ hin hpast := absurd hpast (refrains.not_past hin)
  follows _ hin hpast := absurd hpast (refrains.not_past hin)
  made _ _ h := .inl (refrains.bound ▸ h)

theorem refl (world : World) : world.Applies world := of_refrains (.refl world)

theorem trans (hfirst : before.Applies between) (hsecond : between.Applies after) :
    before.Applies after := by
  refine ⟨hfirst.advances.trans hsecond.advances, fun applied hin hpast => ?_,
    fun applied hin hpast => ?_, fun site value h => ?_⟩
  · rcases hin.before_or_after hsecond.advances.trace with hearlier | hlater
    · exact hfirst.fresh applied hearlier hpast
    · exact hfirst.advances.unbound (hsecond.fresh applied hin hlater)
  · rcases hin.before_or_after hsecond.advances.trace with hearlier | hlater
    · exact (hfirst.follows applied hearlier hpast).mono hsecond.advances.built.subset
    · exact hsecond.follows applied hin hlater
  · rcases hsecond.made site value h with hbetween | hmade
    · exact (hfirst.made site value hbetween).imp_right (·.later hsecond.advances)
    · exact .inr (hmade.since hfirst.advances.trace)

theorem enterCast {binding : Binding} {payload : String}
    (unbound : world.memory.bound.find? site = none)
    (follows : ∀ call,
      Applied.Follows ⟨site, binding.cast.tag, call, payload, world.trace⟩ world.built) :
    world.Applies (world.enterCast site binding payload) := by
  have hown (applied : Applied) (hin : applied.In (world.enterCast site binding payload).trace)
      (hpast : world.trace <:+ applied.past) :
      applied = ⟨site, binding.cast.tag, world.nextCast site, payload, world.trace⟩ := by
    rcases List.suffix_cons_iff.mp hin with hown | hold
    · obtain ⟨hevent, hpast⟩ := List.cons.inj hown
      obtain ⟨hsite, htag, hcall, hpayload⟩ := Event.casted.inj hevent
      cases applied
      simp_all
    · have hold : applied.In world.trace := hold
      exact absurd hpast hold.not_past
  refine ⟨(Grows.enterCast _ _ _ _).toAdvances, fun applied hin hpast => ?_,
    fun applied hin hpast => ?_, fun _ _ h => .inl h⟩
  · rw [hown applied hin hpast]
    exact unbound
  · rw [hown applied hin hpast]
    exact follows _

theorem bind {scope : Scope} {key : Key} {binding : Binding} {payload : String}
    (applies : before.Applies world)
    (made : (world.bind scope key binding payload).Made before.trace (scope.site key)
      ⟨key, payload⟩) : before.Applies (world.bind scope key binding payload) := by
  have hquiet : Event.IsNoCast (.logged (.interfaceBound scope.id key binding.source)) := trivial
  have hlogged := applies.trans (of_refrains (.emit world hquiet))
  have hbind : world.Advances (world.bind scope key binding payload) :=
    (Grows.bind _ _ _ _ _).toAdvances
  refine ⟨applies.advances.trans hbind, hlogged.fresh, hlogged.follows, fun site value h => ?_⟩
  replace h : (world.memory.bound.add (scope.site key) ⟨key, payload⟩).find? site = some value := h
  have hold (h : world.memory.bound.find? site = some value) :=
    (applies.made site value h).imp_right (·.later hbind)
  rw [Table.find?_add] at h
  split at h
  · next hsite =>
    subst hsite
    cases hother : world.memory.bound.find? (scope.site key) with
    | some other =>
      rw [hother] at h
      exact hold (hother.trans h)
    | none =>
      rw [hother] at h
      obtain rfl := Option.some.inj h
      exact .inr made
  · exact hold h

theorem made_of (applies : before.Applies after)
    (h : ∀ site value, before.memory.bound.find? site = some value → before.Made [] site value)
    {site : Site} {value : Value} (hbound : after.memory.bound.find? site = some value) :
    after.Made [] site value :=
  (applies.made site value hbound).elim
    (fun hbefore => (h site value hbefore).later applies.advances) (·.since (List.nil_suffix))

end Applies

end World

theorem World.Backed.unbound {world : World} {layer : Layer} {key : Key} {binding : Binding}
    {backing : Backing} (backed : world.Backed) (known : layer ∈ world.built)
    (interface : layer.scope.bindings.find? key = some binding)
    (behind : layer.scope.slots.find? binding.source = some backing)
    (other : ∀ value,
      world.memory.stored? (layer.scope.site binding.source) backing = some value →
        value.type ≠ binding.source) :
    world.memory.bound.find? (layer.scope.site key) = none := by
  refine Option.eq_none_iff_forall_ne_some.mpr fun value hbound => ?_
  obtain ⟨-, binding', interface', stores⟩ := backed.bound layer known key value hbound
  obtain rfl := Option.some.inj (interface'.symm.trans interface)
  obtain ⟨held, stored, typed⟩ := (Scope.stores_iff behind).mp stores
  exact other held stored typed

namespace Resolution

open World

variable {fuel : Nat} {layer : Layer} {scope : Scope} {outer : List Scope} {key : Key}
  {source : Registered} {binding : Binding} {chain : Chain} {context : Context}
  {world between after : World} {result : Except Stop Answer}

theorem finish_bound (invocation : Except ResolutionError Yield) (world : World) :
    (finish layer key source context invocation world).2.memory.bound = world.memory.bound := by
  refine finish_keeps (fun after => after.memory.bound = world.memory.bound)
    (fun _ _ delivery _ after h => ?_) (fun answer after h => ?_) rfl
  · unfold World.deliver
    split <;> exact h
  · rw [report_memory]
    exact h

/-- As long as the slot of its source is locked and empty, an interface gets no value, whatever the
run of the generator behind that slot does. -/
theorem Ends.unbound {gathered : Except Stop (Except ResolutionError (List Argument))}
    {eager cyclic : Bool} (ends : Ends (Session.handler fuel) layer binding.source source context
      world gathered result after)
    (interface : layer.scope.bindings.find? key = some binding)
    (behind : layer.scope.slots.find? binding.source = some (.generated source eager cyclic))
    (hosts : world.Hosts layer) (backed : world.Backed)
    (locked : layer.scope.site binding.source ∈ world.held)
    (empty : world.memory.filled.find? (layer.scope.site binding.source) = none) :
    after.memory.bound.find? (layer.scope.site key) = none := by
  have hunbound {between : World} (backed : between.Backed) (known : layer ∈ between.built)
      (empty : between.memory.filled.find? (layer.scope.site binding.source) = none) :
      between.memory.bound.find? (layer.scope.site key) = none :=
    backed.unbound known interface behind fun value stored => nomatch empty.symm.trans stored
  have hbody (arguments : List Argument) : (Engine.run (Session.handler fuel)
      (source.generator.body (world.nextRun layer.scope source) arguments)
      (world.enterBody layer.scope source arguments)).2.memory.bound.find?
        (layer.scope.site key) = none := by
    have hgrows := run_grows (Session.handler_grows fuel)
      (source.generator.body (world.nextRun layer.scope source) arguments)
      (world.enterBody layer.scope source arguments)
    have hbacked := Backed.outside (Backed.invariant.handler fuel)
      (source.generator.body (world.nextRun layer.scope source) arguments)
      (world.enterBody layer.scope source arguments)
      ⟨(hosts.enterBody arguments).1, backed.of_same rfl (.refl _) rfl rfl⟩
    exact hunbound hbacked.2 (hgrows.built.mem hosts.2) ((hgrows.locked _ locked).trans empty)
  cases ends with
  | unsupplied => exact hunbound backed hosts.2 empty
  | refused =>
    rw [finish_bound]
    exact hunbound backed hosts.2 empty
  | @broken arguments stop last body =>
    have hlast := hbody arguments
    rwa [body] at hlast
  | @returned arguments yield last body =>
    rw [finish_bound]
    have hlast := hbody arguments
    rwa [body] at hlast

/-- To look for its source does not give an interface a value. -/
theorem Resolves.unbound {backing : Backing}
    (resolves : Resolves fuel layer binding.source chain context world result after)
    (interface : layer.scope.bindings.find? key = some binding)
    (behind : layer.scope.slots.find? binding.source = some backing) (hosts : world.Hosts layer)
    (backed : world.Backed) (unbound : world.memory.bound.find? (layer.scope.site key) = none) :
    after.memory.bound.find? (layer.scope.site key) = none := by
  generalize hsource : binding.source = requested at resolves
  cases resolves with
  | stored | exhausted | obstructed | blocked => exact unbound
  | @run fuel scope outer key' chain context world source inquiries gathered between result after
      starts answers ends =>
    subst hsource
    obtain ⟨eager, cyclic, slot, -⟩ := starts.slot
    obtain ⟨hlocked, hempty⟩ := starts.pending answers hosts
    obtain ⟨-, hhosts, hbetween⟩ := starts.hosted Backed answers
      (fun inquiry hinquiry hosts h => (answers inquiry hinquiry).backed hosts h) hosts
      (backed.of_same rfl (.refl _) rfl rfl)
    exact ends.unbound interface slot hhosts hbetween hlocked hempty
  | bound noSlot | unbacked noSlot | unsourced noSlot | cast noSlot =>
    subst hsource
    cases noSlot.symm.trans behind
  | imported unowned | missing unowned | unavailable unowned | delegated unowned =>
    subst hsource
    cases (Scope.owns_eq_false_iff.mp unowned).1.symm.trans behind

end Resolution

namespace World.Steady

variable {world after : World} {layer : Layer}

theorem emit (steady : world.Steady) {event : Event} (idle : event.IsIdle) :
    (world.emit event).Steady :=
  ⟨steady.backed.emit _, Regular.lasts.emit steady.regular idle⟩

theorem sidestep (steady : world.Steady) (sidesteps : world.Sidesteps after) : after.Steady :=
  ⟨steady.backed.sidestep sidesteps, Regular.lasts.sidestep steady.regular sidesteps⟩

theorem start (steady : world.Steady) (key : Key) (source : Registered) (chain : Chain) :
    (world.start layer.scope key source chain).Steady :=
  ⟨steady.backed.of_same rfl (.refl _) rfl rfl, steady.regular.start⟩

theorem enterCast (steady : world.Steady) (site : Site) (binding : Binding) (payload : String) :
    (world.enterCast site binding payload).Steady :=
  ⟨steady.backed.of_same rfl (.refl _) rfl rfl,
    Regular.lasts.enterCast steady.regular fun _ => trivial⟩

theorem name (steady : world.Steady) (layer : Layer) (name : String) :
    World.Steady { world with layers := world.layers.set name layer } :=
  ⟨steady.backed.of_same rfl (.refl _) rfl rfl, Regular.lasts.name steady.regular name layer⟩

theorem delegate (steady : world.Steady) (scope : Scope) (key : Key) (parent : Scope) :
    (world.delegate scope key parent).Steady :=
  ⟨steady.backed.of_same rfl (.refl _) rfl rfl,
    Regular.lasts.delegate steady.regular scope key parent fun _ => trivial⟩

end World.Steady

theorem Resolution.Resolves.steady {fuel : Nat} {layer : Layer} {key : Key} {chain : Chain}
    {context : Context} {world after : World} {result : Except Stop Answer}
    (resolves : Resolves fuel layer key chain context world result after)
    (hosts : world.Hosts layer) (steady : world.Steady) : after.Steady :=
  ⟨resolves.backed hosts steady.backed, resolves.regular hosts steady.regular⟩

theorem World.Steady.invariant : Session.Invariant fun world => world.Valid ∧ world.Steady := by
  have backed := World.Backed.invariant
  have regular := World.Regular.invariant
  refine .of_valid (fun steady sidesteps => steady.sidestep sidesteps)
    (fun steady incidental => steady.emit incidental.isIdle)
    (fun name steady known => steady.name _ name)
    (fun valid steady parent assembled => ⟨(backed.enter ⟨valid, steady.backed⟩ parent assembled).2,
      (regular.enter ⟨valid, steady.regular⟩ parent assembled).2⟩) ?_
  intro fuel _ layer key context world hosts steady
  exact ⟨(backed.request (fun less _ => backed.handler less) key context hosts.2
      ⟨hosts.1, steady.backed⟩).2,
    (regular.request (fun less _ => regular.handler less) key context hosts.2
      ⟨hosts.1, steady.regular⟩).2⟩

theorem Session.Reachable.steady {world : World} (reachable : Reachable world) : world.Steady :=
  ⟨reachable.backed, reachable.regular⟩

namespace Resolution

open World

variable {fuel : Nat} {layer : Layer} {scope : Scope} {outer : List Scope} {key : Key}
  {source : Registered} {binding : Binding} {chain : Chain} {context : Context}
  {world between after : World} {result : Except Stop Answer}

theorem Starts.steady_body {inquiries : List Inquiry} {arguments : List Argument}
    (starts : Starts layer key chain context world source inquiries (.ok (.ok arguments)) between)
    (answers : ∀ inquiry ∈ inquiries,
      Resolves fuel layer inquiry.key (layer.scope.frame key source :: chain) context
        inquiry.before inquiry.result inquiry.after)
    (hosts : world.Hosts layer) (steady : world.Steady) :
    (between.enterBody layer.scope source arguments).Valid ∧
      (between.enterBody layer.scope source arguments).Steady := by
  obtain ⟨-, hhosts, hbetween⟩ := starts.hosted Steady answers
    (fun inquiry hinquiry => (answers inquiry hinquiry).steady) hosts (steady.start _ _ _)
  exact ⟨(hhosts.enterBody arguments).1, hbetween.backed.of_same rfl (.refl _) rfl rfl,
    starts.regular_body answers hosts steady.regular⟩

theorem keeps_applies {start : World} {α : Type} {perform : Command → Engine Reply}
    (h : ∀ command, Engine.Keeps (fun world => world.Valid ∧ (world.Steady ∧ start.Applies world))
      (perform command)) (act : Act Command α) :
    Engine.Keeps (fun world => world.Valid ∧ (world.Steady ∧ start.Applies world))
      (Engine.run perform act) := by
  refine .outside ?_ ?_ h act
  · exact fun h sidesteps => ⟨h.1.sidestep sidesteps, h.2.1.sidestep sidesteps,
      h.2.2.trans (.of_refrains (.sidestep sidesteps))⟩
  · exact fun h incidental => ⟨h.1.emit _, h.2.1.emit incidental.isIdle,
      h.2.2.trans (.of_refrains (.emit _ incidental.isNoCast))⟩

/-- However a run ends, casts are applied only in its body. -/
theorem Ends.applies {start : World}
    {gathered : Except Stop (Except ResolutionError (List Argument))}
    (keeps : ∀ {α : Type} (act : Act Command α),
      Engine.Keeps (fun world => world.Valid ∧ (world.Steady ∧ start.Applies world))
        (Engine.run (Session.handler fuel) act))
    (ends : Ends (Session.handler fuel) layer key source context world gathered result after)
    (entered : ∀ arguments, gathered = .ok (.ok arguments) →
      (world.enterBody layer.scope source arguments).Valid ∧
        (world.enterBody layer.scope source arguments).Steady)
    (applies : start.Applies world) : start.Applies after := by
  have hbody {arguments : List Argument} {yield : Except Stop Yield} {last : World}
      (body : Engine.run (Session.handler fuel)
        (source.generator.body (world.nextRun layer.scope source) arguments)
        (world.enterBody layer.scope source arguments) = (yield, last))
      (hgathered : gathered = .ok (.ok arguments)) : start.Applies last := by
    obtain ⟨hvalid, hsteady⟩ := entered arguments hgathered
    have hlast := keeps (source.generator.body (world.nextRun layer.scope source) arguments)
      (world.enterBody layer.scope source arguments)
      ⟨hvalid, hsteady, applies.trans (.of_refrains (.enterBody _ _ _ _))⟩
    rw [body] at hlast
    exact hlast.2.2
  cases ends with
  | unsupplied => exact applies
  | refused => exact applies.trans (.of_refrains (.finish _ _ _ _ _ _))
  | broken body => exact hbody body rfl
  | returned body =>
    exact (hbody body rfl).trans
      (.of_refrains ((Refrains.emit _ (by trivial)).trans (.finish _ _ _ _ _ _)))

section Cast

variable {backing : Backing} {value : Value} {outcome : Except Stop String} {last : World}

theorem Resolves.enters_cast
    (answer : Resolves fuel ⟨scope, outer⟩ binding.source chain context world (.ok (.ok value))
      between) (interface : scope.bindings.find? key = some binding)
    (unbound : world.memory.bound.find? (scope.site key) = none)
    (behind : scope.slots.find? binding.source = some backing)
    (typed : value.type = binding.source) (hosts : world.Hosts ⟨scope, outer⟩)
    (steady : world.Steady) :
    between.Applies (between.enterCast (scope.site key) binding value.payload) := by
  have hstored := answer.stored_value behind hosts steady.backed.faithful rfl
  have hfilled : backing = .value value ∨
      .filled (scope.site binding.source) value ∈ between.trace := by
    cases backing with
    | value other => exact .inl (congrArg Backing.value (Option.some.inj hstored))
    | generated source eager cyclic =>
      have accountable := (answer.steady hosts steady).regular.accountable
      exact .inr ((accountable.stored _ _).mp hstored)
  exact .enterCast (answer.unbound interface behind hosts steady.backed unbound) fun call =>
    ⟨⟨scope, outer⟩, (answer.hosts hosts hosts).2, key, binding, backing, value, rfl, interface,
      rfl, behind, hfilled, typed, rfl⟩

/-- However a cast ends, it is an application. -/
theorem Resolves.cast_runs
    (answer : Resolves fuel ⟨scope, outer⟩ binding.source chain context world (.ok (.ok value))
      between) (noSlot : scope.slots.find? key = none)
    (interface : scope.bindings.find? key = some binding)
    (unbound : world.memory.bound.find? (scope.site key) = none)
    (behind : scope.slots.find? binding.source = some backing)
    (binds : Binds (Session.handler fuel) scope key binding value between result after)
    (typed : value.type = binding.source)
    (cast : Engine.run (Session.handler fuel)
      (binding.cast.apply (between.nextCast (scope.site key)) value.payload)
      (between.enterCast (scope.site key) binding value.payload) = (outcome, last))
    (left : last.Advances after) (hosts : world.Hosts ⟨scope, outer⟩) (steady : world.Steady) :
    Application.Runs
      { query := ⟨fuel, ⟨scope, outer⟩, key, chain, context, world, result, after⟩
        binding, held := value, call := between.nextCast (scope.site key)
        begun := between.enterCast (scope.site key) binding value.payload, outcome, ended := last }
    where
  ready := ⟨((answer.hosts hosts hosts).enterCast _ _ _).1,
    (answer.steady hosts steady).enterCast _ _ _⟩
  occurs := .cast noSlot interface unbound behind answer binds
  noSlot := noSlot
  interface := interface
  stored := ⟨backing, behind, answer.stored_value behind hosts steady.backed.faithful rfl⟩
  typed := typed
  unbound := answer.unbound interface behind hosts steady.backed unbound
  told := ⟨between.trace, rfl⟩
  run := cast
  entered := (answer.grows.trans (.enterCast _ _ _ _)).toAdvances
  left := left

/-- A request for an interface applies its cast once it has found the source. -/
theorem Binds.applies {start : World}
    (keeps : ∀ {α : Type} (act : Act Command α),
      Engine.Keeps (fun world => world.Valid ∧ (world.Steady ∧ start.Applies world))
        (Engine.run (Session.handler fuel) act))
    (noSlot : scope.slots.find? key = none) (interface : scope.bindings.find? key = some binding)
    (unbound : world.memory.bound.find? (scope.site key) = none)
    (behind : scope.slots.find? binding.source = some backing)
    (answer : Resolves fuel ⟨scope, outer⟩ binding.source chain context world (.ok (.ok value))
      between)
    (binds : Binds (Session.handler fuel) scope key binding value between result after)
    (hosts : world.Hosts ⟨scope, outer⟩) (steady : world.Steady)
    (applies : start.Applies between) : start.Applies after := by
  have hafter := (Resolves.cast noSlot interface unbound behind answer binds).hosts hosts hosts
  have hcast {cast : Except Stop String} {last : World} (typed : value.type = binding.source)
      (run : Engine.run (Session.handler fuel)
        (binding.cast.apply (between.nextCast (scope.site key)) value.payload)
        (between.enterCast (scope.site key) binding value.payload) = (cast, last)) :
      start.Applies last := by
    have henters := answer.enters_cast interface unbound behind typed hosts steady
    have hlast := keeps (binding.cast.apply (between.nextCast (scope.site key)) value.payload)
      (between.enterCast (scope.site key) binding value.payload)
      ⟨((answer.hosts hosts hosts).enterCast _ _ _).1,
        (answer.steady hosts steady).enterCast _ _ _, applies.trans henters⟩
    rw [run] at hlast
    exact hlast.2.2
  cases binds with
  | mistyped => exact applies
  | broken typed cast => exact hcast typed cast
  | bound typed cast =>
    have runs := answer.cast_runs noSlot interface unbound behind (.bound typed cast) typed cast
      (Grows.bind _ _ _ _ _).toAdvances hosts steady
    exact (hcast typed cast).bind
      ⟨_, _, runs, ⟨hafter.2, .refl _⟩, rfl, rfl, rfl, applies.advances.trace⟩

end Cast

theorem Resolves.applies_of_keeps {start : World}
    (keeps : ∀ less ≤ fuel, ∀ {α : Type} (act : Act Command α),
      Engine.Keeps (fun world => world.Valid ∧ (world.Steady ∧ start.Applies world))
        (Engine.run (Session.handler less) act))
    (resolves : Resolves fuel layer key chain context world result after)
    (hosts : world.Hosts layer) (steady : world.Steady) (applies : start.Applies world) :
    start.Applies after := by
  induction resolves with
  | stored => exact applies.trans (.of_refrains (.emit _ (by trivial)))
  | obstructed => exact applies.trans (.of_refrains (.obstruct _ _ _ _ _ _))
  | blocked => exact applies.trans (.of_refrains (.emit _ (by trivial)))
  | exhausted | bound | unbacked | imported | missing => exact applies
  | @run fuel scope outer key chain context world source inquiries gathered between result after
      starts answers ends ih =>
    obtain ⟨-, -, hbetween⟩ := starts.hosted (fun world => world.Steady ∧ start.Applies world)
      answers (fun inquiry hinquiry hosts h => ⟨(answers inquiry hinquiry).steady hosts h.1,
        ih inquiry hinquiry (fun less hless => keeps less (Nat.le_succ_of_le hless)) hosts h.1
          h.2⟩) hosts ⟨steady.start _ _ _, applies.trans (.of_refrains (.start _ _ _ _ _))⟩
    have hends := ends.applies (keeps _ (Nat.le_refl _)) (fun arguments hgathered => by
      subst hgathered
      exact starts.steady_body answers hosts steady) hbetween.2
    exact hends.trans (.of_refrains (.hold _ _))
  | unsourced noSlot interface unbound behind answer lost ih =>
    exact ih keeps hosts steady applies
  | cast noSlot interface unbound behind answer binds ih =>
    exact binds.applies (keeps _ (Nat.le_refl _)) noSlot interface unbound behind answer hosts
      steady (ih keeps hosts steady applies)
  | unavailable unowned unknown answer lost ih =>
    exact ih keeps (hosts.delegate _ _ _).parent (steady.delegate _ _ _)
      (applies.trans (.of_refrains (.delegate _ _ _ _)))
  | delegated unowned unknown answer ih =>
    have hbetween := ih keeps (hosts.delegate _ _ _).parent (steady.delegate _ _ _)
      (applies.trans (.of_refrains (.delegate _ _ _ _)))
    exact hbetween.trans (.of_refrains (.hoist _ _ _ _))

end Resolution

theorem World.Applies.invariant (start : World) :
    Session.Invariant fun world => world.Valid ∧ (world.Steady ∧ start.Applies world) := by
  have steady := World.Steady.invariant
  refine .of_valid ?_ ?_ ?_ ?_ ?_
  · exact fun h sidesteps =>
      ⟨h.1.sidestep sidesteps, h.2.trans (.of_refrains (.sidestep sidesteps))⟩
  · exact fun h incidental =>
      ⟨h.1.emit incidental.isIdle, h.2.trans (.of_refrains (.emit _ incidental.isNoCast))⟩
  · exact fun {world layer} name h known =>
      ⟨h.1.name layer name, h.2.trans (.of_refrains (.name _ _ _))⟩
  · exact fun valid h parent assembled => ⟨(steady.enter ⟨valid, h.1⟩ parent assembled).2,
      h.2.trans (.of_refrains (.enter _ _))⟩
  · intro fuel keeps layer key context world hosts h
    have hresolves := Resolution.resolver_resolves fuel layer key [] context
      (world.emit (.asked (layer.scope.site key)))
    have happlies := hresolves.applies_of_keeps
      (fun less hless => Resolution.keeps_applies (keeps less hless)) (hosts.emit _)
      (h.1.emit trivial) (h.2.trans (.of_refrains (.emit _ (by trivial))))
    refine ⟨(steady.request (fun less _ => steady.handler less) key context hosts.2
      ⟨hosts.1, h.1⟩).2, ?_⟩
    rw [Layer.request_world]
    exact happlies.trans (.of_refrains (.conclude _ _ _ _))

theorem Resolution.Resolves.applies {fuel : Nat} {layer : Layer} {key : Key} {chain : Chain}
    {context : Context} {world after : World} {result : Except Stop Answer}
    (resolves : Resolves fuel layer key chain context world result after)
    (hosts : world.Hosts layer) (steady : world.Steady) : world.Applies after :=
  resolves.applies_of_keeps
    (fun less _ => keeps_applies ((World.Applies.invariant world).handler less)) hosts steady
    (.refl world)

namespace Session

variable {fuel : Nat} {start world : World} {seen : List Layer}

theorem Course.applies (course : Course fuel start seen world) (valid : start.Valid)
    (steady : start.Steady) : start.Applies world := by
  have invariant := World.Applies.invariant start
  exact (invariant.course (fun less _ => invariant.handler less) course
    ⟨valid, steady, .refl start⟩).1.2.2

theorem Reachable.applies (reachable : Reachable world) : World.Applies {} world := by
  induction reachable with
  | initial => exact .refl _
  | step reachable fuel command ih =>
    obtain ⟨seen, course⟩ := perform_course fuel command _
    exact ih.trans (course.applies reachable.valid reachable.steady)

end Session

end LayerGraph
