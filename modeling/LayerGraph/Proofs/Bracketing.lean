import LayerGraph.Proofs.Answering
import LayerGraph.Proofs.Propagation
import LayerGraph.Proofs.Registrations

/-! What observers are told, in order.

As long as nothing panics, everything asked for is answered and no tasks run side by side, the starts
and ends of runs are told like brackets: what is told of the runs that one run waits for lies between
its own start and its own end. -/

namespace LayerGraph

def Event.isCall : Event → Bool
  | .noticed .. => true
  | _ => false

/-- What else the trace shows when a layer tells something: the events right after the calls and
those right before them, newest first. -/
inductive Notice.Shows (layer : Layer) : Notice → List Event → List Event → Prop
  | delegated {key parent further} (outer : layer.outer = parent :: further) :
      Shows layer (.delegated layer.scope.id key parent.id)
        [.logged (.delegating layer.scope.id key parent.id)] []
  | refused {key generator error chain} :
      Shows layer (.failed layer.scope.id key generator error) []
        [.attempted (layer.scope.site key) chain (some error)]
  | started {key generator chain} :
      Shows layer (.started layer.scope.id key generator)
        [.logged (.running layer.scope.id key generator (chain.length + 1))]
        [.attempted (layer.scope.site key) chain none]
  | finished {key generator} :
      Shows layer (.finished layer.scope.id key generator) []
        [.logged (.finished layer.scope.id key)]
  | failed {key generator error} :
      Shows layer (.failed layer.scope.id key generator error) []
        [.logged (.failed layer.scope.id key error)]

theorem Notice.Shows.no_calls {layer : Layer} {notice : Notice} {after before : List Event}
    (shows : notice.Shows layer after before) :
    after.filter Event.isCall = [] ∧ before.filter Event.isCall = [] := by
  cases shows <;> exact ⟨rfl, rfl⟩

structure Tale where
  layer : Layer
  notice : Notice
  past : List Event

namespace Tale

def calls (tale : Tale) : List Event :=
  tale.layer.registrations.map fun registration => .noticed registration.observer tale.notice

/-- A generator has been kept from being started. Nothing is fetched for it: whatever could have
found its arguments and run its body, all that happens is that it is refused. -/
def Refuses (tale : Tale) : Prop :=
  ∃ key source cyclic chain context error, ∃ world : World,
    tale.notice = .failed tale.layer.scope.id key source.generator.signature error ∧
    tale.past = .attempted (tale.layer.scope.site key) chain (some error) :: world.trace ∧
    error.Obstructs key ∧
    (∃ eager, tale.layer.scope.slots.find? key = some (.generated source eager cyclic)) ∧
    ∀ resolve perform,
      Resolution.runGenerator resolve perform tale.layer key source cyclic chain context world =
        (.ok (.error error), world.obstruct tale.layer.scope key source chain error)

/-- The one tells of the start of a run, the other one of its end. The slot asked for is empty at
the start, and it has a value at the end if and only if the run has succeeded. -/
def Encloses (first last : Tale) : Prop :=
  last.layer = first.layer ∧ ∃ key source,
    (∃ eager cyclic,
      first.layer.scope.slots.find? key = some (.generated source eager cyclic)) ∧
    first.notice = .started first.layer.scope.id key source.generator.signature ∧
    (∀ value, .filled (first.layer.scope.site key) value ∉ first.past) ∧
    (last.notice = .finished first.layer.scope.id key source.generator.signature ∧
        (∃ value, .filled (first.layer.scope.site key) value ∈ last.past) ∨
      ∃ error, last.notice = .failed first.layer.scope.id key source.generator.signature error ∧
        ∀ value, .filled (first.layer.scope.site key) value ∉ last.past)

end Tale

inductive Bracketed : List Tale → Prop
  | nil : Bracketed []
  | delegated {tale rest key parent} (delegates : tale.notice =
      .delegated tale.layer.scope.id key parent) (further : Bracketed rest) :
      Bracketed (tale :: rest)
  | refused {tale rest} (refuses : tale.Refuses) (further : Bracketed rest) :
      Bracketed (tale :: rest)
  | run {first last inner rest} (encloses : first.Encloses last) (inside : Bracketed inner)
      (further : Bracketed rest) : Bracketed (first :: (inner ++ last :: rest))

namespace Bracketed

theorem append {tales more : List Tale} (hfirst : Bracketed tales) (hsecond : Bracketed more) :
    Bracketed (tales ++ more) := by
  induction hfirst with
  | nil => exact hsecond
  | delegated delegates further ih => exact .delegated delegates ih
  | refused refuses further ih => exact .refused refuses ih
  | run encloses inside further _ ih =>
    rw [List.cons_append, List.append_assoc, List.cons_append]
    exact .run encloses inside ih

theorem filter {tales : List Tale} (bracketed : Bracketed tales) (chosen : Layer → Bool) :
    Bracketed (tales.filter fun tale => chosen tale.layer) := by
  induction bracketed with
  | nil => exact .nil
  | @delegated tale rest key parent delegates further ih =>
    cases hchosen : chosen tale.layer with
    | true => simpa [hchosen] using ih.delegated delegates
    | false => simpa [hchosen] using ih
  | @refused tale rest refuses further ih =>
    cases hchosen : chosen tale.layer with
    | true => simpa [hchosen] using ih.refused refuses
    | false => simpa [hchosen] using ih
  | @run first last inner rest encloses inside further hinner hrest =>
    cases hchosen : chosen first.layer with
    | true => simpa [encloses.1, hchosen] using hinner.run encloses hrest
    | false => simpa [encloses.1, hchosen] using hinner.append hrest

end Bracketed

/-- What the events that follow a past tell, newest first. Nothing but the calls and what belongs to
them shows runs and delegations. -/
inductive Told (built : List Layer) (past : List Event) : List Event → List Tale → Prop
  | nil : Told built past [] []
  | mute {event events tales} (mute : event.IsMute) (further : Told built past events tales) :
      Told built past (event :: events) tales
  | call {tale after before events tales} (known : tale.layer ∈ built)
      (shows : tale.notice.Shows tale.layer after before)
      (past_eq : tale.past = before ++ events ++ past) (further : Told built past events tales) :
      Told built past (after ++ tale.calls.reverse ++ (before ++ events)) (tale :: tales)

namespace Told

variable {built : List Layer} {past events : List Event} {tales : List Tale}

theorem of_mute (h : ∀ event ∈ events, event.IsMute) : Told built past events [] := by
  induction events with
  | nil => exact .nil
  | cons event rest ih =>
    exact .mute (h event List.mem_cons_self)
      (ih fun other hother => h other (List.mem_cons_of_mem _ hother))

theorem mono {more : List Layer} (told : Told built past events tales) (h : built ⊆ more) :
    Told more past events tales := by
  induction told with
  | nil => exact .nil
  | mute mute further ih => exact .mute mute ih
  | call known shows past_eq further ih => exact .call (h known) shows past_eq ih

theorem append {later : List Event} {newer : List Tale} (hfirst : Told built past events tales)
    (hsecond : Told built (events ++ past) later newer) :
    Told built past (later ++ events) (newer ++ tales) := by
  induction hsecond with
  | nil => exact hfirst
  | mute mute further ih => exact .mute mute ih
  | @call tale after before between newer known shows past_eq further ih =>
    rw [List.append_assoc, List.append_assoc before]
    exact .call known shows (past_eq.trans (by simp only [List.append_assoc])) ih

theorem calls_eq (told : Told built past events tales) :
    events.reverse.filter Event.isCall = tales.reverse.flatMap Tale.calls := by
  induction told with
  | nil => rfl
  | @mute event events tales mute further ih =>
    have hcall : Event.isCall event = false := by
      cases event with
      | noticed => exact mute.elim
      | _ => rfl
    rw [List.reverse_cons, List.filter_append, ih, List.filter_singleton, hcall]
    exact List.append_nil _
  | @call tale after before events tales known shows past_eq further ih =>
    have hcalls : tale.calls.filter Event.isCall = tale.calls := by
      refine List.filter_eq_self.mpr fun event hevent => ?_
      obtain ⟨registration, -, rfl⟩ := List.mem_map.mp hevent
      rfl
    obtain ⟨hafter, hbefore⟩ := shows.no_calls
    simp [ih, hcalls, hafter, hbefore]

theorem known (told : Told built past events tales) : ∀ tale ∈ tales, tale.layer ∈ built := by
  induction told with
  | nil => simp
  | mute mute further ih => exact ih
  | call known shows past_eq further ih => exact List.forall_mem_cons.mpr ⟨known, ih⟩

end Told

/-- What is told through a registration: each thing as often as the registration is among those of
the layer that tells it. -/
def Registration.hears (registration : Registration) (tales : List Tale) : List Tale :=
  tales.flatMap fun tale => List.replicate (tale.layer.registrations.count registration) tale

theorem Registration.hears_eq {registration : Registration} {tales : List Tale}
    {chosen : Layer → Bool}
    (h : ∀ tale ∈ tales,
      tale.layer.registrations.count registration = if chosen tale.layer then 1 else 0) :
    registration.hears tales = tales.filter fun tale => chosen tale.layer := by
  induction tales with
  | nil => rfl
  | cons tale rest ih =>
    have hrest := ih fun other hother => h other (List.mem_cons_of_mem _ hother)
    rw [hears, List.flatMap_cons, h tale List.mem_cons_self, ← hears, hrest]
    cases hchosen : chosen tale.layer <;> simp [hchosen]

namespace World

def Unalarmed (world : World) : Prop := ∀ event ∈ world.trace, ¬ event.isAlarm

instance (world : World) : Decidable world.Unalarmed :=
  inferInstanceAs (Decidable (∀ event ∈ world.trace, ¬ event.isAlarm))

/-- No tasks have run side by side. -/
def Unraced (world : World) : Prop := .raceBegan ∉ world.trace

instance (world : World) : Decidable world.Unraced :=
  inferInstanceAs (Decidable (.raceBegan ∉ world.trace))

/-- From the one world to the other one, unless a panic is told of, starts and ends of runs are told
like brackets. -/
structure Narrates (before after : World) : Prop where
  advances : before.Advances after
  told : after.Unalarmed → ∃ events tales, after.trace = events ++ before.trace ∧
    Told after.built before.trace events tales ∧ Bracketed tales.reverse

namespace Narrates

variable {world between after : World} {scope : Scope} {key : Key} {source : Registered}

theorem of_mute (advances : world.Advances after) (events : List Event)
    (trace : after.trace = events ++ world.trace) (mute : ∀ event ∈ events, event.IsMute) :
    world.Narrates after :=
  ⟨advances, fun _ => ⟨events, [], trace, .of_mute mute, .nil⟩⟩

theorem refl (world : World) : world.Narrates world := of_mute (.refl world) [] rfl (by simp)

theorem trans (hfirst : world.Narrates between) (hsecond : between.Narrates after) :
    world.Narrates after := by
  refine ⟨hfirst.advances.trans hsecond.advances, fun calm => ?_⟩
  obtain ⟨first, tales, hfirst', htales, hbracketed⟩ := hfirst.told fun event hevent =>
    calm event (hsecond.advances.trace.mem hevent)
  obtain ⟨second, newer, hsecond', hnewer, hbracketedNewer⟩ := hsecond.told calm
  rw [hfirst'] at hnewer
  refine ⟨second ++ first, newer ++ tales, by rw [hsecond', hfirst', List.append_assoc],
    (htales.mono hsecond.advances.built.subset).append hnewer, ?_⟩
  rw [List.reverse_append]
  exact hbracketed.append hbracketedNewer

theorem of_alarm (advances : world.Advances between) {event : Event} (alarm : event.isAlarm) :
    world.Narrates (between.emit event) :=
  ⟨advances.trans (.emit between event), fun calm => absurd alarm (calm event List.mem_cons_self)⟩

theorem emit (world : World) {event : Event} (mute : event.IsMute) :
    world.Narrates (world.emit event) :=
  of_mute (.emit world event) [event] rfl (by simpa using mute)

theorem sidestep (sidesteps : world.Sidesteps after) : world.Narrates after :=
  of_mute (.sidestep sidesteps) [] sidesteps.trace (by simp)

theorem hold (world : World) (held : List Site) : world.Narrates { world with held } :=
  of_mute (.hold world held) [] rfl (by simp)

theorem name (world : World) (name : String) (layer : Layer) :
    world.Narrates { world with layers := world.layers.set name layer } :=
  of_mute ⟨.refl _, List.suffix_rfl, List.suffix_rfl, List.suffix_rfl, Nat.le_refl _,
    Nat.le_refl _⟩ [] rfl (by simp)

theorem enter (world : World) (layer : Layer) : world.Narrates (world.enter layer) :=
  of_mute (.enter world layer) [] rfl (by simp)

theorem deliver (world : World) (delivery : Site × Value) :
    world.Narrates (world.deliver delivery) := by
  obtain ⟨event, arrival, htrace⟩ := world.deliver_trace delivery
  have mute : event.IsMute := by
    cases event with
    | filled | dropped => trivial
    | _ => exact arrival.elim
  exact of_mute (.deliver world delivery) [event] htrace (by simpa using mute)

theorem outcome (world : World) (layer : Layer) (context : Context)
    (result : Except ResolutionError Yield) :
    world.Narrates (Resolution.outcome layer key source context result world).2 :=
  Resolution.outcome_keeps world.Narrates
    (fun _ _ delivery _ between h => h.trans (deliver between delivery)) (refl world)

theorem enterBody (world : World) (scope : Scope) (source : Registered)
    (arguments : List Argument) : world.Narrates (world.enterBody scope source arguments) :=
  of_mute (Grows.enterBody world scope source arguments).toAdvances [_] rfl (by simp [Event.IsMute])

theorem enterCast (world : World) (site : Site) (binding : Binding) (payload : String) :
    world.Narrates (world.enterCast site binding payload) :=
  of_mute (Grows.enterCast world site binding payload).toAdvances [_] rfl (by simp [Event.IsMute])

theorem bind (world : World) (scope : Scope) (key : Key) (binding : Binding) (payload : String) :
    world.Narrates (world.bind scope key binding payload) :=
  of_mute (Grows.bind world scope key binding payload).toAdvances [_] rfl (by simp [Event.IsMute])

theorem hoist (world : World) (scope : Scope) (key : Key) (value : Value) :
    world.Narrates (world.hoist scope key value) := by
  have hadvances := (Grows.hoist world scope key value).toAdvances
  unfold World.hoist at hadvances ⊢
  split
  · next h =>
    rw [if_pos h] at hadvances
    exact of_mute hadvances [] rfl (by simp)
  · exact refl world

theorem conclude (world : World) (layer : Layer) (key : Key) (result : Except Stop Answer) :
    world.Narrates (world.conclude layer key result) := by
  have hadvances := (Grows.conclude world layer key result).toAdvances
  rcases result with stop | (error | value)
  · exact refl world
  · exact of_mute hadvances [_, _] rfl (by simp [Event.IsMute])
  · exact of_mute hadvances [_] rfl (by simp [Event.IsMute])

end Narrates

/-- What a valid world has to be like for observers to be told in order: its slots are accounted
for, and its layers tell whom the layers around them tell. -/
structure Regular (world : World) : Prop where
  accountable : world.Accountable
  inherits : world.Inherits

end World

theorem Resolution.Resolves.regular {fuel : Nat} {layer : Layer} {key : Key} {chain : Chain}
    {context : Context} {world after : World} {result : Except Stop Answer}
    (resolves : Resolves fuel layer key chain context world result after)
    (hosts : world.Hosts layer) (regular : world.Regular) : after.Regular :=
  ⟨resolves.accountable hosts regular.accountable, resolves.inherits hosts regular.inherits⟩

namespace World

namespace Regular

variable {world after : World} {layer : Layer} {key : Key} {source : Registered} {chain : Chain}

theorem initial : World.Regular {} := ⟨.initial, .initial⟩

theorem of_built (regular : world.Regular) (accountable : after.Accountable)
    (built : after.built = world.built) : after.Regular :=
  ⟨accountable, regular.inherits.of_built built⟩

theorem lasts : World.Lasts Event.IsIdle World.Regular where
  logged := Accountable.lasts.logged
  later regular built nextLayer extends' imported events trace filled plain :=
    regular.of_built (Accountable.lasts.later regular.accountable built nextLayer extends' imported
      events trace filled plain) built

theorem start (regular : world.Regular) : (world.start layer.scope key source chain).Regular :=
  lasts.start (lasts.emit regular trivial) fun _ => trivial

theorem invariant : Session.Invariant fun world => world.Valid ∧ world.Regular := by
  refine .of_valid (fun regular sidesteps => lasts.sidestep regular sidesteps)
    (fun regular incidental => lasts.emit regular incidental.isIdle)
    (fun name regular known => lasts.name regular name _)
    (fun valid regular parent assembled =>
      ⟨regular.accountable.enter valid parent assembled, regular.inherits.enter assembled⟩) ?_
  intro fuel _ layer key context world hosts regular
  have hasked : (world.emit (.asked (layer.scope.site key))).Regular := lasts.emit regular trivial
  have hafter := (Resolution.resolver_resolves fuel layer key [] context _).regular
    (hosts.emit (.asked (layer.scope.site key))) hasked
  rw [Layer.request_world]
  exact lasts.conclude hafter layer key _ (fun _ _ => trivial) fun _ _ => trivial

theorem told (regular : world.Regular) (hosts : world.Hosts layer) {notice : Notice}
    {past after before events : List Event} {tales : List Tale}
    (shows : notice.Shows layer after before) (further : Told world.built past events tales) :
    Told world.built past
      (after ++ (layer.scope.observers.map (Event.noticed · notice)).reverse ++ (before ++ events))
      (⟨layer, notice, before ++ events ++ past⟩ :: tales) := by
  have hcalls : (Tale.mk layer notice (before ++ events ++ past)).calls =
      layer.scope.observers.map (Event.noticed · notice) := by
    rw [← regular.inherits.map_observer_registrations hosts.1 hosts.2, List.map_map]
    rfl
  rw [← hcalls]
  exact .call hosts.2 shows rfl further

theorem told_start (regular : world.Regular) (hosts : world.Hosts layer) (begun : World) (key : Key)
    (source : Registered) (chain : Chain) :
    ∃ events, (begun.start layer.scope key source chain).trace = events ++ begun.trace ∧
      Told world.built begun.trace events [⟨layer,
        .started layer.scope.id key source.generator.signature,
        .attempted (layer.scope.site key) chain none :: begun.trace⟩] := by
  have shows : Notice.Shows layer
      (.started layer.scope.id key source.generator.signature)
      [.logged (.running layer.scope.id key source.generator.signature (chain.length + 1))]
      [.attempted (layer.scope.site key) chain none] := .started
  refine ⟨_, ?_, regular.told hosts shows (.nil : Told world.built begun.trace [] [])⟩
  rw [List.append_nil, List.append_assoc, List.append_assoc]
  rfl

end Regular

/-- What the end of a run shows. -/
theorem report_shows (world : World) (layer : Layer) (key : Key) (source : Registered)
    (answer : Answer) :
    ∃ notice entry,
      world.report layer.scope key source answer = (world.emit (.logged entry)).emitAll
        (layer.scope.observers.map (Event.noticed · notice)) ∧
      notice.Shows layer [] [.logged entry] ∧
      ((∃ value, answer = .ok value) ∧
          notice = .finished layer.scope.id key source.generator.signature ∨
        ∃ error, answer = .error error ∧
          notice = .failed layer.scope.id key source.generator.signature error) := by
  cases answer with
  | ok value => exact ⟨_, _, rfl, .finished, .inl ⟨⟨value, rfl⟩, rfl⟩⟩
  | error error => exact ⟨_, _, rfl, .failed, .inr ⟨error, rfl, rfl⟩⟩

namespace Narrates

variable {world between ended after : World} {layer : Layer} {key : Key} {source : Registered}
  {chain : Chain}

theorem delegate {scope parent : Scope} {further : List Scope}
    (hosts : world.Hosts ⟨scope, parent :: further⟩) (regular : world.Regular) (key : Key) :
    world.Narrates (world.delegate scope key parent) := by
  have shows : Notice.Shows ⟨scope, parent :: further⟩ (.delegated scope.id key parent.id)
      [.logged (.delegating scope.id key parent.id)] [] := .delegated rfl
  have htold := regular.told hosts shows (.nil : Told world.built world.trace [] [])
  refine ⟨(Grows.delegate world scope key parent).toAdvances,
    fun _ => ⟨_, _, ?_, htold, .delegated rfl .nil⟩⟩
  rw [List.append_nil, List.append_nil]
  rfl

theorem obstruct {eager cyclic : Bool} {context : Context} {error : ResolutionError}
    (hosts : world.Hosts layer) (regular : world.Regular)
    (slot : layer.scope.slots.find? key = some (.generated source eager cyclic))
    (obstacle : Resolution.obstacle? layer key source cyclic chain context world.signals =
      some error) :
    world.Narrates (world.obstruct layer.scope key source chain error) := by
  have shows : Notice.Shows layer
      (.failed layer.scope.id key source.generator.signature error) []
      [.attempted (layer.scope.site key) chain (some error)] := .refused
  have htold := regular.told hosts shows (.nil : Told world.built world.trace [] [])
  have hrefuses : Tale.Refuses ⟨layer, .failed layer.scope.id key source.generator.signature error,
      .attempted (layer.scope.site key) chain (some error) :: world.trace⟩ := by
    refine ⟨key, source, cyclic, chain, context, error, world, rfl, rfl,
      Resolution.obstructs_of_obstacle? obstacle, ⟨eager, slot⟩, fun resolve perform => ?_⟩
    unfold Resolution.runGenerator
    rw [Engine.get_bind_apply, obstacle]
    rfl
  refine ⟨(Grows.obstruct world layer.scope key source chain error).toAdvances,
    fun _ => ⟨_, _, ?_, htold, .refused hrefuses .nil⟩⟩
  rw [List.nil_append, List.append_nil, List.append_assoc]
  rfl

/-- A run is told of as a whole: its start, all that is told until it ends, and its end. -/
theorem run {eager cyclic : Bool} {answer : Answer} (regular : world.Regular)
    (slot : layer.scope.slots.find? key = some (.generated source eager cyclic))
    (empty : world.memory.filled.find? (layer.scope.site key) = none)
    (inside : (world.start layer.scope key source chain).Narrates ended)
    (after_eq : after = ended.report layer.scope key source answer)
    (hosted : after.Hosts layer) (regular' : after.Regular)
    (filled : ∀ value, answer = .ok value →
      after.memory.filled.find? (layer.scope.site key) = some value)
    (vacant : ∀ error, answer = .error error →
      after.memory.filled.find? (layer.scope.site key) = none) :
    world.Narrates after := by
  have hreport : ended.Advances after := after_eq ▸ (Grows.report ..).toAdvances
  refine ⟨(Advances.start ..).trans (inside.advances.trans hreport), fun calm => ?_⟩
  obtain ⟨events, tales, htrace, htales, hbracketed⟩ := inside.told fun event hevent =>
    calm event (hreport.trace.mem hevent)
  obtain ⟨starting, hbegun, hstart⟩ := regular'.told_start hosted world key source chain
  obtain ⟨notice, entry, hafter, shows, hnotice⟩ := report_shows ended layer key source answer
  rw [hbegun] at htrace htales
  have hwhole := regular'.told hosted shows (hstart.append (htales.mono hreport.built.subset))
  have hended : after.trace = (layer.scope.observers.map (Event.noticed · notice)).reverse ++
      ([.logged entry] ++ (events ++ starting) ++ world.trace) := by
    rw [after_eq, hafter, List.append_assoc, List.append_assoc, ← htrace]
    rfl
  have hstored (value : Value) : .filled (layer.scope.site key) value ∈
        [Event.logged entry] ++ (events ++ starting) ++ world.trace ↔
      after.memory.filled.find? (layer.scope.site key) = some value := by
    rw [regular'.accountable.stored, hended]
    exact (List.mem_append.trans (or_iff_right (by simp))).symm
  refine ⟨_, _, hended.trans (List.append_assoc ..).symm, hwhole, ?_⟩
  rw [List.reverse_cons, List.reverse_append]
  refine .run ⟨rfl, key, source, ⟨eager, cyclic, slot⟩, rfl, fun value h => ?_, ?_⟩ hbracketed .nil
  · have hfilled := (regular.accountable.stored _ value).mpr ((List.mem_cons.mp h).resolve_left
      Event.noConfusion)
    exact absurd (empty.symm.trans hfilled) (Option.some_ne_none value).symm
  · rcases hnotice with ⟨⟨value, rfl⟩, rfl⟩ | ⟨error, rfl, rfl⟩
    · exact .inl ⟨rfl, value, (hstored value).mpr (filled value rfl)⟩
    · refine .inr ⟨error, rfl, fun value h => ?_⟩
      exact Option.some_ne_none value (((hstored value).mp h).symm.trans (vacant error rfl))

end Narrates

end World

namespace Session

def Narrating (fuel : Nat) : Prop :=
  ∀ command world reply after, handler fuel command world = (.ok reply, after) →
    (∀ message, reply ≠ .panicked message) → world.Valid → world.Regular → world.Narrates after

theorem carries_narrates : Carries False World.Regular World.Narrates where
  invariant := World.Regular.invariant
  refl := .refl
  trans hfirst hsecond := hfirst.trans hsecond
  sidestep := .sidestep
  note world _ mute := .emit world mute
  name := .name
  enter := .enter
  alarm course _ _ _ alarm :=
    .of_alarm (course.grows_of_grow fun less _ => handler_grows less).toAdvances alarm

theorem narrating_iff {fuel : Nat} :
    Narrating fuel ↔ Answers False World.Regular World.Narrates fuel := by
  simp [Narrating, Answers]

theorem Narrating.run {α : Type} {fuel : Nat} {act : Act Command α} {result : α}
    {world after : World} (narrating : Narrating fuel)
    (h : Engine.run (handler fuel) act world = (.ok result, after)) (valid : world.Valid)
    (regular : world.Regular) : world.Narrates after :=
  (narrating_iff.mp narrating).run carries_narrates h trivial valid regular

end Session

namespace Resolution

open Session (Narrating)

variable {fuel : Nat} {layer : Layer} {key : Key} {source : Registered} {chain : Chain}
  {context : Context} {world between after : World} {result : Except Stop Answer}

theorem Ends.narrates {gathered : Except Stop (Except ResolutionError (List Argument))}
    {answer : Answer} (narrating : Narrating fuel)
    (ends : Ends (Session.handler fuel) layer key source context world gathered (.ok answer) after)
    (entered : ∀ arguments, gathered = .ok (.ok arguments) →
      (world.enterBody layer.scope source arguments).Valid ∧
        (world.enterBody layer.scope source arguments).Regular) :
    ∃ ended, world.Narrates ended ∧ after = ended.report layer.scope key source answer := by
  generalize hresult : (Except.ok answer : Except Stop Answer) = result at ends
  cases ends with
  | unsupplied => cases hresult
  | @refused error =>
    obtain rfl := Except.ok.inj hresult
    exact ⟨(outcome layer key source context (.error error) world).2,
      .outcome world layer context _, rfl⟩
  | broken => cases hresult
  | @returned arguments yield last body =>
    obtain rfl := Except.ok.inj hresult
    obtain ⟨hvalid, hregular⟩ := entered arguments rfl
    have hbody := (World.Narrates.enterBody world layer.scope source arguments).trans
      (narrating.run body hvalid hregular)
    have hreturned : last.Narrates (last.emit (.returned layer.scope.id source.place
      (world.nextRun layer.scope source) yield)) := .emit last trivial
    exact ⟨(outcome layer key source context (.ok yield) (last.emit (.returned layer.scope.id
      source.place (world.nextRun layer.scope source) yield))).2,
      (hbody.trans hreturned).trans (.outcome _ layer context _), rfl⟩

theorem Starts.regular_body {inquiries : List Inquiry} {arguments : List Argument}
    (starts : Starts layer key chain context world source inquiries (.ok (.ok arguments)) between)
    (answers : ∀ inquiry ∈ inquiries,
      Resolves fuel layer inquiry.key (layer.scope.frame key source :: chain) context
        inquiry.before inquiry.result inquiry.after)
    (hosts : world.Hosts layer) (regular : world.Regular) :
    (between.enterBody layer.scope source arguments).Regular := by
  obtain ⟨eager, cyclic, slot, -⟩ := starts.slot
  obtain ⟨-, hhosts, hbetween⟩ := starts.hosted World.Regular answers
    (fun inquiry hinquiry => (answers inquiry hinquiry).regular) hosts regular.start
  have accountable := hbetween.accountable.enterBody hhosts slot fun plain =>
    starts.receives answers hosts regular.accountable.faithful
      (regular.accountable.closed hosts plain)
  exact hbetween.of_built accountable rfl

/-- A run whose inquiries are told of like brackets is told of like brackets itself. -/
theorem Starts.narrates {inquiries : List Inquiry}
    {gathered : Except Stop (Except ResolutionError (List Argument))} {answer : Answer}
    (narrating : Narrating (fuel + 1))
    (starts : Starts layer key chain context world source inquiries gathered between)
    (answers : ∀ inquiry ∈ inquiries,
      Resolves fuel layer inquiry.key (layer.scope.frame key source :: chain) context
        inquiry.before inquiry.result inquiry.after)
    (ends : Ends (Session.handler (fuel + 1)) layer key source context between gathered
      (.ok answer) after)
    (h : ∀ inquiry ∈ inquiries, inquiry.before.Hosts layer → inquiry.before.Regular →
      (∃ answer, inquiry.result = .ok answer) → inquiry.before.Narrates inquiry.after)
    (hosts : world.Hosts layer) (regular : world.Regular)
    (hosted : after.Hosts layer) (regular' : after.Regular) : world.Narrates after := by
  obtain ⟨eager, cyclic, slot, -⟩ := starts.slot
  obtain ⟨hasked, hhosts, -⟩ := starts.hosted World.Regular answers
    (fun inquiry hinquiry => (answers inquiry hinquiry).regular) hosts regular.start
  obtain ⟨collected, rfl⟩ := ends.supplied
  have hgathers : (world.start layer.scope key source chain).Narrates between :=
    starts.gathers.chain .refl .trans fun inquiry hinquiry =>
      h inquiry hinquiry (hasked inquiry hinquiry).1 (hasked inquiry hinquiry).2
        (starts.gathers.answered inquiry hinquiry)
  obtain ⟨ended, hended, hafter⟩ := ends.narrates narrating fun arguments hgathered => by
    obtain rfl := Except.ok.inj hgathered
    exact ⟨(hhosts.enterBody arguments).1, starts.regular_body answers hosts regular⟩
  refine .run regular slot starts.empty (hgathers.trans hended) hafter hosted regular' ?_ ?_
  · rintro value rfl
    exact ends.filled
  · rintro error rfl
    exact starts.fruitless answers ends (fun value h => nomatch h) hosts

theorem Binds.narrates {scope : Scope} {binding : Binding} {value : Value} {answer : Answer}
    (narrating : Narrating fuel)
    (binds : Binds (Session.handler fuel) scope key binding value world (.ok answer) after)
    (valid : world.Valid) (regular : world.Regular) : world.Narrates after := by
  generalize hresult : (Except.ok answer : Except Stop Answer) = result at binds
  cases binds with
  | mistyped => exact .refl world
  | broken => cases hresult
  | bound typed cast =>
    have hcast := narrating.run cast (valid.of_same rfl rfl rfl rfl)
      (World.Regular.lasts.enterCast regular fun _ => trivial)
    exact ((World.Narrates.enterCast _ _ _ _).trans hcast).trans (.bind _ _ _ _ _)

/-- A request that is answered is told of like brackets if what is asked for meanwhile is. -/
theorem Resolves.narrates (narrating : ∀ less ≤ fuel, Narrating less)
    (resolves : Resolves fuel layer key chain context world result after)
    (hosts : world.Hosts layer) (regular : world.Regular)
    (answered : ∃ answer, result = .ok answer) : world.Narrates after := by
  induction resolves with
  | stored => exact .emit _ trivial
  | exhausted | blocked => exact nomatch answered
  | bound | unbacked | imported | missing => exact .refl _
  | obstructed slot empty obstacle => exact .obstruct hosts regular slot obstacle
  | @run fuel scope outer key chain context world source inquiries gathered between result after
      starts answers ends ih =>
    obtain ⟨answer, rfl⟩ := answered
    have hresolves := Resolves.run starts answers ends
    have hafter := hresolves.hosts hosts hosts
    have hnarrates := starts.narrates (narrating _ (Nat.le_refl _)) answers ends
      (fun inquiry hinquiry => ih inquiry hinquiry fun less hless =>
        narrating less (Nat.le_succ_of_le hless)) hosts regular
      (hafter.of_same (by rfl) (by rfl) (by rfl) (by rfl))
      (World.Regular.lasts.hold (hresolves.regular hosts regular) after.held)
    exact hnarrates.trans (.hold after world.held)
  | unsourced noSlot interface unbound behind answer lost ih =>
    exact ih narrating hosts regular answered
  | @cast fuel scope outer key chain context world binding backing value between result after
      noSlot interface unbound behind answer binds ih =>
    obtain ⟨answer', rfl⟩ := answered
    have hbetween := ih narrating hosts regular ⟨_, rfl⟩
    exact hbetween.trans (binds.narrates (narrating _ (Nat.le_refl _)) (answer.hosts hosts hosts).1
      (answer.regular hosts regular))
  | @unavailable fuel scope parent further key chain context world result after unowned unknown
      answer lost ih =>
    exact (World.Narrates.delegate hosts regular key).trans
      (ih narrating (hosts.delegate scope key parent).parent
        (World.Regular.lasts.delegate regular scope key parent fun _ => trivial) answered)
  | @delegated fuel scope parent further key chain context world value between unowned unknown
      answer ih =>
    exact ((World.Narrates.delegate hosts regular key).trans
      (ih narrating (hosts.delegate scope key parent).parent
        (World.Regular.lasts.delegate regular scope key parent fun _ => trivial)
        ⟨_, rfl⟩)).trans (.hoist between scope key value)

end Resolution

namespace Session

open Resolution

variable {fuel : Nat} {start world after : World} {layer : Layer} {key : Key} {context : Context}

theorem request_narrates (narrating : ∀ less ≤ fuel, Narrating less) {answered : Answered}
    (h : layer.request (resolver fuel) key context world = (.ok answered, after))
    (hosts : world.Hosts layer) (regular : world.Regular) : world.Narrates after := by
  obtain ⟨answer, between, hresolve, rfl⟩ := Layer.request_inv h
  have hresolves := resolver_resolves fuel layer key [] context
    (world.emit (.asked (layer.scope.site key)))
  rw [hresolve] at hresolves
  have hasked : (world.emit (.asked (layer.scope.site key))).Regular :=
    World.Regular.lasts.emit regular trivial
  have hnarrates : world.Narrates (world.emit (.asked (layer.scope.site key))) :=
    .emit world trivial
  exact (hnarrates.trans (hresolves.narrates narrating (hosts.emit _) hasked ⟨answer, rfl⟩)).trans
    (.conclude between layer key (.ok answer))

theorem narrating (fuel : Nat) : Narrating fuel :=
  narrating_iff.mpr <| carries_narrates.answers (fun answers _ _ _ outcome _ _ h settled => by
    rcases outcome with (message | _ | _) | answered
    · exact settled.elim
    · exact settled.elim
    · exact settled.elim
    · exact request_narrates (fun less hless => narrating_iff.mpr (answers less hless)) h) fuel

def Step.isCalm (step : Step) : Bool :=
  match step.reply with
  | .ok (.panicked _) | .error _ => false
  | .ok _ => true

theorem Step.replied {step : Step} (h : step.isCalm) :
    ∃ reply, step.reply = .ok reply ∧ ∀ message, reply ≠ .panicked message := by
  unfold isCalm at h
  split at h
  · exact absurd h Bool.false_ne_true
  · exact absurd h Bool.false_ne_true
  · next reply calm hreply => exact ⟨reply, hreply, calm⟩

/-- The worlds that commands lead to, one after the other, as long as each of them comes to its end,
there is no panic, and no tasks run side by side. So whoever builds a layer with an eager slot waits
for its task, and no layer has several: their tasks would tell what they do in no order. -/
inductive Orderly : World → Prop
  | initial : Orderly {}
  | step {world : World} (orderly : Orderly world) (fuel : Nat) (command : Command)
      (calm : (step fuel world command).1.isCalm)
      (unalarmed : (step fuel world command).2.Unalarmed)
      (unraced : (step fuel world command).2.Unraced) : Orderly (step fuel world command).2

theorem Orderly.reachable (orderly : Orderly world) : Reachable world := by
  induction orderly with
  | initial => exact .initial
  | step orderly fuel command calm unalarmed unraced ih => exact ih.step fuel command

theorem Reachable.regular (reachable : Reachable world) : world.Regular :=
  (reachable.keeps World.Regular.invariant ⟨.initial, .initial⟩).2

theorem Orderly.unalarmed (orderly : Orderly world) : world.Unalarmed := by
  cases orderly with
  | initial => exact fun _ h => nomatch h
  | step orderly fuel command calm unalarmed unraced => exact unalarmed

/-- A sequence of commands without a panic is told of like brackets. -/
theorem Orderly.narrates (orderly : Orderly world) : World.Narrates {} world := by
  induction orderly with
  | initial => exact .refl _
  | @step world orderly fuel command calm unalarmed unraced ih =>
    have reachable := orderly.reachable
    obtain ⟨reply, replied, calm⟩ := Step.replied calm
    have hperform : handler (fuel + 1) command world =
        (.ok reply, (Session.step fuel world command).2) := Prod.ext replied rfl
    exact ih.trans (narrating (fuel + 1) _ _ _ _ hperform calm reachable.valid reachable.regular)

/-- Without a panic, and as long as no tasks run side by side, the calls of observers tell of all runs
and delegations that the trace shows, and of nothing else. Every registration is told once of each
thing told in its layer and in the layers within it, and what it is told of runs it is told like
brackets. Which slots have values at a moment can be read off the trace up to there. -/
theorem observers_are_told_in_order (orderly : Orderly world) :
    (∀ moment, Arises moment → ∀ site value,
      moment.memory.filled.find? site = some value ↔ .filled site value ∈ moment.trace) ∧
    ∃ tales, Told world.built [] world.trace tales ∧
      world.trace.reverse.filter Event.isCall = tales.reverse.flatMap Tale.calls ∧
      ∀ layer ∈ world.built,
        layer.registrations.map Registration.observer = layer.scope.observers ∧
        ∀ registration ∈ layer.registrations, registration.layer = layer.scope.id →
          registration.hears tales = tales.filter (fun tale => tale.layer.within layer.scope.id) ∧
          Bracketed (registration.hears tales).reverse := by
  have valid := orderly.reachable.valid
  obtain ⟨events, tales, htrace, htold, hbracketed⟩ := orderly.narrates.told orderly.unalarmed
  obtain rfl : world.trace = events := htrace.trans (List.append_nil events)
  refine ⟨fun moment arises => arises.accountable.2.stored, tales, htold, htold.calls_eq,
    fun layer known => ⟨orderly.reachable.inherits.map_observer_registrations valid known,
      fun registration registered own => ?_⟩⟩
  have hhears : registration.hears tales =
      tales.filter fun tale => tale.layer.within layer.scope.id := by
    refine @Registration.hears_eq _ _ (Layer.within · layer.scope.id) fun tale htale => ?_
    have inside := htold.known tale htale
    rw [(valid.registrations_nodup inside).count]
    exact if_congr (valid.mem_registrations_iff known registered own inside) rfl rfl
  refine ⟨hhears, ?_⟩
  rw [hhears, ← List.filter_reverse]
  exact hbracketed.filter (Layer.within · layer.scope.id)

/-- A generator that fails, in a layer that tells a recorder. -/
def heardBase : Registered :=
  ⟨0, "a", "make_a", [], [⟨"A"⟩], fun _ _ => .done (.failed "boom")⟩

def heardApp : Registered :=
  ⟨0, "b", "make_b", [.required ⟨"A"⟩], [⟨"B"⟩], fun _ _ => .done (.products [⟨⟨"B"⟩, "b"⟩])⟩

def heardLayer : Layer :=
  { scope :=
      { id := 1, label := none, locked := false
        slots := ⟨[(⟨"A"⟩, .generated heardBase false false)]⟩
        bindings := {}, overridable := [], settings := {}, observers := [.recorder "base"] }
    outer := [] }

def heardStart : World :=
  (step 4 (step 4 {} (.build "base" none [.observe (.recorder "base"),
      .register (.generator heardBase.generator false)])).2
    (.build "app" none [.parent "base", .observe (.recorder "app"),
      .register (.generator heardApp.generator false)])).2

theorem heardLayer_known : heardLayer ∈ heardStart.built := .tail _ (.head _)

/-- The generator below has been asked for twice: once for a run that fails with the other one, and
once too late. -/
def heardWorld : World :=
  (step 4 (step 4 heardStart (.resolve "app" ⟨"B"⟩ {})).2
    (.resolve "app" ⟨"B"⟩ { deadline := some .zero })).2

theorem observers_are_told_in_order_heard :
    Orderly heardWorld ∧ heardLayer ∈ heardWorld.built ∧
    ⟨1, 0, .recorder "base"⟩ ∈ heardLayer.registrations ∧
    (heardWorld.trace.reverse.filterMap fun
      | .noticed (.recorder "base") notice => some notice
      | _ => none) =
      [.started 2 ⟨"B"⟩ heardApp.generator.signature, .delegated 2 ⟨"A"⟩ 1,
        .started 1 ⟨"A"⟩ heardBase.generator.signature,
        .failed 1 ⟨"A"⟩ heardBase.generator.signature
          (.failed ⟨"A"⟩ heardBase.generator.signature "boom"),
        .failed 2 ⟨"B"⟩ heardApp.generator.signature
          (.failed ⟨"A"⟩ heardBase.generator.signature "boom"),
        .failed 2 ⟨"B"⟩ heardApp.generator.signature (.canceled ⟨"B"⟩)] ∧
    ∃ tales, Told heardWorld.built [] heardWorld.trace tales ∧
      Registration.hears ⟨1, 0, .recorder "base"⟩ tales =
        tales.filter (fun tale => tale.layer.within 1) ∧
      Bracketed (Registration.hears ⟨1, 0, .recorder "base"⟩ tales).reverse := by
  have orderly : Orderly heardWorld := by
    refine .step (.step (.step (.step .initial 4 _ ?_ ?_ ?_) 4 _ ?_ ?_ ?_) 4 _ ?_ ?_ ?_) 4 _ ?_ ?_ ?_
      <;> decide +kernel
  have known : heardLayer ∈ heardWorld.built :=
    mem_built_step (mem_built_step heardLayer_known _ _) _ _
  have registered : ⟨1, 0, .recorder "base"⟩ ∈ heardLayer.registrations := by decide
  obtain ⟨-, tales, htold, -, hlayers⟩ := observers_are_told_in_order orderly
  obtain ⟨hhears, hbracketed⟩ := (hlayers heardLayer known).2 _ registered rfl
  exact ⟨orderly, known, registered, by decide +kernel, tales, htold, hhears, hbracketed⟩

end Session

end LayerGraph
