import LayerGraph.Proofs.Moments
import LayerGraph.Proofs.Termination

/-! What happens while no run begins, ends or fills a slot.

The runs in progress for a cancelled request come to their ends one after the other, and in between
the world is idle. -/

namespace LayerGraph

/-- The error says that something kept the generator of this type from being started. -/
def ResolutionError.Obstructs (key : Key) : ResolutionError → Prop
  | .cyclic about _ | .tooDeep about _ | .canceled about => about = key
  | _ => False

theorem Resolution.obstructs_of_obstacle? {layer : Layer} {key : Key} {source : Registered}
    {cyclic : Bool} {chain : Chain} {context : Context} {signals : Signals}
    {error : ResolutionError}
    (h : obstacle? layer key source cyclic chain context signals = some error) :
    error.Obstructs key := by
  rcases obstacle?_some h with ⟨-, rfl⟩ | ⟨-, rfl⟩ | ⟨-, rfl⟩ | ⟨-, rfl⟩ <;> rfl

def Event.IsAside : Event → Prop
  | .filled .. | .dropped .. | .attempted _ _ none => False
  | .noticed _ (.started ..) | .noticed _ (.finished ..) => False
  | .noticed _ (.failed _ key _ error) => error.Obstructs key
  | .logged (.running ..) | .logged (.finished ..) | .logged (.failed ..) => False
  | _ => True

namespace World

theorem Advances.lapsed {before after : World} (advances : before.Advances after)
    {context : Context} (lapsed : context.isCancelled before.signals = true) :
    context.isCancelled after.signals = true := by
  by_contra hlive
  rw [advances.live (Bool.not_eq_true _ ▸ hlive)] at lapsed
  cases lapsed

structure Idles (before after : World) : Prop where
  advances : before.Advances after
  filled : after.memory.filled = before.memory.filled
  trace : ∃ events, after.trace = events ++ before.trace ∧ ∀ event ∈ events, event.IsAside

namespace Idles

variable {world between after : World} {scope : Scope} {key : Key} {source : Registered}

theorem of_grows (grows : world.Grows after) (filled : after.memory.filled = world.memory.filled)
    (events : List Event) (trace : after.trace = events ++ world.trace)
    (aside : ∀ event ∈ events, event.IsAside) : world.Idles after :=
  ⟨grows.toAdvances, filled, events, trace, aside⟩

theorem lapsed (idles : world.Idles after) {context : Context}
    (lapsed : context.isCancelled world.signals = true) :
    context.isCancelled after.signals = true :=
  idles.advances.lapsed lapsed

theorem refl (world : World) : world.Idles world := of_grows (.refl world) rfl [] rfl (by simp)

theorem trans (hfirst : world.Idles between) (hsecond : between.Idles after) :
    world.Idles after := by
  obtain ⟨first, hfirst', hasideFirst⟩ := hfirst.trace
  obtain ⟨second, hsecond', hasideSecond⟩ := hsecond.trace
  refine ⟨hfirst.advances.trans hsecond.advances, hsecond.filled.trans hfirst.filled,
    second ++ first, by rw [hsecond', hfirst', List.append_assoc], fun event hevent => ?_⟩
  rcases List.mem_append.mp hevent with h | h
  · exact hasideSecond event h
  · exact hasideFirst event h

theorem emit (world : World) {event : Event} (aside : event.IsAside) :
    world.Idles (world.emit event) :=
  of_grows (.emit world event) rfl [event] rfl (by simpa using aside)

theorem sidestep (sidesteps : world.Sidesteps after) : world.Idles after :=
  of_grows (.sidestep sidesteps) (by rw [sidesteps.memory]) [] sidesteps.trace (by simp)

theorem hold (world : World) (held : List Site) : world.Idles { world with held } :=
  ⟨.hold world held, rfl, [], rfl, by simp⟩

theorem delegate (world : World) (scope : Scope) (key : Key) (parent : Scope) :
    world.Idles (world.delegate scope key parent) := by
  refine of_grows (.delegate world scope key parent) rfl
    (.logged (.delegating scope.id key parent.id) :: (scope.observers.map
      (Event.noticed · (.delegated scope.id key parent.id))).reverse) rfl fun event hevent => ?_
  rcases List.mem_cons.mp hevent with rfl | h
  · trivial
  · obtain ⟨observer, -, rfl⟩ := List.mem_map.mp (List.mem_reverse.mp h)
    trivial

theorem obstruct {chain : Chain} {error : ResolutionError} (obstructs : error.Obstructs key) :
    world.Idles (world.obstruct scope key source chain error) := by
  refine of_grows (.obstruct world scope key source chain error) rfl
    ((scope.observers.map (Event.noticed · (.failed scope.id key source.generator.signature
      error))).reverse ++ [.attempted (scope.site key) chain (some error)]) (by
        simp [World.obstruct, World.emitAll, World.emit]) fun event hevent => ?_
  rcases List.mem_append.mp hevent with h | h
  · obtain ⟨observer, -, rfl⟩ := List.mem_map.mp (List.mem_reverse.mp h)
    exact obstructs
  · obtain rfl := List.mem_singleton.mp h
    trivial

theorem enterBody (world : World) (scope : Scope) (source : Registered)
    (arguments : List Argument) : world.Idles (world.enterBody scope source arguments) :=
  of_grows (.enterBody world scope source arguments) rfl [_] rfl (by simp [Event.IsAside])

theorem enterCast (world : World) (site : Site) (binding : Binding) (payload : String) :
    world.Idles (world.enterCast site binding payload) :=
  of_grows (.enterCast world site binding payload) rfl [_] rfl (by simp [Event.IsAside])

theorem bind (world : World) (scope : Scope) (key : Key) (binding : Binding) (payload : String) :
    world.Idles (world.bind scope key binding payload) :=
  of_grows (.bind world scope key binding payload) rfl [_] rfl (by simp [Event.IsAside])

theorem hoist (world : World) (scope : Scope) (key : Key) (value : Value) :
    world.Idles (world.hoist scope key value) := by
  have hgrows := Grows.hoist world scope key value
  unfold World.hoist at hgrows ⊢
  split
  · next h =>
    rw [if_pos h] at hgrows
    exact of_grows hgrows rfl [] rfl (by simp)
  · exact refl world

theorem conclude (world : World) (layer : Layer) (key : Key) (result : Except Stop Answer) :
    world.Idles (world.conclude layer key result) := by
  rcases result with stop | (error | value)
  · exact refl world
  · exact of_grows (.conclude world layer key (.ok (.error error))) rfl [_, _] rfl
      (by simp [Event.IsAside])
  · exact of_grows (.conclude world layer key (.ok (.ok value))) rfl [_] rfl
      (by simp [Event.IsAside])

theorem of_run {α : Type} {perform : Command → Engine Reply} {act : Act Command α}
    {result : Except Stop α} (silent : act.Silent)
    (h : Engine.run perform act world = (result, after)) : world.Idles after := by
  induction act generalizing world with
  | done => exact (Prod.mk.inj h).2 ▸ refl world
  | panic => exact (Prod.mk.inj h).2 ▸ refl world
  | cancel name next ih =>
    refine trans (sidestep ?_) (ih silent h)
    dsimp only
    cases world.tokens.find? name with
    | some token => exact .cancel world token
    | none => exact .refl world
  | elapse time next ih => exact trans (sidestep (.elapse world time)) (ih silent h)
  | noteThread next ih => exact trans (@emit world (.thread world.thread) trivial) (ih silent h)
  | perform command next ih => exact silent.elim

theorem of_mem_passes {α : Type} {perform : Command → Engine Reply} {act : Act Command α}
    {result : Except Stop α} {moment : World} (silent : act.Silent)
    (h : Engine.run perform act world = (result, after))
    (hmoment : moment ∈ Engine.passes perform act world) : moment.Idles after := by
  induction act generalizing world with
  | done => exact List.mem_singleton.mp hmoment ▸ of_run (by trivial) h
  | panic => exact List.mem_singleton.mp hmoment ▸ of_run (by trivial) h
  | cancel name next ih =>
    rcases List.mem_cons.mp hmoment with rfl | hmoment
    · exact of_run silent h
    · exact ih silent h hmoment
  | elapse time next ih =>
    rcases List.mem_cons.mp hmoment with rfl | hmoment
    · exact of_run silent h
    · exact ih silent h hmoment
  | noteThread next ih =>
    rcases List.mem_cons.mp hmoment with rfl | hmoment
    · exact of_run silent h
    · exact ih silent h hmoment
  | perform command next ih => exact silent.elim

end Idles

/-- The runs come to their ends one after the other, each with the cancellation of what was asked of
it, and nothing else begins, ends or is filled. -/
def Subsides : Invocations → World → World → Prop
  | [], world, after => world.Idles after
  | run :: rest, world, after =>
    ∃ between, world.Idles between ∧
      Subsides rest (between.report run.scope run.requested run.source
        (.error (.canceled run.requested))) after

namespace Subsides

variable {runs more : Invocations} {world between after : World}

theorem idle (hfirst : world.Idles between) (hrest : Subsides runs between after) :
    Subsides runs world after := by
  cases runs with
  | nil => exact hfirst.trans hrest
  | cons run rest =>
    obtain ⟨next, hnext, hafter⟩ := hrest
    exact ⟨next, hfirst.trans hnext, hafter⟩

theorem trans (hfirst : Subsides runs world between) (hrest : Subsides more between after) :
    Subsides (runs ++ more) world after := by
  induction runs generalizing world with
  | nil => exact idle hfirst hrest
  | cons run rest ih =>
    obtain ⟨next, hnext, hbetween⟩ := hfirst
    exact ⟨next, hnext, ih hbetween⟩

theorem fail (run : Invocation) (hfirst : world.Idles between) :
    Subsides [run] world (between.report run.scope run.requested run.source
      (.error (.canceled run.requested))) :=
  ⟨between, hfirst, .refl _⟩

theorem advances (subsides : Subsides runs world after) : world.Advances after := by
  induction runs generalizing world with
  | nil => exact Idles.advances subsides
  | cons run rest ih =>
    obtain ⟨next, hnext, hafter⟩ := subsides
    exact (hnext.advances.trans (Grows.report next _ _ _ _).toAdvances).trans (ih hafter)

theorem filled (subsides : Subsides runs world after) :
    after.memory.filled = world.memory.filled := by
  induction runs generalizing world with
  | nil => exact Idles.filled subsides
  | cons run rest ih =>
    obtain ⟨next, hnext, hafter⟩ := subsides
    rw [ih hafter, Resolution.report_memory, hnext.filled]

theorem lapsed (subsides : Subsides runs world after) {context : Context}
    (lapsed : context.isCancelled world.signals = true) :
    context.isCancelled after.signals = true :=
  subsides.advances.lapsed lapsed

end Subsides

end World

/-- The run has come to nothing: its slots have what they had when it began, the one that was asked
for is empty, and nothing but its context keeps its generator from being started for it anew. -/
structure Invocation.Interrupted (run : Invocation) (world : World) : Prop where
  slot : ∃ eager, run.scope.slots.find? run.requested = some (.generated run.source eager false)
  room : 0 < run.scope.settings.maxDepth
  empty : world.memory.filled.find? (run.scope.site run.requested) = none
  unfilled : ∀ site ∈ run.scope.locks run.source,
    world.memory.filled.find? site = run.begun.memory.filled.find? site

theorem Invocation.Interrupted.of_filled {run : Invocation} {world after : World}
    (interrupted : run.Interrupted world) (h : after.memory.filled = world.memory.filled) :
    run.Interrupted after where
  slot := interrupted.slot
  room := interrupted.room
  empty := by rw [h, interrupted.empty]
  unfilled site hsite := by rw [h, interrupted.unfilled site hsite]

namespace Moment

def Abandons (moment : Moment) (runs : Invocations) (after : World) (inner : Invocations) : Prop :=
  moment.runs = inner ++ runs ∧ moment.world.Subsides inner after ∧
    ∀ run ∈ inner, run.Interrupted after

theorem Abandons.idle {moment : Moment} {runs inner : Invocations} {between after : World}
    (abandons : moment.Abandons runs between inner) (idles : between.Idles after) :
    moment.Abandons runs after inner := by
  obtain ⟨hruns, hsubsides, hinterrupted⟩ := abandons
  refine ⟨hruns, ?_, fun run hrun => (hinterrupted run hrun).of_filled idles.filled⟩
  have hafter : moment.world.Subsides (inner ++ []) after := hsubsides.trans idles
  rwa [List.append_nil] at hafter

def Settles (moment : Moment) (runs : Invocations) (answer : Answer) (after : World) : Prop :=
  ∃ inner, moment.Abandons runs after inner ∧ ∀ outermost, inner.getLast? = some outermost →
    answer = .error (.canceled outermost.requested)

theorem Settles.of_idles {moment : Moment} {runs : Invocations} {after : World}
    (hruns : moment.runs = runs) (idles : moment.world.Idles after) (answer : Answer) :
    moment.Settles runs answer after :=
  ⟨[], ⟨hruns, idles, by simp⟩, by simp⟩

theorem Settles.idle {moment : Moment} {runs : Invocations} {answer : Answer}
    {between after : World} (settles : moment.Settles runs answer between)
    (idles : between.Idles after) : moment.Settles runs answer after := by
  obtain ⟨inner, habandons, hanswer⟩ := settles
  exact ⟨inner, habandons.idle idles, hanswer⟩

theorem Abandons.lapsed {moment : Moment} {runs inner : Invocations} {after : World}
    (abandons : moment.Abandons runs after inner) {context : Context}
    (lapsed : context.isCancelled moment.world.signals = true) :
    context.isCancelled after.signals = true :=
  abandons.2.1.lapsed lapsed

theorem Abandons.fail {moment : Moment} {run : Invocation} {runs inner : Invocations}
    {answer : Answer} {between after : World}
    (abandons : moment.Abandons (run :: runs) between inner)
    (ends : World.Subsides [run] between after) (interrupted : run.Interrupted after)
    (hanswer : answer = .error (.canceled run.requested)) : moment.Settles runs answer after := by
  obtain ⟨hruns, hsubsides, hinner⟩ := abandons
  refine ⟨inner ++ [run], ⟨?_, hsubsides.trans ends, fun other hother => ?_⟩, ?_⟩
  · rw [hruns, List.append_assoc, List.singleton_append]
  · rcases List.mem_append.mp hother with h | h
    · exact (hinner other h).of_filled ends.filled
    · obtain rfl := List.mem_singleton.mp h
      exact interrupted
  · intro outermost houtermost
    rw [List.getLast?_concat] at houtermost
    obtain rfl := Option.some.inj houtermost
    exact hanswer

theorem Abandons.idles {moment : Moment} {runs inner : Invocations} {after : World}
    (abandons : moment.Abandons runs after inner) (hruns : moment.runs = runs) :
    moment.world.Idles after := by
  obtain ⟨hinner, hsubsides, -⟩ := abandons
  obtain rfl : inner = [] := List.self_eq_append_left.mp (hruns.symm.trans hinner)
  exact hsubsides

theorem Settles.idles {moment : Moment} {runs : Invocations} {value : Value} {after : World}
    (settles : moment.Settles runs (.ok value) after) :
    moment.runs = runs ∧ moment.world.Idles after := by
  obtain ⟨inner, habandons, hanswer⟩ := settles
  have hinner : inner = [] := by
    rcases List.eq_nil_or_concat inner with h | ⟨rest, last, rfl⟩
    · exact h
    · cases hanswer last (by simp)
  subst hinner
  exact ⟨habandons.1, habandons.2.1⟩

end Moment

end LayerGraph
