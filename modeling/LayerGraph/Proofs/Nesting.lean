import LayerGraph.Proofs.Calls
import LayerGraph.Proofs.CompletedCourses
import LayerGraph.Proofs.Propagation

/-! How deep runs nest while a request is answered.

As long as generators and casts give no commands, the events of a request tell of runs like a stack:
a run that begins is put on top, and only the one on top ends. Whenever an empty slot is found, the
stack is the chain that comes with the attempt, so that the limits on its length are limits on how
deep runs nest. -/

namespace LayerGraph

open Relation

def Frame.site (frame : Frame) : Site := ⟨frame.layer, frame.requested⟩

def Layer.HasRoom (top : Layer) (id depth : Nat) : Prop :=
  ∃ scope ∈ top.ancestry, scope.id = id ∧ depth < scope.settings.maxDepth

namespace Event

/-- The slots that runs are in progress for after an event, given those before, innermost first. -/
def nest (running : List Site) : Event → List Site
  | .logged (.running layer key _ _) => ⟨layer, key⟩ :: running
  | .logged (.finished _ _) | .logged (.failed _ _ _) => running.tail
  | _ => running

/-- What an event tells is right with runs in progress for these slots: the chain of an attempt and
the depth of a run are theirs, only the innermost run ends, and a generator is started only if its
layer allows for one more run. -/
def Fits (top : Layer) (running : List Site) : Event → Prop
  | .attempted site chain obstacle =>
    chain.map Frame.site = running ∧ (obstacle = none → top.HasRoom site.layer running.length)
  | .noticed _ (.started layer _ _) => top.HasRoom layer running.length
  | .logged (.running layer _ _ depth) =>
    depth = running.length + 1 ∧ top.HasRoom layer running.length
  | .logged (.finished layer key) | .logged (.failed layer key _) =>
    running.head? = some ⟨layer, key⟩
  | _ => True

theorem IsMute.fits {event : Event} (mute : event.IsMute) (top : Layer) (running : List Site) :
    event.Fits top running := by
  unfold Fits
  split <;> first | exact mute.elim | trivial

theorem IsMute.nest_eq {event : Event} (mute : event.IsMute) (running : List Site) :
    event.nest running = running := by
  unfold nest
  split <;> first | exact mute.elim | rfl

end Event

/-- The slots that runs are in progress for after events, newest first, given those before. -/
def underway (outer : List Site) (events : List Event) : List Site :=
  events.foldr (fun event running => event.nest running) outer

@[simp] theorem underway_append (outer : List Site) (later earlier : List Event) :
    underway outer (later ++ earlier) = underway (underway outer earlier) later :=
  List.foldr_append

def Paced (top : Layer) (outer : List Site) : List Event → Prop
  | [] => True
  | event :: earlier => event.Fits top (underway outer earlier) ∧ Paced top outer earlier

namespace Paced

variable {top : Layer} {outer : List Site} {events later earlier : List Event}

theorem append (hearlier : Paced top outer earlier)
    (hlater : Paced top (underway outer earlier) later) : Paced top outer (later ++ earlier) := by
  induction later with
  | nil => exact hearlier
  | cons event rest ih =>
    refine ⟨?_, ih hlater.2⟩
    show event.Fits top (underway outer (rest ++ earlier))
    rw [underway_append]
    exact hlater.1

theorem fits {event : Event} (paced : Paced top outer (later ++ event :: earlier)) :
    event.Fits top (underway outer earlier) := by
  induction later with
  | nil => exact paced.1
  | cons other rest ih => exact ih paced.2

theorem of_append (paced : Paced top outer (later ++ earlier)) : Paced top outer earlier := by
  induction later with
  | nil => exact paced
  | cons event rest ih => exact ih paced.2

theorem of_mute (mute : ∀ event ∈ events, event.IsMute) :
    Paced top outer events ∧ underway outer events = outer := by
  induction events with
  | nil => exact ⟨trivial, rfl⟩
  | cons event rest ih =>
    obtain ⟨hevent, hrest⟩ := List.forall_mem_cons.mp mute
    obtain ⟨hpaced, hunderway⟩ := ih hrest
    exact ⟨⟨hevent.fits _ _, hpaced⟩, (hevent.nest_eq _).trans hunderway⟩

theorem length_le {limit : Nat} (paced : Paced top outer events)
    (limits : ∀ scope ∈ top.ancestry, scope.settings.maxDepth ≤ limit)
    (houter : outer.length ≤ limit) : (underway outer events).length ≤ limit := by
  induction events with
  | nil => exact houter
  | cons event earlier ih =>
    obtain ⟨hfits, hearlier⟩ := paced
    have hle : (underway outer earlier).length ≤ limit := ih hearlier
    show (event.nest (underway outer earlier)).length ≤ limit
    unfold Event.nest
    split
    · obtain ⟨-, scope, hscope, -, hroom⟩ := hfits
      have hlimit := limits scope hscope
      simp only [List.length_cons]
      omega
    · simp only [List.length_tail]
      omega
    · simp only [List.length_tail]
      omega
    · exact hle

end Paced

/-- From the first world to the second one, events have happened each of which was right with the
runs in progress, those given at first and those in the end. -/
def World.Paces (before : World) (top : Layer) (outer : List Site) (after : World)
    (running : List Site) : Prop :=
  ∃ events, after.trace = events ++ before.trace ∧ Paced top outer events ∧
    underway outer events = running

namespace World.Paces

variable {before world after : World} {top : Layer} {outer running : List Site} {scope : Scope}
  {key : Key} {source : Registered} {chain : Chain}

theorem refl (world : World) (top : Layer) (running : List Site) :
    world.Paces top running world running :=
  ⟨[], rfl, trivial, rfl⟩

theorem trans {between : World} {amid : List Site} (hfirst : before.Paces top outer between amid)
    (hsecond : between.Paces top amid after running) : before.Paces top outer after running := by
  obtain ⟨earlier, hearlier, hpaced, rfl⟩ := hfirst
  obtain ⟨later, hlater, hpaced', rfl⟩ := hsecond
  refine ⟨later ++ earlier, ?_, hpaced.append hpaced', underway_append ..⟩
  rw [hlater, hearlier, List.append_assoc]

theorem tell (event : Event) (fits : event.Fits top running) :
    world.Paces top running (world.emit event) (event.nest running) :=
  ⟨[event], rfl, ⟨fits, trivial⟩, rfl⟩

theorem mute (events : List Event) (trace : after.trace = events ++ world.trace)
    (h : ∀ event ∈ events, event.IsMute) : world.Paces top running after running := by
  obtain ⟨hpaced, hunderway⟩ := Paced.of_mute h
  exact ⟨events, trace, hpaced, hunderway⟩

theorem noticed (scope : Scope) (notice : Notice)
    (fits : ∀ observer, Event.Fits top running (.noticed observer notice)) :
    world.Paces top running
      (world.emitAll (scope.observers.map (Event.noticed · notice))) running := by
  refine ⟨_, rfl, ?_⟩
  rw [← List.map_reverse]
  induction scope.observers.reverse with
  | nil => exact ⟨trivial, rfl⟩
  | cons observer rest ih =>
    obtain ⟨hpaced, hunderway⟩ := ih
    refine ⟨⟨?_, hpaced⟩, hunderway⟩
    rw [hunderway]
    exact fits observer

theorem obstruct {error : ResolutionError} (hchain : chain.map Frame.site = running) :
    world.Paces top running (world.obstruct scope key source chain error) running :=
  .trans (.tell (.attempted (scope.site key) chain (some error)) ⟨hchain, nofun⟩)
    (noticed scope (.failed scope.id key source.generator.signature error) fun _ => trivial)

theorem start (hchain : chain.map Frame.site = running) (known : scope ∈ top.ancestry)
    (room : chain.length < scope.settings.maxDepth) :
    world.Paces top running (world.start scope key source chain) (scope.site key :: running) := by
  have hlength : chain.length = running.length := by rw [← hchain, List.length_map]
  have hroom : top.HasRoom scope.id running.length := ⟨scope, known, rfl, hlength ▸ room⟩
  have hattempt : world.Paces top running
      { world.emit (.attempted (scope.site key) chain none) with
        held := scope.locks source ++ world.held } running :=
    ⟨[_], rfl, ⟨⟨hchain, fun _ => hroom⟩, trivial⟩, rfl⟩
  have hnoticed := hattempt.trans
    (noticed scope (.started scope.id key source.generator.signature) fun _ => hroom)
  exact hnoticed.trans
    (.tell (.logged (.running scope.id key source.generator.signature (chain.length + 1)))
      ⟨by rw [hlength], hroom⟩)

theorem report (answer : Answer) :
    world.Paces top (scope.site key :: running) (world.report scope key source answer) running := by
  cases answer with
  | ok value =>
    exact .trans (.tell (.logged (.finished scope.id key)) rfl)
      (noticed scope (.finished scope.id key source.generator.signature) fun _ => trivial)
  | error error =>
    exact .trans (.tell (.logged (.failed scope.id key error)) rfl)
      (noticed scope (.failed scope.id key source.generator.signature error) fun _ => trivial)

theorem delegate (parent : Scope) :
    world.Paces top running (world.delegate scope key parent) running :=
  .trans (noticed scope (.delegated scope.id key parent.id) fun _ => trivial)
    (.tell (.logged (.delegating scope.id key parent.id)) trivial)

theorem hoist (value : Value) : world.Paces top running (world.hoist scope key value) running := by
  unfold World.hoist
  split
  · exact .mute [] rfl (by simp)
  · exact .refl world top running

theorem silent {α : Type} {perform : Command → Engine Reply} {act : Act Command α}
    {result : Except Stop α} (silent : act.Silent)
    (h : Engine.run perform act world = (result, after)) :
    world.Paces top running after running := by
  have hkeeps : Engine.Keeps (fun after => world.Paces top running after running)
      (Engine.run perform act) :=
    silent.keeps_aside (fun h sidesteps => h.trans (.mute [] sidesteps.trace (by simp)))
      fun name h => h.trans (.mute [.thread name] rfl (by simp [Event.IsMute]))
  have hafter := hkeeps world (.refl world top running)
  rwa [h] at hafter

theorem conclude (layer : Layer) {key : Key} (result : Except Stop Answer) :
    world.Paces top running (world.conclude layer key result) running := by
  rcases result with stop | (error | value)
  · exact .refl world top running
  · exact .mute [_, _] rfl (by simp [Event.IsMute])
  · exact .mute [_] rfl (by simp [Event.IsMute])

theorem finish (layer : Layer) (context : Context) (result : Except ResolutionError Yield) :
    world.Paces top (layer.scope.site key :: running)
      (Resolution.finish layer key source context result world).2 running := by
  refine .trans (Resolution.outcome_keeps
    (fun after => world.Paces top _ after (layer.scope.site key :: running))
    (fun _ _ delivery _ between h => h.trans ?_) (.refl world top _)) (.report _)
  obtain ⟨event, arrival, htrace⟩ := between.deliver_trace delivery
  have mute : event.IsMute := by
    cases event with
    | filled | dropped => trivial
    | _ => exact arrival.elim
  exact .mute [event] htrace (by simpa using mute)

end World.Paces

namespace Resolution

variable {fuel : Nat} {layer top : Layer} {key : Key} {source : Registered} {chain : Chain}
  {context : Context} {world after : World} {result : Except Stop Answer} {running : List Site}

theorem Gathers.paces {supplies : List Supply} {inquiries : List Inquiry}
    {gathered : Except Stop (Except ResolutionError (List Argument))}
    (gathers : Gathers layer context supplies inquiries world gathered after)
    (h : ∀ inquiry ∈ inquiries, ∃ amid, inquiry.before.Paces top running inquiry.after amid ∧
      ∀ answer, inquiry.result = .ok answer → amid = running) :
    ∃ amid, world.Paces top running after amid ∧
      ∀ collected, gathered = .ok collected → amid = running := by
  induction gathers with
  | done => exact ⟨running, .refl _ top running, fun _ _ => rfl⟩
  | @given supply rest inquiries world gathered after unasked willing further ih =>
    obtain ⟨amid, hpaces, hamid⟩ := ih h
    refine ⟨amid, hpaces, fun collected hcollected => ?_⟩
    cases gathered with
    | error stop => cases hcollected
    | ok found => exact hamid found rfl
  | declined unasked refusal => exact ⟨running, .refl _ top running, fun _ _ => rfl⟩
  | stopped asked =>
    obtain ⟨amid, hpaces, -⟩ := h _ List.mem_cons_self
    exact ⟨amid, hpaces, nofun⟩
  | refused asked unacceptable =>
    obtain ⟨amid, hpaces, hamid⟩ := h _ List.mem_cons_self
    exact ⟨amid, hpaces, fun _ _ => hamid _ rfl⟩
  | @found supply rest inquiries key before answer between argument gathered after asked acceptable
      further ih =>
    obtain ⟨amid, hpaces, hamid⟩ := ih fun other hother => h other (List.mem_cons_of_mem _ hother)
    obtain ⟨first, hfirst, hsame⟩ := h _ List.mem_cons_self
    obtain rfl := hsame _ rfl
    refine ⟨amid, hfirst.trans hpaces, fun collected hcollected => ?_⟩
    cases gathered with
    | error stop => cases hcollected
    | ok found => exact hamid found rfl

theorem Ends.paces {perform : Command → Engine Reply} {before : World} {outer amid : List Site}
    {gathered : Except Stop (Except ResolutionError (List Argument))}
    (ends : Ends perform layer key source context world gathered result after)
    (silent : ∀ run arguments, (source.generator.body run arguments).Silent)
    (paces : before.Paces top outer world amid)
    (inside : ∀ collected, gathered = .ok collected → amid = layer.scope.site key :: running) :
    ∃ last, before.Paces top outer after last ∧ ∀ answer, result = .ok answer → last = running := by
  cases ends with
  | unsupplied => exact ⟨amid, paces, nofun⟩
  | @refused error =>
    obtain rfl := inside _ rfl
    exact ⟨running, paces.trans (.finish layer context (.error error)), fun _ _ => rfl⟩
  | broken body =>
    refine ⟨amid, paces.trans (.trans ?_ (.silent (silent _ _) body)), nofun⟩
    exact .mute [_] rfl (by simp [Event.IsMute])
  | @returned arguments yield last body =>
    obtain rfl := inside _ rfl
    have hbody : world.Paces top (layer.scope.site key :: running) last
        (layer.scope.site key :: running) :=
      .trans (.mute [_] rfl (by simp [Event.IsMute])) (.silent (silent _ _) body)
    have hreturned : world.Paces top (layer.scope.site key :: running)
        (last.emit (.returned layer.scope.id source.place (world.nextRun layer.scope source) yield))
        (layer.scope.site key :: running) :=
      hbody.trans (.mute [_] rfl (by simp [Event.IsMute]))
    exact ⟨running, (paces.trans hreturned).trans (.finish layer context (.ok yield)),
      fun _ _ => rfl⟩

theorem Binds.paces {perform : Command → Engine Reply} {scope : Scope} {binding : Binding}
    {value : Value} (binds : Binds perform scope key binding value world result after)
    (silent : ∀ call payload, (binding.cast.apply call payload).Silent) :
    world.Paces top running after running := by
  cases binds with
  | mistyped => exact .refl world top running
  | broken typed cast =>
    exact .trans (.mute [_] rfl (by simp [Event.IsMute])) (.silent (silent _ _) cast)
  | bound typed cast =>
    have hcast : world.Paces top running _ running :=
      .trans (.mute [_] rfl (by simp [Event.IsMute])) (.silent (silent _ _) cast)
    exact hcast.trans (.mute [_] rfl (by simp [Event.IsMute]))

/-- The runs that a request begins have ended when it is answered. -/
theorem Resolves.paces (resolves : Resolves fuel layer key chain context world result after)
    (silent : ∀ scope ∈ layer.ancestry, scope.Silent) (within : layer.ancestry ⊆ top.ancestry) :
    ∃ last, world.Paces top (chain.map Frame.site) after last ∧
      ∀ answer, result = .ok answer → last = chain.map Frame.site := by
  induction resolves with
  | stored => exact ⟨_, .tell (.logged (.slotHit _ _)) trivial, fun _ _ => rfl⟩
  | exhausted | bound | unbacked | imported | missing => exact ⟨_, .refl _ _ _, fun _ _ => rfl⟩
  | obstructed => exact ⟨_, .obstruct rfl, fun _ _ => rfl⟩
  | @blocked fuel scope outer key chain context world source eager cyclic slot empty free locked =>
    have hroom : top.HasRoom scope.id (chain.map Frame.site).length := by
      obtain ⟨-, -, hroom, -⟩ := obstacle?_eq_none_iff.mp free
      exact ⟨scope, within List.mem_cons_self, rfl, by rwa [List.length_map]⟩
    exact ⟨_, .tell (.attempted (scope.site key) chain none) ⟨rfl, fun _ => hroom⟩, nofun⟩
  | @run fuel scope outer key chain context world source inquiries gathered between result after
      starts answers ends ih =>
    obtain ⟨eager, cyclic, slot, free⟩ := starts.slot
    obtain ⟨-, -, hroom, -⟩ := obstacle?_eq_none_iff.mp free
    have hstart : world.Paces top (chain.map Frame.site) (world.start scope key source chain)
        (scope.site key :: chain.map Frame.site) := .start rfl (within List.mem_cons_self) hroom
    obtain ⟨amid, hgathers, hamid⟩ := starts.gathers.paces fun inquiry hinquiry =>
      ih inquiry hinquiry silent within
    exact ends.paces ((silent scope List.mem_cons_self).bodies key source eager cyclic slot)
      (hstart.trans hgathers) hamid
  | unsourced noSlot interface unbound behind answer lost ih => exact ih silent within
  | @cast fuel scope outer key chain context world binding backing value between result after
      noSlot interface unbound behind answer binds ih =>
    obtain ⟨last, hpaces, hlast⟩ := ih silent within
    obtain rfl := hlast _ rfl
    exact ⟨_, hpaces.trans
      (binds.paces ((silent scope List.mem_cons_self).casts key binding interface)), fun _ _ => rfl⟩
  | @unavailable fuel scope parent further key chain context world result after unowned unknown
      answer lost ih =>
    obtain ⟨last, hpaces, hlast⟩ := ih (fun other h => silent other (List.mem_cons_of_mem _ h))
      fun other h => within (List.mem_cons_of_mem _ h)
    exact ⟨last, (World.Paces.delegate parent).trans hpaces, hlast⟩
  | @delegated fuel scope parent further key chain context world value between unowned unknown
      answer ih =>
    obtain ⟨last, hpaces, hlast⟩ := ih (fun other h => silent other (List.mem_cons_of_mem _ h))
      fun other h => within (List.mem_cons_of_mem _ h)
    obtain rfl := hlast _ rfl
    exact ⟨_, ((World.Paces.delegate parent).trans hpaces).trans (.hoist value), fun _ _ => rfl⟩

theorem obstacle?_tooDeep {cyclic : Bool} {signals : Signals} {found : Key} {limit : Nat}
    (h : obstacle? layer key source cyclic chain context signals = some (.tooDeep found limit)) :
    chain.claims layer.scope.id key = false ∧ found = key ∧
      limit = layer.scope.settings.maxDepth ∧ limit ≤ chain.length := by
  unfold obstacle? at h
  dsimp only at h
  split_ifs at h with claimed flagged deep lapsed
  · cases h
  · cases h
  · obtain ⟨rfl, rfl⟩ := ResolutionError.tooDeep.inj (Option.some.inj h)
    exact ⟨Bool.eq_false_iff.mpr claimed, rfl, rfl, deep⟩
  · cases h

section

variable {found : Key} {limit : Nat}

theorem Gathers.tooDeep {supplies : List Supply} {inquiries : List Inquiry}
    {gathered : Except Stop (Except ResolutionError (List Argument))}
    (gathers : Gathers layer context supplies inquiries world gathered after)
    (h : gathered = .ok (.error (.tooDeep found limit))) :
    ∃ inquiry ∈ inquiries, inquiry.result = .ok (.error (.tooDeep found limit)) := by
  obtain ⟨supply, hsupply, refusal | ⟨inquiry, hinquiry, answer, asked, hanswer, unacceptable⟩⟩ :=
    gathers.failed h
  · obtain ⟨_, _, _, _, herror⟩ := Supply.refusal?_failed refusal
    cases herror
  · rcases accept_error unacceptable with rfl | ⟨hmismatch, -⟩
    · exact ⟨inquiry, hinquiry, hanswer⟩
    · cases hmismatch

/-- Whoever is answered that runs nest too deep is told so because some attempt was refused. -/
theorem Resolves.tooDeep (resolves : Resolves fuel layer key chain context world result after)
    (h : result = .ok (.error (.tooDeep found limit))) :
    ∃ attempt : Attempted, attempt.In after.trace ∧ world.trace <:+ attempt.past ∧
      attempt.obstacle = some (.tooDeep found limit) := by
  induction resolves with
  | stored | exhausted | blocked | bound | unbacked | imported | missing | delegated => cases h
  | @obstructed fuel scope outer key chain context world source eager cyclic error slot empty
      obstacle =>
    obtain rfl := Except.error.inj (Except.ok.inj h)
    exact ⟨⟨scope.site key, chain, _, world.trace⟩, ⟨_, rfl⟩, List.suffix_rfl, rfl⟩
  | @run fuel scope outer key chain context world source inquiries gathered between result after
      starts answers ends ih =>
    obtain ⟨inquiry, hinquiry, hresult⟩ := starts.gathers.tooDeep ((ends.failed h).resolve_right nofun)
    obtain ⟨attempt, hin, hpast, hobstacle⟩ := ih inquiry hinquiry hresult
    have hgrows := fun other hother => (answers other hother).grows
    have hbefore := starts.gathers.before (fun before => world.trace <:+ before.trace)
      (fun other hother hother' => hother'.trans (hgrows other hother).trace)
      (World.Advances.start world scope key source chain).trace
    have hafter : inquiry.after.trace <:+ after.trace :=
      (starts.gathers.onward hgrows inquiry hinquiry).trace.trans
        (ends.grows (Session.handler_grows _)).1.trace
    exact ⟨attempt, hin.trans hafter, (hbefore inquiry hinquiry).trans hpast, hobstacle⟩
  | unsourced noSlot interface unbound behind answer lost ih => exact ih h
  | cast noSlot interface unbound behind answer binds ih =>
    cases binds with
    | mistyped | broken | bound => cases h
  | @unavailable fuel scope parent further key chain context world result after unowned unknown
      answer lost ih =>
    obtain ⟨attempt, hin, hpast, hobstacle⟩ := ih h
    exact ⟨attempt, hin, (World.Grows.delegate world scope key parent).trace.trans hpast, hobstacle⟩

end

end Resolution

def Invocation.mark (run : Invocation) : Nat × Nat := (run.scope.id, run.source.place)

/-- The runs in progress below a request of a layer are of different generators of the layer and
those around it. -/
theorem Invocations.marks_nodup {runs : Invocations} {top : Layer} (climbs : runs.chain.Climbs top)
    (placed : ∀ run ∈ runs, run.frame.RunsIn top run.scope run.source) (proper : top.Proper) :
    (runs.map Invocation.mark).Nodup ∧ runs.map Invocation.mark ⊆ top.generators := by
  have hapart : runs.Pairwise fun later earlier =>
      earlier.frame.claims later.frame.layer later.frame.requested = false :=
    List.pairwise_map.mp climbs.apart
  refine ⟨List.pairwise_map.mpr (hapart.imp_of_mem fun hlater hearlier unclaimed => ?_),
    List.forall_mem_map.mpr fun run hrun => (placed run hrun).mark_mem⟩
  exact (placed _ hlater).mark_ne (placed _ hearlier) proper unclaimed

/-- An attempt is refused for its depth with the limit of its layer, and with at least so many runs
in progress. None of them is of the generator that was to be started, nor two of one generator. -/
theorem Call.Meets.tooDeep {top : Layer} {requested : Key} {context : Context} {call : Call}
    {attempt : Attempted} {found : Key} {limit : Nat} (meets : call.Meets context attempt)
    (belongs : call.Belongs top requested context) (proper : top.Proper)
    (h : attempt.obstacle = some (.tooDeep found limit)) :
    found = call.key ∧ limit = call.layer.scope.settings.maxDepth ∧ limit ≤ call.runs.length ∧
      ∃ source eager cyclic,
        call.layer.scope.slots.find? call.key = some (.generated source eager cyclic) ∧
        ((call.layer.scope.id, source.place) :: call.runs.map Invocation.mark).Nodup ∧
        limit < top.generatorCount := by
  obtain ⟨source, eager, cyclic, slot, hobstacle⟩ := meets.slot
  obtain ⟨unclaimed, rfl, hlimit, hlength⟩ := Resolution.obstacle?_tooDeep (hobstacle.symm.trans h)
  -- The run that the generator was refused would have been one more.
  let run := Resolution.runAt call.layer call.key source call.runs call.world
  have hplaced : ∀ other ∈ run :: call.runs, other.frame.RunsIn top other.scope other.source :=
    List.forall_mem_cons.mpr
      ⟨⟨belongs.scope_mem, rfl, ⟨eager, cyclic, slot⟩, rfl⟩, belongs.placed⟩
  have hclimbs : Chain.Climbs (Invocations.chain (run :: call.runs)) top :=
    belongs.climbs.push belongs.scope_mem slot unclaimed
  obtain ⟨hnodup, hsubset⟩ := Invocations.marks_nodup hclimbs hplaced proper
  have hcount := (List.subperm_of_subset hnodup hsubset).length_le
  rw [Layer.length_generators, List.length_map, List.length_cons] at hcount
  have hruns : limit ≤ call.runs.length := by rwa [Invocations.chain, List.length_map] at hlength
  exact ⟨rfl, hlimit, hruns, source, eager, cyclic, slot, hnodup, by omega⟩

theorem Attempted.In.not_past {attempt : Attempted} {trace : List Event} (h : attempt.In trace) :
    ¬ trace <:+ attempt.past := by
  intro hpast
  have hlonger := h.length_le
  have hshorter := hpast.length_le
  rw [List.length_cons] at hlonger
  omega

theorem Attempted.In.recent {attempt : Attempted} {events trace : List Event}
    (h : attempt.In (events ++ trace)) (hpast : trace <:+ attempt.past) :
    ∃ later earlier,
      events = later ++ .attempted attempt.site attempt.chain attempt.obstacle :: earlier := by
  obtain ⟨later, hlater⟩ := h
  rcases split_append hlater.symm with ⟨between, hevents, -⟩ | ⟨between, -, htrace⟩
  · exact ⟨later, between, hevents⟩
  · have hold : attempt.In trace := ⟨between, htrace.symm⟩
    exact absurd hpast hold.not_past

namespace Session

open Resolution

variable {fuel : Nat} {layer : Layer} {key : Key} {context : Context} {world : World}

/-- The events of a request of silent code are right with the runs that they tell of, all of which
have ended when it is answered. -/
theorem request_paces (silent : ∀ scope ∈ layer.ancestry, scope.Silent) :
    ∃ last, world.Paces layer [] (layer.request (resolver fuel) key context world).2 last ∧
      ∀ answered, (layer.request (resolver fuel) key context world).1 = .ok answered → last = [] := by
  have hresolves := resolver_resolves fuel layer key [] context
    (world.emit (.asked (layer.scope.site key)))
  obtain ⟨last, hpaces, hlast⟩ := hresolves.paces silent (List.Subset.refl layer.ancestry)
  have hasked : world.Paces layer [] (world.emit (.asked (layer.scope.site key))) [] :=
    .tell (.asked (layer.scope.site key)) trivial
  refine ⟨last, (hasked.trans hpaces).trans ?_, fun answered h => ?_⟩
  · rw [Layer.request_world]
    exact .conclude layer _
  · obtain ⟨answer, between, hresolve, -⟩ := Layer.request_inv (Prod.ext h rfl)
    exact hlast answer (by rw [hresolve])

theorem request_tooDeep {found : Key} {limit : Nat} {snapshot : Option Dump}
    (h : (layer.request (resolver fuel) key context world).1 =
      .ok (.error ⟨.tooDeep found limit, snapshot⟩)) :
    ∃ attempt : Attempted,
      attempt.In (layer.request (resolver fuel) key context world).2.trace ∧
      world.trace <:+ attempt.past ∧ attempt.obstacle = some (.tooDeep found limit) := by
  obtain ⟨answer, between, hresolve, hafter⟩ := Layer.request_inv (Prod.ext h rfl)
  have hresolves := resolver_resolves fuel layer key [] context
    (world.emit (.asked (layer.scope.site key)))
  rw [hresolve] at hresolves
  obtain ⟨other, hrequest⟩ := Layer.request_answered (congrArg Prod.fst hresolve)
  have hanswer : answer = .error (.tooDeep found limit) := by
    have hsame := Except.ok.inj (hrequest.symm.trans h)
    rcases answer with error | value
    · exact congrArg Except.error (Failure.mk.inj (Except.error.inj hsame)).1
    · cases hsame
  obtain ⟨attempt, hin, hpast, hobstacle⟩ := hresolves.tooDeep (congrArg Except.ok hanswer)
  refine ⟨attempt, hin.trans ?_, (List.suffix_cons _ _).trans hpast, hobstacle⟩
  have hafter : (layer.request (resolver fuel) key context world).2 =
      between.conclude layer key (.ok answer) := hafter
  rw [hafter]
  exact (World.Grows.conclude between layer key (.ok answer)).trace

/-- The limits on nesting are exact. Let no code that a request may run give commands; the limits of
the layers may differ, and generators may ask for types that they do not declare. Then each event of
the request is right with the runs in progress. In particular a generator is started only if these
are fewer than its layer allows for, so that under limits that are all the same runs nest no deeper;
and when the request is answered, none is left. An attempt is refused for its depth only with the
limit of its layer, with at least so many runs in progress, and with no two of these and the refused
one of one generator. So a layer that allows for as many runs as there are generators never refuses
any, and whoever is told that runs nest too deep is told of such an attempt. -/
theorem depth_limits_are_exact (reachable : Reachable world) (known : layer ∈ world.built)
    (silent : ∀ scope ∈ layer.ancestry, scope.Silent) (fuel : Nat) (key : Key) (context : Context) :
    ∃ events,
      (layer.request (resolver fuel) key context world).2.trace = events ++ world.trace ∧
      (∀ later event earlier, events = later ++ event :: earlier →
        event.Fits layer (underway [] earlier)) ∧
      (∀ limit, (∀ scope ∈ layer.ancestry, scope.settings.maxDepth ≤ limit) →
        ∀ earlier, earlier <:+ events → (underway [] earlier).length ≤ limit) ∧
      (∀ answered, (layer.request (resolver fuel) key context world).1 = .ok answered →
        underway [] events = []) ∧
      (∀ later site chain found limit earlier,
        events = later ++ .attempted site chain (some (.tooDeep found limit)) :: earlier →
        found = site.key ∧ ∃ scope ∈ layer.ancestry, ∃ source eager cyclic,
          scope.id = site.layer ∧
          scope.slots.find? found = some (.generated source eager cyclic) ∧
          limit = scope.settings.maxDepth ∧ limit < layer.generatorCount ∧
          ∃ runs : Invocations,
            runs.map (fun run => run.scope.site run.requested) = underway [] earlier ∧
            (∀ run ∈ runs, run.frame.RunsIn layer run.scope run.source) ∧
            limit ≤ runs.length ∧
            ((scope.id, source.place) :: runs.map Invocation.mark).Nodup) ∧
      (∀ scope ∈ layer.ancestry, layer.generatorCount ≤ scope.settings.maxDepth →
        ∀ other chain found limit,
          .attempted (scope.site other) chain (some (.tooDeep found limit)) ∉ events) ∧
      ∀ found limit snapshot,
        (layer.request (resolver fuel) key context world).1 =
            .ok (.error ⟨.tooDeep found limit, snapshot⟩) →
          ∃ site chain, .attempted site chain (some (.tooDeep found limit)) ∈ events := by
  have hosts : world.Hosts layer := ⟨reachable.valid, known⟩
  have proper := reachable.valid.proper known
  obtain ⟨last, ⟨events, htrace, hpaced, rfl⟩, hlast⟩ := @request_paces fuel layer key context world
    silent
  have hrefused : ∀ later site chain found limit earlier,
      events = later ++ .attempted site chain (some (.tooDeep found limit)) :: earlier →
      found = site.key ∧ ∃ scope ∈ layer.ancestry, ∃ source eager cyclic,
        scope.id = site.layer ∧
        scope.slots.find? found = some (.generated source eager cyclic) ∧
        limit = scope.settings.maxDepth ∧ limit < layer.generatorCount ∧
        ∃ runs : Invocations,
          runs.map (fun run => run.scope.site run.requested) = underway [] earlier ∧
          (∀ run ∈ runs, run.frame.RunsIn layer run.scope run.source) ∧
          limit ≤ runs.length ∧
          ((scope.id, source.place) :: runs.map Invocation.mark).Nodup := by
    rintro later site chain found limit earlier rfl
    have hin : Attempted.In ⟨site, chain, some (.tooDeep found limit), earlier ++ world.trace⟩
        (layer.request (resolver fuel) key context world).2.trace :=
      ⟨later, by rw [htrace, List.append_assoc]; rfl⟩
    obtain ⟨call, hpath, hmeets⟩ := (Layer.request_attempts hosts silent hin).resolve_left
      fun hold => hold.not_past (List.suffix_append _ _)
    have belongs := Layer.belongs_of_path hpath
    obtain ⟨hfound, hlimit, hlength, source, eager, cyclic, slot, hnodup, hcount⟩ :=
      hmeets.tooDeep belongs proper rfl
    obtain ⟨hid, hkey⟩ := Site.mk.inj hmeets.site
    obtain ⟨hchain, -⟩ := hpaced.fits
    have hruns : chain = call.runs.chain := hmeets.chain
    refine ⟨hfound.trans hkey.symm, call.layer.scope, belongs.scope_mem, source, eager, cyclic,
      hid.symm, hfound ▸ slot, hlimit, hcount, call.runs, ?_, belongs.placed, hlength, hnodup⟩
    rw [← hchain, hruns, Invocations.chain, List.map_map]
    rfl
  refine ⟨events, htrace, ?_, ?_, hlast, hrefused, ?_, ?_⟩
  · rintro later event earlier rfl
    exact hpaced.fits
  · rintro limit hlimit earlier ⟨later, rfl⟩
    exact hpaced.of_append.length_le hlimit (Nat.zero_le limit)
  · intro scope hscope hcount other chain found limit hmem
    obtain ⟨later, earlier, hevents⟩ := List.append_of_mem hmem
    obtain ⟨-, owner, howner, source, eager, cyclic, hid, -, hlimit, hless, -⟩ :=
      hrefused later _ chain found limit earlier hevents
    obtain rfl := List.inj_on_of_nodup_map proper.distinct howner hscope hid
    omega
  · intro found limit snapshot hanswer
    obtain ⟨attempt, hin, hpast, hobstacle⟩ := request_tooDeep hanswer
    rw [htrace] at hin
    obtain ⟨later, earlier, hevents⟩ := hin.recent hpast
    refine ⟨attempt.site, attempt.chain, ?_⟩
    rw [hevents, hobstacle]
    exact List.mem_append_right _ List.mem_cons_self

def shallowBase : Registered :=
  ⟨0, "a", "make_a", [], [⟨"A"⟩], fun _ _ => .done (.products [⟨⟨"A"⟩, "a"⟩])⟩

/-- Two generators that need one of a layer further out, the one through the other. -/
def shallow : List Registered :=
  [⟨0, "b", "make_b", [.required ⟨"A"⟩], [⟨"B"⟩], fun _ _ => .done (.products [⟨⟨"B"⟩, "b"⟩])⟩,
    ⟨1, "c", "make_c", [.hidden ⟨"B"⟩], [⟨"C"⟩], fun _ _ => .done (.products [⟨⟨"C"⟩, "c"⟩])⟩]

def shallowLayer : Layer :=
  { scope :=
      { id := 2, label := none, locked := false
        slots := ⟨[(⟨"B"⟩, .generated shallow[0] false false),
          (⟨"C"⟩, .generated shallow[1] false false)]⟩
        bindings := {}, overridable := [], settings := { maxDepth := 3 }, observers := [] }
    outer :=
      [{ id := 1, label := none, locked := false
         slots := ⟨[(⟨"A"⟩, .generated shallowBase false false)]⟩
         bindings := {}, overridable := [], settings := { maxDepth := 1 }, observers := [] }] }

def shallowWorld : World :=
  (step 4 (step 4 {} (.build "base" none [.settings { maxDepth := 1 },
      .register (.generator shallowBase.generator false)])).2
    (.build "app" (some "base") (.settings { maxDepth := 3 } ::
      shallow.map fun source => .register (.generator source.generator false)))).2

theorem shallowLayer_known : shallowLayer ∈ shallowWorld.built := .head _

theorem shallowLayer_silent : ∀ scope ∈ shallowLayer.ancestry, scope.Silent := by
  intro scope hscope
  refine ⟨fun key source eager cyclic slot run arguments => ?_, fun key binding interface => ?_⟩
  · have hmem := Table.mem_entries_of_find? slot
    simp only [shallowLayer, Layer.ancestry, List.mem_cons, List.not_mem_nil, or_false] at hscope
    rcases hscope with rfl | rfl
    · simp only [List.mem_cons, List.not_mem_nil, or_false, Prod.mk.injEq,
        Backing.generated.injEq] at hmem
      rcases hmem with ⟨-, rfl, -⟩ | ⟨-, rfl, -⟩ <;> trivial
    · simp only [List.mem_cons, List.not_mem_nil, or_false, Prod.mk.injEq,
        Backing.generated.injEq] at hmem
      obtain ⟨-, rfl, -⟩ := hmem
      trivial
  · simp only [shallowLayer, Layer.ancestry, List.mem_cons, List.not_mem_nil, or_false] at hscope
    rcases hscope with rfl | rfl <;> cases interface

/-- The third run is refused, though the layer that was asked would allow for it. -/
theorem depth_limits_are_exact_shallow :
    ∃ events,
      (shallowLayer.request (resolver 3) ⟨"C"⟩ .background shallowWorld).2.trace =
        events ++ shallowWorld.trace ∧
      (∃ site chain, .attempted site chain (some (.tooDeep ⟨"A"⟩ 1)) ∈ events) ∧
      (∀ earlier, earlier <:+ events → (underway [] earlier).length ≤ 3) ∧
      ∀ key chain found limit,
        .attempted (shallowLayer.scope.site key) chain (some (.tooDeep found limit)) ∉ events := by
  have reachable : Reachable shallowWorld := (Reachable.initial.step 4 _).step 4 _
  obtain ⟨events, htrace, -, hnested, -, -, hspared, hanswered⟩ :=
    depth_limits_are_exact reachable shallowLayer_known shallowLayer_silent 3 ⟨"C"⟩ .background
  have hrefused : (shallowLayer.request (resolver 3) ⟨"C"⟩ .background shallowWorld).1 =
      .ok (.error ⟨.tooDeep ⟨"A"⟩ 1, none⟩) := by decide +kernel
  exact ⟨events, htrace, hanswered _ _ _ hrefused, hnested 3 (by decide),
    hspared shallowLayer.scope List.mem_cons_self (by decide)⟩

end Session

end LayerGraph
