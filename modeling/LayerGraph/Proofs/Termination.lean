import LayerGraph.Proofs.Determinacy
import LayerGraph.Proofs.Progress
import LayerGraph.Proofs.Simulation

/-! Every request comes to an end, and none waits for itself.

Generators may ask for whatever they like, so runs in progress may lead back to one another in ways
that no declaration shows. But no run begins while one in progress feeds the slot that is asked for,
and a run feeds all the slots of its generator. So the runs in progress are of different generators,
no run waits for a slot that one around it has locked, and there is an end to their nesting. -/

namespace LayerGraph

def Frame.sites (frame : Frame) : List Site :=
  frame.outputs.map fun output => ⟨frame.layer, output⟩

def Chain.sites (chain : Chain) : List Site := chain.flatMap Frame.sites

theorem Frame.claims_iff {frame : Frame} {site : Site} :
    frame.claims site.layer site.key = true ↔ site ∈ frame.sites := by
  obtain ⟨layer, key⟩ := site
  unfold claims sites
  rw [Bool.and_eq_true_iff, beq_iff_eq, List.contains_iff_mem, List.mem_map]
  constructor
  · intro h
    exact ⟨key, h.2, by rw [h.1]⟩
  · intro h
    obtain ⟨output, houtput, hsite⟩ := h
    obtain ⟨rfl, rfl⟩ := Site.mk.inj hsite
    exact ⟨rfl, houtput⟩

theorem Chain.claims_iff {chain : Chain} {site : Site} :
    chain.claims site.layer site.key = true ↔ site ∈ chain.sites := by
  unfold claims sites
  rw [List.any_eq_true, List.mem_flatMap]
  simp only [Frame.claims_iff]

theorem Scope.Sound.locks_nodup {scope : Scope} (sound : scope.Sound) {key : Key}
    {source : Registered} {eager cyclic : Bool}
    (slot : scope.slots.find? key = some (.generated source eager cyclic)) :
    (scope.locks source).Nodup := by
  have houtputs := sound.distinct key source eager cyclic slot
  have hfed : (scope.fedBy source).Nodup := houtputs.filter _
  have hsorted : (Key.sort (scope.fedBy source)).Nodup :=
    (List.mergeSort_perm _ _).nodup_iff.mpr hfed
  exact hsorted.map fun first second h => (Site.mk.inj h).2

namespace Chain.Climbs

variable {chain : Chain} {top : Layer} {scope : Scope} {key : Key} {source : Registered}
  {eager cyclic : Bool}

/-- Runs in progress that feed one slot of a generator feed all of them. -/
theorem claims_of_shared (climbs : chain.Climbs top) (proper : top.Proper)
    (known : scope ∈ top.ancestry)
    (slot : scope.slots.find? key = some (.generated source eager cyclic)) {output : Key}
    (hfed : output ∈ scope.fedBy source) (hclaims : chain.claims scope.id output = true) :
    chain.claims scope.id key = true := by
  obtain ⟨frame, hframe, hboth⟩ := List.any_eq_true.mp hclaims
  obtain ⟨hid, houtput⟩ := Bool.and_eq_true_iff.mp hboth
  obtain ⟨other, source', hruns⟩ := climbs.frames frame hframe
  have hid : other.id = scope.id := hruns.id.symm.trans (beq_iff_eq.mp hid)
  obtain rfl := List.inj_on_of_nodup_map proper.distinct hruns.known known hid
  obtain ⟨eager', cyclic', slot'⟩ := hruns.slot
  have sound := proper.sound other known
  rw [hruns.outputs] at houtput
  have hfed' := List.mem_mergeSort.mp (List.contains_iff_mem.mp houtput)
  -- Both generators are behind the slot of the output.
  have hslot := sound.slot_of_mem_fedBy slot hfed
  have hslot' := sound.slot_of_mem_fedBy slot' hfed'
  obtain ⟨rfl, -, -⟩ := Backing.generated.inj (Option.some.inj (hslot.symm.trans hslot'))
  exact List.any_eq_true.mpr ⟨frame, hframe, hruns.claims (sound.mem_fedBy_of_slot slot)⟩

theorem sites_nodup (climbs : chain.Climbs top) (proper : top.Proper) :
    (Chain.sites chain).Nodup := by
  induction chain with
  | nil => exact .nil
  | cons frame chain ih =>
    obtain ⟨hapart, hrest⟩ := List.pairwise_cons.mp climbs.apart
    have hclimbs : Chain.Climbs chain top :=
      ⟨fun other hother => climbs.frames other (List.mem_cons_of_mem _ hother), hrest⟩
    obtain ⟨scope, source, hruns⟩ := climbs.frames frame List.mem_cons_self
    obtain ⟨eager, cyclic, slot⟩ := hruns.slot
    have hlocks : frame.sites = scope.locks source := by
      unfold Frame.sites
      rw [hruns.id, hruns.outputs]
      rfl
    have hsites : Chain.sites (frame :: chain) = scope.locks source ++ Chain.sites chain := by
      rw [← hlocks]
      rfl
    rw [hsites]
    have sound := proper.sound scope hruns.known
    refine List.nodup_append'.mpr ⟨sound.locks_nodup slot, ih hclimbs, fun site hlock hsite => ?_⟩
    -- A run before this one that had locked the slot would feed what was asked of this one.
    obtain ⟨output, hfed, rfl⟩ := Scope.mem_locks.mp hlock
    have hlocked : Chain.claims chain scope.id output = true := Chain.claims_iff.mpr hsite
    have hclaims := hclimbs.claims_of_shared proper hruns.known slot hfed hlocked
    obtain ⟨earlier, hearlier, hclaimed⟩ := List.any_eq_true.mp hclaims
    have hunclaimed := hapart earlier hearlier
    rw [hruns.id] at hunclaimed
    exact Bool.false_ne_true (hunclaimed.symm.trans hclaimed)

end Chain.Climbs

theorem Resolution.unclaimed_of_obstacle?_none {layer : Layer} {key : Key} {source : Registered}
    {cyclic : Bool} {chain : Chain} {context : Context} {signals : Signals}
    (h : obstacle? layer key source cyclic chain context signals = none) :
    chain.claims layer.scope.id key = false :=
  (obstacle?_eq_none_iff.mp h).1

def Event.IsNoAttempt : Event → Prop
  | .attempted .. => False
  | _ => True

theorem Event.IsIncidental.isNoAttempt {event : Event} (h : event.IsIncidental) :
    event.IsNoAttempt := by
  cases event <;> trivial

/-- What an attempt says of the runs in progress: they are of different generators, and the
generator is only started if none of them feeds the slot. -/
structure World.Sane (world : World) (site : Site) (chain : Chain)
    (obstacle : Option ResolutionError) (top : Layer) (scope : Scope) : Prop where
  built : top ∈ world.built
  known : scope ∈ top.ancestry
  id : scope.id = site.layer
  slot : ∃ source eager cyclic, scope.slots.find? site.key = some (.generated source eager cyclic)
  climbs : chain.Climbs top
  unclaimed : obstacle = none → chain.claims site.layer site.key = false

def World.Climbing (world : World) : Prop :=
  ∀ site chain obstacle, .attempted site chain obstacle ∈ world.trace →
    ∃ top scope, world.Sane site chain obstacle top scope

namespace World.Climbing

variable {world after : World}

theorem initial : World.Climbing {} := fun site chain obstacle h => by cases h

theorem advance (climbing : world.Climbing) (built : world.built <:+ after.built)
    (events : List Event) (trace : after.trace = events ++ world.trace)
    (sane : ∀ site chain obstacle, .attempted site chain obstacle ∈ events →
      ∃ top scope, after.Sane site chain obstacle top scope) : after.Climbing := by
  intro site chain obstacle h
  rw [trace] at h
  rcases List.mem_append.mp h with hnew | hold
  · exact sane site chain obstacle hnew
  · obtain ⟨top, scope, hsane⟩ := climbing site chain obstacle hold
    exact ⟨top, scope, { hsane with built := built.mem hsane.built }⟩

theorem lasts : World.Lasts Event.IsNoAttempt World.Climbing where
  logged _ := trivial
  later climbing built _ _ _ events trace _ plain :=
    climbing.advance (built ▸ List.suffix_rfl) events trace fun _ _ _ h => (plain _ h).elim

theorem attempt (climbing : world.Climbing) {site : Site} {chain : Chain}
    {obstacle : Option ResolutionError} {top : Layer} {scope : Scope}
    (sane : world.Sane site chain obstacle top scope) :
    (world.emit (.attempted site chain obstacle)).Climbing := by
  refine climbing.advance List.suffix_rfl [_] rfl fun other chain' obstacle' h => ?_
  obtain ⟨rfl, rfl, rfl⟩ := Event.attempted.inj (List.mem_singleton.mp h)
  exact ⟨top, scope, { sane with }⟩

end World.Climbing

namespace Resolution

open Engine (Keeps)

variable {fuel : Nat} {layer top : Layer} {key : Key} {chain : Chain} {context : Context}
  {world after : World} {result : Except Stop Answer}

/-- Attempts are made among runs of different generators if those of the commands given meanwhile
are. -/
theorem Resolves.climbing_of_keeps
    (keeps : ∀ less ≤ fuel, ∀ {α : Type} (act : Act Command α),
      Keeps (fun world => world.Valid ∧ world.Climbing) (Engine.run (Session.handler less) act))
    (resolves : Resolves fuel layer key chain context world result after)
    (hosts : world.Hosts layer) (built : top ∈ world.built)
    (known : ∀ scope ∈ layer.ancestry, scope ∈ top.ancestry) (climbs : chain.Climbs top)
    (climbing : world.Climbing) : after.Climbing := by
  have lasts := World.Climbing.lasts
  induction resolves with
  | stored => exact lasts.log climbing _
  | exhausted => exact climbing
  | @obstructed fuel scope outer key chain context world source eager cyclic error slot empty
      obstacle =>
    have hsane : world.Sane (scope.site key) chain (some error) top scope :=
      ⟨built, known scope List.mem_cons_self, rfl, ⟨source, eager, cyclic, slot⟩, climbs,
        fun h => nomatch h⟩
    exact lasts.obstruct (climbing.attempt hsane) fun _ => trivial
  | @blocked fuel scope outer key chain context world source eager cyclic slot empty free locked =>
    exact climbing.attempt ⟨built, known scope List.mem_cons_self, rfl,
      ⟨source, eager, cyclic, slot⟩, climbs, fun _ => unclaimed_of_obstacle?_none free⟩
  | @run fuel scope outer key chain context world source inquiries gathered between result after
      starts answers ends ih =>
    obtain ⟨eager, cyclic, slot, free⟩ := starts.slot
    have hknown := known scope List.mem_cons_self
    have unclaimed := unclaimed_of_obstacle?_none free
    have hstart : (world.start scope key source chain).Climbing :=
      lasts.start (climbing.attempt ⟨built, hknown, rfl, ⟨source, eager, cyclic, slot⟩, climbs,
        fun _ => unclaimed⟩) fun _ => trivial
    have hpush := climbs.push hknown slot unclaimed
    obtain ⟨-, hhosts, -, hbetween⟩ := starts.hosted
      (fun world => top ∈ world.built ∧ world.Climbing) answers
      (fun inquiry hinquiry hhosts h => ⟨(answers inquiry hinquiry).grows.built.mem h.1,
        ih inquiry hinquiry (fun less hless => keeps less (Nat.le_succ_of_le hless)) hhosts h.1
          known hpush h.2⟩)
      hosts ⟨built, hstart⟩
    have hends := ends.lasting lasts (keeps _ (Nat.le_refl _)) (fun _ _ _ _ _ => trivial)
      (fun _ _ _ _ => trivial) (fun _ _ => trivial) (fun _ _ => trivial) (fun _ _ => trivial) hhosts
      hbetween
    exact lasts.hold hends _
  | bound => exact climbing
  | unbacked => exact climbing
  | unsourced noSlot interface unbound behind answer lost ih =>
    exact ih keeps hosts built known climbs climbing
  | @cast fuel scope outer key chain context world binding backing value between result after
      noSlot interface unbound behind answer binds ih =>
    exact @Binds.lasting _ _ _ ⟨scope, outer⟩ _ _ _ _ _ _ lasts (keeps _ (Nat.le_refl _))
      (fun _ _ _ _ => trivial) binds noSlot interface (answer.hosts hosts hosts)
      (ih keeps hosts built known climbs climbing)
  | imported => exact climbing
  | missing => exact climbing
  | @unavailable fuel scope parent further key chain context world result after unowned unknown
      answer lost ih =>
    exact ih keeps (hosts.delegate _ _ _).parent built
      (fun inner h => known inner (List.mem_cons_of_mem _ h)) climbs
      (lasts.delegate climbing scope key parent fun _ => trivial)
  | @delegated fuel scope parent further key chain context world value between unowned unknown
      answer ih =>
    have hbetween := ih keeps (hosts.delegate _ _ _).parent built
      (fun inner h => known inner (List.mem_cons_of_mem _ h)) climbs
      (lasts.delegate climbing scope key parent fun _ => trivial)
    unfold World.hoist
    split
    · exact hbetween.advance List.suffix_rfl [] rfl (by simp)
    · exact hbetween

end Resolution

namespace World.Climbing

open Session Resolution

variable {world : World}

theorem request {fuel : Nat}
    (keeps : ∀ less ≤ fuel, ∀ {α : Type} (act : Act Command α),
      Engine.Keeps (fun world => world.Valid ∧ world.Climbing) (Engine.run (handler less) act))
    {layer : Layer} (key : Key) (context : Context) (hosts : world.Hosts layer)
    (climbing : world.Climbing) : (layer.request (resolver fuel) key context world).2.Climbing := by
  have hresolves := resolver_resolves fuel layer key [] context
    (world.emit (.asked (layer.scope.site key)))
  have hasked : (world.emit (.asked (layer.scope.site key))).Climbing :=
    lasts.emit climbing trivial
  have hafter := hresolves.climbing_of_keeps keeps (hosts.emit _) hosts.2 (fun _ h => h)
    (.nil layer) hasked
  rw [Layer.request_world]
  exact lasts.conclude hafter layer key _ (fun _ _ => trivial) fun _ _ => trivial

theorem invariant : Invariant fun world => world.Valid ∧ world.Climbing := by
  refine lasts.invariant (fun _ hevent => hevent.isNoAttempt) ?_ ?_
  · exact fun _ climbing _ _ => climbing.advance (List.suffix_cons _ _) [] rfl (by simp)
  · exact fun keeps layer key context world hosts climbing =>
      request keeps key context hosts climbing

end World.Climbing

structure Scope.Returning (scope : Scope) : Prop where
  bodies : ∀ key source eager cyclic,
    scope.slots.find? key = some (.generated source eager cyclic) →
    ∀ run arguments, ∃ yield, (source.generator.body run arguments).outcome? = some yield
  casts : ∀ key binding, scope.bindings.find? key = some binding → ∀ call payload, ∃ result,
    (binding.cast.apply call payload).outcome? = some result

theorem Scope.Returning.silent {scope : Scope} (returning : scope.Returning) : scope.Silent := by
  refine ⟨fun key source eager cyclic slot run arguments => ?_,
    fun key binding interface call payload => ?_⟩
  · obtain ⟨yield, houtcome⟩ := returning.bodies key source eager cyclic slot run arguments
    exact .of_outcome? houtcome
  · obtain ⟨payload', houtcome⟩ := returning.casts key binding interface call payload
    exact .of_outcome? houtcome

structure Scope.StopsWith (allowed : Stop → Prop) (scope : Scope) : Prop where
  bodies : ∀ key source eager cyclic,
    scope.slots.find? key = some (.generated source eager cyclic) →
    ∀ run arguments perform world stop,
      (Engine.run perform (source.generator.body run arguments) world).1 = .error stop → allowed stop
  casts : ∀ key binding, scope.bindings.find? key = some binding →
    ∀ call payload perform world stop,
      (Engine.run perform (binding.cast.apply call payload) world).1 = .error stop → allowed stop

theorem Scope.Returning.stopsWith {scope : Scope} (returning : scope.Returning) :
    scope.StopsWith fun _ => False := by
  refine ⟨fun key source eager cyclic slot run arguments perform world stop h => ?_,
    fun key binding interface call payload perform world stop h => ?_⟩
  · obtain ⟨yield, houtcome⟩ := returning.bodies key source eager cyclic slot run arguments
    cases h.symm.trans (Act.run_of_outcome? houtcome perform world)
  · obtain ⟨payload', houtcome⟩ := returning.casts key binding interface call payload
    cases h.symm.trans (Act.run_of_outcome? houtcome perform world)

theorem Act.Silent.panics {α : Type} {act : Act Command α} (silent : act.Silent)
    {perform : Command → Engine Reply} {world : World} {stop : Stop}
    (h : (Engine.run perform act world).1 = .error stop) : ∃ message, stop = .panic message := by
  induction act generalizing world with
  | done => cases h
  | panic message => exact ⟨message, (Except.error.inj h).symm⟩
  | cancel name next ih => exact ih silent h
  | elapse time next ih => exact ih silent h
  | noteThread next ih => exact ih silent h
  | perform command next ih => exact silent.elim

theorem Scope.Silent.stopsWith {scope : Scope} (silent : scope.Silent) :
    scope.StopsWith fun stop => ∃ message, stop = .panic message where
  bodies key source eager cyclic slot run arguments _ _ _ h :=
    (silent.bodies key source eager cyclic slot run arguments).panics h
  casts key binding interface call payload _ _ _ h :=
    (silent.casts key binding interface call payload).panics h

namespace Resolution

variable {fuel : Nat} {layer top : Layer} {key : Key} {source : Registered} {chain : Chain}
  {context : Context} {world after : World} {result : Except Stop Answer} {stop : Stop}
  {allowed : Stop → Prop}

theorem Gathers.stopped_inquiry {supplies : List Supply} {inquiries : List Inquiry}
    {gathered : Except Stop (Except ResolutionError (List Argument))}
    (gathers : Gathers layer context supplies inquiries world gathered after)
    (h : gathered = .error stop) : ∃ inquiry ∈ inquiries, inquiry.result = .error stop := by
  induction gathers with
  | done => cases h
  | @given _ _ _ _ gathered _ _ _ _ ih =>
    cases gathered with
    | error other => exact ih h
    | ok collected => cases h
  | declined => cases h
  | @stopped _ _ key before other after => exact ⟨_, List.mem_singleton_self _, by cases h; rfl⟩
  | refused => cases h
  | @found _ _ _ _ _ _ _ _ gathered _ _ _ _ ih =>
    cases gathered with
    | error other =>
      obtain ⟨inquiry, hinquiry, hresult⟩ := ih h
      exact ⟨inquiry, List.mem_cons_of_mem _ hinquiry, hresult⟩
    | ok collected => cases h

theorem Ends.stops {perform : Command → Engine Reply} {eager cyclic : Bool}
    {gathered : Except Stop (Except ResolutionError (List Argument))}
    (ends : Ends perform layer key source context world gathered (.error stop) after)
    (stops : layer.scope.StopsWith allowed)
    (slot : layer.scope.slots.find? key = some (.generated source eager cyclic))
    (hgathered : gathered = .error stop → allowed stop) : allowed stop := by
  cases ends with
  | unsupplied => exact hgathered rfl
  | @broken arguments _ _ body =>
    exact stops.bodies key source eager cyclic slot _ arguments perform _ stop (by rw [body])

theorem Binds.stops {perform : Command → Engine Reply} {scope : Scope} {binding : Binding}
    {value : Value} (binds : Binds perform scope key binding value world (.error stop) after)
    (stops : scope.StopsWith allowed) (interface : scope.bindings.find? key = some binding) :
    allowed stop := by
  cases binds with
  | broken typed cast =>
    exact stops.casts key binding interface _ value.payload perform _ stop (by rw [cast])

/-- No lock that a run would take is held by the runs in progress, unless one of them feeds the slot
that is asked for. -/
theorem unlocked_of_unclaimed {scope : Scope} {eager cyclic : Bool} (climbs : chain.Climbs top)
    (proper : top.Proper) (known : scope ∈ top.ancestry) (held : world.HeldBy chain)
    (slot : scope.slots.find? key = some (.generated source eager cyclic))
    (unclaimed : chain.claims scope.id key = false) :
    ¬ (scope.locks source).any world.held.contains := by
  intro hany
  obtain ⟨site, hlock, hheld⟩ := List.any_eq_true.mp hany
  obtain ⟨output, hfed, rfl⟩ := Scope.mem_locks.mp hlock
  have hclaims := held _ (List.contains_iff_mem.mp hheld)
  have hclaims := climbs.claims_of_shared proper known slot hfed hclaims
  exact Bool.false_ne_true (unclaimed.symm.trans hclaims)

/-- If there is more nesting left than there are generators that are not running, a request comes to
a stop only with what bodies and casts stop with. -/
theorem Resolves.stops (resolves : Resolves fuel layer key chain context world result after)
    (stops : ∀ scope ∈ top.ancestry, scope.StopsWith allowed) (proper : top.Proper)
    (known : ∀ scope ∈ layer.ancestry, scope ∈ top.ancestry) (climbs : chain.Climbs top)
    (held : world.HeldBy chain) (nesting : top.generatorCount < fuel + chain.length)
    (h : result = .error stop) : allowed stop := by
  induction resolves with
  | stored => cases h
  | exhausted slot empty =>
    have hroom := climbs.length_le proper
    omega
  | obstructed => cases h
  | @blocked fuel scope outer key chain context world source eager cyclic slot empty free locked =>
    have unclaimed := unclaimed_of_obstacle?_none free
    have unlocked := unlocked_of_unclaimed climbs proper (known scope List.mem_cons_self) held slot
      unclaimed
    exact absurd locked unlocked
  | @run fuel scope outer key chain context world source inquiries gathered between result after
      starts answers ends ih =>
    subst h
    obtain ⟨⟨eager, cyclic, slot, free⟩, empty, unlocked, gathers⟩ := starts
    have hknown := known scope List.mem_cons_self
    have hpush := climbs.push hknown slot (unclaimed_of_obstacle?_none free)
    have hgrows := gathers.before
      (fun between => (world.start scope key source chain).Grows between)
      (fun inquiry hinquiry h => h.trans (answers inquiry hinquiry).grows) (.refl _)
    refine ends.stops (stops scope hknown) slot fun hgathered => ?_
    obtain ⟨inquiry, hinquiry, hresult⟩ := gathers.stopped_inquiry hgathered
    refine ih inquiry hinquiry known hpush (held.push (hgrows inquiry hinquiry)) ?_ hresult
    rw [List.length_cons]
    omega
  | bound => cases h
  | unbacked => cases h
  | unsourced noSlot interface unbound behind answer lost ih =>
    exact ih known climbs held nesting h
  | @cast fuel scope outer key chain context world binding backing value between result after
      noSlot interface unbound behind answer binds ih =>
    subst h
    exact binds.stops (stops scope (known scope List.mem_cons_self)) interface
  | imported => cases h
  | missing => cases h
  | unavailable unowned unknown answer lost ih =>
    exact ih (fun inner h => known inner (List.mem_cons_of_mem _ h)) climbs held nesting h
  | delegated => cases h

/-- A request comes to an answer if there is more nesting left than there are generators that are
not running. -/
theorem Resolves.answers (resolves : Resolves fuel layer key chain context world result after)
    (returning : ∀ scope ∈ top.ancestry, scope.Returning) (proper : top.Proper)
    (known : ∀ scope ∈ layer.ancestry, scope ∈ top.ancestry) (climbs : chain.Climbs top)
    (held : world.HeldBy chain) (nesting : top.generatorCount < fuel + chain.length) :
    ∃ answer, result = .ok answer := by
  cases result with
  | ok answer => exact ⟨answer, rfl⟩
  | error stop =>
    exact (resolves.stops (fun scope hscope => (returning scope hscope).stopsWith) proper known
      climbs held nesting rfl).elim

theorem Resolves.panics (resolves : Resolves fuel layer key [] context world (.error stop) after)
    (silent : ∀ scope ∈ layer.ancestry, scope.Silent) (proper : layer.Proper)
    (unheld : world.held = []) (nesting : layer.generatorCount < fuel) :
    ∃ message, stop = .panic message :=
  resolves.stops (fun scope hscope => (silent scope hscope).stopsWith) proper (fun _ h => h)
    (.nil layer) (.of_held_nil unheld) nesting rfl

end Resolution

theorem Simulation.refl : Simulation id (fun _ => True) Eq where
  signals h := h ▸ rfl
  tokens h := h ▸ rfl
  thread h := h ▸ rfl
  held h := h ▸ rfl
  filled _ h _ := h ▸ rfl
  bound _ h _ := h ▸ rfl
  runs h _ := h ▸ rfl
  casts _ h _ := h ▸ rfl
  unknown h _ unknown := h ▸ unknown
  emit _ h := h ▸ rfl
  signal _ h := h ▸ rfl
  hold _ h := h ▸ rfl
  fill _ _ h _ := h ▸ rfl
  bind _ _ h _ := h ▸ rfl
  countRun _ _ h _ := h ▸ rfl
  countCast _ h _ := h ▸ rfl
  imported := by
    intro world other layer key value fuel chain context h hosts faithful known unowned present
    subst h
    rw [Layer.hoisting_id]
    exact ⟨world, .imported unowned present, rfl⟩
  hoist h _ _ _ _ := h ▸ ⟨rfl, rfl⟩

/-- An answer stays the same with more nesting left. -/
theorem Resolution.Resolves.deepen {fuel : Nat} {layer : Layer} {key : Key} {chain : Chain}
    {context : Context} {world after : World} {result : Except Stop Answer}
    (resolves : Resolves fuel layer key chain context world result after)
    (silent : ∀ scope ∈ layer.ancestry, scope.Silent) (hosts : world.Hosts layer)
    (faithful : world.Faithful) (finished : result ≠ .error .outOfFuel) (extra : Nat) :
    Resolves (fuel + extra) layer key chain context world result after := by
  obtain ⟨last, hresolves, rfl⟩ := resolves.follow .refl silent (fun _ _ => trivial) hosts faithful
    (.inr finished) rfl
  rwa [Layer.hoisting_id] at hresolves

def World.IsRunOf (world : World) (frame : Frame) (mark : Nat × Nat) : Prop :=
  ∃ owner ∈ world.built, ∃ source, frame.RunsIn owner owner.scope source ∧
    mark = (owner.scope.id, source.place)

structure World.Untangled (world : World) (chain : Chain) : Prop where
  different : ∃ marks, List.Forall₂ world.IsRunOf chain marks ∧ marks.Nodup
  apart : chain.sites.Nodup

theorem Chain.Climbs.untangled {chain : Chain} {top : Layer} {world : World}
    (climbs : chain.Climbs top) (valid : world.Valid) (built : top ∈ world.built) :
    world.Untangled chain := by
  have proper := valid.proper built
  obtain ⟨marks, hforall, hnodup, -⟩ := climbs.marks proper
  refine ⟨⟨marks, hforall.imp fun frame mark h => ?_, hnodup⟩, climbs.sites_nodup proper⟩
  obtain ⟨scope, source, hruns, rfl⟩ := h
  obtain ⟨outer, howner⟩ := valid.built_of_mem_ancestry built hruns.known
  exact ⟨⟨scope, outer⟩, howner, source, { hruns with known := List.mem_cons_self }, rfl⟩

namespace Session

open Resolution

/-- With nesting for all generators of a layer, a request of it is answered, and with more nesting
it is answered the same. -/
theorem request_answers {world : World} (reachable : Reachable world)
    (returning : ∀ layer ∈ world.built, layer.scope.Returning) {layer : Layer}
    (known : layer ∈ world.built) (key : Key) (context : Context) :
    ∃ answered after, ∀ fuel, layer.generatorCount < fuel →
      layer.request (resolver fuel) key context world = (.ok answered, after) := by
  have valid := reachable.valid
  have faithful := reachable.coherent.imports
  have hreturning : ∀ scope ∈ layer.ancestry, scope.Returning := by
    intro scope hscope
    obtain ⟨outer, hbuilt⟩ := valid.built_of_mem_ancestry known hscope
    exact returning _ hbuilt
  have hosts : (world.emit (.asked (layer.scope.site key))).Hosts layer := ⟨valid.emit _, known⟩
  have hheld : (world.emit (.asked (layer.scope.site key))).HeldBy [] := by
    intro site hsite
    have hempty : site ∈ world.held := hsite
    rw [reachable.held] at hempty
    cases hempty
  have hresolves := resolver_resolves (layer.generatorCount + 1) layer key [] context
    (world.emit (.asked (layer.scope.site key)))
  obtain ⟨answer, hanswer⟩ := hresolves.answers hreturning (valid.proper known) (fun _ h => h)
    (.nil layer) hheld (by simp)
  have hsame (fuel : Nat) (hfuel : layer.generatorCount < fuel) :
      resolver fuel layer key [] context (world.emit (.asked (layer.scope.site key))) =
        (.ok answer, (resolver (layer.generatorCount + 1) layer key [] context
          (world.emit (.asked (layer.scope.site key)))).2) := by
    obtain ⟨extra, rfl⟩ := Nat.exists_eq_add_of_le hfuel
    rw [hanswer] at hresolves
    exact (hresolves.deepen (fun scope h => (hreturning scope h).silent) hosts
      (World.Faithful.lasts.emit faithful trivial) (by simp) extra).eq_resolver
  obtain ⟨snapshot, hrequest⟩ := Layer.request_answered hanswer
  refine ⟨answer.mapError fun error => ⟨error, snapshot⟩,
    (layer.request (resolver (layer.generatorCount + 1)) key context world).2, fun fuel hfuel => ?_⟩
  rw [Layer.request_congr ((hsame fuel hfuel).trans (hsame _ (Nat.lt_succ_self _)).symm)]
  exact Prod.ext hrequest rfl

/-- A request always comes to an answer. Let all bodies and casts return and give no commands;
generators may ask for types that they do not declare, and the limits on nesting may be anything.
Then a request of any layer, for any type and under any context, is answered with nesting for as
many runs as there are generators, and answered the same with more. While it is, whenever an empty
slot is found, the runs in progress are of different generators and have locked different slots; and
if a generator is started, the slots that it locks are different ones again. -/
theorem requests_come_to_an_end {world : World} (reachable : Reachable world)
    (returning : ∀ layer ∈ world.built, layer.scope.Returning) :
    ∀ layer ∈ world.built, ∀ key context,
      (∃ answered after, ∀ fuel, layer.generatorCount < fuel →
        layer.request (resolver fuel) key context world = (.ok answered, after)) ∧
      ∀ fuel site chain obstacle, .attempted site chain obstacle ∈
          (layer.request (resolver fuel) key context world).2.trace →
        (layer.request (resolver fuel) key context world).2.Untangled chain ∧
        ∃ owner ∈ (layer.request (resolver fuel) key context world).2.built,
          owner.scope.id = site.layer ∧ ∃ source eager cyclic,
            owner.scope.slots.find? site.key = some (.generated source eager cyclic) ∧
            (obstacle = none → (owner.scope.locks source ++ chain.sites).Nodup) := by
  intro layer hlayer key context
  refine ⟨request_answers reachable returning hlayer key context, ?_⟩
  intro fuel site chain obstacle h
  have hinvariant := World.Climbing.invariant
  have hkeeps : ∀ less ≤ fuel, ∀ command,
      Engine.Keeps (fun world => world.Valid ∧ world.Climbing) (handler less command) :=
    fun less _ => hinvariant.handler less
  obtain ⟨valid, climbing⟩ := hinvariant.request hkeeps key context hlayer
    (reachable.keeps hinvariant ⟨.initial, .initial⟩)
  obtain ⟨top, scope, sane⟩ := climbing site chain obstacle h
  obtain ⟨source, eager, cyclic, slot⟩ := sane.slot
  obtain ⟨outer, howner⟩ := valid.built_of_mem_ancestry sane.built sane.known
  refine ⟨sane.climbs.untangled valid sane.built, ⟨scope, outer⟩, howner, sane.id, source, eager,
    cyclic, slot, fun hstarted => ?_⟩
  have unclaimed : chain.claims scope.id site.key = false := sane.id ▸ sane.unclaimed hstarted
  exact (sane.climbs.push sane.known slot unclaimed).sites_nodup (valid.proper sane.built)

/-- Two generators that ask for each other behind the back of their declarations. -/
def knotted : List Registered :=
  [⟨0, "a", "make_a", [.hidden ⟨"C"⟩], [⟨"A"⟩, ⟨"B"⟩],
      fun _ _ => .done (.products [⟨⟨"A"⟩, "a"⟩, ⟨⟨"B"⟩, "b"⟩])⟩,
    ⟨1, "c", "make_c", [.hidden ⟨"B"⟩], [⟨"C"⟩], fun _ _ => .done (.products [⟨⟨"C"⟩, "c"⟩])⟩]

def knottedLayer : Layer :=
  { scope :=
      { id := 1, label := none, locked := false
        slots := ⟨[(⟨"A"⟩, .generated knotted[0] false false),
          (⟨"B"⟩, .generated knotted[0] false false),
          (⟨"C"⟩, .generated knotted[1] false false)]⟩
        bindings := {}, overridable := [], settings := {}, observers := [] }
    outer := [] }

def knottedWorld : World :=
  (step 2 {} (.build "app" none
    (knotted.map fun source => .register (.generator source.generator false)))).2

theorem knottedWorld_built : knottedWorld.built = [knottedLayer] := rfl

theorem requests_come_to_an_end_knotted :
    Reachable knottedWorld ∧ (∀ layer ∈ knottedWorld.built, layer.scope.Returning) ∧
    ∀ context, ∃ answered after, ∀ fuel, 2 < fuel →
      knottedLayer.request (resolver fuel) ⟨"A"⟩ context knottedWorld = (.ok answered, after) := by
  have reachable : Reachable knottedWorld := .step .initial _ _
  have returning : ∀ layer ∈ knottedWorld.built, layer.scope.Returning := by
    intro layer hlayer
    rw [knottedWorld_built] at hlayer
    obtain rfl := List.mem_singleton.mp hlayer
    refine ⟨fun key source eager cyclic slot run arguments => ?_, fun key binding h => by cases h⟩
    have hmem := Table.mem_entries_of_find? slot
    simp only [knottedLayer, List.mem_cons, List.not_mem_nil, or_false, Prod.mk.injEq,
      Backing.generated.injEq] at hmem
    rcases hmem with ⟨-, rfl, -⟩ | ⟨-, rfl, -⟩ | ⟨-, rfl, -⟩
    · exact ⟨_, rfl⟩
    · exact ⟨_, rfl⟩
    · exact ⟨_, rfl⟩
  have hknown : knottedLayer ∈ knottedWorld.built := by
    rw [knottedWorld_built]
    exact List.mem_singleton.mpr rfl
  have hcount : knottedLayer.generatorCount = 2 := by decide
  refine ⟨reachable, returning, fun context => ?_⟩
  obtain ⟨⟨answered, after, hrequest⟩, -⟩ :=
    requests_come_to_an_end reachable returning knottedLayer hknown ⟨"A"⟩ context
  exact ⟨answered, after, fun fuel hfuel => hrequest fuel (hcount ▸ hfuel)⟩

end Session

end LayerGraph
