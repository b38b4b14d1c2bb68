import LayerGraph.Proofs.Stability

/-! Which generators can come to wait for themselves is known when a layer is built.

As long as generators fetch only what they declare, a run that waits for a value waits for a
generator that the declared dependencies of its own lead to. So a generator that is not on a cycle of
declared dependencies is never asked for below itself, and one that is on a cycle is never run. -/

namespace LayerGraph

open Relation

/-- Outside code that gives no commands. -/
def Act.Silent {κ α : Type} : Act κ α → Prop
  | .done _ | .panic _ => True
  | .cancel _ next | .elapse _ next | .noteThread next => next.Silent
  | .perform _ _ => False

theorem Act.Silent.keeps_aside {α : Type} {holds : World → Prop} {perform : Command → Engine Reply}
    {act : Act Command α} (silent : act.Silent)
    (sidestep : ∀ {world after}, holds world → world.Sidesteps after → holds after)
    (look : ∀ {world} name, holds world → holds (world.emit (.thread name))) :
    Engine.Keeps holds (Engine.run perform act) := by
  induction act with
  | done result => exact .pure result
  | panic message => exact .throw _
  | cancel name next ih =>
    refine .bind (.modify fun world hworld => ?_) fun _ => ih silent
    cases world.tokens.find? name with
    | some token => exact sidestep hworld (.cancel world token)
    | none => exact hworld
  | elapse time next ih =>
    refine .bind (.modify fun world hworld => ?_) fun _ => ih silent
    exact sidestep hworld (.elapse world time)
  | noteThread next ih =>
    refine .get_bind fun world hworld => ?_
    exact Engine.Keeps.bind (fun _ h => look world.thread h) (fun _ => ih silent) world hworld
  | perform command next ih => exact silent.elim

/-- Silent code keeps whatever nothing on the side changes. -/
theorem Act.Silent.keeps {α : Type} {holds : World → Prop} {perform : Command → Engine Reply}
    {act : Act Command α} (silent : act.Silent)
    (sidestep : ∀ {world after}, holds world → world.Sidesteps after → holds after)
    (note : ∀ {world event}, holds world → event.IsIncidental → holds (world.emit event)) :
    Engine.Keeps holds (Engine.run perform act) :=
  silent.keeps_aside sidestep fun _ h => note h trivial

namespace Scope

/-- Generators fetch only types that they declare. -/
def Declares (scope : Scope) : Prop :=
  ∀ key source eager cyclic, scope.slots.find? key = some (.generated source eager cyclic) →
    ∀ parameter ∈ source.generator.parameters, ∀ dependency,
      parameter.supply.key? = some dependency →
        dependency ∈ source.generator.declarations.filterMap Declaration.key?

structure Silent (scope : Scope) : Prop where
  bodies : ∀ key source eager cyclic, scope.slots.find? key = some (.generated source eager cyclic) →
    ∀ run arguments, (source.generator.body run arguments).Silent
  casts : ∀ key binding, scope.bindings.find? key = some binding →
    ∀ call payload, (binding.cast.apply call payload).Silent

end Scope

def Layer.Tame (layer : Layer) : Prop := ∀ scope ∈ layer.ancestry, scope.Declares ∧ scope.Silent

theorem Layer.Tame.parent {scope parent : Scope} {further : List Scope}
    (tame : Layer.Tame ⟨scope, parent :: further⟩) : Layer.Tame ⟨parent, further⟩ :=
  fun other hother => tame other (List.mem_cons_of_mem _ hother)

def World.HasSlot (world : World) (site : Site) (cyclic : Bool) : Prop :=
  ∃ layer ∈ world.built, layer.scope.id = site.layer ∧ ∃ source eager,
    layer.scope.slots.find? site.key = some (.generated source eager cyclic)

theorem World.HasSlot.grow {world after : World} {site : Site} {cyclic : Bool}
    (hasSlot : world.HasSlot site cyclic) (built : world.built <:+ after.built) :
    after.HasSlot site cyclic := by
  obtain ⟨layer, hlayer, hrest⟩ := hasSlot
  exact ⟨layer, built.mem hlayer, hrest⟩

theorem World.HasSlot.flag_eq {world : World} {owner : Layer} {key : Key} {source : Registered}
    {eager cyclic other : Bool} (hasSlot : world.HasSlot (owner.scope.site key) other)
    (hosts : world.Hosts owner)
    (slot : owner.scope.slots.find? key = some (.generated source eager cyclic)) :
    other = cyclic := by
  obtain ⟨layer, hlayer, hid, source', eager', hslot⟩ := hasSlot
  obtain rfl := hosts.1.unique layer hlayer owner hosts.2 hid
  exact (Backing.generated.inj (Option.some.inj (hslot.symm.trans slot))).2.2

/-- What an event may say: the runs in progress do not claim the slot that is attempted, only flagged
slots are found on a cycle, and only those that are not are started. -/
def World.Sanctions (world : World) : Event → Prop
  | .attempted site chain obstacle =>
    chain.claims site.layer site.key = false ∧ (obstacle = none → world.HasSlot site false) ∧
      ∀ key path, obstacle = some (.cyclic key path) → world.HasSlot site true
  | .ran layer place _ _ _ => ∃ owner ∈ world.built, owner.scope.id = layer ∧
      ∃ key source eager, owner.scope.slots.find? key = some (.generated source eager false) ∧
        source.place = place
  | .noticed _ (.started layer key _) => world.HasSlot ⟨layer, key⟩ false
  | _ => True

theorem World.Sanctions.grow {world after : World} {event : Event}
    (sanctions : world.Sanctions event) (built : world.built <:+ after.built) :
    after.Sanctions event := by
  cases event with
  | attempted site chain obstacle =>
    obtain ⟨hclaims, hnone, hcyclic⟩ := sanctions
    exact ⟨hclaims, fun h => (hnone h).grow built, fun key path h => (hcyclic key path h).grow built⟩
  | ran layer place tag run arguments =>
    obtain ⟨owner, howner, hrest⟩ := sanctions
    exact ⟨owner, built.mem howner, hrest⟩
  | noticed observer notice =>
    cases notice with
    | started layer key generator => exact HasSlot.grow sanctions built
    | _ => trivial
  | _ => trivial

structure World.Acyclic (world : World) : Prop where
  events : ∀ event ∈ world.trace, world.Sanctions event
  filled : ∀ site value, world.memory.filled.find? site = some value → world.HasSlot site false

namespace World.Acyclic

variable {world after : World}

theorem initial : World.Acyclic {} := by
  refine ⟨fun event h => ?_, fun site value h => ?_⟩
  · cases h
  · cases h

theorem advance (acyclic : world.Acyclic) (built : world.built <:+ after.built)
    (filled : after.memory.filled = world.memory.filled) (events : List Event)
    (trace : after.trace = events ++ world.trace)
    (sanctioned : ∀ event ∈ events, after.Sanctions event) : after.Acyclic := by
  refine ⟨fun event h => ?_, fun site value h => ?_⟩
  · rw [trace] at h
    rcases List.mem_append.mp h with hnew | hold
    · exact sanctioned event hnew
    · exact (acyclic.events event hold).grow built
  · rw [filled] at h
    exact (acyclic.filled site value h).grow built

theorem emit (acyclic : world.Acyclic) (event : Event) (sanctioned : world.Sanctions event) :
    (world.emit event).Acyclic :=
  acyclic.advance List.suffix_rfl rfl [event] rfl fun other hother => by
    obtain rfl := List.mem_singleton.mp hother
    exact sanctioned.grow List.suffix_rfl

theorem noticed (acyclic : world.Acyclic) (scope : Scope) (notice : Notice)
    (sanctioned : ∀ observer, world.Sanctions (.noticed observer notice)) :
    (world.emitAll (scope.observers.map (Event.noticed · notice))).Acyclic := by
  refine acyclic.advance List.suffix_rfl rfl _ rfl fun event hevent => ?_
  obtain ⟨observer, -, rfl⟩ := List.mem_map.mp (List.mem_reverse.mp hevent)
  exact (sanctioned observer).grow List.suffix_rfl

theorem sidestep (acyclic : world.Acyclic) (sidesteps : world.Sidesteps after) : after.Acyclic :=
  acyclic.advance (sidesteps.built ▸ List.suffix_rfl) (by rw [sidesteps.memory]) []
    sidesteps.trace (by simp)

theorem note (acyclic : world.Acyclic) {event : Event} (incidental : event.IsIncidental) :
    (world.emit event).Acyclic := by
  refine acyclic.emit event ?_
  cases event <;> trivial

theorem hold (acyclic : world.Acyclic) (held : List Site) : World.Acyclic { world with held } :=
  acyclic.advance List.suffix_rfl rfl [] rfl (by simp)

theorem obstruct (acyclic : world.Acyclic) (scope : Scope) (key : Key) (source : Registered)
    {chain : Chain} {error : ResolutionError}
    (sanctioned : world.Sanctions (.attempted (scope.site key) chain (some error))) :
    (world.obstruct scope key source chain error).Acyclic :=
  (acyclic.emit _ sanctioned).noticed scope _ fun _ => trivial

theorem start (acyclic : world.Acyclic) (scope : Scope) (key : Key) (source : Registered)
    {chain : Chain} (sanctioned : world.Sanctions (.attempted (scope.site key) chain none)) :
    (world.start scope key source chain).Acyclic := by
  have noticed := ((acyclic.emit _ sanctioned).hold
    ((Key.sort (scope.fedBy source)).map scope.site ++ world.held)).noticed scope
    (.started scope.id key source.generator.signature) fun _ => sanctioned.2.1 rfl
  exact noticed.emit _ trivial

theorem enterBody (acyclic : world.Acyclic) (scope : Scope) (source : Registered)
    (arguments : List Argument)
    (sanctioned : ∀ run, world.Sanctions (.ran scope.id source.place source.generator.tag run
      arguments)) : (world.enterBody scope source arguments).Acyclic :=
  acyclic.advance List.suffix_rfl rfl [_] rfl fun event hevent => by
    obtain rfl := List.mem_singleton.mp hevent
    exact (sanctioned _).grow List.suffix_rfl

theorem enterCast (acyclic : world.Acyclic) (site : Site) (binding : Binding) (payload : String) :
    (world.enterCast site binding payload).Acyclic :=
  acyclic.advance List.suffix_rfl rfl [_] rfl fun event hevent => by
    obtain rfl := List.mem_singleton.mp hevent
    trivial

theorem bind (acyclic : world.Acyclic) (scope : Scope) (key : Key) (binding : Binding)
    (payload : String) : (world.bind scope key binding payload).Acyclic :=
  acyclic.advance List.suffix_rfl rfl [_] rfl fun event hevent => by
    obtain rfl := List.mem_singleton.mp hevent
    trivial

theorem hoist (acyclic : world.Acyclic) (scope : Scope) (key : Key) (value : Value) :
    (world.hoist scope key value).Acyclic := by
  unfold World.hoist
  split
  · exact acyclic.advance List.suffix_rfl rfl [] rfl (by simp)
  · exact acyclic

theorem delegate (acyclic : world.Acyclic) (scope : Scope) (key : Key) (parent : Scope) :
    (world.delegate scope key parent).Acyclic :=
  (acyclic.noticed scope (.delegated scope.id key parent.id) fun _ => trivial).emit _ trivial

theorem deliver (acyclic : world.Acyclic) {delivery : Site × Value}
    (hasSlot : world.HasSlot delivery.1 false) : (world.deliver delivery).Acyclic := by
  unfold World.deliver
  split
  · exact acyclic.emit _ trivial
  · have hfill : World.Acyclic
        { world with memory := world.memory.fill delivery.1 delivery.2 } := by
      refine ⟨fun event h => (acyclic.events event h).grow List.suffix_rfl, fun site value h => ?_⟩
      have h : (world.memory.filled.add delivery.1 delivery.2).find? site = some value := h
      rw [Table.find?_add] at h
      split at h
      · next hsite => exact hsite ▸ hasSlot
      · exact acyclic.filled site value h
    exact hfill.emit _ trivial

theorem report (acyclic : world.Acyclic) (scope : Scope) (key : Key) (source : Registered)
    (answer : Answer) : (world.report scope key source answer).Acyclic := by
  cases answer with
  | ok value =>
    exact (acyclic.emit (.logged (.finished scope.id key)) trivial).noticed scope _ fun _ => trivial
  | error error =>
    exact (acyclic.emit (.logged (.failed scope.id key error)) trivial).noticed scope _
      fun _ => trivial

theorem conclude (acyclic : world.Acyclic) (layer : Layer) (key : Key)
    (result : Except Stop Answer) : (world.conclude layer key result).Acyclic := by
  rcases result with stop | (error | value)
  · exact acyclic
  · exact (acyclic.emit (.denied _ error) trivial).emit (.logged _) trivial
  · exact acyclic.emit _ trivial

end World.Acyclic

/-- The runs in progress when a type is asked for in a layer: in the layer's own scope, generators
that lead to the one behind the type, and none in the scopes around it. -/
def Chain.Fits (chain : Chain) (layer : Layer) (key : Key) : Prop :=
  ∀ frame ∈ chain, frame.layer ∈ layer.ancestry.map Scope.id →
    frame.layer = layer.scope.id ∧ ∃ requested source eager,
      layer.scope.slots.find? requested = some (.generated source eager false) ∧
      frame.outputs = Key.sort (layer.scope.fedBy source) ∧
      ∀ other, layer.scope.producer? key = some other →
        TransGen layer.scope.DependsOn source.place other.place

namespace Chain.Fits

variable {chain : Chain} {scope : Scope} {outer : List Scope} {key : Key}

theorem nil (layer : Layer) (key : Key) : Chain.Fits [] layer key := fun frame h => by cases h

theorem producer?_of_slot {source : Registered} {eager cyclic : Bool}
    (slot : scope.slots.find? key = some (.generated source eager cyclic)) :
    scope.producer? key = some source := by
  simp [Scope.producer?, Scope.behind?, slot, Backing.source?]

theorem claims_eq_false (fits : Chain.Fits chain ⟨scope, outer⟩ key) (sound : scope.Sound)
    {source : Registered} {eager cyclic : Bool}
    (slot : scope.slots.find? key = some (.generated source eager cyclic)) :
    chain.claims scope.id key = false := by
  refine List.any_eq_false.mpr fun frame hframe hclaims => ?_
  obtain ⟨hlayer, houtput⟩ := Bool.and_eq_true_iff.mp hclaims
  have hlayer : frame.layer = scope.id := beq_iff_eq.mp hlayer
  have hmem : frame.layer ∈ (Layer.ancestry ⟨scope, outer⟩).map Scope.id :=
    hlayer ▸ List.mem_cons_self
  obtain ⟨-, requested, other, early, hother, houtputs, hleads⟩ := fits frame hframe hmem
  rw [houtputs] at houtput
  have hfed := List.mem_filter.mp (List.mem_mergeSort.mp (List.contains_iff_mem.mp houtput))
  obtain ⟨found, eager', cyclic', hfound, hplace⟩ := Resolution.any_isFedBy.mp hfed.2
  rw [slot] at hfound
  obtain ⟨rfl, rfl, rfl⟩ := Backing.generated.inj (Option.some.inj hfound)
  have hcycle := hleads source (producer?_of_slot slot)
  rw [hplace] at hcycle
  have hflag := (sound.flagged requested other early false hother).mpr hcycle
  cases hflag

theorem push (fits : Chain.Fits chain ⟨scope, outer⟩ key) {source : Registered} {eager : Bool}
    (slot : scope.slots.find? key = some (.generated source eager false)) {dependency : Key}
    (declared : dependency ∈ source.generator.declarations.filterMap Declaration.key?) :
    Chain.Fits (scope.frame key source :: chain) ⟨scope, outer⟩ dependency := by
  have hstep (other : Registered) (h : scope.producer? dependency = some other) :
      scope.DependsOn source.place other.place :=
    ⟨key, source, eager, false, slot, rfl, dependency, declared, other, h, rfl⟩
  intro frame hframe hlayer
  rcases List.mem_cons.mp hframe with rfl | hmem
  · exact ⟨rfl, key, source, eager, slot, rfl, fun other h => .single (hstep other h)⟩
  · obtain ⟨hid, requested, earlier, early, hslot, houtputs, hleads⟩ := fits frame hmem hlayer
    refine ⟨hid, requested, earlier, early, hslot, houtputs, fun other h => ?_⟩
    exact (hleads source (producer?_of_slot slot)).tail (hstep other h)

theorem of_producer? {layer : Layer} (fits : Chain.Fits chain layer key) {other : Key}
    (same : layer.scope.producer? other = layer.scope.producer? key) :
    Chain.Fits chain layer other := by
  intro frame hframe hlayer
  obtain ⟨hid, requested, earlier, early, hslot, houtputs, hleads⟩ := fits frame hframe hlayer
  exact ⟨hid, requested, earlier, early, hslot, houtputs, fun found h => hleads found (same ▸ h)⟩

theorem source (fits : Chain.Fits chain ⟨scope, outer⟩ key) {binding : Binding}
    {backing : Backing} (noSlot : scope.slots.find? key = none)
    (interface : scope.bindings.find? key = some binding)
    (behind : scope.slots.find? binding.source = some backing) :
    Chain.Fits chain ⟨scope, outer⟩ binding.source := by
  refine fits.of_producer? ?_
  simp [Scope.producer?, Scope.behind?, noSlot, interface, behind]

theorem parent {parent : Scope} {further : List Scope}
    (fits : Chain.Fits chain ⟨scope, parent :: further⟩ key)
    (hid : scope.id ∉ (parent :: further).map Scope.id) (other : Key) :
    Chain.Fits chain ⟨parent, further⟩ other := by
  intro frame hframe hlayer
  have hown := (fits frame hframe (List.mem_cons_of_mem _ hlayer)).1
  exact absurd (hown ▸ hlayer) hid

end Chain.Fits

namespace Resolution

variable {layer : Layer} {key : Key} {source : Registered} {chain : Chain} {context : Context}

theorem obstacle?_eq_none_iff {cyclic : Bool} {signals : Signals} :
    obstacle? layer key source cyclic chain context signals = none ↔
      chain.claims layer.scope.id key = false ∧ cyclic = false ∧
        chain.length < layer.scope.settings.maxDepth ∧ context.isCancelled signals = false := by
  unfold obstacle?
  dsimp only
  split_ifs with claimed flagged deep lapsed
  · simp [claimed]
  · simp [flagged]
  · simp [Nat.not_lt.mpr deep]
  · simp [lapsed]
  · simp_all

theorem obstacle?_none {cyclic : Bool} {signals : Signals}
    (h : obstacle? layer key source cyclic chain context signals = none) : cyclic = false :=
  (obstacle?_eq_none_iff.mp h).2.1

theorem obstacle?_some {cyclic : Bool} {signals : Signals} {error : ResolutionError}
    (h : obstacle? layer key source cyclic chain context signals = some error) :
    (chain.claims layer.scope.id key = true ∧
      error = .cyclic key (chain.pathTo layer.scope.id key)) ∨
    (cyclic = true ∧ error = .cyclic key (layer.scope.cyclePath key source)) ∨
    (layer.scope.settings.maxDepth ≤ chain.length ∧
      error = .tooDeep key layer.scope.settings.maxDepth) ∨
    (context.isCancelled signals = true ∧ error = .canceled key) := by
  unfold obstacle? at h
  dsimp only at h
  split at h
  · next hclaims => exact .inl ⟨hclaims, (Option.some.inj h).symm⟩
  · split at h
    · next hflag => exact .inr (.inl ⟨hflag, (Option.some.inj h).symm⟩)
    · split at h
      · next hdeep => exact .inr (.inr (.inl ⟨hdeep, (Option.some.inj h).symm⟩))
      · split at h
        · next hcancelled => exact .inr (.inr (.inr ⟨hcancelled, (Option.some.inj h).symm⟩))
        · cases h

/-- A cycle that the runs in progress do not show is one that the slot is flagged for. -/
theorem obstacle?_cyclic {cyclic : Bool} {signals : Signals} {found : Key} {path : List Key}
    (unclaimed : chain.claims layer.scope.id key = false)
    (h : obstacle? layer key source cyclic chain context signals = some (.cyclic found path)) :
    cyclic = true ∧ found = key ∧ path = layer.scope.cyclePath key source := by
  rcases obstacle?_some h with ⟨hclaims, -⟩ | ⟨hflag, herror⟩ | ⟨-, herror⟩ | ⟨-, herror⟩
  · cases unclaimed.symm.trans hclaims
  · obtain ⟨rfl, rfl⟩ := ResolutionError.cyclic.inj herror
    exact ⟨hflag, rfl, rfl⟩
  · cases herror
  · cases herror

theorem Gathers.asked {supplies : List Supply} {inquiries : List Inquiry} {world after : World}
    {gathered : Except Stop (Except ResolutionError (List Argument))}
    (gathers : Gathers layer context supplies inquiries world gathered after) :
    ∀ inquiry ∈ inquiries, ∃ supply ∈ supplies, supply.key? = some inquiry.key := by
  induction gathers with
  | done => simp
  | given unasked willing further ih =>
    intro inquiry hinquiry
    obtain ⟨supply, hsupply, hkey⟩ := ih inquiry hinquiry
    exact ⟨supply, List.mem_cons_of_mem _ hsupply, hkey⟩
  | declined unasked refusal => simp
  | stopped asked =>
    intro inquiry hinquiry
    obtain rfl := List.mem_singleton.mp hinquiry
    exact ⟨_, List.mem_cons_self, asked⟩
  | refused asked unacceptable =>
    intro inquiry hinquiry
    obtain rfl := List.mem_singleton.mp hinquiry
    exact ⟨_, List.mem_cons_self, asked⟩
  | found asked acceptable further ih =>
    intro inquiry hinquiry
    rcases List.mem_cons.mp hinquiry with rfl | hmem
    · exact ⟨_, List.mem_cons_self, asked⟩
    · obtain ⟨supply, hsupply, hkey⟩ := ih inquiry hmem
      exact ⟨supply, List.mem_cons_of_mem _ hsupply, hkey⟩

theorem Ends.acyclic {perform : Command → Engine Reply} {source : Registered} {eager : Bool}
    {world after : World} {gathered : Except Stop (Except ResolutionError (List Argument))}
    {result : Except Stop Answer}
    (ends : Ends perform layer key source context world gathered result after)
    (silent : layer.scope.Silent) (hosts : world.Hosts layer) (acyclic : world.Acyclic)
    (slot : layer.scope.slots.find? key = some (.generated source eager false)) :
    after.Acyclic := by
  have sound := hosts.1.sound layer hosts.2
  have hends : after.Hosts layer ∧ after.Acyclic := by
    refine ends.keeps (fun world => world.Hosts layer ∧ world.Acyclic) ?_ ?_ ?_ ?_ ⟨hosts, acyclic⟩
    · intro arguments h
      exact ⟨h.1.enterBody arguments, h.2.enterBody layer.scope source arguments fun run =>
        ⟨_, h.1.2, rfl, key, source, eager, slot, rfl⟩⟩
    · intro run arguments
      refine (silent.bodies key source eager false slot run arguments).keeps ?_ ?_
      · exact fun h sidesteps => ⟨h.1.sidestep sidesteps, h.2.sidestep sidesteps⟩
      · exact fun h incidental => ⟨h.1.emit _, h.2.note incidental⟩
    · exact fun between run yield h => ⟨h.1.emit _, h.2.emit _ trivial⟩
    · intro result between h
      refine finish_keeps (fun world => world.Hosts layer ∧ world.Acyclic) ?_ ?_ h
      · intro products _ delivery hdelivery between h
        obtain ⟨output, -, hfed, hsite⟩ := mem_deliveries.mp hdelivery
        obtain ⟨other, early, flag, hother, hplace⟩ := any_isFedBy.mp hfed
        obtain ⟨rfl, rfl, rfl⟩ :=
          sound.placed output other early flag key source eager false hother slot hplace
        have hasSlot : between.HasSlot delivery.1 false :=
          hsite ▸ ⟨_, h.1.2, rfl, other, early, hother⟩
        exact ⟨h.1.deliver hdelivery, h.2.deliver hasSlot⟩
      · intro answer between h
        exact ⟨h.1.report _ _ _ answer, h.2.report _ _ _ answer⟩
  exact hends.2

theorem Resolves.acyclic {fuel : Nat} {world after : World} {result : Except Stop Answer}
    (resolves : Resolves fuel layer key chain context world result after) (tame : layer.Tame)
    (hosts : world.Hosts layer) (fits : chain.Fits layer key) (acyclic : world.Acyclic) :
    after.Acyclic := by
  induction resolves with
  | stored => exact acyclic.emit _ trivial
  | exhausted => exact acyclic
  | @obstructed fuel scope outer key chain context world source eager cyclic error slot empty
      obstacle =>
    have unclaimed := fits.claims_eq_false (hosts.1.sound _ hosts.2) slot
    apply acyclic.obstruct
    refine ⟨unclaimed, fun h => (nomatch h), fun found path h => ?_⟩
    obtain rfl := Option.some.inj h
    obtain ⟨rfl, -, -⟩ := obstacle?_cyclic unclaimed obstacle
    exact ⟨_, hosts.2, rfl, source, eager, slot⟩
  | @blocked fuel scope outer key chain context world source eager cyclic slot empty free locked =>
    have unclaimed := fits.claims_eq_false (hosts.1.sound _ hosts.2) slot
    obtain rfl := obstacle?_none free
    exact acyclic.emit _ ⟨unclaimed, fun _ => ⟨_, hosts.2, rfl, source, eager, slot⟩,
      fun _ _ h => nomatch h⟩
  | @run fuel scope outer key chain context world source inquiries gathered between result after
      starts answers ends ih =>
    obtain ⟨eager, cyclic, slot, free⟩ := starts.slot
    obtain ⟨declares, silent⟩ := tame scope List.mem_cons_self
    have sound : scope.Sound := hosts.1.sound _ hosts.2
    have unclaimed := fits.claims_eq_false sound slot
    obtain rfl := obstacle?_none free
    have hstart : (world.start scope key source chain).Acyclic :=
      acyclic.start scope key source ⟨unclaimed, fun _ => ⟨_, hosts.2, rfl, source, eager, slot⟩,
        fun _ _ h => nomatch h⟩
    obtain ⟨-, hhosts, hbetween⟩ := starts.hosted World.Acyclic answers (fun inquiry hinquiry
        hinquired h => by
      obtain ⟨supply, hsupply, hasked⟩ := starts.gathers.asked inquiry hinquiry
      obtain ⟨parameter, hparameter, rfl⟩ := List.mem_map.mp hsupply
      have declared := declares key source eager false slot parameter hparameter _ hasked
      exact ih inquiry hinquiry tame hinquired (fits.push slot declared) h) hosts hstart
    exact (ends.acyclic silent hhosts hbetween slot).hold _
  | bound => exact acyclic
  | unbacked => exact acyclic
  | unsourced noSlot interface unbound behind answer lost ih =>
    exact ih tame hosts (fits.source noSlot interface behind) acyclic
  | @cast fuel scope outer key chain context world binding backing value between result after
      noSlot interface unbound behind answer binds ih =>
    have hbetween := ih tame hosts (fits.source noSlot interface behind) acyclic
    refine binds.keeps World.Acyclic ?_ ?_ ?_ hbetween
    · exact fun payload h => h.enterCast _ _ payload
    · intro call payload
      refine ((tame scope List.mem_cons_self).2.casts key binding interface call payload).keeps ?_ ?_
      · exact fun h sidesteps => h.sidestep sidesteps
      · exact fun h incidental => h.note incidental
    · exact fun payload between h => h.bind _ _ _ payload
  | imported => exact acyclic
  | missing => exact acyclic
  | unavailable unowned unknown answer lost ih =>
    exact ih tame.parent (hosts.delegate _ _ _).parent
      (fits.parent (hosts.1.id_notMem_outer hosts.2) _) (acyclic.delegate _ _ _)
  | delegated unowned unknown answer ih =>
    have hbetween := ih tame.parent (hosts.delegate _ _ _).parent
      (fits.parent (hosts.1.id_notMem_outer hosts.2) _) (acyclic.delegate _ _ _)
    exact hbetween.hoist _ _ _

end Resolution

namespace World.Acyclic

open Session Resolution

theorem request {world : World} (acyclic : world.Acyclic) {layer : Layer} (hosts : world.Hosts layer)
    (tame : layer.Tame) (fuel : Nat) (key : Key) (context : Context) :
    (layer.request (resolver fuel) key context world).2.Acyclic := by
  rw [Layer.request_world]
  refine conclude ?_ layer key _
  exact (resolver_resolves fuel layer key [] context _).acyclic tame (hosts.emit _)
    (.nil layer key) (acyclic.emit (.asked _) trivial)

theorem invariant : Invariant fun world =>
    world.Valid ∧ ((∀ layer ∈ world.built, layer.Tame) → world.Acyclic) := by
  refine .of_valid ?_ ?_ ?_ ?_ ?_
  · exact fun h sidesteps tame => (h (sidesteps.built ▸ tame)).sidestep sidesteps
  · exact fun h incidental tame => (h tame).note incidental
  · exact fun name h known tame => (h tame).advance List.suffix_rfl rfl [] rfl (by simp)
  · intro world layer builder valid h parent assembled tame
    have hbefore := h fun other hother => tame other (List.mem_cons_of_mem _ hother)
    exact hbefore.advance (List.suffix_cons _ _) rfl [] rfl (by simp)
  · intro fuel keeps layer key context world hosts h tame
    have built := (request_grows fuel layer key context world).built
    have hbefore := h fun other hother => tame other (built.mem hother)
    exact hbefore.request hosts (tame layer (built.mem hosts.2)) fuel key context

end World.Acyclic

/-- A slot that is flagged and empty is refused, before anything else is looked at. -/
theorem Resolution.Resolves.refuses_cyclic {fuel : Nat} {layer : Layer} {key : Key} {chain : Chain}
    {context : Context} {world after : World} {result : Except Stop Answer} {scope : Scope}
    {source : Registered} {eager : Bool}
    (resolves : Resolves (fuel + 1) layer key chain context world result after)
    (hosts : world.Hosts layer) (faithful : world.Faithful) (owner : layer.owner? key = some scope)
    (slot : scope.slots.find? key = some (.generated source eager true))
    (empty : world.memory.filled.find? (scope.site key) = none)
    (unclaimed : chain.claims scope.id key = false) :
    result = .ok (.error (.cyclic key (scope.cyclePath key source))) := by
  generalize hdepth : fuel + 1 = depth at resolves
  -- A scope with a slot for the type is the owner, and its slot is the flagged one.
  have hfound {inner : Scope} {outer : List Scope} {key : Key} {backing : Backing}
      (owner : Layer.owner? ⟨inner, outer⟩ key = some scope)
      (slot : scope.slots.find? key = some (.generated source eager true))
      (found : inner.slots.find? key = some backing) :
      inner = scope ∧ backing = .generated source eager true := by
    obtain rfl := Option.some.inj ((Layer.owner?_of_slot found outer).symm.trans owner)
    exact ⟨rfl, Option.some.inj (found.symm.trans slot)⟩
  have hunbound {inner : Scope} {outer : List Scope} {key : Key} {binding : Binding}
      (owner : Layer.owner? ⟨inner, outer⟩ key = some scope)
      (slot : scope.slots.find? key = some (.generated source eager true))
      (noSlot : inner.slots.find? key = none)
      (interface : inner.bindings.find? key = some binding) : False := by
    obtain rfl := Option.some.inj ((Layer.owner?_of_binding interface outer).symm.trans owner)
    cases slot.symm.trans noSlot
  induction resolves with
  | @stored fuel inner outer key chain context world backing value found present =>
    obtain ⟨rfl, rfl⟩ := hfound owner slot found
    cases empty.symm.trans present
  | exhausted => cases hdepth
  | @obstructed fuel inner outer key chain context world source' eager' cyclic error found
      unfilled obstacle =>
    obtain ⟨rfl, hbacking⟩ := hfound owner slot found
    obtain ⟨rfl, rfl, rfl⟩ := Backing.generated.inj hbacking
    simp only [obstacle?, unclaimed, Bool.false_eq_true, if_false, if_true] at obstacle
    rw [← Option.some.inj obstacle]
  | @blocked fuel inner outer key chain context world source' eager' cyclic found unfilled free =>
    obtain ⟨rfl, hbacking⟩ := hfound owner slot found
    obtain ⟨rfl, rfl, rfl⟩ := Backing.generated.inj hbacking
    cases obstacle?_none free
  | @run fuel inner outer key chain context world source' inquiries gathered between result after
      starts =>
    obtain ⟨⟨eager', cyclic, found, free⟩, -⟩ := starts
    obtain ⟨rfl, hbacking⟩ := hfound owner slot found
    obtain ⟨rfl, rfl, rfl⟩ := Backing.generated.inj hbacking
    cases obstacle?_none free
  | bound noSlot interface => exact (hunbound owner slot noSlot interface).elim
  | unbacked noSlot interface => exact (hunbound owner slot noSlot interface).elim
  | unsourced noSlot interface => exact (hunbound owner slot noSlot interface).elim
  | cast noSlot interface => exact (hunbound owner slot noSlot interface).elim
  | @imported fuel inner outer key chain context world value unowned present =>
    have hcell := faithful _ hosts.2 key value present
    rw [Layer.cell?, owner, Option.bind_some, Scope.cell?, slot] at hcell
    cases empty.symm.trans hcell
  | missing unowned => simp [Layer.owner?, Layer.ancestry, unowned] at owner
  | unavailable unowned unknown answer lost ih =>
    rw [Layer.owner?_of_unowned unowned] at owner
    exact ih (hosts.delegate _ _ _).parent faithful owner slot empty unclaimed hdepth
  | delegated unowned unknown answer ih =>
    rw [Layer.owner?_of_unowned unowned] at owner
    cases ih (hosts.delegate _ _ _).parent faithful owner slot empty unclaimed hdepth

namespace Session

theorem Reachable.acyclic {world : World} (reachable : Reachable world)
    (tame : ∀ layer ∈ world.built, layer.Tame) : world.Acyclic :=
  (reachable.keeps World.Acyclic.invariant ⟨.initial, fun _ => .initial⟩).2 tame

/-- Cycles are known from the declarations alone. As long as generators fetch only what they declare
and no code that the engine runs gives commands, no request finds a slot among the runs in progress,
and those refused for a cycle were flagged when their layer was built. A generator that depends on
itself in its layer is never started, its slots stay pending, and whoever asks for one of them is told
of the cycle, whatever the context and the depth limit. -/
theorem cycles_are_static {world : World} (reachable : Reachable world)
    (declares : ∀ layer ∈ world.built, layer.scope.Declares)
    (silent : ∀ layer ∈ world.built, layer.scope.Silent) :
    (∀ layer ∈ world.built, ∀ fuel key context, ∀ site chain obstacle,
      .attempted site chain obstacle ∈
          (layer.request (resolver fuel) key context world).2.trace →
        chain.claims site.layer site.key = false ∧
          ∀ found path, obstacle = some (.cyclic found path) →
            (layer.request (resolver fuel) key context world).2.HasSlot site true) ∧
    ∀ owner ∈ world.built, ∀ key source eager cyclic,
      owner.scope.slots.find? key = some (.generated source eager cyclic) →
      TransGen owner.scope.DependsOn source.place source.place →
        (∀ tag run arguments,
          .ran owner.scope.id source.place tag run arguments ∉ world.trace) ∧
        (∀ observer generator,
          .noticed observer (.started owner.scope.id key generator) ∉ world.trace) ∧
        (∀ chain, .attempted (owner.scope.site key) chain none ∉ world.trace) ∧
        owner.scope.status? world.memory key = some .pending ∧
        ∀ layer ∈ world.built, (layer.owner? key).map Scope.id = some owner.scope.id →
          ∀ fuel context, ∃ snapshot,
            (layer.request (resolver (fuel + 1)) key context world).1 =
              .ok (.error ⟨.cyclic key (owner.scope.cyclePath key source), snapshot⟩) := by
  have valid := reachable.valid
  have tame : ∀ layer ∈ world.built, layer.Tame := by
    intro layer hlayer scope hscope
    obtain ⟨outer, hbuilt⟩ := valid.built_of_mem_ancestry hlayer hscope
    exact ⟨declares _ hbuilt, silent _ hbuilt⟩
  have acyclic := reachable.acyclic tame
  constructor
  · intro layer hlayer fuel key context site chain obstacle h
    have hafter := acyclic.request ⟨valid, hlayer⟩ (tame layer hlayer) fuel key context
    obtain ⟨hclaims, -, hcyclic⟩ := hafter.events _ h
    exact ⟨hclaims, hcyclic⟩
  · intro owner howner key source eager cyclic slot hcycle
    have sound := valid.sound owner howner
    obtain rfl := (sound.flagged key source eager cyclic slot).mpr hcycle
    have hunflagged : ¬ world.HasSlot (owner.scope.site key) false := by
      intro h
      cases h.flag_eq ⟨valid, howner⟩ slot
    have hempty : world.memory.filled.find? (owner.scope.site key) = none := by
      cases hfilled : world.memory.filled.find? (owner.scope.site key) with
      | none => rfl
      | some value => exact absurd (acyclic.filled _ value hfilled) hunflagged
    refine ⟨fun tag run arguments h => ?_, fun observer generator h => ?_, fun chain h => ?_, ?_, ?_⟩
    · obtain ⟨other, hother, hid, key', source', eager', hslot, hplace⟩ := acyclic.events _ h
      obtain rfl := valid.unique other hother owner howner hid
      obtain ⟨-, -, hflag⟩ := sound.placed _ _ _ _ _ _ _ _ hslot slot hplace
      cases hflag
    · exact hunflagged (acyclic.events _ h)
    · obtain ⟨-, hstarts, -⟩ := acyclic.events _ h
      exact hunflagged (hstarts rfl)
    · simp [Scope.status?, slot, Scope.slotStatus, Table.contains, hempty]
    · intro layer hlayer hid fuel context
      have hself : owner.owner? key = some owner.scope := Layer.owner?_of_slot slot owner.outer
      have hsame := owner?_eq_of_id valid hlayer howner (by rw [hid, hself]; rfl)
      have hhosts : (world.emit (.asked (layer.scope.site key))).Hosts layer :=
        ⟨valid.emit _, hlayer⟩
      refine Layer.request_denied ?_
      exact (Resolution.resolver_resolves (fuel + 1) layer key [] context _).refuses_cyclic hhosts
        reachable.coherent.imports (hsame.trans hself) slot hempty rfl

/-- Two generators that need each other, and a layer of them. -/
def entangled : List Registered :=
  [⟨0, "a", "make_a", [.required ⟨"B"⟩], [⟨"A"⟩], fun _ _ => .done (.products [⟨⟨"A"⟩, "a"⟩])⟩,
    ⟨1, "b", "make_b", [.optional ⟨"A"⟩], [⟨"B"⟩], fun _ _ => .done (.products [⟨⟨"B"⟩, "b"⟩])⟩]

def entangledLayer : Layer :=
  { scope :=
      { id := 1, label := none, locked := false
        slots := ⟨[(⟨"A"⟩, .generated entangled[0] false true),
          (⟨"B"⟩, .generated entangled[1] false true)]⟩
        bindings := {}, overridable := [], settings := {}, observers := [] }
    outer := [] }

def entangledWorld : World :=
  (step 2 {} (.build "app" none
    (entangled.map fun source => .register (.generator source.generator false)))).2

theorem entangledWorld_built : entangledWorld.built = [entangledLayer] := rfl

theorem cycles_are_static_entangled :
    (∀ layer ∈ entangledWorld.built, layer.scope.Declares) ∧
    (∀ layer ∈ entangledWorld.built, layer.scope.Silent) ∧
    TransGen entangledLayer.scope.DependsOn 0 0 ∧
    entangledLayer.scope.status? entangledWorld.memory ⟨"A"⟩ = some .pending ∧
    ∀ fuel context, ∃ snapshot,
      (entangledLayer.request (resolver (fuel + 1)) ⟨"A"⟩ context entangledWorld).1 =
        .ok (.error ⟨.cyclic ⟨"A"⟩ [⟨"A"⟩, ⟨"B"⟩, ⟨"A"⟩], snapshot⟩) := by
  have reachable : Reachable entangledWorld := .step .initial _ _
  have hslots {key : Key} {source : Registered} {eager cyclic : Bool}
      (slot : entangledLayer.scope.slots.find? key = some (.generated source eager cyclic)) :
      source = entangled[0] ∨ source = entangled[1] := by
    have hmem := Table.mem_entries_of_find? slot
    simp only [entangledLayer, List.mem_cons, List.not_mem_nil, or_false, Prod.mk.injEq,
      Backing.generated.injEq] at hmem
    rcases hmem with ⟨-, h, -⟩ | ⟨-, h, -⟩
    · exact .inl h
    · exact .inr h
  have declares : ∀ layer ∈ entangledWorld.built, layer.scope.Declares := by
    intro layer hlayer key source eager cyclic slot parameter hparameter dependency hdependency
    rw [entangledWorld_built] at hlayer
    obtain rfl := List.mem_singleton.mp hlayer
    rcases hslots slot with rfl | rfl
    · obtain rfl := List.mem_singleton.mp hparameter
      obtain rfl := Option.some.inj hdependency
      decide
    · obtain rfl := List.mem_singleton.mp hparameter
      obtain rfl := Option.some.inj hdependency
      decide
  have silent : ∀ layer ∈ entangledWorld.built, layer.scope.Silent := by
    intro layer hlayer
    rw [entangledWorld_built] at hlayer
    obtain rfl := List.mem_singleton.mp hlayer
    refine ⟨fun key source eager cyclic slot run arguments => ?_, fun key binding h => by cases h⟩
    rcases hslots slot with rfl | rfl <;> trivial
  have hknown : entangledLayer ∈ entangledWorld.built := by
    rw [entangledWorld_built]
    exact List.mem_singleton.mpr rfl
  have sound := reachable.valid.sound _ hknown
  have hcycle : TransGen entangledLayer.scope.DependsOn 0 0 :=
    (sound.flagged ⟨"A"⟩ entangled[0] false true rfl).mp rfl
  obtain ⟨-, hrefused⟩ := cycles_are_static reachable declares silent
  obtain ⟨-, -, -, hpending, hrequest⟩ :=
    hrefused entangledLayer hknown ⟨"A"⟩ entangled[0] false true rfl hcycle
  refine ⟨declares, silent, hcycle, hpending, fun fuel context => ?_⟩
  obtain ⟨snapshot, h⟩ := hrequest entangledLayer hknown rfl fuel context
  exact ⟨snapshot, h⟩

end Session

end LayerGraph
