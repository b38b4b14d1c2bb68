import LayerGraph.Proofs.Coupling
import LayerGraph.Proofs.Validity

/-! Layers that answer alike.

The generators of a layer are told apart by their places, and nothing else about the places matters.
So let two layers have the same behind each type, at whatever places, and let two worlds go together
in a way that is kept while the same is done in both. Then a request comes to the same in both. -/

namespace LayerGraph

/-- Two slots get their values from the same, wherever the generators were registered, whether they
are eager or not, and whatever they depend on. -/
inductive Backing.Mirrors : Backing → Backing → Prop
  | value (value : Value) : Backing.Mirrors (.value value) (.value value)
  | generated (generator : Generator Command) (place place' : Nat)
      (eager eager' cyclic cyclic' : Bool) :
      Backing.Mirrors (.generated ⟨place, generator⟩ eager cyclic)
        (.generated ⟨place', generator⟩ eager' cyclic')

def Counterparts (slots slots' : Table Key Backing) (source source' : Registered) : Prop :=
  ∃ key eager eager' cyclic cyclic', slots.find? key = some (.generated source eager cyclic) ∧
    slots'.find? key = some (.generated source' eager' cyclic')

theorem Counterparts.symm {slots slots' : Table Key Backing} {source source' : Registered}
    (counterparts : Counterparts slots slots' source source') :
    Counterparts slots' slots source' source := by
  obtain ⟨key, eager, eager', cyclic, cyclic', slot, slot'⟩ := counterparts
  exact ⟨key, eager', eager, cyclic', cyclic, slot', slot⟩

/-- The same is behind each type, and the places tell the generators apart alike. -/
structure SlotsMirror (slots slots' : Table Key Backing) : Prop where
  backings : ∀ key, Option.Rel Backing.Mirrors (slots.find? key) (slots'.find? key)
  places : ∀ {first first' second second'}, Counterparts slots slots' first first' →
    Counterparts slots slots' second second' →
      (first'.place = second'.place ↔ first.place = second.place)

namespace SlotsMirror

variable {slots slots' : Table Key Backing} {source source' : Registered}

theorem backing_cases (mirror : SlotsMirror slots slots') (key : Key) :
    (slots.find? key = none ∧ slots'.find? key = none) ∨
    ∃ backing backing', slots.find? key = some backing ∧ slots'.find? key = some backing' ∧
      backing.Mirrors backing' := by
  have hbackings := mirror.backings key
  revert hbackings
  generalize slots.find? key = backing?, slots'.find? key = backing?'
  intro hbackings
  cases hbackings with
  | none => exact .inl ⟨rfl, rfl⟩
  | some mirrors => exact .inr ⟨_, _, rfl, rfl, mirrors⟩

theorem slot_cases (mirror : SlotsMirror slots slots') (key : Key) :
    (slots.find? key = none ∧ slots'.find? key = none) ∨
    (∃ value, slots.find? key = some (.value value) ∧ slots'.find? key = some (.value value)) ∨
    ∃ source source' eager eager' cyclic cyclic', source'.generator = source.generator ∧
      slots.find? key = some (.generated source eager cyclic) ∧
      slots'.find? key = some (.generated source' eager' cyclic') := by
  rcases mirror.backing_cases key with hnone | ⟨backing, backing', slot, slot', hbacking⟩
  · exact .inl hnone
  · cases hbacking with
    | value value => exact .inr (.inl ⟨value, slot, slot'⟩)
    | generated generator place place' eager eager' cyclic cyclic' =>
      exact .inr (.inr ⟨⟨place, generator⟩, ⟨place', generator⟩, eager, eager', cyclic, cyclic',
        rfl, slot, slot'⟩)

theorem generator (mirror : SlotsMirror slots slots')
    (counterparts : Counterparts slots slots' source source') :
    source'.generator = source.generator := by
  obtain ⟨key, eager, eager', cyclic, cyclic', slot, slot'⟩ := counterparts
  rcases mirror.slot_cases key with ⟨h, -⟩ | ⟨value, h, -⟩ | ⟨_, _, _, _, _, _, same, h, h'⟩
  · rw [slot] at h
    cases h
  · rw [slot] at h
    cases h
  · rw [slot] at h
    rw [slot'] at h'
    cases h
    cases h'
    exact same

theorem fed (mirror : SlotsMirror slots slots')
    (counterparts : Counterparts slots slots' source source') (output : Key) :
    (slots'.find? output).any (Backing.isFedBy source'.place) =
      (slots.find? output).any (Backing.isFedBy source.place) := by
  rcases mirror.slot_cases output with
    ⟨slot, slot'⟩ | ⟨value, slot, slot'⟩ | ⟨first, first', _, _, _, _, -, slot, slot'⟩
  · rw [slot, slot']
    rfl
  · rw [slot, slot']
    rfl
  · have hplaces := mirror.places ⟨output, _, _, _, _, slot, slot'⟩ counterparts
    rw [slot, slot']
    change (first'.place == source'.place) = (first.place == source.place)
    rw [Bool.eq_iff_iff, beq_iff_eq, beq_iff_eq]
    exact hplaces

theorem refl (slots : Table Key Backing) : SlotsMirror slots slots := by
  have hsame {source source' : Registered} (h : Counterparts slots slots source source') :
      source' = source := by
    obtain ⟨key, eager, eager', cyclic, cyclic', slot, slot'⟩ := h
    rw [slot] at slot'
    cases slot'
    rfl
  refine ⟨fun key => ?_, fun first second => ?_⟩
  · cases slots.find? key with
    | none => exact .none
    | some backing =>
      cases backing with
      | value value => exact .some (.value value)
      | generated source eager cyclic => exact .some (.generated _ _ _ _ _ _ _)
  · rw [hsame first, hsame second]

theorem symm (mirror : SlotsMirror slots slots') : SlotsMirror slots' slots where
  backings key := by
    rcases mirror.backing_cases key with ⟨slot, slot'⟩ | ⟨backing, backing', slot, slot', hmirrors⟩
    · rw [slot, slot']
      exact .none
    · rw [slot, slot']
      cases hmirrors with
      | value value => exact .some (.value value)
      | generated => exact .some (.generated _ _ _ _ _ _ _)
  places first second := (mirror.places first.symm second.symm).symm

end SlotsMirror

namespace Scope

/-- The scopes have the same behind each type, through interfaces as well. -/
structure Resembles (scope scope' : Scope) : Prop where
  slots : SlotsMirror scope.slots scope'.slots
  bindings : ∀ key, scope'.bindings.find? key = scope.bindings.find? key

/-- Moreover the same generators depend on themselves, and the rest is the same as far as requests
look at it. -/
structure Mirrors (scope scope' : Scope) : Prop extends Resembles scope scope' where
  id : scope'.id = scope.id
  settings : scope'.settings = scope.settings
  observers : scope'.observers = scope.observers
  size : scope'.slots.size + scope'.bindings.size = scope.slots.size + scope.bindings.size
  cyclic : ∀ {key source source' eager eager' cyclic cyclic'},
    scope.slots.find? key = some (.generated source eager cyclic) →
    scope'.slots.find? key = some (.generated source' eager' cyclic') → cyclic' = cyclic

namespace Resembles

variable {scope scope' : Scope}

theorem behind_cases (resembles : scope.Resembles scope') (key : Key) :
    (scope.behind? key = none ∧ scope'.behind? key = none) ∨
    ∃ source, scope.behind? key = scope.slots.find? source ∧
      scope'.behind? key = scope'.slots.find? source := by
  unfold Scope.behind?
  rcases resembles.slots.backing_cases key with ⟨slot, slot'⟩ | ⟨backing, backing', slot, slot', -⟩
  · rw [slot, slot', resembles.bindings]
    cases scope.bindings.find? key with
    | none => exact .inl ⟨rfl, rfl⟩
    | some binding => exact .inr ⟨binding.source, rfl, rfl⟩
  · exact .inr ⟨key, by rw [slot], by rw [slot']⟩

theorem producer_cases (resembles : scope.Resembles scope') (key : Key) :
    (scope.producer? key = none ∧ scope'.producer? key = none) ∨
    ∃ source source', scope.producer? key = some source ∧ scope'.producer? key = some source' ∧
      Counterparts scope.slots scope'.slots source source' := by
  unfold Scope.producer?
  rcases resembles.behind_cases key with ⟨h, h'⟩ | ⟨slot, h, h'⟩
  · rw [h, h']
    exact .inl ⟨rfl, rfl⟩
  · rw [h, h']
    rcases resembles.slots.slot_cases slot with
      ⟨hslot, hslot'⟩ | ⟨value, hslot, hslot'⟩ | ⟨source, source', _, _, _, _, -, hslot, hslot'⟩
    · rw [hslot, hslot']
      exact .inl ⟨rfl, rfl⟩
    · rw [hslot, hslot']
      exact .inl ⟨rfl, rfl⟩
    · rw [hslot, hslot']
      exact .inr ⟨source, source', rfl, rfl, slot, _, _, _, _, hslot, hslot'⟩

theorem dependencies (resembles : scope.Resembles scope') :
    scope'.dependencies = scope.dependencies := by
  have hsome (key : Key) : (scope'.producer? key).isSome = (scope.producer? key).isSome := by
    rcases resembles.producer_cases key with ⟨h, h'⟩ | ⟨source, source', h, h', -⟩
    · rw [h, h']
    · rw [h, h']
      rfl
  funext key
  simp only [dependencies_eq, hsome]
  rcases resembles.producer_cases key with ⟨h, h'⟩ | ⟨source, source', h, h', counterparts⟩
  · rw [h, h']
  · rw [h, h', Option.elim_some, Option.elim_some, resembles.slots.generator counterparts]

theorem dependsOn (resembles : scope.Resembles scope') {source source' : Registered} {next : Nat}
    (counterparts : Counterparts scope.slots scope'.slots source source')
    (depends : scope.DependsOn source.place next) :
    ∃ other other', Counterparts scope.slots scope'.slots other other' ∧ other.place = next ∧
      scope'.DependsOn source'.place other'.place := by
  obtain ⟨key, first, eager, cyclic, slot, hplace, dependency, hdependency, other, hother, hnext⟩ :=
    depends
  rcases resembles.slots.slot_cases key with
    ⟨h, -⟩ | ⟨value, h, -⟩ | ⟨_, first', _, _, _, _, same, h, slot'⟩
  · rw [slot] at h
    cases h
  · rw [slot] at h
    cases h
  · rw [slot] at h
    cases h
    have hplace' := (resembles.slots.places ⟨key, _, _, _, _, slot, slot'⟩ counterparts).mpr hplace
    rcases resembles.producer_cases dependency with
      ⟨h, -⟩ | ⟨_, other', h, hother', hcounterparts⟩
    · rw [hother] at h
      cases h
    · rw [hother] at h
      cases h
      refine ⟨other, other', hcounterparts, hnext, key, first', _, _, slot', hplace', dependency,
        ?_, other', hother', rfl⟩
      rwa [same]

theorem transGen_dependsOn (resembles : scope.Resembles scope') {source source' : Registered}
    {next : Nat} (counterparts : Counterparts scope.slots scope'.slots source source')
    (depends : Relation.TransGen scope.DependsOn source.place next) :
    ∃ other other', Counterparts scope.slots scope'.slots other other' ∧ other.place = next ∧
      Relation.TransGen scope'.DependsOn source'.place other'.place := by
  induction depends with
  | single step =>
    obtain ⟨other, other', hcounterparts, hplace, hstep⟩ := resembles.dependsOn counterparts step
    exact ⟨other, other', hcounterparts, hplace, .single hstep⟩
  | tail chain step ih =>
    obtain ⟨between, between', hbetween, rfl, hchain⟩ := ih
    obtain ⟨other, other', hcounterparts, hplace, hstep⟩ := resembles.dependsOn hbetween step
    exact ⟨other, other', hcounterparts, hplace, hchain.tail hstep⟩

theorem symm (resembles : scope.Resembles scope') : scope'.Resembles scope where
  slots := resembles.slots.symm
  bindings key := (resembles.bindings key).symm

theorem transGen_self (resembles : scope.Resembles scope') {source source' : Registered}
    (counterparts : Counterparts scope.slots scope'.slots source source')
    (depends : Relation.TransGen scope.DependsOn source.place source.place) :
    Relation.TransGen scope'.DependsOn source'.place source'.place := by
  obtain ⟨other, other', hcounterparts, hplace, hchain⟩ :=
    resembles.transGen_dependsOn counterparts depends
  rwa [(resembles.slots.places hcounterparts counterparts).mpr hplace] at hchain

theorem cyclic_eq (resembles : scope.Resembles scope') (sound : scope.Sound) (sound' : scope'.Sound)
    {key : Key} {source source' : Registered} {eager eager' cyclic cyclic' : Bool}
    (slot : scope.slots.find? key = some (.generated source eager cyclic))
    (slot' : scope'.slots.find? key = some (.generated source' eager' cyclic')) :
    cyclic' = cyclic := by
  have hcounterparts : Counterparts scope.slots scope'.slots source source' :=
    ⟨key, eager, eager', cyclic, cyclic', slot, slot'⟩
  have hcyclic := sound.flagged _ _ _ _ slot
  have hcyclic' := sound'.flagged _ _ _ _ slot'
  rw [Bool.eq_iff_iff, hcyclic, hcyclic']
  exact ⟨resembles.symm.transGen_self hcounterparts.symm, resembles.transGen_self hcounterparts⟩

end Resembles

namespace Mirrors

variable {scope scope' : Scope} {source source' : Registered}

theorem refl (scope : Scope) : scope.Mirrors scope where
  slots := .refl _
  bindings _ := rfl
  id := rfl
  settings := rfl
  observers := rfl
  size := rfl
  cyclic slot slot' := by
    rw [slot] at slot'
    cases slot'
    rfl

theorem site (mirrors : scope.Mirrors scope') (key : Key) : scope'.site key = scope.site key := by
  unfold Scope.site
  rw [mirrors.id]

theorem fedBy (mirrors : scope.Mirrors scope')
    (counterparts : Counterparts scope.slots scope'.slots source source') :
    scope'.fedBy source' = scope.fedBy source := by
  unfold Scope.fedBy
  rw [mirrors.slots.generator counterparts]
  exact List.filter_congr fun output _ => mirrors.slots.fed counterparts output

theorem deliveries (mirrors : scope.Mirrors scope')
    (counterparts : Counterparts scope.slots scope'.slots source source') (products : List Value) :
    Resolution.deliveries scope' source' products =
      Resolution.deliveries scope source products := by
  unfold Resolution.deliveries
  simp only [mirrors.slots.generator counterparts, mirrors.slots.fed counterparts, mirrors.site]

theorem cyclePath (mirrors : scope.Mirrors scope')
    (counterparts : Counterparts scope.slots scope'.slots source source') (key : Key) :
    scope'.cyclePath key source' = scope.cyclePath key source := by
  have hcloses : (fun candidate => (scope'.behind? candidate).any (Backing.isFedBy source'.place)) =
      fun candidate => (scope.behind? candidate).any (Backing.isFedBy source.place) := by
    funext candidate
    rcases mirrors.toResembles.behind_cases candidate with ⟨h, h'⟩ | ⟨slot, h, h'⟩
    · rw [h, h']
      rfl
    · rw [h, h']
      exact mirrors.slots.fed counterparts slot
  unfold Scope.cyclePath
  rw [mirrors.size, mirrors.toResembles.dependencies, hcloses]

end Mirrors

end Scope

theorem Resolution.obstacle?_mirrored {layer layer' : Layer} {source source' : Registered}
    (mirrors : layer.scope.Mirrors layer'.scope)
    (counterparts : Counterparts layer.scope.slots layer'.scope.slots source source') (key : Key)
    (cyclic : Bool) (chain : Chain) (context : Context) (signals : Signals) :
    obstacle? layer' key source' cyclic chain context signals =
      obstacle? layer key source cyclic chain context signals := by
  unfold obstacle?
  simp only [mirrors.id, mirrors.settings, mirrors.cyclePath counterparts]

def Event.isPlaced : Event → Bool
  | .ran .. | .returned .. => true
  | _ => false

/-- Layers that mirror each other scope by scope, and a relation between worlds that agree on what
requests of them look at and that is kept while the same is done in both. -/
structure Mirroring (pairs : Layer → Layer → Prop) (worlds : World → World → Prop) : Prop where
  scope : ∀ {layer layer'}, pairs layer layer' → layer.scope.Mirrors layer'.scope
  parent : ∀ {layer layer'}, pairs layer layer' → Option.Rel pairs layer.parent? layer'.parent?
  signals : ∀ {world other}, worlds world other → other.signals = world.signals
  tokens : ∀ {world other}, worlds world other → other.tokens = world.tokens
  held : ∀ {world other}, worlds world other → other.held = world.held
  memory : ∀ {world other}, worlds world other → other.memory = world.memory
  casts : ∀ {world other}, worlds world other → other.casts = world.casts
  runs : ∀ {world other layer layer' source source'}, worlds world other → pairs layer layer' →
    Counterparts layer.scope.slots layer'.scope.slots source source' →
      other.runs.find? (layer'.scope.id, source'.place) =
        world.runs.find? (layer.scope.id, source.place)
  emit : ∀ {world other} event, event.isPlaced = false → worlds world other →
    worlds (world.emit event) (other.emit event)
  note : ∀ {world other}, worlds world other →
    worlds (world.emit (.thread world.thread)) (other.emit (.thread other.thread))
  signal : ∀ {world other} signals, worlds world other →
    worlds { world with signals } { other with signals }
  hold : ∀ {world other} held, worlds world other →
    worlds { world with held } { other with held }
  enterBody : ∀ {world other layer layer' source source'} arguments, worlds world other →
    pairs layer layer' → Counterparts layer.scope.slots layer'.scope.slots source source' →
      worlds (world.enterBody layer.scope source arguments)
        (other.enterBody layer'.scope source' arguments)
  returned : ∀ {world other layer layer' source source'} run yield, worlds world other →
    pairs layer layer' → Counterparts layer.scope.slots layer'.scope.slots source source' →
      worlds (world.emit (.returned layer.scope.id source.place run yield))
        (other.emit (.returned layer'.scope.id source'.place run yield))
  deliver : ∀ {world other layer layer' source source' products delivery}, worlds world other →
    pairs layer layer' → Counterparts layer.scope.slots layer'.scope.slots source source' →
      delivery ∈ Resolution.deliveries layer.scope source products →
        worlds (world.deliver delivery) (other.deliver delivery)
  enterCast : ∀ {world other} site binding payload, worlds world other →
    worlds (world.enterCast site binding payload) (other.enterCast site binding payload)
  bind : ∀ {world other layer layer' key binding} payload, worlds world other →
    pairs layer layer' → layer.scope.slots.find? key = none →
      layer.scope.bindings.find? key = some binding →
        worlds (world.bind layer.scope key binding payload)
          (other.bind layer'.scope key binding payload)
  hoist : ∀ {world other layer layer' key} value, worlds world other → pairs layer layer' →
    layer.scope.owns key = false →
      worlds (world.hoist layer.scope key value) (other.hoist layer'.scope key value)

namespace Engine

variable {α β β' : Type} {worlds : World → World → Prop}

theorem Couples.bind_same {ends : β → β' → Prop} {action action' : Engine α} {next : α → Engine β}
    {next' : α → Engine β'} (couples : Couples worlds Eq action action')
    (hnext : ∀ a, Couples worlds ends (next a) (next' a)) :
    Couples worlds ends (action >>= next) (action' >>= next') :=
  couples.bind fun a _ same => same ▸ hnext a

theorem Couples.holding {answers : α → β → Prop} {sites : List Site} {action : Engine α}
    {action' : Engine β}
    (hold : ∀ {world other} held, worlds world other →
      worlds { world with held } { other with held })
    (same : ∀ {world other}, worlds world other → other.held = world.held)
    (couples : Couples worlds answers action action') :
    Couples worlds answers (holding sites action) (holding sites action') := by
  intro world other h
  have hmeets := couples _ _ (hold (sites ++ world.held) h)
  rw [← same h] at hmeets
  refine ⟨?_, ?_⟩
  · have hafter := hold world.held hmeets.worlds
    unfold Engine.holding
    rw [same h] at hafter ⊢
    exact hafter
  · have hresults := hmeets.results
    unfold Engine.holding
    rw [same h] at hresults ⊢
    exact hresults

end Engine

/-- Bodies and casts of the layers do the same in worlds that go together, whoever carries out their
commands. -/
structure Accord (pairs : Layer → Layer → Prop) (worlds : World → World → Prop)
    (perform perform' : Command → Engine Reply) : Prop where
  bodies : ∀ {layer layer' key source eager cyclic}, pairs layer layer' →
    layer.scope.slots.find? key = some (.generated source eager cyclic) → ∀ run arguments,
      Engine.Couples worlds Eq (Engine.run perform (source.generator.body run arguments))
        (Engine.run perform' (source.generator.body run arguments))
  casts : ∀ {layer layer' key binding}, pairs layer layer' →
    layer.scope.bindings.find? key = some binding → ∀ call payload,
      Engine.Couples worlds Eq (Engine.run perform (binding.cast.apply call payload))
        (Engine.run perform' (binding.cast.apply call payload))

namespace Mirroring

open Engine (Couples Meets)
open Resolution

variable {pairs : Layer → Layer → Prop} {worlds : World → World → Prop} {layer layer' : Layer}
  {world other : World} {key : Key} {source source' : Registered} {chain : Chain}
  {context : Context} {resolve resolve' : Resolver} {perform perform' : Command → Engine Reply}

theorem emitAll (mirroring : Mirroring pairs worlds) {events : List Event}
    (placeless : ∀ event ∈ events, event.isPlaced = false) (h : worlds world other) :
    worlds (world.emitAll events) (other.emitAll events) := by
  induction events generalizing world other with
  | nil => exact h
  | cons event rest ih =>
    obtain ⟨hevent, hrest⟩ := List.forall_mem_cons.mp placeless
    simpa [World.emit, World.emitAll] using ih hrest (mirroring.emit event hevent h)

theorem emit_couples (mirroring : Mirroring pairs worlds) {event : Event}
    (placeless : event.isPlaced = false) :
    Couples worlds (fun _ _ => True) (Engine.emit event) (Engine.emit event) :=
  .modify fun _ _ h => mirroring.emit event placeless h

theorem notify_couples (mirroring : Mirroring pairs worlds) (pair : pairs layer layer')
    (notice : Notice) :
    Couples worlds (fun _ _ => True) (Engine.notify layer.scope notice)
      (Engine.notify layer'.scope notice) := by
  unfold Engine.notify
  rw [(mirroring.scope pair).observers]
  refine .modify fun _ _ h => mirroring.emitAll (fun event hevent => ?_) h
  obtain ⟨observer, -, rfl⟩ := List.mem_map.mp hevent
  rfl

theorem fetchAll_couples (mirroring : Mirroring pairs worlds) (pair : pairs layer layer')
    (h : ∀ key, Couples worlds Eq (resolve layer key chain context)
      (resolve' layer' key chain context)) (supplies : List Supply) :
    Couples worlds Eq (fetchAll resolve layer chain context supplies)
      (fetchAll resolve' layer' chain context supplies) := by
  have hfetch (supply : Supply) : Couples worlds Eq (fetch resolve layer chain context supply)
      (fetch resolve' layer' chain context supply) := by
    unfold fetch
    cases supply.key? with
    | none =>
      cases supply.refusal? with
      | some error => exact .pure rfl
      | none =>
        refine .get_bind fun world other hworlds => .pure hworlds ?_
        rw [mirroring.signals hworlds]
        unfold given
        rw [(mirroring.scope pair).id]
    | some key => exact .bind_same (h key) fun answer => .pure rfl
  induction supplies with
  | nil => exact .pure rfl
  | cons supply rest ih =>
    refine .bind_same (hfetch supply) fun fetched => ?_
    cases fetched with
    | error error => exact .pure rfl
    | ok argument =>
      refine .bind_same ih fun gathered => ?_
      cases gathered with
      | error error => exact .pure rfl
      | ok arguments => exact .pure rfl

theorem call_couples (mirroring : Mirroring pairs worlds)
    (accord : Accord pairs worlds perform perform') (pair : pairs layer layer')
    (counterparts : Counterparts layer.scope.slots layer'.scope.slots source source')
    (arguments : List Argument) :
    Couples worlds Eq (call perform layer source arguments)
      (call perform' layer' source' arguments) := by
  intro world other h
  have hrun : other.nextRun layer'.scope source' = world.nextRun layer.scope source := by
    unfold World.nextRun
    rw [mirroring.runs h pair counterparts]
  have hgenerator := (mirroring.scope pair).slots.generator counterparts
  obtain ⟨key, eager, -, cyclic, -, slot, -⟩ := id counterparts
  rw [call_apply, call_apply, hrun, hgenerator]
  refine Couples.bind_same (accord.bodies pair slot _ arguments) (fun yield => ?_) _ _
    (mirroring.enterBody arguments h pair counterparts)
  refine Couples.bind (.modify fun _ _ h => ?_) fun _ _ _ => .pure rfl
  exact mirroring.returned _ yield h pair counterparts

theorem invoke_couples (mirroring : Mirroring pairs worlds)
    (accord : Accord pairs worlds perform perform') (pair : pairs layer layer')
    (counterparts : Counterparts layer.scope.slots layer'.scope.slots source source')
    (h : ∀ key, Couples worlds Eq (resolve layer key chain context)
      (resolve' layer' key chain context)) :
    Couples worlds Eq (invoke resolve perform layer source chain context)
      (invoke resolve' perform' layer' source' chain context) := by
  unfold invoke
  dsimp only
  rw [(mirroring.scope pair).slots.generator counterparts]
  refine .bind_same (mirroring.fetchAll_couples pair h _) fun gathered => ?_
  cases gathered with
  | error error => exact .pure rfl
  | ok arguments =>
    exact .bind_same (mirroring.call_couples accord pair counterparts arguments) fun _ => .pure rfl

theorem settle_couples (mirroring : Mirroring pairs worlds) (pair : pairs layer layer')
    (counterparts : Counterparts layer.scope.slots layer'.scope.slots source source')
    (result : Except ResolutionError Yield) :
    Couples worlds Eq (settle layer key source result) (settle layer' key source' result) := by
  have hscope := mirroring.scope pair
  unfold settle
  rw [hscope.slots.generator counterparts]
  match result with
  | .error error => exact .pure rfl
  | .ok (.failed message) => exact .pure rfl
  | .ok (.nil output) => exact .pure rfl
  | .ok (.products products) =>
    dsimp only
    rw [hscope.deliveries counterparts]
    refine Couples.bind (.forM fun delivery hdelivery world other h => ?_) fun _ _ _ => ?_
    · rw [deliver_apply, deliver_apply]
      exact ⟨mirroring.deliver h pair counterparts hdelivery, .answered trivial⟩
    · refine .get_bind fun world other h => ?_
      rw [mirroring.memory h, hscope.site]
      cases world.memory.filled.find? (layer.scope.site key) with
      | none => exact .pure h rfl
      | some value => exact .pure h rfl

theorem report_couples (mirroring : Mirroring pairs worlds) (pair : pairs layer layer')
    (counterparts : Counterparts layer.scope.slots layer'.scope.slots source source')
    (answer : Answer) :
    Couples worlds (fun _ _ => True) (report layer key source answer)
      (report layer' key source' answer) := by
  unfold report
  rw [(mirroring.scope pair).id, (mirroring.scope pair).slots.generator counterparts]
  have hnotify (notice : Notice) := mirroring.notify_couples pair notice
  cases answer with
  | ok value => exact .bind (mirroring.emit_couples rfl) fun _ _ _ => hnotify _
  | error error => exact .bind (mirroring.emit_couples rfl) fun _ _ _ => hnotify _

theorem conclude_couples (mirroring : Mirroring pairs worlds) (pair : pairs layer layer')
    (counterparts : Counterparts layer.scope.slots layer'.scope.slots source source')
    (result : Except ResolutionError Yield) :
    Couples worlds Eq (conclude layer key source context result)
      (conclude layer' key source' context result) := by
  have hreport (answer : Answer) : Couples worlds Eq
      (report layer key source answer >>= fun _ => pure answer)
      (report layer' key source' answer >>= fun _ => pure answer) :=
    .bind (mirroring.report_couples pair counterparts answer) fun _ _ _ => .pure rfl
  refine .get_bind fun world other h => ?_
  rw [mirroring.signals h]
  split
  · exact hreport (.error (.canceled key)) world other h
  · exact Couples.bind_same (mirroring.settle_couples pair counterparts result) hreport _ _ h

theorem produce_couples (mirroring : Mirroring pairs worlds)
    (accord : Accord pairs worlds perform perform') (pair : pairs layer layer')
    (counterparts : Counterparts layer.scope.slots layer'.scope.slots source source')
    (h : ∀ key chain, Couples worlds Eq (resolve layer key chain context)
      (resolve' layer' key chain context)) :
    Couples worlds Eq (produce resolve perform layer key source chain context)
      (produce resolve' perform' layer' key source' chain context) := by
  have hscope := mirroring.scope pair
  have hlocks : (Key.sort (layer.scope.fedBy source)).map layer'.scope.site =
      (Key.sort (layer.scope.fedBy source)).map layer.scope.site :=
    List.map_congr_left fun output _ => hscope.site output
  unfold produce
  dsimp only
  rw [hscope.fedBy counterparts, hlocks, hscope.id, hscope.slots.generator counterparts]
  refine .get_bind fun world other hworlds => ?_
  rw [mirroring.held hworlds]
  split
  · exact Couples.throw .blocked world other hworlds
  · refine Couples.holding mirroring.hold mirroring.held ?_ world other hworlds
    refine .bind (mirroring.notify_couples pair _) fun _ _ _ => ?_
    refine .bind (mirroring.emit_couples rfl) fun _ _ _ => ?_
    refine .bind_same (mirroring.invoke_couples accord pair counterparts fun key => h key _) ?_
    exact fun result => mirroring.conclude_couples pair counterparts result

theorem runGenerator_couples (mirroring : Mirroring pairs worlds)
    (accord : Accord pairs worlds perform perform') (pair : pairs layer layer')
    (counterparts : Counterparts layer.scope.slots layer'.scope.slots source source')
    (cyclic : Bool)
    (h : ∀ key chain, Couples worlds Eq (resolve layer key chain context)
      (resolve' layer' key chain context)) :
    Couples worlds Eq (runGenerator resolve perform layer key source cyclic chain context)
      (runGenerator resolve' perform' layer' key source' cyclic chain context) := by
  have hscope := mirroring.scope pair
  refine .get_bind fun world other hworlds => ?_
  rw [obstacle?_mirrored hscope counterparts, mirroring.signals hworlds, hscope.site, hscope.id,
    hscope.slots.generator counterparts]
  refine Couples.bind (mirroring.emit_couples rfl) (fun _ _ _ => ?_) world other hworlds
  split
  · exact .bind (mirroring.notify_couples pair _) fun _ _ _ => .pure rfl
  · exact mirroring.produce_couples accord pair counterparts h

variable {run run' : Runner}

theorem fromSlot_couples (mirroring : Mirroring pairs worlds) (pair : pairs layer layer')
    (h : ∀ {source source'} key cyclic,
      Counterparts layer.scope.slots layer'.scope.slots source source' →
        Couples worlds Eq (run layer key source cyclic chain context)
          (run' layer' key source' cyclic chain context)) {backing backing' : Backing}
    (slot : layer.scope.slots.find? key = some backing)
    (slot' : layer'.scope.slots.find? key = some backing') :
    Couples worlds Eq (fromSlot run layer key backing chain context)
      (fromSlot run' layer' key backing' chain context) := by
  have hscope := mirroring.scope pair
  have hbacking := hscope.slots.backings key
  rw [slot, slot'] at hbacking
  unfold fromSlot
  rw [hscope.site, hscope.id]
  refine .get_bind fun world other hworlds => ?_
  rw [mirroring.memory hworlds]
  cases hbacking with
  | some mirrors =>
    cases mirrors with
    | value value =>
      exact Couples.bind (mirroring.emit_couples rfl) (fun _ _ _ => .pure rfl) world other hworlds
    | generated generator place place' eager eager' cyclic cyclic' =>
      obtain rfl := hscope.cyclic slot slot'
      dsimp only [Memory.stored?]
      cases world.memory.filled.find? (layer.scope.site key) with
      | some value =>
        exact Couples.bind (mirroring.emit_couples rfl) (fun _ _ _ => .pure rfl) world other hworlds
      | none => exact h key _ ⟨key, _, _, _, _, slot, slot'⟩ world other hworlds

theorem bindValue_couples (mirroring : Mirroring pairs worlds)
    (accord : Accord pairs worlds perform perform') (pair : pairs layer layer')
    (noSlot : layer.scope.slots.find? key = none) {binding : Binding}
    (interface : layer.scope.bindings.find? key = some binding) (value : Value) :
    Couples worlds Eq (bindValue perform layer key binding value)
      (bindValue perform' layer' key binding value) := by
  have hscope := mirroring.scope pair
  -- The rest of a binding in the world in which its cast begins.
  have hcast (perform : Command → Engine Reply) (layer : Layer) (world : World)
      (typed : value.type = binding.source) :
      bindValue perform layer key binding value world =
        (Engine.run perform
            (binding.cast.apply (world.nextCast (layer.scope.site key)) value.payload) >>=
          fun payload => do
            modify fun world => world.bind layer.scope key binding payload
            return .ok (((← get).memory.bound.find? (layer.scope.site key)).getD ⟨key, payload⟩))
          (world.enterCast (layer.scope.site key) binding value.payload) := by
    unfold bindValue
    rw [if_pos typed]
    rfl
  by_cases typed : value.type = binding.source
  · intro world other h
    have hcall : other.nextCast (layer.scope.site key) = world.nextCast (layer.scope.site key) := by
      unfold World.nextCast
      rw [mirroring.casts h]
    rw [hcast perform layer world typed, hcast perform' layer' other typed, hscope.site, hcall]
    refine Couples.bind_same (accord.casts pair interface _ value.payload) (fun payload => ?_) _ _
      (mirroring.enterCast _ binding value.payload h)
    refine .bind (.modify fun _ _ h => mirroring.bind payload h pair noSlot interface) ?_
    refine fun _ _ _ => .get_bind fun world other h => ?_
    rw [mirroring.memory h]
    exact .pure h rfl
  · unfold bindValue
    rw [if_neg typed, if_neg typed]
    exact .pure rfl

theorem fromBinding_couples (mirroring : Mirroring pairs worlds)
    (accord : Accord pairs worlds perform perform') (pair : pairs layer layer')
    (h : ∀ {source source'} key cyclic,
      Counterparts layer.scope.slots layer'.scope.slots source source' →
        Couples worlds Eq (run layer key source cyclic chain context)
          (run' layer' key source' cyclic chain context))
    (noSlot : layer.scope.slots.find? key = none) {binding : Binding}
    (interface : layer.scope.bindings.find? key = some binding) :
    Couples worlds Eq (fromBinding run perform layer key binding chain context)
      (fromBinding run' perform' layer' key binding chain context) := by
  have hscope := mirroring.scope pair
  unfold fromBinding
  rw [hscope.site]
  refine .get_bind fun world other hworlds => ?_
  rw [mirroring.memory hworlds]
  cases world.memory.bound.find? (layer.scope.site key) with
  | some value => exact .pure hworlds rfl
  | none =>
    rcases hscope.slots.backing_cases binding.source with
      ⟨slot, slot'⟩ | ⟨backing, backing', slot, slot', -⟩
    · rw [slot, slot']
      exact .pure hworlds rfl
    · rw [slot, slot']
      refine Couples.bind_same (mirroring.fromSlot_couples pair h slot slot') (fun answer => ?_)
        world other hworlds
      cases answer with
      | error error => exact .pure rfl
      | ok value => exact mirroring.bindValue_couples accord pair noSlot interface value

theorem hoist_couples (mirroring : Mirroring pairs worlds) (pair : pairs layer layer')
    (unowned : layer.scope.owns key = false) (value : Value) :
    Couples worlds Eq (Resolution.hoist layer.scope key value)
      (Resolution.hoist layer'.scope key value) := by
  have hscope := mirroring.scope pair
  intro world other h
  have hafter := mirroring.hoist value h pair unowned
  rw [hoist_apply, hoist_apply]
  refine ⟨hafter, ?_⟩
  unfold hoisted
  rw [mirroring.memory hafter, hscope.settings, hscope.site]
  exact .answered rfl

section

variable {scope scope' : Scope} {outer outer' : List Scope}

/-- A scope answers the same, if the scopes further out do. -/
theorem seek_couples_of_parent (mirroring : Mirroring pairs worlds)
    (accord : Accord pairs worlds perform perform')
    (h : ∀ {source source'} key cyclic, Counterparts scope.slots scope'.slots source source' →
      Couples worlds Eq (run ⟨scope, outer⟩ key source cyclic chain context)
        (run' ⟨scope', outer'⟩ key source' cyclic chain context))
    (pair : pairs ⟨scope, outer⟩ ⟨scope', outer'⟩)
    (further : ∀ {parent further parent' further'}, outer = parent :: further →
      outer' = parent' :: further' → pairs ⟨parent, further⟩ ⟨parent', further'⟩ →
        Couples worlds Eq (seek run perform key chain context parent further)
          (seek run' perform' key chain context parent' further')) :
    Couples worlds Eq (seek run perform key chain context scope outer)
      (seek run' perform' key chain context scope' outer') := by
  have hscope : scope.Mirrors scope' := mirroring.scope pair
  rw [seek.eq_def, seek.eq_def run']
  dsimp only
  rcases hscope.slots.backing_cases key with ⟨slot, slot'⟩ | ⟨backing, backing', slot, slot', -⟩
  · rw [slot, slot', hscope.bindings]
    cases interface : scope.bindings.find? key with
    | some binding => exact mirroring.fromBinding_couples accord pair h slot interface
    | none =>
      dsimp only
      rw [hscope.site]
      refine .get_bind fun world other hworlds => ?_
      rw [mirroring.memory hworlds]
      cases world.memory.imported.find? (scope.site key) with
      | some value => exact .pure hworlds rfl
      | none =>
        have hparent := mirroring.parent pair
        cases outer with
        | nil =>
          cases outer' with
          | nil => exact .pure hworlds rfl
          | cons parent' rest' => cases hparent
        | cons parent rest =>
          cases outer' with
          | nil => cases hparent
          | cons parent' rest' =>
            have hpair : pairs ⟨parent, rest⟩ ⟨parent', rest'⟩ := by
              cases hparent with
              | some h => exact h
            have hid : parent'.id = parent.id := (mirroring.scope hpair).id
            have hunowned : scope.owns key = false :=
              Scope.owns_eq_false_iff.mpr ⟨slot, interface⟩
            dsimp only
            rw [hscope.id, hid]
            refine Couples.bind (mirroring.notify_couples pair _) (fun _ _ _ => ?_) _ _ hworlds
            refine .bind (mirroring.emit_couples rfl) fun _ _ _ => ?_
            refine .bind_same (further rfl rfl hpair) fun answer => ?_
            cases answer with
            | error error => exact .pure rfl
            | ok value =>
              exact .bind_same (mirroring.hoist_couples pair hunowned value) fun _ => .pure rfl
  · rw [slot, slot']
    exact mirroring.fromSlot_couples pair h slot slot'

/-- A request comes to the same in layers that mirror each other, if the runs for it do. -/
theorem seek_couples (mirroring : Mirroring pairs worlds)
    (accord : Accord pairs worlds perform perform')
    (h : ∀ {layer layer' source source'} key cyclic, pairs layer layer' →
      Counterparts layer.scope.slots layer'.scope.slots source source' →
        Couples worlds Eq (run layer key source cyclic chain context)
          (run' layer' key source' cyclic chain context))
    (pair : pairs ⟨scope, outer⟩ ⟨scope', outer'⟩) :
    Couples worlds Eq (seek run perform key chain context scope outer)
      (seek run' perform' key chain context scope' outer') := by
  induction outer generalizing scope scope' outer' with
  | nil =>
    refine mirroring.seek_couples_of_parent accord (fun key cyclic => h key cyclic pair) pair ?_
    intro parent further parent' further' none
    cases none
  | cons parent rest ih =>
    refine mirroring.seek_couples_of_parent accord (fun key cyclic => h key cyclic pair) pair ?_
    intro parent further parent' further' some _ hpair
    obtain ⟨rfl, rfl⟩ := List.cons.inj some
    exact ih hpair

end

theorem run_couples (mirroring : Mirroring pairs worlds) {α : Type} (act : Act Command α)
    (h : ∀ command, Couples worlds Eq (perform command) (perform' command)) :
    Couples worlds Eq (Engine.run perform act) (Engine.run perform' act) := by
  induction act with
  | done result => exact .pure rfl
  | panic message => exact .throw _
  | cancel name next ih =>
    refine Couples.bind (.modify fun world other hworlds => ?_) fun _ _ _ => ih
    rw [mirroring.tokens hworlds]
    cases world.tokens.find? name with
    | none => exact hworlds
    | some token =>
      have hsignal := mirroring.signal
        { world.signals with cancelled := token.id :: world.signals.cancelled } hworlds
      dsimp only
      unfold World.cancel
      rw [mirroring.signals hworlds]
      exact hsignal
  | elapse time next ih =>
    refine Couples.bind (.modify fun world other hworlds => ?_) fun _ _ _ => ih
    have hsignal := mirroring.signal { world.signals with now := world.signals.now + time } hworlds
    unfold World.elapse
    rw [mirroring.signals hworlds]
    exact hsignal
  | noteThread next ih =>
    refine .get_bind fun world other hworlds => ?_
    exact ih _ _ (mirroring.note hworlds)
  | perform command next ih =>
    refine .bind_same (h command) fun reply => ?_
    exact .bind (mirroring.emit_couples rfl) fun _ _ _ => ih reply

theorem resolver_couples (mirroring : Mirroring pairs worlds) {fuel : Nat}
    (accord : ∀ less ≤ fuel, Accord pairs worlds (Session.handler less) (Session.handler less))
    (key : Key) (chain : Chain) (context : Context) (pair : pairs layer layer') :
    Couples worlds Eq (Session.resolver fuel layer key chain context)
      (Session.resolver fuel layer' key chain context) := by
  induction fuel generalizing layer layer' key chain with
  | zero =>
    rw [resolver_eq_within]
    exact mirroring.seek_couples (accord 0 (Nat.le_refl 0)) (fun _ _ _ _ => .throw _) pair
  | succ fuel ih =>
    rw [resolver_eq_within]
    refine mirroring.seek_couples (accord _ (Nat.le_refl _)) ?_ pair
    intro layer layer' source source' key cyclic pair counterparts
    refine mirroring.runGenerator_couples (accord _ (Nat.le_refl _)) pair counterparts cyclic ?_
    intro key chain
    exact ih (fun less hless => accord less (Nat.le_succ_of_le hless)) key chain pair

end Mirroring

end LayerGraph
