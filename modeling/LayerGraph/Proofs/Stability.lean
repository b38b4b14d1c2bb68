import LayerGraph.Proofs.Lasting

/-! A value once given stays the value.

The cell of a type is the place for its value in the nearest layer that owns the type. Whatever a
layer has imported, and whatever it has answered, is what that cell holds. -/

namespace LayerGraph

/-- The value that a scope's own slot or interface has for a type. -/
def Scope.cell? (scope : Scope) (memory : Memory) (key : Key) : Option Value :=
  match scope.slots.find? key with
  | some backing => memory.stored? (scope.site key) backing
  | none => if scope.bindings.contains key then memory.bound.find? (scope.site key) else none

namespace Layer

/-- The nearest scope that owns a type, by slot or by interface. -/
def owner? (layer : Layer) (key : Key) : Option Scope := layer.ancestry.find? (·.owns key)

def cell? (layer : Layer) (memory : Memory) (key : Key) : Option Value :=
  (layer.owner? key).bind (·.cell? memory key)

theorem owner?_of_slot {scope : Scope} {key : Key} {backing : Backing}
    (slot : scope.slots.find? key = some backing) (outer : List Scope) :
    owner? ⟨scope, outer⟩ key = some scope :=
  List.find?_cons_of_pos (by simp [Scope.owns, Table.contains, slot])

theorem owner?_of_binding {scope : Scope} {key : Key} {binding : Binding}
    (interface : scope.bindings.find? key = some binding) (outer : List Scope) :
    owner? ⟨scope, outer⟩ key = some scope :=
  List.find?_cons_of_pos (by simp [Scope.owns, Table.contains, interface])

theorem owner?_of_unowned {scope parent : Scope} {key : Key} (unowned : scope.owns key = false)
    (further : List Scope) :
    owner? ⟨scope, parent :: further⟩ key = owner? ⟨parent, further⟩ key :=
  List.find?_cons_of_neg (by simp [unowned])

theorem cell?_of_unowned {scope parent : Scope} {key : Key} (unowned : scope.owns key = false)
    (further : List Scope) (memory : Memory) :
    cell? ⟨scope, parent :: further⟩ memory key = cell? ⟨parent, further⟩ memory key := by
  unfold cell?
  rw [owner?_of_unowned unowned]

theorem cell?_of_slot {scope : Scope} {key : Key} {backing : Backing}
    (slot : scope.slots.find? key = some backing) (outer : List Scope) (memory : Memory) :
    cell? ⟨scope, outer⟩ memory key = memory.stored? (scope.site key) backing := by
  simp [cell?, owner?_of_slot slot, Scope.cell?, slot]

theorem cell?_of_binding {scope : Scope} {key : Key} {binding : Binding}
    (noSlot : scope.slots.find? key = none) (interface : scope.bindings.find? key = some binding)
    (outer : List Scope) (memory : Memory) :
    cell? ⟨scope, outer⟩ memory key = memory.bound.find? (scope.site key) := by
  simp [cell?, owner?_of_binding interface, Scope.cell?, noSlot, Table.contains, interface]

theorem cell?_of_empty {scope : Scope} {key : Key} {source : Registered} {eager cyclic : Bool}
    {memory : Memory} (slot : scope.slots.find? key = some (.generated source eager cyclic))
    (empty : memory.filled.find? (scope.site key) = none) (outer : List Scope) :
    cell? ⟨scope, outer⟩ memory key = none :=
  (cell?_of_slot slot outer memory).trans empty

end Layer

theorem Memory.Extends.stored? {before after : Memory} (extends_ : before.Extends after)
    {site : Site} {backing : Backing} {value : Value}
    (h : before.stored? site backing = some value) : after.stored? site backing = some value := by
  cases backing with
  | value other => exact h
  | generated source eager cyclic => exact extends_.filled site value h

theorem Memory.Extends.cell? {before after : Memory} (extends_ : before.Extends after)
    {layer : Layer} {key : Key} {value : Value} (h : layer.cell? before key = some value) :
    layer.cell? after key = some value := by
  obtain ⟨scope, howner, hcell⟩ := Option.bind_eq_some_iff.mp h
  refine Option.bind_eq_some_iff.mpr ⟨scope, howner, ?_⟩
  unfold Scope.cell? at hcell ⊢
  split at hcell
  · next hslot => exact extends_.stored? hcell
  · next hslot =>
    split at hcell
    · next hcontains =>
      rw [if_pos hcontains]
      exact extends_.bound _ _ hcell
    · cases hcell

def Event.IsPlain : Event → Prop
  | .asked _ | .granted _ _ => False
  | _ => True

/-- Whether an event belongs to a request that finds its value: it starts no run and no cast. -/
def Event.IsQuiet : Event → Prop
  | .logged _ => True
  | .noticed _ (.delegated ..) => True
  | _ => False

theorem Event.IsIncidental.isPlain {event : Event} (h : event.IsIncidental) : event.IsPlain := by
  cases event <;> trivial

def World.Faithful (world : World) : Prop :=
  ∀ layer ∈ world.built, ∀ key value,
    world.memory.imported.find? (layer.scope.site key) = some value →
      layer.cell? world.memory key = some value

namespace World.Faithful

variable {world after : World}

theorem of_same (faithful : world.Faithful) (built : after.built = world.built)
    (memory : world.memory.Extends after.memory)
    (imported : after.memory.imported = world.memory.imported) : after.Faithful := by
  intro layer hlayer key value h
  rw [imported] at h
  exact memory.cell? (faithful layer (built ▸ hlayer) key value h)

theorem enter (faithful : world.Faithful) (valid : world.Valid) {builder : Builder} {layer : Layer}
    (assembled : builder.assemble world.memory world.nextLayer = .ok layer) :
    (world.enter layer).Faithful := by
  obtain ⟨-, -, -, -, -, hid, -⟩ := Builder.assemble_inv assembled
  intro other hother found value h
  rcases List.mem_cons.mp hother with rfl | hmem
  · obtain ⟨old, hold, hsame, -⟩ := valid.imported _ value h
    have hlt := valid.ids old hold
    have hsame : old.scope.id = other.scope.id := hsame
    omega
  · exact faithful other hmem found value h

theorem hoist (faithful : world.Faithful) {layer : Layer} (hosts : world.Hosts layer) {key : Key}
    {value : Value} (hcell : layer.cell? world.memory key = some value) :
    (world.hoist layer.scope key value).Faithful := by
  have memory := (World.Grows.hoist world layer.scope key value).memory
  unfold World.hoist at memory ⊢
  split
  · next hoists =>
    rw [if_pos hoists] at memory
    intro other hother found imported h
    have h : (world.memory.imported.add (layer.scope.site key) value).find?
      (other.scope.site found) = some imported := h
    rw [Table.find?_add] at h
    split at h
    · next hsite =>
      obtain ⟨hid, rfl⟩ := Site.mk.inj hsite
      obtain rfl := hosts.1.unique other hother layer hosts.2 hid
      cases hold : world.memory.imported.find? (other.scope.site found) with
      | none =>
        rw [hold] at h
        obtain rfl := Option.some.inj h
        exact memory.cell? hcell
      | some old =>
        rw [hold] at h
        obtain rfl := Option.some.inj h
        exact memory.cell? (faithful other hother found old hold)
    · exact memory.cell? (faithful other hother found imported h)
  · exact faithful

theorem hoisted_eq (faithful : world.Faithful) {layer : Layer} (hosts : world.Hosts layer)
    {key : Key} {value : Value} (hcell : layer.cell? world.memory key = some value) :
    Resolution.hoisted layer.scope key value world = value := by
  have hafter := faithful.hoist hosts hcell
  have grows := World.Grows.hoist world layer.scope key value
  unfold Resolution.hoisted
  split
  · cases himported : (world.hoist layer.scope key value).memory.imported.find?
        (layer.scope.site key) with
    | none => rfl
    | some imported =>
      have hsame := hafter layer (grows.built.mem hosts.2) key imported himported
      rw [grows.memory.cell? hcell] at hsame
      exact (Option.some.inj hsame).symm
  · rfl

end World.Faithful

/-- What lasts through requests: it lasts through plain events, its imports agree with the cells, and
it stands an import of what a cell holds. -/
structure World.Endures (holds : World → Prop) : Prop extends World.Lasts Event.IsPlain holds where
  faithful : ∀ {world : World}, holds world → world.Faithful
  hoist : ∀ {world : World} {layer : Layer} {key : Key} {value : Value}, holds world →
    world.Hosts layer → layer.cell? world.memory key = some value →
      holds (world.hoist layer.scope key value)

theorem World.Faithful.lasts : World.Lasts (fun _ => True) World.Faithful where
  logged _ := trivial
  later faithful built _ memory imported _ _ _ _ := faithful.of_same built memory imported

theorem World.Faithful.endures : World.Endures World.Faithful where
  logged _ := trivial
  later faithful built _ memory imported _ _ _ _ := faithful.of_same built memory imported
  faithful := id
  hoist faithful hosts hcell := faithful.hoist hosts hcell

def Repeats (trace : List Event) : Prop :=
  ∀ site value later earlier, trace = later ++ .asked site :: earlier →
    .granted site value ∈ earlier →
      ∃ rest quiet, later = rest ++ .granted site value :: quiet ∧ ∀ event ∈ quiet, event.IsQuiet

theorem Repeats.append {trace : List Event} (repeats : Repeats trace) (events : List Event)
    (unasked : ∀ site, Event.asked site ∉ events) : Repeats (events ++ trace) := by
  intro site value later earlier h hearlier
  rcases split_append h with ⟨between, rfl, -⟩ | ⟨between, rfl, hbetween⟩
  · exact (unasked site (by simp)).elim
  · obtain ⟨rest, quiet, rfl, hquiet⟩ := repeats site value between earlier hbetween hearlier
    exact ⟨events ++ rest, quiet, by rw [List.append_assoc], hquiet⟩

theorem Repeats.again {trace events : List Event} (repeats : Repeats trace) {site : Site}
    {value : Value} (same : ∀ other, .granted site other ∈ trace → other = value)
    (quiet : ∀ event ∈ events, event.IsQuiet) :
    Repeats (.granted site value :: events ++ .asked site :: trace) := by
  intro other found later earlier h hearlier
  have hsplit : ∃ more, later = .granted site value :: events ++ more ∧
      .asked site :: trace = more ++ .asked other :: earlier := by
    rcases split_append h with ⟨between, hnew, -⟩ | hold
    · have hmem : Event.asked other ∈ .granted site value :: events :=
        hnew ▸ List.mem_append_right _ List.mem_cons_self
      rcases List.mem_cons.mp hmem with hgranted | hevent
      · cases hgranted
      · exact (quiet _ hevent).elim
    · exact hold
  obtain ⟨more, rfl, hmore⟩ := hsplit
  cases more with
  | nil =>
    obtain ⟨hsite, rfl⟩ := List.cons.inj hmore
    obtain rfl := Event.asked.inj hsite
    obtain rfl := same found hearlier
    exact ⟨[], events, by simp, quiet⟩
  | cons event more =>
    obtain ⟨rfl, hrest⟩ := List.cons.inj hmore
    obtain ⟨rest, silent, hsilent, hquiet⟩ := repeats other found more earlier hrest hearlier
    refine ⟨.granted site value :: events ++ .asked site :: rest, silent, ?_, hquiet⟩
    rw [hsilent]
    simp

structure World.Coherent (world : World) : Prop where
  imports : world.Faithful
  grants : ∀ layer ∈ world.built, ∀ key value,
    .granted (layer.scope.site key) value ∈ world.trace →
      layer.cell? world.memory key = some value
  sites : ∀ site value, .granted site value ∈ world.trace → site.layer < world.nextLayer
  repeats : Repeats world.trace

structure World.Quietly (before after : World) : Prop where
  built : after.built = before.built
  nextLayer : after.nextLayer = before.nextLayer
  trace : ∃ events, after.trace = events ++ before.trace ∧ ∀ event ∈ events, event.IsQuiet

namespace World.Coherent

variable {world after : World}

theorem initial : World.Coherent {} := by
  refine ⟨fun layer h => ?_, fun layer h => ?_, fun site value h => ?_, ?_⟩
  · cases h
  · cases h
  · cases h
  · intro site value later earlier h
    have hnil : [] = later ++ .asked site :: earlier := h
    simp at hnil

theorem of_plain (coherent : world.Coherent) (built : after.built = world.built)
    (nextLayer : after.nextLayer = world.nextLayer)
    (memory : world.memory.Extends after.memory)
    (imported : after.memory.imported = world.memory.imported) (events : List Event)
    (trace : after.trace = events ++ world.trace) (plain : ∀ event ∈ events, event.IsPlain) :
    after.Coherent := by
  have hgranted {site : Site} {value : Value} (h : .granted site value ∈ after.trace) :
      .granted site value ∈ world.trace := by
    rw [trace] at h
    rcases List.mem_append.mp h with hnew | hold
    · exact (plain _ hnew).elim
    · exact hold
  refine ⟨coherent.imports.of_same built memory imported, ?_, ?_, ?_⟩
  · intro layer hlayer key value h
    exact memory.cell? (coherent.grants layer (built ▸ hlayer) key value (hgranted h))
  · intro site value h
    rw [nextLayer]
    exact coherent.sites site value (hgranted h)
  · rw [trace]
    exact coherent.repeats.append events fun site hsite => (plain _ hsite).elim

theorem ask (coherent : world.Coherent) {site : Site}
    (fresh : ∀ value, .granted site value ∉ world.trace) :
    (world.emit (.asked site)).Coherent := by
  have hgranted {other : Site} {value : Value}
      (h : .granted other value ∈ (world.emit (.asked site)).trace) :
      .granted other value ∈ world.trace := by
    rcases List.mem_cons.mp h with hhead | htail
    · cases hhead
    · exact htail
  refine ⟨coherent.imports, fun layer hlayer key value h => ?_, fun other value h => ?_, ?_⟩
  · exact coherent.grants layer hlayer key value (hgranted h)
  · exact coherent.sites other value (hgranted h)
  · intro other value later earlier h hearlier
    cases later with
    | nil =>
      obtain ⟨hsite, rfl⟩ := List.cons.inj h
      obtain rfl := Event.asked.inj hsite
      exact absurd hearlier (fresh value)
    | cons event later =>
      obtain ⟨rfl, hrest⟩ := List.cons.inj h
      obtain ⟨rest, quiet, hrest, hquiet⟩ := coherent.repeats other value later earlier hrest hearlier
      exact ⟨.asked site :: rest, quiet, by rw [hrest]; rfl, hquiet⟩

theorem grants_cons (coherent : world.Coherent) {layer : Layer} (hosts : world.Hosts layer)
    {key : Key} {value : Value} (hcell : layer.cell? world.memory key = some value) :
    ∀ other ∈ world.built, ∀ found granted,
      .granted (other.scope.site found) granted ∈
          (world.emit (.granted (layer.scope.site key) value)).trace →
        other.cell? world.memory found = some granted := by
  intro other hother found granted h
  rcases List.mem_cons.mp h with hhead | htail
  · obtain ⟨hsite, rfl⟩ := Event.granted.inj hhead
    obtain ⟨hid, rfl⟩ := Site.mk.inj hsite
    obtain rfl := hosts.1.unique other hother layer hosts.2 hid
    exact hcell
  · exact coherent.grants other hother found granted htail

theorem grant (coherent : world.Coherent) {layer : Layer} (hosts : world.Hosts layer)
    {key : Key} {value : Value} (hcell : layer.cell? world.memory key = some value) :
    (world.emit (.granted (layer.scope.site key) value)).Coherent := by
  refine ⟨coherent.imports, coherent.grants_cons hosts hcell, fun site granted h => ?_, ?_⟩
  · rcases List.mem_cons.mp h with hhead | htail
    · obtain ⟨rfl, -⟩ := Event.granted.inj hhead
      exact hosts.1.ids layer hosts.2
    · exact coherent.sites site granted htail
  · exact coherent.repeats.append [_] (by simp)

theorem hoist (coherent : world.Coherent) {layer : Layer} (hosts : world.Hosts layer) {key : Key}
    {value : Value} (hcell : layer.cell? world.memory key = some value) :
    (world.hoist layer.scope key value).Coherent := by
  have himports := coherent.imports.hoist hosts hcell
  have memory := (World.Grows.hoist world layer.scope key value).memory
  have hgrants : ∀ other ∈ world.built, ∀ found granted,
      .granted (other.scope.site found) granted ∈ world.trace →
        other.cell? (world.hoist layer.scope key value).memory found = some granted :=
    fun other hother found granted h => memory.cell? (coherent.grants other hother found granted h)
  unfold World.hoist at himports hgrants ⊢
  split
  · next hoists =>
    rw [if_pos hoists] at himports hgrants
    exact ⟨himports, hgrants, coherent.sites, coherent.repeats⟩
  · exact coherent

theorem endures : World.Endures World.Coherent where
  logged _ := trivial
  later coherent built nextLayer memory imported events trace _ plain :=
    coherent.of_plain built nextLayer memory imported events trace plain
  faithful := imports
  hoist coherent hosts hcell := coherent.hoist hosts hcell

end World.Coherent

namespace Resolution

open Engine (Keeps)

theorem outcome_filled {layer : Layer} {key : Key} {source : Registered} {context : Context}
    {result : Except ResolutionError Yield} {world : World} {value : Value}
    (h : (outcome layer key source context result world).1 = .ok value) :
    (outcome layer key source context result world).2.memory.filled.find? (layer.scope.site key) =
      some value := by
  have rule := outcome_rule layer key source context result world
  generalize outcome layer key source context result world = ended at rule h ⊢
  cases rule with
  | canceled | refused | failed | nil | unfilled => cases h
  | found _ _ filled =>
    obtain rfl := Except.ok.inj h
    exact filled

theorem report_memory (world : World) (scope : Scope) (key : Key) (source : Registered)
    (answer : Answer) : (world.report scope key source answer).memory = world.memory := by
  cases answer <;> rfl

theorem Ends.filled {perform : Command → Engine Reply} {layer : Layer} {key : Key}
    {source : Registered} {context : Context} {world after : World}
    {gathered : Except Stop (Except ResolutionError (List Argument))} {value : Value}
    (ends : Ends perform layer key source context world gathered (.ok (.ok value)) after) :
    after.memory.filled.find? (layer.scope.site key) = some value := by
  have hfinish (result : Except ResolutionError Yield) (between : World)
      (h : (finish layer key source context result between).1 = .ok value) :
      (finish layer key source context result between).2.memory.filled.find?
        (layer.scope.site key) = some value := by
    change ((outcome layer key source context result between).2.report layer.scope key source
      _).memory.filled.find? _ = _
    rw [report_memory]
    exact outcome_filled h
  generalize hresult : (Except.ok (.ok value) : Except Stop Answer) = result at ends
  cases ends with
  | unsupplied => cases hresult
  | refused => exact hfinish _ _ (Except.ok.inj hresult).symm
  | broken body => cases hresult
  | returned body => exact hfinish _ _ (Except.ok.inj hresult).symm

theorem Binds.bound_value {perform : Command → Engine Reply} {scope : Scope} {key : Key}
    {binding : Binding} {source value : Value} {world after : World}
    (binds : Binds perform scope key binding source world (.ok (.ok value)) after) :
    after.memory.bound.find? (scope.site key) = some value := by
  generalize hresult : (Except.ok (.ok value) : Except Stop Answer) = result at binds
  cases binds with
  | mistyped other => cases hresult
  | broken typed cast => cases hresult
  | @bound payload between typed cast =>
    obtain rfl := Except.ok.inj (Except.ok.inj hresult)
    change (between.memory.bound.add (scope.site key) ⟨key, payload⟩).find? (scope.site key) =
      some (((between.memory.bound.add (scope.site key) ⟨key, payload⟩).find?
        (scope.site key)).getD ⟨key, payload⟩)
    rw [Table.find?_add, if_pos rfl]
    rfl

/-- What endures outlasts requests if it outlasts the commands given meanwhile, and what requests
answer is in the cell afterwards. -/
theorem Resolves.endures_of_keeps {holds : World → Prop} (endures : World.Endures holds)
    {fuel : Nat} {layer : Layer} {key : Key} {chain : Chain} {context : Context}
    {world after : World} {result : Except Stop Answer}
    (keeps : ∀ less ≤ fuel, ∀ {α : Type} (act : Act Command α),
      Keeps (fun world => world.Valid ∧ holds world) (Engine.run (Session.handler less) act))
    (resolves : Resolves fuel layer key chain context world result after)
    (hosts : world.Hosts layer) (h : holds world) :
    holds after ∧ ∀ value, result = .ok (.ok value) → layer.cell? after.memory key = some value := by
  have lasts := endures.toLasts
  induction resolves with
  | @stored fuel scope outer key chain context world backing value slot present =>
    refine ⟨lasts.log h _, ?_⟩
    intro _ hvalue
    cases hvalue
    exact (Layer.cell?_of_slot slot outer world.memory).trans present
  | exhausted => exact ⟨h, fun _ h => nomatch h⟩
  | obstructed =>
    exact ⟨lasts.obstruct (lasts.emit h trivial) fun _ => trivial, fun _ h => nomatch h⟩
  | blocked => exact ⟨lasts.emit h trivial, fun _ h => nomatch h⟩
  | @run fuel scope outer key chain context world source inquiries gathered between result after
      starts answers ends ih =>
    have hstart : holds (world.start scope key source chain) :=
      lasts.start (lasts.emit h trivial) fun _ => trivial
    obtain ⟨-, hhosts, hbetween⟩ := starts.hosted holds answers (fun inquiry hinquiry hhosts h =>
      (ih inquiry hinquiry (fun less hless => keeps less (Nat.le_succ_of_le hless)) hhosts h).1)
      hosts hstart
    have hends := ends.lasting lasts (keeps _ (Nat.le_refl _)) (fun _ _ _ _ _ => trivial)
      (fun _ _ _ _ => trivial) (fun _ _ => trivial) (fun _ _ => trivial) (fun _ _ => trivial) hhosts
      hbetween
    refine ⟨lasts.hold hends _, ?_⟩
    intro value hvalue
    subst hvalue
    obtain ⟨⟨eager, cyclic, slot, -⟩, -⟩ := starts
    exact (Layer.cell?_of_slot slot outer after.memory).trans ends.filled
  | @bound fuel scope outer key chain context world binding value noSlot interface present =>
    refine ⟨h, ?_⟩
    intro _ hvalue
    cases hvalue
    exact (Layer.cell?_of_binding noSlot interface outer world.memory).trans present
  | unbacked => exact ⟨h, fun _ h => nomatch h⟩
  | unsourced noSlot interface unbound behind answer lost ih =>
    exact ⟨(ih keeps hosts h).1, fun value h => absurd h (lost value)⟩
  | @cast fuel scope outer key chain context world binding backing value between result after
      noSlot interface unbound behind answer binds ih =>
    have hbinds := @Binds.lasting _ _ _ ⟨scope, outer⟩ _ _ _ _ _ _ lasts (keeps _ (Nat.le_refl _))
      (fun _ _ _ _ => trivial) binds noSlot interface (answer.hosts hosts hosts)
      (ih keeps hosts h).1
    refine ⟨hbinds, ?_⟩
    intro value hvalue
    subst hvalue
    exact (Layer.cell?_of_binding noSlot interface outer after.memory).trans binds.bound_value
  | @imported fuel scope outer key chain context world value unowned present =>
    refine ⟨h, ?_⟩
    intro _ hvalue
    cases hvalue
    exact endures.faithful h _ hosts.2 key value present
  | missing => exact ⟨h, fun _ h => nomatch h⟩
  | @unavailable fuel scope parent further key chain context world result after unowned unknown
      answer lost ih =>
    have hafter := ih keeps (hosts.delegate _ _ _).parent
      (lasts.delegate h scope key parent fun _ => trivial)
    exact ⟨hafter.1, fun value h => absurd h (lost value)⟩
  | @delegated fuel scope parent further key chain context world value between unowned unknown
      answer ih =>
    have hdelegate := hosts.delegate scope key parent
    have hbetween := ih keeps hdelegate.parent
      (lasts.delegate h scope key parent fun _ => trivial)
    have hhosts := answer.hosts hdelegate.parent hdelegate
    have hcell : Layer.cell? ⟨scope, parent :: further⟩ between.memory key = some value :=
      (Layer.cell?_of_unowned unowned further between.memory).trans (hbetween.2 value rfl)
    refine ⟨endures.hoist hbetween.1 hhosts hcell, ?_⟩
    intro _ hvalue
    cases hvalue
    rw [(endures.faithful hbetween.1).hoisted_eq hhosts hcell]
    exact (World.Grows.hoist between scope key value).memory.cell? hcell

/-- A request for a type whose cell holds a value finds that value and starts nothing. -/
theorem Resolves.quiet {fuel : Nat} {layer : Layer} {key : Key} {chain : Chain}
    {context : Context} {world after : World} {result : Except Stop Answer} {value : Value}
    (resolves : Resolves fuel layer key chain context world result after)
    (hosts : world.Hosts layer) (faithful : world.Faithful)
    (hcell : layer.cell? world.memory key = some value) :
    result = .ok (.ok value) ∧ after.Faithful ∧ world.Quietly after := by
  induction resolves with
  | @stored fuel scope outer key chain context world backing found slot present =>
    rw [Layer.cell?_of_slot slot, present] at hcell
    obtain rfl := Option.some.inj hcell
    exact ⟨rfl, faithful, rfl, rfl, [_], rfl, by simp [Event.IsQuiet]⟩
  | exhausted slot empty =>
    rw [Layer.cell?_of_empty slot empty] at hcell
    cases hcell
  | obstructed slot empty obstacle =>
    rw [Layer.cell?_of_empty slot empty] at hcell
    cases hcell
  | blocked slot empty free locked =>
    rw [Layer.cell?_of_empty slot empty] at hcell
    cases hcell
  | run starts answers ends ih =>
    obtain ⟨⟨eager, cyclic, slot, -⟩, empty, -⟩ := starts
    rw [Layer.cell?_of_empty slot empty] at hcell
    cases hcell
  | bound noSlot interface present =>
    rw [Layer.cell?_of_binding noSlot interface, present] at hcell
    obtain rfl := Option.some.inj hcell
    exact ⟨rfl, faithful, rfl, rfl, [], rfl, by simp⟩
  | unbacked noSlot interface unbound noSource =>
    rw [Layer.cell?_of_binding noSlot interface, unbound] at hcell
    cases hcell
  | unsourced noSlot interface unbound behind answer lost ih =>
    rw [Layer.cell?_of_binding noSlot interface, unbound] at hcell
    cases hcell
  | cast noSlot interface unbound behind answer binds ih =>
    rw [Layer.cell?_of_binding noSlot interface, unbound] at hcell
    cases hcell
  | imported unowned present =>
    have hsame := faithful _ hosts.2 _ _ present
    rw [hcell] at hsame
    obtain rfl := Option.some.inj hsame
    exact ⟨rfl, faithful, rfl, rfl, [], rfl, by simp⟩
  | @missing fuel scope key chain context world unowned unknown =>
    have howner : Layer.owner? ⟨scope, []⟩ key = none := by
      simp [Layer.owner?, Layer.ancestry, unowned]
    simp [Layer.cell?, howner] at hcell
  | @unavailable fuel scope parent further key chain context world result after unowned unknown
      answer lost ih =>
    rw [Layer.cell?_of_unowned unowned] at hcell
    obtain ⟨hresult, -⟩ := ih (hosts.delegate _ _ _).parent faithful hcell
    exact absurd hresult (lost value)
  | @delegated fuel scope parent further key chain context world found between unowned unknown
      answer ih =>
    have hdelegate := hosts.delegate scope key parent
    have hfurther := (Layer.cell?_of_unowned unowned further world.memory).symm.trans hcell
    obtain ⟨hresult, hbetween, hbuilt, hnextLayer, events, htrace, hquiet⟩ :=
      ih hdelegate.parent faithful hfurther
    obtain rfl := Except.ok.inj (Except.ok.inj hresult)
    have hhosts := answer.hosts hdelegate.parent hdelegate
    have hafter : Layer.cell? ⟨scope, parent :: further⟩ between.memory key = some found :=
      answer.grows.memory.cell? hcell
    have hhoist : (between.hoist scope key found).built = between.built ∧
        (between.hoist scope key found).nextLayer = between.nextLayer ∧
        (between.hoist scope key found).trace = between.trace := by
      unfold World.hoist
      split <;> exact ⟨rfl, rfl, rfl⟩
    refine ⟨?_, hbetween.hoist hhosts hafter, hhoist.1.trans hbuilt, hhoist.2.1.trans hnextLayer, ?_⟩
    · rw [hbetween.hoisted_eq hhosts hafter]
    · refine ⟨events ++ .logged (.delegating scope.id key parent.id) ::
        (scope.observers.map (Event.noticed · (.delegated scope.id key parent.id))).reverse, ?_, ?_⟩
      · rw [hhoist.2.2, htrace, List.append_assoc]
        rfl
      · intro event hevent
        rcases List.mem_append.mp hevent with hlater | hstep
        · exact hquiet event hlater
        · rcases List.mem_cons.mp hstep with rfl | hnotice
          · trivial
          · obtain ⟨observer, -, rfl⟩ := List.mem_map.mp (List.mem_reverse.mp hnotice)
            trivial

end Resolution

theorem World.Faithful.invariant :
    Session.Invariant fun world => world.Valid ∧ world.Faithful := by
  refine lasts.invariant_of_resolves (fun _ _ => trivial) (fun _ => trivial) (fun _ _ => trivial)
    (fun _ _ => trivial) (fun valid h _ assembled => h.enter valid assembled) ?_
  intro fuel keeps layer key context world result after resolves hosts faithful
  exact (resolves.endures_of_keeps endures keeps hosts faithful).1

theorem Resolution.Resolves.faithful {fuel : Nat} {layer : Layer} {key : Key} {chain : Chain}
    {context : Context} {world after : World} {result : Except Stop Answer}
    (resolves : Resolves fuel layer key chain context world result after)
    (hosts : world.Hosts layer) (faithful : world.Faithful) :
    after.Faithful ∧
      ∀ value, result = .ok (.ok value) → layer.cell? after.memory key = some value :=
  resolves.endures_of_keeps World.Faithful.endures
    (fun less _ => World.Faithful.lasts.outside (fun _ _ => trivial)
      (World.Faithful.invariant.handler less)) hosts faithful

/-- What a layer that does not own a type was answered from further out is in its cell as well. -/
theorem Resolution.Resolves.delegated_cell {fuel : Nat} {scope parent : Scope}
    {further : List Scope} {key : Key} {chain : Chain} {context : Context} {world between : World}
    {value : Value}
    (answer : Resolves fuel ⟨parent, further⟩ key chain context (world.delegate scope key parent)
      (.ok (.ok value)) between)
    (unowned : scope.owns key = false) (hosts : world.Hosts ⟨scope, parent :: further⟩)
    (faithful : world.Faithful) :
    between.Hosts ⟨scope, parent :: further⟩ ∧ between.Faithful ∧
      Layer.cell? ⟨scope, parent :: further⟩ between.memory key = some value := by
  have hdelegate := hosts.delegate scope key parent
  obtain ⟨hfaithful, hcell⟩ := answer.faithful hdelegate.parent faithful
  refine ⟨answer.hosts hdelegate.parent hdelegate, hfaithful, ?_⟩
  rw [Layer.cell?_of_unowned unowned, hcell value rfl]

namespace World.Coherent

open Session Resolution

variable {world : World} {layer : Layer} {key : Key}

theorem again (coherent : world.Coherent) (hosts : world.Hosts layer) {value : Value}
    (granted : .granted (layer.scope.site key) value ∈ world.trace) {after : World}
    (hlast : after.Hosts layer) (faithful : after.Faithful)
    (memory : world.memory.Extends after.memory) (hbuilt : after.built = world.built)
    (hnextLayer : after.nextLayer = world.nextLayer) {events : List Event}
    (htrace : after.trace = events ++ .asked (layer.scope.site key) :: world.trace)
    (hquiet : ∀ event ∈ events, event.IsQuiet) :
    (after.emit (.granted (layer.scope.site key) value)).Coherent := by
  have hcell := coherent.grants layer hosts.2 key value granted
  have hold {site : Site} {found : Value}
      (h : .granted site found ∈ (after.emit (.granted (layer.scope.site key) value)).trace) :
      (site = layer.scope.site key ∧ found = value) ∨ .granted site found ∈ world.trace := by
    rcases List.mem_cons.mp h with hhead | hrest
    · exact .inl (Event.granted.inj hhead)
    · rw [htrace] at hrest
      rcases List.mem_append.mp hrest with hevent | hrest
      · exact (hquiet _ hevent).elim
      · rcases List.mem_cons.mp hrest with hhead | htail
        · cases hhead
        · exact .inr htail
  have hsame : ∀ other, .granted (layer.scope.site key) other ∈ world.trace → other = value := by
    intro other h
    have hother := coherent.grants layer hosts.2 key other h
    exact Option.some.inj (hother.symm.trans hcell)
  refine ⟨faithful, fun other hother found granted h => ?_, fun site found h => ?_, ?_⟩
  · rcases hold h with ⟨hsite, rfl⟩ | htail
    · obtain ⟨hid, rfl⟩ := Site.mk.inj hsite
      obtain rfl := hlast.1.unique other hother layer hlast.2 hid
      exact memory.cell? hcell
    · have hother : other ∈ after.built := hother
      exact memory.cell? (coherent.grants other (hbuilt ▸ hother) found granted htail)
  · rcases hold h with ⟨rfl, rfl⟩ | htail
    · exact hlast.1.ids layer hlast.2
    · have hlt := coherent.sites site found htail
      exact hnextLayer ▸ hlt
  · change Repeats (Event.granted _ _ :: after.trace)
    rw [htrace]
    exact coherent.repeats.again hsame hquiet

/-- A request that was granted before is granted the same, and nothing else happens. -/
theorem request_again (coherent : world.Coherent) (hosts : world.Hosts layer) {value : Value}
    (granted : .granted (layer.scope.site key) value ∈ world.trace) (fuel : Nat)
    (context : Context) :
    ∃ (after : World) (quiet : List Event), layer.request (resolver fuel) key context world =
        (.ok (.ok value), after.emit (.granted (layer.scope.site key) value)) ∧
      (after.emit (.granted (layer.scope.site key) value)).Coherent ∧
      after.trace = quiet ++ .asked (layer.scope.site key) :: world.trace ∧
      ∀ event ∈ quiet, event.IsQuiet := by
  have hhosts : (world.emit (.asked (layer.scope.site key))).Hosts layer :=
    hosts.emit _
  have hresolves := resolver_resolves fuel layer key [] context
    (world.emit (.asked (layer.scope.site key)))
  obtain ⟨hresult, faithful, hbuilt, hnextLayer, events, htrace, hquiet⟩ :=
    hresolves.quiet hhosts coherent.imports (coherent.grants layer hosts.2 key value granted)
  have hlast := hresolves.hosts hhosts hhosts
  exact ⟨_, events, Layer.request_granted (Prod.ext hresult rfl), coherent.again hosts granted hlast
    faithful hresolves.grows.memory hbuilt hnextLayer htrace hquiet, htrace, hquiet⟩

theorem request {fuel : Nat}
    (keeps : ∀ less ≤ fuel, ∀ {α : Type} (act : Act Command α),
      Engine.Keeps (fun world => world.Valid ∧ world.Coherent) (Engine.run (handler less) act))
    (context : Context) (hosts : world.Hosts layer) (coherent : world.Coherent) :
    (layer.request (resolver fuel) key context world).2.Coherent := by
  by_cases hgranted : ∃ value, .granted (layer.scope.site key) value ∈ world.trace
  · obtain ⟨value, granted⟩ := hgranted
    obtain ⟨after, quiet, hrequest, hcoherent, -⟩ :=
      coherent.request_again hosts granted fuel context
    rw [hrequest]
    exact hcoherent
  · have hasked : (world.emit (.asked (layer.scope.site key))).Coherent :=
      coherent.ask fun value h => hgranted ⟨value, h⟩
    have hhosts : (world.emit (.asked (layer.scope.site key))).Hosts layer :=
      hosts.emit _
    have hresolves := resolver_resolves fuel layer key [] context
      (world.emit (.asked (layer.scope.site key)))
    obtain ⟨hafter, hcell⟩ := hresolves.endures_of_keeps endures keeps hhosts hasked
    have hlast := hresolves.hosts hhosts hhosts
    rw [Layer.request_world]
    dsimp only
    revert hafter hcell hlast
    rcases resolver fuel layer key [] context (world.emit (.asked (layer.scope.site key))) with
      ⟨result, after⟩
    intro hafter hcell hlast
    rcases result with stop | (error | value)
    · exact hafter
    · have denied : Event.IsPlain (.denied (layer.scope.site key) error) := trivial
      exact endures.log (endures.emit hafter denied) _
    · exact hafter.grant hlast (hcell value rfl)

theorem enter (coherent : world.Coherent) (valid : world.Valid) {builder : Builder}
    (assembled : builder.assemble world.memory world.nextLayer = .ok layer) :
    (world.enter layer).Coherent := by
  obtain ⟨-, -, -, -, -, hid, -⟩ := Builder.assemble_inv assembled
  refine ⟨coherent.imports.enter valid assembled, fun other hother found value h => ?_,
    fun site value h => Nat.lt_succ_of_lt (coherent.sites site value h), coherent.repeats⟩
  rcases List.mem_cons.mp hother with rfl | hmem
  · have hlt : other.scope.id < world.nextLayer := coherent.sites _ value h
    omega
  · exact coherent.grants other hmem found value h

theorem invariant : Invariant fun world => world.Valid ∧ world.Coherent := by
  refine endures.invariant (fun _ hevent => hevent.isPlain)
    (fun valid coherent _ assembled => coherent.enter valid assembled) ?_
  intro fuel keeps layer key context world hosts coherent
  exact request keeps context hosts coherent

end World.Coherent

namespace Session

theorem Reachable.coherent {world : World} (reachable : Reachable world) : world.Coherent :=
  (reachable.keeps World.Coherent.invariant ⟨.initial, .initial⟩).2

theorem owner?_eq_of_id {world : World} (valid : world.Valid) {first second : Layer}
    (hfirst : first ∈ world.built) (hsecond : second ∈ world.built) {key : Key}
    (h : (first.owner? key).map Scope.id = (second.owner? key).map Scope.id) :
    first.owner? key = second.owner? key := by
  cases howner : first.owner? key with
  | none =>
    rw [howner] at h
    exact (Option.map_eq_none_iff.mp h.symm).symm
  | some scope =>
    rw [howner] at h
    obtain ⟨other, hother, hid⟩ := Option.map_eq_some_iff.mp h.symm
    obtain ⟨outer, hbuilt⟩ := valid.built_of_mem_ancestry hfirst (List.mem_of_find?_eq_some howner)
    obtain ⟨outer', hbuilt'⟩ := valid.built_of_mem_ancestry hsecond (List.mem_of_find?_eq_some hother)
    have hsame := valid.unique _ hbuilt' _ hbuilt hid
    rw [hother, (Layer.mk.inj hsame).1]

/-- Values are written once. No command, and no request inside one, takes back or replaces a value
that a slot, an interface or an import has, whatever world it is given in. In every reachable world
requests that were granted a type with the same owner were granted the same value, in whatever layer
and at whatever moment; and a request that was granted is, whenever it is made again and under any
context, granted the same at once, with no run and no cast in between. -/
theorem values_are_stable {world : World} (reachable : Reachable world) :
    (∀ fuel command (before : World),
      before.memory.Extends (perform (resolver fuel) command before).2.memory) ∧
    (∀ fuel layer key chain context (before : World),
      before.memory.Extends (resolver fuel layer key chain context before).2.memory) ∧
    (∀ first ∈ world.built, ∀ second ∈ world.built, ∀ key value other,
      (first.owner? key).map Scope.id = (second.owner? key).map Scope.id →
      .granted (first.scope.site key) value ∈ world.trace →
      .granted (second.scope.site key) other ∈ world.trace → value = other) ∧
    (∀ site value later earlier, world.trace = later ++ .asked site :: earlier →
      .granted site value ∈ earlier →
        ∃ rest quiet, later = rest ++ .granted site value :: quiet ∧
          ∀ event ∈ quiet, event.IsQuiet) ∧
    ∀ layer ∈ world.built, ∀ key value, .granted (layer.scope.site key) value ∈ world.trace →
      ∀ fuel context, ∃ (after : World) (quiet : List Event),
        layer.request (resolver fuel) key context world = (.ok (.ok value), after) ∧
        after.trace = .granted (layer.scope.site key) value :: quiet ++
          .asked (layer.scope.site key) :: world.trace ∧
        ∀ event ∈ quiet, event.IsQuiet := by
  have coherent := reachable.coherent
  have valid := reachable.valid
  refine ⟨?_, ?_, ?_, coherent.repeats, ?_⟩
  · exact fun fuel command before => (perform_grows fuel command before).memory
  · exact fun fuel layer key chain context before =>
      (Resolution.resolver_resolves fuel layer key chain context before).grows.memory
  · intro first hfirst second hsecond key value other hid hvalue hother
    have hcell := coherent.grants first hfirst key value hvalue
    have hcell' := coherent.grants second hsecond key other hother
    unfold Layer.cell? at hcell hcell'
    rw [owner?_eq_of_id valid hfirst hsecond hid, hcell'] at hcell
    exact (Option.some.inj hcell).symm
  · intro layer hlayer key value granted fuel context
    obtain ⟨after, quiet, hrequest, -, htrace, hquiet⟩ :=
      coherent.request_again ⟨valid, hlayer⟩ granted fuel context
    refine ⟨_, quiet, hrequest, ?_, hquiet⟩
    change Event.granted _ _ :: after.trace = _
    rw [htrace]
    rfl

def askedOnce : World :=
  let generator : Generator Command :=
    ⟨"g", "make", [], [⟨"A"⟩], fun _ _ => .done (.products [⟨⟨"A"⟩, "a"⟩])⟩
  let built := (step 2 {} (.build "app" none [.register (.generator generator false)])).2
  (step 2 built (.resolve "app" ⟨"A"⟩ {})).2

theorem values_are_stable_asked_once :
    Reachable askedOnce ∧ ∃ layer ∈ askedOnce.built,
      .granted (layer.scope.site ⟨"A"⟩) ⟨⟨"A"⟩, "a"⟩ ∈ askedOnce.trace ∧
        ∀ fuel context, ∃ (after : World) (quiet : List Event),
          layer.request (resolver fuel) ⟨"A"⟩ context askedOnce =
            (.ok (.ok ⟨⟨"A"⟩, "a"⟩), after) ∧
          after.trace = .granted (layer.scope.site ⟨"A"⟩) ⟨⟨"A"⟩, "a"⟩ :: quiet ++
            .asked (layer.scope.site ⟨"A"⟩) :: askedOnce.trace ∧
          ∀ event ∈ quiet, event.IsQuiet := by
  have reachable : Reachable askedOnce := .step (.step .initial _ _) _ _
  have hgranted : ∃ layer ∈ askedOnce.built,
      .granted (layer.scope.site ⟨"A"⟩) ⟨⟨"A"⟩, "a"⟩ ∈ askedOnce.trace := by decide +kernel
  obtain ⟨layer, hlayer, granted⟩ := hgranted
  obtain ⟨-, -, -, -, again⟩ := values_are_stable reachable
  exact ⟨reachable, layer, hlayer, granted, again layer hlayer _ _ granted⟩

end Session

end LayerGraph
