import LayerGraph.Proofs.Validity

/-! The slots of a generator are filled together.

If bodies hand over a product for each of their outputs, then a run fills all slots that are still its
generator's, one after the other as soon as its body has returned, or none of them. So no product
meets a value, and a generator whose slots have values is not run again. -/

namespace LayerGraph

/-- What came last is over by a moment, or the moment is in the middle of it. -/
theorem over_or_amid {α : Type} {later since newest newer : List α}
    (h : later ++ since = newest ++ newer) :
    (∃ between, since = between ++ newer) ∨
      ∃ last ∈ newer, later.getLast? = some last ∧
        (since = [] ∨ ∃ first ∈ newer, since.head? = some first) := by
  rcases List.append_eq_append_iff.mp h with ⟨between, -, hsince⟩ | ⟨between, rfl, rfl⟩
  · exact .inl ⟨between, hsince⟩
  · rcases List.eq_nil_or_concat between with rfl | ⟨init, last, rfl⟩
    · exact .inl ⟨[], rfl⟩
    · refine .inr ⟨last, by simp, by simp, ?_⟩
      cases since with
      | nil => exact .inl rfl
      | cons first since => exact .inr ⟨first, by simp, rfl⟩

namespace Event

def IsBland : Event → Prop
  | .filled .. | .dropped .. | .ran .. | .noticed _ (.finished ..) => False
  | _ => True

theorem IsIncidental.isBland {event : Event} (h : event.IsIncidental) : event.IsBland := by
  cases event <;> trivial

def reports (observer : Observer) (layer : Nat) (keys : List Key) : Event → Bool
  | .noticed told (.finished id key _) => told == observer && id == layer && keys.contains key
  | _ => false

theorem reports_iff {observer : Observer} {layer : Nat} {keys : List Key} {event : Event} :
    event.reports observer layer keys = true ↔
      ∃ key generator, event = .noticed observer (.finished layer key generator) ∧ key ∈ keys := by
  constructor
  · intro h
    unfold reports at h
    split at h
    · next told id key generator =>
      simp only [Bool.and_eq_true, beq_iff_eq, List.contains_iff_mem] at h
      obtain ⟨⟨rfl, rfl⟩, hkey⟩ := h
      exact ⟨key, generator, rfl, hkey⟩
    · cases h
  · intro h
    obtain ⟨key, generator, rfl, hkey⟩ := h
    simp [reports, hkey]

end Event

namespace Resolution

variable {scope : Scope} {source : Registered} {products : List Value}

/-- The products of a run on their way to the slots, newest first. -/
def writes (scope : Scope) (source : Registered) (products : List Value) : List Event :=
  ((deliveries scope source products).map fun delivery => .filled delivery.1 delivery.2).reverse

theorem mem_writes {event : Event} : event ∈ writes scope source products ↔
    ∃ output value, event = .filled (scope.site output) value ∧ output ∈ scope.fedBy source ∧
      (output, value) ∈ source.generator.outputs.zip products := by
  unfold writes
  rw [List.mem_reverse, List.mem_map]
  constructor
  · intro h
    obtain ⟨delivery, hdelivery, rfl⟩ := h
    obtain ⟨output, hpair, hfed, hsite⟩ := mem_deliveries.mp hdelivery
    refine ⟨output, delivery.2, by rw [hsite], ?_, hpair⟩
    exact List.mem_filter.mpr ⟨(List.of_mem_zip hpair).1, hfed⟩
  · intro h
    obtain ⟨output, value, rfl, hfed, hpair⟩ := h
    have hdelivery : (scope.site output, value) ∈ deliveries scope source products :=
      mem_deliveries.mpr ⟨output, hpair, (List.mem_filter.mp hfed).2, rfl⟩
    exact ⟨(scope.site output, value), hdelivery, rfl⟩

theorem deliveries_nodup (products : List Value) (distinct : source.generator.outputs.Nodup) :
    ((deliveries scope source products).map Prod.fst).Nodup := by
  unfold deliveries
  revert distinct
  generalize source.generator.outputs = outputs
  intro distinct
  induction outputs generalizing products with
  | nil => simp
  | cons output outputs ih =>
    obtain ⟨hfresh, hrest⟩ := List.nodup_cons.mp distinct
    cases products with
    | nil => simp
    | cons value products =>
      rw [List.zip_cons_cons]
      by_cases hfed : (scope.slots.find? output).any (Backing.isFedBy source.place) = true
      · simp only [List.filterMap_cons, hfed, if_true, List.map_cons]
        refine List.nodup_cons.mpr ⟨fun hmem => ?_, ih products hrest⟩
        obtain ⟨other, hother, hsite⟩ := List.mem_map.mp hmem
        obtain ⟨⟨found, _⟩, hpair, hfound⟩ := List.mem_filterMap.mp hother
        dsimp only at hfound
        split at hfound
        · obtain rfl := Option.some.inj hfound
          obtain rfl := (Site.mk.inj hsite).2
          exact hfresh (List.of_mem_zip hpair).1
        · cases hfound
      · simp only [List.filterMap_cons, hfed]
        exact ih products hrest

theorem foldl_deliver_fills {deliveries : List (Site × Value)} (world : World)
    (distinct : (deliveries.map Prod.fst).Nodup)
    (vacant : ∀ delivery ∈ deliveries, world.memory.filled.find? delivery.1 = none) :
    (deliveries.foldl World.deliver world).built = world.built ∧
    (deliveries.foldl World.deliver world).trace =
      (deliveries.map fun delivery => .filled delivery.1 delivery.2).reverse ++ world.trace ∧
    ∀ site value, (deliveries.foldl World.deliver world).memory.filled.find? site = some value ↔
      (site, value) ∈ deliveries ∨ world.memory.filled.find? site = some value := by
  induction deliveries generalizing world with
  | nil => simp
  | cons delivery rest ih =>
    obtain ⟨hfresh, hrest⟩ := List.nodup_cons.mp distinct
    have hempty := vacant delivery List.mem_cons_self
    obtain ⟨hdeliver, hfind⟩ := deliver_of_empty hempty
    have hvacant : ∀ other ∈ rest, (world.deliver delivery).memory.filled.find? other.1 = none := by
      intro other hother
      have hne : other.1 ≠ delivery.1 := fun h =>
        hfresh (List.mem_map.mpr ⟨other, hother, h⟩)
      rw [hfind, if_neg hne]
      exact vacant other (List.mem_cons_of_mem _ hother)
    obtain ⟨hbuilt, htrace, hfilled⟩ := ih (world.deliver delivery) hrest hvacant
    rw [List.foldl_cons]
    refine ⟨hbuilt.trans (by rw [hdeliver]; rfl), ?_, fun site value => ?_⟩
    · rw [htrace, hdeliver]
      simp [World.emit]
    · rw [hfilled, hfind, List.mem_cons]
      by_cases hsite : site = delivery.1
      · rw [if_pos hsite, hsite, hempty]
        have hnot : (delivery.1, value) ∉ rest := fun h =>
          hfresh (List.mem_map.mpr ⟨_, h, rfl⟩)
        constructor
        · intro h
          rcases h with h | h
          · exact absurd h hnot
          · exact .inl (.inl (by rw [← Option.some.inj h]))
        · intro h
          rcases h with (h | h) | h
          · exact .inr (by rw [← h])
          · exact absurd h hnot
          · cases h
      · have hne : (site, value) ≠ delivery := fun h => hsite (by rw [← h])
        rw [if_neg hsite]
        simp [hne]

end Resolution

/-- In every run of a generator that returned, its body handed over a product for each output. -/
def World.Full (world : World) : Prop :=
  ∀ layer ∈ world.built, ∀ key source eager cyclic,
    layer.scope.slots.find? key = some (.generated source eager cyclic) → ∀ run products,
      .returned layer.scope.id source.place run (.products products) ∈ world.trace →
        products.length = source.generator.outputs.length

theorem World.Full.of_suffix {world after : World} (full : after.Full)
    (built : world.built <:+ after.built) (trace : world.trace <:+ after.trace) : world.Full :=
  fun layer hlayer key source eager cyclic slot run products h =>
    full layer (built.mem hlayer) key source eager cyclic slot run products (trace.mem h)

/-- Where a write to a slot stands in a history: among those of one run of the generator behind the
slot, which follow the return of its body; and that generator is not run again. -/
structure Written (layer : Layer) (source : Registered) (site : Site) (value : Value)
    (later now : List Event) : Prop where
  id : layer.scope.id = site.layer
  slot : ∃ eager cyclic, layer.scope.slots.find? site.key = some (.generated source eager cyclic)
  block : ∃ run products newest newer older oldest,
    Resolution.writes layer.scope source products = newer ++ .filled site value :: older ∧
      later = newest ++ newer ∧
      now = older ++ .returned layer.scope.id source.place run (.products products) :: oldest
  idle : ∀ tag run arguments, .ran layer.scope.id source.place tag run arguments ∉ later

theorem Written.extend {layer : Layer} {source : Registered} {site : Site} {value : Value}
    {later now events : List Event} (written : Written layer source site value later now)
    (idle : ∀ tag run arguments,
      .ran layer.scope.id source.place tag run arguments ∉ events) :
    Written layer source site value (events ++ later) now := by
  obtain ⟨run, products, newest, newer, older, oldest, hwrites, rfl, hnow⟩ := written.block
  refine ⟨written.id, written.slot, ?_, fun tag run arguments h => ?_⟩
  · exact ⟨run, products, events ++ newest, newer, older, oldest, hwrites, by simp, hnow⟩
  · rcases List.mem_append.mp h with hnew | hold
    · exact idle tag run arguments hnew
    · exact written.idle tag run arguments hold

structure World.Settled (world : World) : Prop where
  stored : ∀ site value,
    world.memory.filled.find? site = some value ↔ .filled site value ∈ world.trace
  written : ∀ later site value now, world.trace = later ++ .filled site value :: now →
    ∃ layer ∈ world.built, ∃ source, Written layer source site value later now
  undropped : ∀ site value, .dropped site value ∉ world.trace
  reported : ∀ later observer layer key generator now,
    world.trace = later ++ .noticed observer (.finished layer key generator) :: now →
      ∃ value, .filled ⟨layer, key⟩ value ∈ now
  once : ∀ layer ∈ world.built, ∀ key source eager cyclic,
    layer.scope.slots.find? key = some (.generated source eager cyclic) → ∀ observer,
      world.trace.countP (Event.reports observer layer.scope.id (layer.scope.fedBy source)) ≤
        layer.scope.observers.count observer

def World.Vacant (world : World) (scope : Scope) (source : Registered) : Prop :=
  ∀ site ∈ scope.locks source, world.memory.filled.find? site = none

def Filling (scope : Scope) (source : Registered) (later now : List Event) : Prop :=
  (∃ output ∈ scope.fedBy source, ∃ value,
    later.getLast? = some (.filled (scope.site output) value)) ∧
  ∃ output ∈ scope.fedBy source, ∃ value, now.head? = some (.filled (scope.site output) value)

/-- Outside the writes of a run, once one of its products has been written, they all have. -/
theorem Written.complete {layer : Layer} {source : Registered} {output : Key} {value : Value}
    {later since before : List Event}
    (written : Written layer source (layer.scope.site output) value (later ++ since) before)
    (hfed : output ∈ layer.scope.fedBy source)
    (outside : ¬ Filling layer.scope source later
      (since ++ .filled (layer.scope.site output) value :: before)) :
    ∃ run products,
      .returned layer.scope.id source.place run (.products products) ∈
          since ++ .filled (layer.scope.site output) value :: before ∧
        ∀ event ∈ Resolution.writes layer.scope source products,
          event ∈ since ++ .filled (layer.scope.site output) value :: before := by
  obtain ⟨run, products, newest, newer, older, oldest, hwrites, hlater, rfl⟩ := written.block
  have hwrite : ∀ event ∈ newer ++ .filled (layer.scope.site output) value :: older,
      ∃ output ∈ layer.scope.fedBy source, ∃ value,
        event = .filled (layer.scope.site output) value := by
    intro event hevent
    obtain ⟨other, found, rfl, hother, -⟩ := Resolution.mem_writes.mp (hwrites ▸ hevent)
    exact ⟨other, hother, found, rfl⟩
  have hover : ∃ between, since = between ++ newer := by
    rcases over_or_amid hlater with hover | ⟨last, hlast, hfinal, hsince⟩
    · exact hover
    · obtain ⟨other, hother, found, rfl⟩ := hwrite last (List.mem_append_left _ hlast)
      refine (outside ⟨⟨other, hother, found, hfinal⟩, ?_⟩).elim
      rcases hsince with rfl | ⟨first, hfirst, hhead⟩
      · exact ⟨output, hfed, value, rfl⟩
      · obtain ⟨other, hother, found, rfl⟩ := hwrite first (List.mem_append_left _ hfirst)
        exact ⟨other, hother, found, by simp [hhead]⟩
  obtain ⟨between, rfl⟩ := hover
  refine ⟨run, products, by simp, fun event hevent => ?_⟩
  rw [hwrites] at hevent
  simp only [List.mem_append, List.mem_cons] at hevent ⊢
  tauto

namespace World.Settled

variable {world after : World} {layer : Layer} {key : Key} {source : Registered}
  {eager cyclic : Bool}

/-- A slot of a layer is written to by its own generator. -/
theorem written_by (settled : world.Settled) (hosts : world.Hosts layer)
    (slot : layer.scope.slots.find? key = some (.generated source eager cyclic)) {value : Value}
    {later now : List Event}
    (h : world.trace = later ++ .filled (layer.scope.site key) value :: now) :
    Written layer source (layer.scope.site key) value later now := by
  obtain ⟨other, hother, source', hwritten⟩ := settled.written _ _ _ _ h
  obtain rfl := hosts.1.unique other hother layer hosts.2 hwritten.id
  obtain ⟨early, flagged, hslot⟩ := hwritten.slot
  have hslot : other.scope.slots.find? key = some (.generated source' early flagged) := hslot
  rw [slot] at hslot
  obtain ⟨rfl, -, -⟩ := Backing.generated.inj (Option.some.inj hslot)
  exact hwritten

/-- Outside the writes of its runs, the slots of a generator are all empty, or they all have their
products of one run. -/
theorem all_or_none (settled : world.Settled) (full : world.Full) (hosts : world.Hosts layer)
    (slot : layer.scope.slots.find? key = some (.generated source eager cyclic))
    {later now : List Event} (h : world.trace = later ++ now)
    (outside : ¬ Filling layer.scope source later now) :
    (∀ output ∈ layer.scope.fedBy source, ∀ value,
      .filled (layer.scope.site output) value ∉ now) ∨
    ∃ run products, .returned layer.scope.id source.place run (.products products) ∈ now ∧
      ∀ (index : Nat) output, source.generator.outputs[index]? = some output →
        output ∈ layer.scope.fedBy source →
          ∃ value, products[index]? = some value ∧
            .filled (layer.scope.site output) value ∈ now := by
  by_cases hsome : ∃ output ∈ layer.scope.fedBy source, ∃ value,
      .filled (layer.scope.site output) value ∈ now
  · right
    obtain ⟨output, hfed, value, hmem⟩ := hsome
    obtain ⟨since, before, rfl⟩ := List.append_of_mem hmem
    have hslot := (hosts.1.sound layer hosts.2).slot_of_mem_fedBy slot hfed
    have hsplit : world.trace =
        (later ++ since) ++ .filled (layer.scope.site output) value :: before := by
      rw [h, List.append_assoc]
    have hwritten := settled.written_by hosts hslot hsplit
    obtain ⟨run, products, hreturned, hwrites⟩ := hwritten.complete hfed outside
    have hknown : .returned layer.scope.id source.place run (.products products) ∈ world.trace := by
      rw [h]
      exact List.mem_append_right _ hreturned
    have hlength := full layer hosts.2 key source eager cyclic slot run products hknown
    refine ⟨run, products, hreturned, fun index other hindex hother => ?_⟩
    obtain ⟨hlt, -⟩ := List.getElem?_eq_some_iff.mp hindex
    have hproduct : products[index]? = some products[index] := List.getElem?_eq_getElem _
    have hpair : (other, products[index]) ∈ source.generator.outputs.zip products :=
      List.mem_of_getElem? (List.getElem?_zip_eq_some.mpr ⟨hindex, hproduct⟩)
    exact ⟨_, hproduct, hwrites _ (Resolution.mem_writes.mpr ⟨_, _, rfl, hother, hpair⟩)⟩
  · left
    exact fun output hfed value hmem => hsome ⟨output, hfed, value, hmem⟩

theorem vacant (settled : world.Settled) (full : world.Full) (hosts : world.Hosts layer)
    (slot : layer.scope.slots.find? key = some (.generated source eager cyclic))
    (empty : world.memory.filled.find? (layer.scope.site key) = none) :
    world.Vacant layer.scope source := by
  have hfed := (hosts.1.sound layer hosts.2).mem_fedBy_of_slot slot
  have houtside : ¬ Filling layer.scope source [] world.trace := by simp [Filling]
  have hall := settled.all_or_none full hosts slot rfl houtside
  rcases hall with hnone | ⟨run, products, -, hsome⟩
  · intro site hsite
    obtain ⟨output, houtput, rfl⟩ := Scope.mem_locks.mp hsite
    cases hfound : world.memory.filled.find? (layer.scope.site output) with
    | none => rfl
    | some value => exact absurd ((settled.stored _ _).mp hfound) (hnone output houtput value)
  · obtain ⟨index, hindex⟩ := List.getElem?_of_mem (Scope.mem_fedBy.mp hfed).1
    obtain ⟨value, -, hfilled⟩ := hsome index key hindex hfed
    cases empty.symm.trans ((settled.stored _ _).mpr hfilled)

theorem unreported (settled : world.Settled) (vacant : world.Vacant layer.scope source)
    (observer : Observer) :
    world.trace.countP (Event.reports observer layer.scope.id (layer.scope.fedBy source)) = 0 := by
  refine List.countP_eq_zero.mpr fun event hevent hreports => ?_
  obtain ⟨found, generator, rfl, hfed⟩ := Event.reports_iff.mp hreports
  obtain ⟨later, now, htrace⟩ := List.append_of_mem hevent
  obtain ⟨value, hvalue⟩ := settled.reported _ _ _ _ _ _ htrace
  have hfilled : .filled (layer.scope.site found) value ∈ world.trace := by
    rw [htrace]
    exact List.mem_append_right _ (List.mem_cons_of_mem _ hvalue)
  have hempty := vacant _ (Scope.mem_locks.mpr ⟨found, hfed, rfl⟩)
  cases hempty.symm.trans ((settled.stored _ _).mpr hfilled)

theorem initial : World.Settled {} := by
  have hnil {later now : List Event} {event : Event} (h : [] = later ++ event :: now) : False := by
    simp at h
  refine ⟨fun site value => ?_, fun later site value now h => (hnil h).elim, fun site value h => ?_,
    fun later observer layer key generator now h => (hnil h).elim, fun layer h => ?_⟩
  · constructor
    · intro h
      cases h
    · intro h
      cases h
  · cases h
  · cases h

/-- What new events have to keep to. -/
theorem append (settled : world.Settled) (built : after.built = world.built) (events : List Event)
    (trace : after.trace = events ++ world.trace)
    (filled : ∀ site value, after.memory.filled.find? site = some value ↔
      .filled site value ∈ events ∨ world.memory.filled.find? site = some value)
    (written : ∀ later site value between, events = later ++ .filled site value :: between →
      ∃ layer ∈ world.built, ∃ source,
        Written layer source site value later (between ++ world.trace))
    (idle : ∀ layer ∈ world.built, ∀ source site value later now,
      Written layer source site value later now → .filled site value ∈ world.trace →
        ∀ tag run arguments, .ran layer.scope.id source.place tag run arguments ∉ events)
    (undropped : ∀ site value, .dropped site value ∉ events)
    (reported : ∀ later observer layer key generator between,
      events = later ++ .noticed observer (.finished layer key generator) :: between →
        ∃ value, .filled ⟨layer, key⟩ value ∈ between ++ world.trace)
    (once : ∀ layer ∈ world.built, ∀ key source eager cyclic,
      layer.scope.slots.find? key = some (.generated source eager cyclic) → ∀ observer,
        let reports := Event.reports observer layer.scope.id (layer.scope.fedBy source)
        events.countP reports = 0 ∨
          world.trace.countP reports = 0 ∧
            events.countP reports ≤ layer.scope.observers.count observer) :
    after.Settled := by
  refine ⟨fun site value => ?_, fun later site value now h => ?_, fun site value h => ?_,
    fun later observer layer key generator now h => ?_, ?_⟩
  · rw [filled, trace, List.mem_append, settled.stored]
  · rw [trace] at h
    rcases split_append h with ⟨between, hevents, rfl⟩ | ⟨between, rfl, hbetween⟩
    · rw [built]
      exact written later site value between hevents
    · obtain ⟨layer, hlayer, source, hwritten⟩ := settled.written _ _ _ _ hbetween
      have hmem : .filled site value ∈ world.trace := by simp [hbetween]
      exact ⟨layer, built ▸ hlayer, source,
        hwritten.extend (idle layer hlayer source site value _ _ hwritten hmem)⟩
  · rw [trace] at h
    rcases List.mem_append.mp h with hnew | hold
    · exact undropped site value hnew
    · exact settled.undropped site value hold
  · rw [trace] at h
    rcases split_append h with ⟨between, hevents, rfl⟩ | ⟨between, rfl, hbetween⟩
    · exact reported later observer layer key generator between hevents
    · exact settled.reported _ _ _ _ _ _ hbetween
  · intro layer hlayer key source eager cyclic slot observer
    rw [trace, List.countP_append]
    have hold := settled.once layer (built ▸ hlayer) key source eager cyclic slot observer
    rcases once layer (built ▸ hlayer) key source eager cyclic slot observer with hnone | hfirst
    · rw [hnone, Nat.zero_add]
      exact hold
    · rw [hfirst.1]
      exact hfirst.2

theorem countP_reports_eq_zero {events : List Event}
    (h : ∀ observer layer key generator,
      .noticed observer (.finished layer key generator) ∉ events)
    (observer : Observer) (layer : Nat) (keys : List Key) :
    events.countP (Event.reports observer layer keys) = 0 := by
  refine List.countP_eq_zero.mpr fun event hevent hreports => ?_
  obtain ⟨key, generator, rfl, -⟩ := Event.reports_iff.mp hreports
  exact h observer layer key generator hevent

theorem advance (settled : world.Settled) (built : after.built = world.built)
    (filled : after.memory.filled = world.memory.filled) (events : List Event)
    (trace : after.trace = events ++ world.trace) (bland : ∀ event ∈ events, event.IsBland) :
    after.Settled := by
  refine settled.append built events trace ?_ ?_ ?_ ?_ ?_ ?_
  · intro site value
    rw [filled]
    exact (or_iff_right (bland _)).symm
  · intro later site value between h
    subst h
    exact (bland (.filled site value) (by simp)).elim
  · exact fun _ _ _ _ _ _ _ _ _ _ _ _ h => bland _ h
  · exact fun _ _ h => bland _ h
  · intro later observer layer key generator between h
    subst h
    exact (bland (.noticed observer (.finished layer key generator)) (by simp)).elim
  · exact fun _ _ _ _ _ _ _ _ => .inl (countP_reports_eq_zero (fun _ _ _ _ h => bland _ h) _ _ _)

theorem emit (settled : world.Settled) (event : Event) (bland : event.IsBland) :
    (world.emit event).Settled :=
  settled.advance rfl rfl [event] rfl (by simpa using bland)

theorem enterBody (settled : world.Settled) (hosts : world.Hosts layer)
    (slot : layer.scope.slots.find? key = some (.generated source eager cyclic))
    (vacant : world.Vacant layer.scope source) (arguments : List Argument) :
    (world.enterBody layer.scope source arguments).Settled := by
  have hran {event : Event} {later between : List Event}
      (h : [.ran layer.scope.id source.place source.generator.tag
        (world.nextRun layer.scope source) arguments] = later ++ event :: between) :
      event = .ran layer.scope.id source.place source.generator.tag
        (world.nextRun layer.scope source) arguments := by
    have hmem : event ∈ later ++ event :: between := by simp
    rwa [← h, List.mem_singleton] at hmem
  refine settled.append rfl [_] rfl ?_ ?_ ?_ ?_ ?_ ?_
  · intro site value
    simp [World.enterBody, World.emit]
  · intro later site value between h
    cases hran h
  · -- A generator that has written to a slot has a value in it.
    intro other hother source' site value later now hwritten hfilled tag run arguments h
    obtain ⟨hid, hplace, -⟩ := Event.ran.inj (List.mem_singleton.mp h)
    obtain rfl := hosts.1.unique other hother layer hosts.2 hid
    obtain ⟨early, flagged, hslot⟩ := hwritten.slot
    have sound := hosts.1.sound other hosts.2
    obtain ⟨rfl, -, -⟩ := sound.placed _ _ _ _ _ _ _ _ hslot slot hplace
    have hsite : site = other.scope.site site.key :=
      congrArg (Site.mk · site.key) hwritten.id.symm
    have hempty := vacant site
      (Scope.mem_locks.mpr ⟨site.key, sound.mem_fedBy_of_slot hslot, hsite⟩)
    cases hempty.symm.trans ((settled.stored _ _).mpr hfilled)
  · simp
  · intro later observer other found generator between h
    cases hran h
  · exact fun _ _ _ _ _ _ _ _ => .inl (countP_reports_eq_zero (by simp) _ _ _)

theorem fill (settled : world.Settled) (hosts : world.Hosts layer)
    (slot : layer.scope.slots.find? key = some (.generated source eager cyclic))
    (vacant : world.Vacant layer.scope source) {run : Nat} {products : List Value}
    {oldest : List Event} (returned : world.trace =
      .returned layer.scope.id source.place run (.products products) :: oldest) :
    World.Settled ((Resolution.deliveries layer.scope source products).foldl World.deliver world) := by
  have sound := hosts.1.sound layer hosts.2
  obtain ⟨hbuilt, htrace, hfilled⟩ := Resolution.foldl_deliver_fills world
    (Resolution.deliveries_nodup products (sound.distinct _ _ _ _ slot))
    fun delivery hdelivery => vacant _ (Resolution.mem_locks_of_delivery hdelivery)
  have hwrite {event : Event} (h : event ∈ Resolution.writes layer.scope source products) :
      ∃ site value, event = .filled site value := by
    obtain ⟨output, value, rfl, -, -⟩ := Resolution.mem_writes.mp h
    exact ⟨_, value, rfl⟩
  refine settled.append hbuilt (Resolution.writes layer.scope source products) htrace ?_ ?_ ?_ ?_ ?_ ?_
  · intro site value
    rw [hfilled]
    refine or_congr_left ?_
    unfold Resolution.writes
    rw [List.mem_reverse, List.mem_map]
    constructor
    · exact fun h => ⟨_, h, rfl⟩
    · intro h
      obtain ⟨delivery, hdelivery, hevent⟩ := h
      obtain ⟨rfl, rfl⟩ := Event.filled.inj hevent
      exact hdelivery
  · intro later site value between hwrites
    obtain ⟨output, found, hevent, hfed, -⟩ := Resolution.mem_writes.mp
      (hwrites ▸ List.mem_append_right later List.mem_cons_self)
    obtain ⟨rfl, rfl⟩ := Event.filled.inj hevent
    refine ⟨layer, hosts.2, source, rfl,
      ⟨eager, cyclic, sound.slot_of_mem_fedBy slot hfed⟩, ?_, ?_⟩
    · exact ⟨run, products, [], later, between, oldest, hwrites, rfl, by rw [returned]⟩
    · intro tag run arguments hran
      obtain ⟨site, value, hevent⟩ := hwrite (hwrites ▸ List.mem_append_left _ hran)
      cases hevent
  · intro other hother source' site value later now hwritten hold tag run arguments hran
    obtain ⟨site, value, hevent⟩ := hwrite hran
    cases hevent
  · intro site value h
    obtain ⟨site, value, hevent⟩ := hwrite h
    cases hevent
  · intro later observer other found generator between hwrites
    obtain ⟨site, value, hevent⟩ := hwrite (hwrites ▸ List.mem_append_right later List.mem_cons_self)
    cases hevent
  · intro other hother found source' early flagged hslot observer
    refine .inl (countP_reports_eq_zero (fun told id found generator h => ?_) _ _ _)
    obtain ⟨site, value, hevent⟩ := hwrite h
    cases hevent

theorem report (settled : world.Settled) (hosts : world.Hosts layer)
    (slot : layer.scope.slots.find? key = some (.generated source eager cyclic))
    (unreported : ∀ observer,
      world.trace.countP (Event.reports observer layer.scope.id (layer.scope.fedBy source)) = 0)
    {value : Value} (filled : .filled (layer.scope.site key) value ∈ world.trace) :
    (world.report layer.scope key source (.ok value)).Settled := by
  have hlogged := settled.emit (.logged (.finished layer.scope.id key)) trivial
  let notices := (layer.scope.observers.map
    (Event.noticed · (.finished layer.scope.id key source.generator.signature))).reverse
  have hnotice {event : Event} (h : event ∈ notices) : ∃ observer,
      event = .noticed observer (.finished layer.scope.id key source.generator.signature) := by
    obtain ⟨observer, -, rfl⟩ := List.mem_map.mp (List.mem_reverse.mp h)
    exact ⟨observer, rfl⟩
  refine hlogged.append rfl notices rfl ?_ ?_ ?_ ?_ ?_ ?_
  · intro site found
    refine (or_iff_right fun hnew => ?_).symm
    obtain ⟨observer, hevent⟩ := hnotice hnew
    cases hevent
  · intro later site found between h
    obtain ⟨observer, hevent⟩ := hnotice (h ▸ List.mem_append_right later List.mem_cons_self)
    cases hevent
  · intro other hother source' site found later now hwritten hold tag run arguments hran
    obtain ⟨observer, hevent⟩ := hnotice hran
    cases hevent
  · intro site found h
    obtain ⟨observer, hevent⟩ := hnotice h
    cases hevent
  · intro later observer other found generator between h
    obtain ⟨told, hevent⟩ := hnotice (h ▸ List.mem_append_right later List.mem_cons_self)
    obtain ⟨-, hevent⟩ := Event.noticed.inj hevent
    obtain ⟨rfl, rfl, -⟩ := Notice.finished.inj hevent
    exact ⟨value, List.mem_append_right _ (List.mem_cons_of_mem _ filled)⟩
  · intro other hother found source' early flagged hslot observer
    by_cases hfed : layer.scope.id = other.scope.id ∧ key ∈ other.scope.fedBy source'
    · right
      obtain rfl := hosts.1.unique other hother layer hosts.2 hfed.1.symm
      obtain ⟨-, source'', early', flagged', hkey, hplace⟩ := Scope.mem_fedBy.mp hfed.2
      rw [slot] at hkey
      obtain ⟨rfl, -, -⟩ := Backing.generated.inj (Option.some.inj hkey)
      have sound := hosts.1.sound other hosts.2
      obtain ⟨rfl, -, -⟩ := sound.placed _ _ _ _ _ _ _ _ slot hslot hplace
      refine ⟨unreported observer, ?_⟩
      rw [List.countP_reverse, List.countP_map, List.count]
      refine List.countP_mono_left fun told _ htold => ?_
      obtain ⟨_, _, hevent, -⟩ := Event.reports_iff.mp htold
      exact beq_iff_eq.mpr (Event.noticed.inj hevent).1
    · left
      refine List.countP_eq_zero.mpr fun event hevent hreports => hfed ?_
      obtain ⟨told, rfl⟩ := hnotice hevent
      obtain ⟨_, _, hevent, hkey⟩ := Event.reports_iff.mp hreports
      obtain ⟨-, hevent⟩ := Event.noticed.inj hevent
      obtain ⟨hid, rfl, -⟩ := Notice.finished.inj hevent
      exact ⟨hid, hkey⟩

theorem enter (settled : world.Settled) (valid : world.Valid) {builder : Builder}
    (assembled : builder.assemble world.memory world.nextLayer = .ok layer) :
    (world.enter layer).Settled := by
  obtain ⟨-, -, -, -, -, hid, -⟩ := Builder.assemble_inv assembled
  refine { settled with written := fun later site value now h => ?_, once := ?_ }
  · obtain ⟨other, hother, hwritten⟩ := settled.written later site value now h
    exact ⟨other, List.mem_cons_of_mem _ hother, hwritten⟩
  · intro other hother key source eager cyclic slot observer
    rcases List.mem_cons.mp hother with rfl | hmem
    · refine Nat.le_trans (Nat.le_of_eq ?_) (Nat.zero_le _)
      refine List.countP_eq_zero.mpr fun event hevent hreports => ?_
      obtain ⟨found, generator, rfl, -⟩ := Event.reports_iff.mp hreports
      obtain ⟨later, now, htrace⟩ := List.append_of_mem hevent
      have htrace : world.trace = later ++ _ :: now := htrace
      obtain ⟨value, hvalue⟩ := settled.reported _ _ _ _ _ _ htrace
      have hfilled : .filled ⟨other.scope.id, found⟩ value ∈ world.trace := by
        rw [htrace]
        exact List.mem_append_right _ (List.mem_cons_of_mem _ hvalue)
      obtain ⟨old, hold, hsame, -⟩ := valid.filled _ value ((settled.stored _ _).mpr hfilled)
      have hlt := valid.ids old hold
      have hsame : old.scope.id = other.scope.id := hsame
      omega
    · exact settled.once other hmem key source eager cyclic slot observer

theorem finish (settled : world.Settled) (hosts : world.Hosts layer)
    (slot : layer.scope.slots.find? key = some (.generated source eager cyclic))
    (vacant : world.Vacant layer.scope source) (context : Context)
    {result : Except ResolutionError Yield}
    (returned : ∀ products, result = .ok (.products products) → ∃ run oldest, world.trace =
      .returned layer.scope.id source.place run (.products products) :: oldest) :
    (Resolution.finish layer key source context result world).2.Settled := by
  have hfailed {world : World} (settled : world.Settled) (error : ResolutionError) :
      (world.report layer.scope key source (.error error)).Settled := by
    have hlogged := settled.emit (.logged (.failed layer.scope.id key error)) trivial
    refine hlogged.advance rfl rfl _ rfl fun event hevent => ?_
    obtain ⟨observer, -, rfl⟩ := List.mem_map.mp (List.mem_reverse.mp hevent)
    trivial
  unfold Resolution.finish Resolution.outcome
  by_cases hcancelled : context.isCancelled world.signals = true
  · rw [if_pos hcancelled]
    exact hfailed settled _
  · rw [if_neg hcancelled]
    match result with
    | .error error => exact hfailed settled error
    | .ok (.failed message) => exact hfailed settled _
    | .ok (.nil output) => exact hfailed settled _
    | .ok (.products products) =>
      obtain ⟨run, oldest, htrace⟩ := returned products rfl
      have hfill := settled.fill hosts slot vacant htrace
      obtain ⟨hbuilt, hwrites, -⟩ := Resolution.foldl_deliver_fills world
        (Resolution.deliveries_nodup products
          ((hosts.1.sound layer hosts.2).distinct _ _ _ _ slot))
        fun delivery hdelivery => vacant _ (Resolution.mem_locks_of_delivery hdelivery)
      have hunreported (observer : Observer) :
          ((Resolution.deliveries layer.scope source products).foldl World.deliver
            world).trace.countP
              (Event.reports observer layer.scope.id (layer.scope.fedBy source)) = 0 := by
        rw [hwrites, List.countP_append, settled.unreported vacant, Nat.add_zero]
        refine countP_reports_eq_zero (fun _ _ _ _ h => ?_) _ _ _
        obtain ⟨delivery, -, hevent⟩ := List.mem_map.mp (List.mem_reverse.mp h)
        cases hevent
      have hdelivered : World.Hosts layer
          ((Resolution.deliveries layer.scope source products).foldl World.deliver world) :=
        Resolution.foldl_deliver_keeps (World.Hosts layer)
          (fun delivery hdelivery between hbetween => hbetween.deliver hdelivery) hosts
      dsimp only
      split
      · next value hvalue => exact hfill.report hdelivered slot hunreported ((hfill.stored _ _).mp hvalue)
      · exact hfailed hfill _

end World.Settled

def World.Whole (world : World) : Prop := world.Full → world.Settled

namespace World.Whole

variable {world after : World}

theorem advance (whole : world.Whole) (built : after.built = world.built)
    (filled : after.memory.filled = world.memory.filled) (events : List Event)
    (trace : after.trace = events ++ world.trace) (bland : ∀ event ∈ events, event.IsBland) :
    after.Whole := by
  intro full
  have hfull : world.Full := full.of_suffix (built ▸ List.suffix_rfl)
    (trace ▸ List.suffix_append _ _)
  exact (whole hfull).advance built filled events trace bland

theorem emit (whole : world.Whole) (event : Event) (bland : event.IsBland) :
    (world.emit event).Whole :=
  whole.advance rfl rfl [event] rfl (by simpa using bland)

theorem noticed (whole : world.Whole) (scope : Scope) (notice : Notice)
    (bland : ∀ observer, (Event.noticed observer notice).IsBland) :
    (world.emitAll (scope.observers.map (Event.noticed · notice))).Whole := by
  refine whole.advance rfl rfl _ rfl fun event hevent => ?_
  obtain ⟨observer, -, rfl⟩ := List.mem_map.mp (List.mem_reverse.mp hevent)
  exact bland observer

theorem sidestep (whole : world.Whole) (sidesteps : world.Sidesteps after) : after.Whole :=
  whole.advance sidesteps.built (by rw [sidesteps.memory]) [] sidesteps.trace (by simp)

theorem hold (whole : world.Whole) (held : List Site) : World.Whole { world with held } :=
  whole.advance rfl rfl [] rfl (by simp)

theorem obstruct (whole : world.Whole) (scope : Scope) (key : Key) (source : Registered)
    (chain : Chain) (error : ResolutionError) :
    (world.obstruct scope key source chain error).Whole :=
  (whole.emit (.attempted (scope.site key) chain (some error)) trivial).noticed scope
    (.failed scope.id key source.generator.signature error) fun _ => trivial

theorem start (whole : world.Whole) (scope : Scope) (key : Key) (source : Registered)
    (chain : Chain) : (world.start scope key source chain).Whole := by
  have hattempted := whole.emit (.attempted (scope.site key) chain none) trivial
  have hstarted := (hattempted.hold (scope.locks source ++ world.held)).noticed scope
    (.started scope.id key source.generator.signature) fun _ => trivial
  exact hstarted.emit _ trivial

theorem delegate (whole : world.Whole) (scope : Scope) (key : Key) (parent : Scope) :
    (world.delegate scope key parent).Whole :=
  (whole.noticed scope (.delegated scope.id key parent.id) fun _ => trivial).emit _ trivial

theorem bind (whole : world.Whole) (scope : Scope) (key : Key) (binding : Binding)
    (payload : String) : (world.bind scope key binding payload).Whole :=
  whole.advance rfl rfl [_] rfl fun event hevent => by
    obtain rfl := List.mem_singleton.mp hevent
    trivial

theorem enterCast (whole : world.Whole) (site : Site) (binding : Binding) (payload : String) :
    (world.enterCast site binding payload).Whole :=
  whole.advance rfl rfl [_] rfl fun event hevent => by
    obtain rfl := List.mem_singleton.mp hevent
    trivial

theorem hoist (whole : world.Whole) (scope : Scope) (key : Key) (value : Value) :
    (world.hoist scope key value).Whole := by
  unfold World.hoist
  split
  · exact whole.advance rfl rfl [] rfl (by simp)
  · exact whole

theorem conclude (whole : world.Whole) (layer : Layer) (key : Key) (result : Except Stop Answer) :
    (world.conclude layer key result).Whole := by
  rcases result with stop | (error | value)
  · exact whole
  · exact (whole.emit (.denied _ error) trivial).emit (.logged _) trivial
  · exact whole.emit _ trivial

end World.Whole

/-- A run of a generator is in progress: its slots are locked, and empty. -/
structure World.Runs (layer : Layer) (source : Registered) (world : World) : Prop where
  hosts : world.Hosts layer
  locks : ∀ site ∈ layer.scope.locks source, site ∈ world.held
  vacant : world.Vacant layer.scope source

theorem World.Runs.grow {layer : Layer} {source : Registered} {world after : World}
    (runs : world.Runs layer source) (grows : world.Grows after) (valid : after.Valid) :
    after.Runs layer source where
  hosts := runs.hosts.grow grows valid
  locks site hsite := grows.held ▸ runs.locks site hsite
  vacant site hsite := (grows.locked site (runs.locks site hsite)).trans (runs.vacant site hsite)

namespace Resolution

open Engine (Keeps)

variable {fuel : Nat} {layer : Layer} {key : Key} {source : Registered} {chain : Chain}
  {context : Context} {world between after : World} {result : Except Stop Answer}

theorem Ends.whole {gathered : Except Stop (Except ResolutionError (List Argument))}
    {eager cyclic : Bool}
    (keeps : ∀ {α : Type} (act : Act Command α), Keeps (fun world => world.Valid ∧ world.Whole)
      (Engine.run (Session.handler fuel) act))
    (ends : Ends (Session.handler fuel) layer key source context world gathered result after)
    (slot : layer.scope.slots.find? key = some (.generated source eager cyclic))
    (runs : world.Runs layer source) (whole : world.Whole) : after.Whole := by
  -- What the body leaves behind, if it is entered at all.
  have hbody (arguments : List Argument) :
      let entered := world.enterBody layer.scope source arguments
      let body := source.generator.body (world.nextRun layer.scope source) arguments
      (Engine.run (Session.handler fuel) body entered).2.Runs layer source ∧
        (Engine.run (Session.handler fuel) body entered).2.Whole := by
    intro entered body
    have hentered : entered.Runs layer source :=
      runs.grow (.enterBody _ _ _ _) (runs.hosts.1.of_same rfl rfl rfl rfl)
    have hwhole : entered.Whole := by
      intro full
      have hfull : world.Full := full.of_suffix List.suffix_rfl (List.suffix_cons _ _)
      exact (whole hfull).enterBody runs.hosts slot runs.vacant arguments
    have hafter := keeps body entered ⟨hentered.hosts.1, hwhole⟩
    exact ⟨hentered.grow (run_grows (Session.handler_grows fuel) body entered) hafter.1, hafter.2⟩
  cases ends with
  | unsupplied => exact whole
  | @refused error =>
    intro full
    have hadvances : world.Advances (finish layer key source context (.error error) world).2 :=
      finish_advances _ _
    have hfull := full.of_suffix hadvances.built hadvances.trace
    exact (whole hfull).finish runs.hosts slot runs.vacant context (by simp)
  | @broken arguments stop _ body =>
    obtain ⟨-, hwhole⟩ := hbody arguments
    rwa [body] at hwhole
  | @returned arguments yield between body =>
    obtain ⟨hruns, hwhole⟩ := hbody arguments
    rw [body] at hruns hwhole
    let last := between.emit (.returned layer.scope.id source.place
      (world.nextRun layer.scope source) yield)
    have hreturned : last.Runs layer source :=
      hruns.grow (.emit between _) (hruns.hosts.1.emit _)
    have hlast : last.Whole := hwhole.emit _ trivial
    have hadvances : last.Advances (finish layer key source context (.ok yield) last).2 :=
      finish_advances _ _
    intro full
    have hfull : last.Full := full.of_suffix hadvances.built hadvances.trace
    refine (hlast hfull).finish hreturned.hosts slot hreturned.vacant context fun products h => ?_
    obtain rfl := Except.ok.inj h
    exact ⟨_, between.trace, rfl⟩

theorem Resolves.whole_of_keeps
    (keeps : ∀ less ≤ fuel, ∀ {α : Type} (act : Act Command α),
      Keeps (fun world => world.Valid ∧ world.Whole) (Engine.run (Session.handler less) act))
    (resolves : Resolves fuel layer key chain context world result after)
    (hosts : world.Hosts layer) (whole : world.Whole) : after.Whole := by
  induction resolves with
  | stored => exact whole.emit _ trivial
  | exhausted => exact whole
  | obstructed => exact whole.obstruct _ _ _ _ _
  | blocked => exact whole.emit _ trivial
  | @run fuel scope outer key chain context world source inquiries gathered between result after
      starts answers ends ih =>
    intro full
    obtain ⟨eager, cyclic, slot, -⟩ := starts.slot
    have hstart := whole.start scope key source chain
    obtain ⟨-, hgathered⟩ := starts.hosted World.Whole answers (fun inquiry hinquiry =>
      ih inquiry hinquiry fun less hless => keeps less (Nat.le_succ_of_le hless)) hosts hstart
    have hgrows : (world.start scope key source chain).Grows between :=
      starts.gathers.chain World.Grows.refl (fun h h' => h.trans h')
        fun inquiry hinquiry => (answers inquiry hinquiry).grows
    have hadvances := ((World.Advances.start world scope key source chain).trans
      hgrows.toAdvances).trans (ends.grows (Session.handler_grows _)).1
    have hfull : world.Full := full.of_suffix hadvances.built hadvances.trace
    have hruns : (world.start scope key source chain).Runs ⟨scope, outer⟩ source :=
      ⟨hosts.start _ _ _, fun site hsite => List.mem_append_left _ hsite,
        (whole hfull).vacant hfull hosts slot starts.empty⟩
    have hafter := ends.whole (keeps _ (Nat.le_refl _)) slot
      (hruns.grow hgrows hgathered.1.1) hgathered.2
    exact hafter.hold world.held full
  | bound => exact whole
  | unbacked => exact whole
  | unsourced noSlot interface unbound behind answer lost ih => exact ih keeps hosts whole
  | @cast fuel scope outer key chain context world binding backing value between result after
      noSlot interface unbound behind answer binds ih =>
    have hbetween := hosts.grow answer.grows (answer.valid hosts)
    have hact {α : Type} (act : Act Command α) :=
      (keeps fuel (Nat.le_refl _) act).hosts ⟨scope, outer⟩
    have hbinds := binds.keeps (fun world => world.Hosts ⟨scope, outer⟩ ∧ world.Whole)
      (fun payload h => ⟨h.1.enterCast _ _ payload, h.2.enterCast _ _ payload⟩)
      (fun _ _ => hact _)
      (fun payload between h => ⟨⟨h.1.1.bind h.1.2 noSlot interface payload, h.1.2⟩,
        h.2.bind _ _ _ _⟩)
      ⟨hbetween, ih keeps hosts whole⟩
    exact hbinds.2
  | imported => exact whole
  | missing => exact whole
  | @unavailable fuel scope parent further key chain context world result after unowned unknown
      answer lost ih =>
    exact ih keeps (hosts.delegate _ _ _).parent (whole.delegate scope key parent)
  | @delegated fuel scope parent further key chain context world value between unowned unknown
      answer ih =>
    have hbetween := ih keeps (hosts.delegate _ _ _).parent
      (whole.delegate scope key parent)
    exact hbetween.hoist scope key value

end Resolution

namespace World.Whole

open Session

theorem invariant : Invariant fun world => world.Valid ∧ world.Whole := by
  refine .of_valid ?_ ?_ ?_ ?_ ?_
  · exact fun whole sidesteps => whole.sidestep sidesteps
  · exact fun whole incidental => whole.emit _ incidental.isBland
  · exact fun name whole known => whole.advance rfl rfl [] rfl (by simp)
  · intro world layer builder valid whole _ assembled full
    have hfull : world.Full := full.of_suffix (List.suffix_cons _ _) List.suffix_rfl
    exact (whole hfull).enter valid assembled
  · intro fuel keeps layer key context world hosts whole
    have hresolves := Resolution.resolver_resolves fuel layer key [] context
      (world.emit (.asked (layer.scope.site key)))
    rw [Layer.request_world]
    refine conclude (hresolves.whole_of_keeps ?_ (hosts.emit _)
      (whole.emit (.asked (layer.scope.site key)) trivial)) layer key _
    intro less hless α act
    refine .outside ?_ ?_ (keeps less hless) act
    · exact fun h sidesteps => ⟨h.1.sidestep sidesteps, h.2.sidestep sidesteps⟩
    · exact fun h incidental => ⟨h.1.emit _, h.2.emit _ incidental.isBland⟩

end World.Whole

namespace Session

theorem Reachable.settled {world : World} (reachable : Reachable world) (full : world.Full) :
    world.Settled :=
  (reachable.keeps World.Whole.invariant ⟨.initial, fun _ => .initial⟩).2 full

/-- Generators fill their slots together. Provided that bodies hand over a product for each output,
the following holds of every history of commands. A slot has a value as soon as one has been written
to it. At every moment but those between two writes of a generator, the slots that are still its own
are all empty, or they all have their products of one run of it. No generator writes to a slot that
another one took over, no product is lost to a slot with a value, each observer of a layer is told at
most once that a generator has succeeded, and from then on, or from its first write on, the generator
is not run again. -/
theorem slots_are_filled_together {world : World} (reachable : Reachable world)
    (full : world.Full) :
    (∀ site value,
      world.memory.filled.find? site = some value ↔ .filled site value ∈ world.trace) ∧
    (∀ later site value now, world.trace = later ++ .filled site value :: now →
      ∃ layer ∈ world.built, ∃ source, Written layer source site value later now) ∧
    (∀ site value, .dropped site value ∉ world.trace) ∧
    ∀ layer ∈ world.built, ∀ key source eager cyclic,
      layer.scope.slots.find? key = some (.generated source eager cyclic) →
      (∀ later now, world.trace = later ++ now → ¬ Filling layer.scope source later now →
        (∀ output ∈ layer.scope.fedBy source, ∀ value,
          .filled (layer.scope.site output) value ∉ now) ∨
        ∃ run products, .returned layer.scope.id source.place run (.products products) ∈ now ∧
          ∀ (index : Nat) output, source.generator.outputs[index]? = some output →
            output ∈ layer.scope.fedBy source →
              ∃ value, products[index]? = some value ∧
                .filled (layer.scope.site output) value ∈ now) ∧
      (∀ observer, world.trace.countP
          (Event.reports observer layer.scope.id (layer.scope.fedBy source)) ≤
        layer.scope.observers.count observer) ∧
      ∀ later now, ∀ output ∈ layer.scope.fedBy source, ∀ observer generator,
        world.trace = later ++
          .noticed observer (.finished layer.scope.id output generator) :: now →
        (∃ value, .filled (layer.scope.site output) value ∈ now) ∧
          ∀ tag run arguments,
            .ran layer.scope.id source.place tag run arguments ∉ later := by
  have settled := reachable.settled full
  refine ⟨settled.stored, settled.written, settled.undropped, ?_⟩
  intro layer hlayer key source eager cyclic slot
  have hosts : world.Hosts layer := ⟨reachable.valid, hlayer⟩
  refine ⟨?_, settled.once layer hlayer key source eager cyclic slot, ?_⟩
  · exact fun later now h outside => settled.all_or_none full hosts slot h outside
  · intro later now output hfed observer generator h
    obtain ⟨value, hfilled⟩ := settled.reported _ _ _ _ _ _ h
    refine ⟨⟨value, hfilled⟩, fun tag run arguments hran => ?_⟩
    obtain ⟨since, before, rfl⟩ := List.append_of_mem hfilled
    have hslot := (hosts.1.sound layer hlayer).slot_of_mem_fedBy slot hfed
    have hsplit : world.trace = (later ++
        .noticed observer (.finished layer.scope.id output generator) :: since) ++
          .filled (layer.scope.site output) value :: before := by
      rw [h, List.append_assoc]
      rfl
    have hwritten := settled.written_by hosts hslot hsplit
    exact hwritten.idle tag run arguments (List.mem_append_left _ hran)

/-- A generator of two types, one of which a value took over, was asked twice. Its first run came to
nothing. -/
def halfReplaced : World :=
  let generator : Generator Command :=
    ⟨"pair", "make", [], [⟨"A"⟩, ⟨"B"⟩], fun run _ =>
      .done (if run = 1 then .nil ⟨"B"⟩ else .products [⟨⟨"A"⟩, "a"⟩, ⟨⟨"B"⟩, "b"⟩])⟩
  let directives : List (Directive Command) :=
    [.allowOverride true, .register (.generator generator false),
      .register (.value ⟨"B"⟩ "fixed"), .observe (.recorder "log")]
  let built := (step 2 {} (.build "app" none directives)).2
  (step 2 (step 2 built (.resolve "app" ⟨"A"⟩ {})).2 (.resolve "app" ⟨"A"⟩ {})).2

theorem slots_are_filled_together_half_replaced :
    halfReplaced.Full ∧
    halfReplaced.memory.filled.find? ⟨1, ⟨"A"⟩⟩ = some ⟨⟨"A"⟩, "a"⟩ ∧
    (∀ site value, .dropped site value ∉ halfReplaced.trace) ∧
    ∀ later now value,
      halfReplaced.trace = later ++ .filled ⟨1, ⟨"A"⟩⟩ value :: now →
        ∃ layer ∈ halfReplaced.built, ∃ source,
          Written layer source ⟨1, ⟨"A"⟩⟩ value later now := by
  have reachable : Reachable halfReplaced := .step (.step (.step .initial _ _) _ _) _ _
  have houtputs : (halfReplaced.built.all fun layer => layer.scope.slots.entries.all fun
      | (_, .generated source _ _) => source.generator.outputs.length == 2
      | _ => true) = true := by decide +kernel
  have hproducts : (halfReplaced.trace.all fun
      | .returned _ _ _ (.products products) => products.length == 2
      | _ => true) = true := by decide +kernel
  have full : halfReplaced.Full := by
    intro layer hlayer key source eager cyclic slot run products hreturned
    have hsource := List.all_eq_true.mp (List.all_eq_true.mp houtputs layer hlayer) _
      (Table.mem_entries_of_find? slot)
    have hlength := List.all_eq_true.mp hproducts _ hreturned
    exact (beq_iff_eq.mp hlength).trans (beq_iff_eq.mp hsource).symm
  obtain ⟨hstored, hwritten, hdropped, -⟩ := slots_are_filled_together reachable full
  refine ⟨full, (hstored _ _).mpr (by decide +kernel), hdropped, fun later now value h => ?_⟩
  exact hwritten later ⟨1, ⟨"A"⟩⟩ value now h

end Session

end LayerGraph
