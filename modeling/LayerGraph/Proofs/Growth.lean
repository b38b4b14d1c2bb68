import LayerGraph.Proofs.Adequacy
import LayerGraph.Proofs.Course

/-! What carrying out commands never takes back.

Values stay, events stay, layers stay, and what was cancelled stays cancelled. Moreover a slot whose
lock is held gets no value from anybody but the holder. -/

namespace LayerGraph

theorem split_append {α : Type} {newer older later now : List α} {a : α}
    (h : newer ++ older = later ++ a :: now) :
    (∃ between, newer = later ++ a :: between ∧ now = between ++ older) ∨
      ∃ between, later = newer ++ between ∧ older = between ++ a :: now := by
  rcases List.append_eq_append_iff.mp h with ⟨between, hlater, holder⟩ | ⟨between, hnewer, hnow⟩
  · exact .inr ⟨between, hlater, holder⟩
  · cases between with
    | nil => exact .inr ⟨[], by simpa using hnewer.symm, hnow.symm⟩
    | cons event between =>
      obtain ⟨rfl, rfl⟩ := List.cons.inj hnow
      exact .inl ⟨between, hnewer, rfl⟩

structure Memory.Extends (before after : Memory) : Prop where
  filled : before.filled.Extends after.filled
  bound : before.bound.Extends after.bound
  imported : before.imported.Extends after.imported

theorem Memory.Extends.refl (memory : Memory) : memory.Extends memory :=
  ⟨.refl _, .refl _, .refl _⟩

theorem Memory.Extends.trans {first second third : Memory} (hfirst : first.Extends second)
    (hsecond : second.Extends third) : first.Extends third :=
  ⟨hfirst.filled.trans hsecond.filled, hfirst.bound.trans hsecond.bound,
    hfirst.imported.trans hsecond.imported⟩

namespace World

/-- What holds between two worlds whenever the one leads to the other. -/
structure Advances (before after : World) : Prop where
  memory : before.memory.Extends after.memory
  built : before.built <:+ after.built
  trace : before.trace <:+ after.trace
  cancelled : before.signals.cancelled <:+ after.signals.cancelled
  now : before.signals.now ≤ after.signals.now
  nextLayer : before.nextLayer ≤ after.nextLayer

namespace Advances

theorem refl (world : World) : world.Advances world :=
  ⟨.refl _, List.suffix_rfl, List.suffix_rfl, List.suffix_rfl, Nat.le_refl _, Nat.le_refl _⟩

theorem trans {first second third : World} (hfirst : first.Advances second)
    (hsecond : second.Advances third) : first.Advances third :=
  ⟨hfirst.memory.trans hsecond.memory, hfirst.built.trans hsecond.built,
    hfirst.trace.trans hsecond.trace, hfirst.cancelled.trans hsecond.cancelled,
    Nat.le_trans hfirst.now hsecond.now, Nat.le_trans hfirst.nextLayer hsecond.nextLayer⟩

theorem emit (world : World) (event : Event) : world.Advances (world.emit event) :=
  { refl world with trace := List.suffix_cons _ _ }

theorem emitAll (world : World) (events : List Event) : world.Advances (world.emitAll events) :=
  { refl world with trace := List.suffix_append _ _ }

theorem hold (world : World) (held : List Site) : world.Advances { world with held } :=
  { refl world with }

theorem sidestep {before after : World} (sidesteps : before.Sidesteps after) :
    before.Advances after where
  memory := sidesteps.memory ▸ .refl _
  built := sidesteps.built ▸ List.suffix_rfl
  trace := sidesteps.trace ▸ List.suffix_rfl
  cancelled := sidesteps.cancelled
  now := sidesteps.now
  nextLayer := Nat.le_of_eq sidesteps.nextLayer.symm

theorem enter (world : World) (layer : Layer) : world.Advances (world.enter layer) :=
  { refl world with built := List.suffix_cons _ _, nextLayer := Nat.le_succ _ }

theorem deliver (world : World) (delivery : Site × Value) :
    world.Advances (world.deliver delivery) := by
  unfold World.deliver
  split
  · exact emit _ _
  · have hfill : world.Advances { world with memory := world.memory.fill delivery.1 delivery.2 } :=
      { refl world with memory := { Memory.Extends.refl _ with filled := .add _ _ _ } }
    exact hfill.trans (emit _ _)

theorem start (world : World) (scope : Scope) (key : Key) (source : Registered) (chain : Chain) :
    world.Advances (world.start scope key source chain) :=
  (((emit _ _).trans (hold _ _)).trans (emitAll _ _)).trans (emit _ _)

end Advances

structure Grows (before after : World) : Prop extends Advances before after where
  held : after.held = before.held
  locked : ∀ site ∈ before.held,
    after.memory.filled.find? site = before.memory.filled.find? site

namespace Grows

theorem of_filled {before after : World} (advances : before.Advances after)
    (held : after.held = before.held) (filled : after.memory.filled = before.memory.filled) :
    before.Grows after :=
  ⟨advances, held, fun _ _ => by rw [filled]⟩

theorem refl (world : World) : world.Grows world := of_filled (.refl _) rfl rfl

theorem trans {first second third : World} (hfirst : first.Grows second)
    (hsecond : second.Grows third) : first.Grows third where
  toAdvances := hfirst.toAdvances.trans hsecond.toAdvances
  held := hsecond.held.trans hfirst.held
  locked site hsite :=
    (hsecond.locked site (hfirst.held ▸ hsite)).trans (hfirst.locked site hsite)

theorem emit (world : World) (event : Event) : world.Grows (world.emit event) :=
  of_filled (.emit _ _) rfl rfl

theorem emitAll (world : World) (events : List Event) : world.Grows (world.emitAll events) :=
  of_filled (.emitAll _ _) rfl rfl

theorem sidestep {before after : World} (sidesteps : before.Sidesteps after) : before.Grows after :=
  of_filled (.sidestep sidesteps) sidesteps.held (by rw [sidesteps.memory])

theorem enter (world : World) (layer : Layer) : world.Grows (world.enter layer) :=
  of_filled (.enter _ _) rfl rfl

theorem obstruct (world : World) (scope : Scope) (key : Key) (source : Registered) (chain : Chain)
    (error : ResolutionError) : world.Grows (world.obstruct scope key source chain error) :=
  (emit _ _).trans (emitAll _ _)

theorem enterBody (world : World) (scope : Scope) (source : Registered)
    (arguments : List Argument) : world.Grows (world.enterBody scope source arguments) :=
  of_filled { Advances.refl world with trace := List.suffix_cons _ _ } rfl rfl

theorem enterCast (world : World) (site : Site) (binding : Binding) (payload : String) :
    world.Grows (world.enterCast site binding payload) :=
  of_filled { Advances.refl world with trace := List.suffix_cons _ _ } rfl rfl

theorem bind (world : World) (scope : Scope) (key : Key) (binding : Binding) (payload : String) :
    world.Grows (world.bind scope key binding payload) :=
  of_filled { Advances.emit world _ with
    memory := { Memory.Extends.refl _ with bound := .add _ _ _ } } rfl rfl

theorem hoist (world : World) (scope : Scope) (key : Key) (value : Value) :
    world.Grows (world.hoist scope key value) := by
  unfold World.hoist
  split
  · exact of_filled { Advances.refl world with
      memory := { Memory.Extends.refl _ with imported := .add _ _ _ } } rfl rfl
  · exact refl world

theorem delegate (world : World) (scope : Scope) (key : Key) (parent : Scope) :
    world.Grows (world.delegate scope key parent) :=
  (emitAll _ _).trans (emit _ _)

theorem report (world : World) (scope : Scope) (key : Key) (source : Registered)
    (answer : Answer) : world.Grows (world.report scope key source answer) := by
  cases answer <;> exact (emit _ _).trans (emitAll _ _)

end Grows

end World

namespace Resolution

open World

theorem Gathers.chain {R : World → World → Prop} (refl : ∀ world, R world world)
    (trans : ∀ {first second third}, R first second → R second third → R first third)
    {layer : Layer} {context : Context} {supplies : List Supply} {inquiries : List Inquiry}
    {world after : World} {gathered : Except Stop (Except ResolutionError (List Argument))}
    (gathers : Gathers layer context supplies inquiries world gathered after)
    (h : ∀ inquiry ∈ inquiries, R inquiry.before inquiry.after) : R world after := by
  induction gathers with
  | done => exact refl _
  | given unasked willing further ih => exact ih h
  | declined unasked refusal => exact refl _
  | stopped asked => exact h _ List.mem_cons_self
  | refused asked unacceptable => exact h _ List.mem_cons_self
  | found asked acceptable further ih =>
    have hfirst := h _ List.mem_cons_self
    have hrest := ih fun inquiry hinquiry => h inquiry (List.mem_cons_of_mem _ hinquiry)
    exact trans hfirst hrest

theorem any_isFedBy {backing? : Option Backing} {place : Nat} :
    backing?.any (Backing.isFedBy place) = true ↔
      ∃ source eager cyclic, backing? = some (.generated source eager cyclic) ∧
        source.place = place := by
  cases backing? with
  | none => simp
  | some backing =>
    cases backing with
    | value value => simp [Backing.isFedBy]
    | generated source eager cyclic => simp [Backing.isFedBy]

theorem mem_deliveries {scope : Scope} {source : Registered} {products : List Value}
    {delivery : Site × Value} :
    delivery ∈ deliveries scope source products ↔
      ∃ output, (output, delivery.2) ∈ source.generator.outputs.zip products ∧
        (scope.slots.find? output).any (Backing.isFedBy source.place) = true ∧
        delivery.1 = scope.site output := by
  constructor
  · intro h
    obtain ⟨⟨output, value⟩, hpair, hdelivery⟩ := List.mem_filterMap.mp h
    dsimp only at hdelivery
    split at hdelivery
    · next hfed =>
      obtain rfl := Option.some.inj hdelivery
      exact ⟨output, hpair, hfed, rfl⟩
    · cases hdelivery
  · intro h
    obtain ⟨output, hpair, hfed, hsite⟩ := h
    refine List.mem_filterMap.mpr ⟨(output, delivery.2), hpair, ?_⟩
    dsimp only
    rw [if_pos hfed, ← hsite]

theorem mem_locks_of_delivery {scope : Scope} {source : Registered} {products : List Value}
    {delivery : Site × Value} (h : delivery ∈ deliveries scope source products) :
    delivery.1 ∈ scope.locks source := by
  obtain ⟨output, hpair, hfed, hsite⟩ := mem_deliveries.mp h
  refine List.mem_map.mpr ⟨output, List.mem_mergeSort.mpr (List.mem_filter.mpr ⟨?_, hfed⟩), hsite.symm⟩
  exact (List.of_mem_zip hpair).1

theorem lookup_deliveries {scope : Scope} {source : Registered} {output : Key}
    (hfed : output ∈ scope.fedBy source) (products : List Value) :
    Table.lookup (scope.site output) (deliveries scope source products) =
      products[source.generator.outputs.idxOf output]? := by
  obtain ⟨houtput, hany⟩ := List.mem_filter.mp hfed
  unfold deliveries
  revert houtput
  generalize source.generator.outputs = outputs
  intro houtput
  induction outputs generalizing products with
  | nil => cases houtput
  | cons first outputs ih =>
    cases products with
    | nil => simp [Table.lookup]
    | cons value products =>
      rw [List.zip_cons_cons]
      by_cases hfirst : first = output
      · subst hfirst
        simp [hany, Table.lookup]
      · have hrest : output ∈ outputs := (List.mem_cons.mp houtput).resolve_left (Ne.symm hfirst)
        have hsite : scope.site first ≠ scope.site output := fun h => hfirst (Site.mk.inj h).2
        have hindex : (first :: outputs).idxOf output = outputs.idxOf output + 1 := by
          rw [List.idxOf_cons, beq_eq_false_iff_ne.mpr hfirst, cond_false]
        rw [hindex, List.getElem?_cons_succ, ← ih products hrest]
        by_cases hother : (scope.slots.find? first).any (Backing.isFedBy source.place) = true
        · simp only [List.filterMap_cons, hother, if_true, Table.lookup, if_neg hsite]
        · simp only [List.filterMap_cons, hother, Bool.false_eq_true, if_false]

theorem foldl_deliver_advances (deliveries : List (Site × Value)) (world : World) :
    world.Advances (deliveries.foldl World.deliver world) := by
  induction deliveries generalizing world with
  | nil => exact .refl world
  | cons delivery rest ih => exact (Advances.deliver world delivery).trans (ih _)

theorem deliver_find? (world : World) (delivery : Site × Value) (site : Site) :
    (world.deliver delivery).memory.filled.find? site =
      (world.memory.filled.find? site).or
        (if delivery.1 = site then some delivery.2 else none) := by
  unfold World.deliver Table.contains
  cases hslot : world.memory.filled.find? delivery.1 with
  | some value =>
    change world.memory.filled.find? site = _
    by_cases hsite : delivery.1 = site
    · rw [← hsite, hslot, Option.some_or]
    · rw [if_neg hsite, Option.or_none]
  | none =>
    change (world.memory.filled.add delivery.1 delivery.2).find? site = _
    rw [Table.find?_add, hslot]
    by_cases hsite : delivery.1 = site
    · simp [← hsite, hslot]
    · simp [hsite, Ne.symm hsite]

theorem foldl_deliver_lookup (deliveries : List (Site × Value)) (world : World) (site : Site) :
    (deliveries.foldl World.deliver world).memory.filled.find? site =
      (world.memory.filled.find? site).or (Table.lookup site deliveries) := by
  induction deliveries generalizing world with
  | nil => exact Option.or_none.symm
  | cons delivery rest ih =>
    rw [List.foldl_cons, ih, deliver_find?, Option.or_assoc, Table.lookup]
    split <;> rfl

theorem foldl_deliver_find? {deliveries : List (Site × Value)} {site : Site}
    (h : ∀ delivery ∈ deliveries, site ≠ delivery.1) (world : World) :
    (deliveries.foldl World.deliver world).memory.filled.find? site =
      world.memory.filled.find? site := by
  have hnone : Table.lookup site deliveries = none := by
    cases hlookup : Table.lookup site deliveries with
    | none => rfl
    | some value =>
      have hmem := @Table.mem_entries_of_find? _ _ _ ⟨deliveries⟩ _ _ hlookup
      exact absurd rfl (h (site, value) hmem)
  rw [foldl_deliver_lookup, hnone, Option.or_none]

theorem deliver_of_empty {world : World} {delivery : Site × Value}
    (empty : world.memory.filled.find? delivery.1 = none) :
    world.deliver delivery =
        { world with memory := world.memory.fill delivery.1 delivery.2 }.emit
          (.filled delivery.1 delivery.2) ∧
      ∀ site, (world.deliver delivery).memory.filled.find? site =
        if site = delivery.1 then some delivery.2 else world.memory.filled.find? site := by
  have hdeliver : world.deliver delivery =
      { world with memory := world.memory.fill delivery.1 delivery.2 }.emit
        (.filled delivery.1 delivery.2) := by
    unfold World.deliver
    rw [if_neg (by simp [Table.contains, empty])]
  refine ⟨hdeliver, fun site => ?_⟩
  rw [hdeliver]
  change (world.memory.filled.add delivery.1 delivery.2).find? site = _
  rw [Table.find?_add, empty]
  rfl

variable {layer : Layer} {key : Key} {source : Registered} {context : Context}

theorem outcome_world (result : Except ResolutionError Yield) (world : World) :
    (outcome layer key source context result world).2 = world ∨
      ∃ products, result = .ok (.products products) ∧
        (outcome layer key source context result world).2 =
          (deliveries layer.scope source products).foldl World.deliver world := by
  have rule := outcome_rule layer key source context result world
  generalize outcome layer key source context result world = ended at rule ⊢
  cases rule with
  | canceled | refused | failed | nil => exact .inl rfl
  | found _ delivers | unfilled _ delivers => exact .inr ⟨_, rfl, delivers.symm⟩

theorem outcome_advances (result : Except ResolutionError Yield) (world : World) :
    world.Advances (outcome layer key source context result world).2 := by
  rcases @outcome_world layer key source context result world with h | ⟨products, -, h⟩
  · rw [h]
    exact .refl world
  · rw [h]
    exact foldl_deliver_advances _ world

theorem outcome_find? {site : Site} (unlocked : site ∉ layer.scope.locks source)
    (result : Except ResolutionError Yield) (world : World) :
    (outcome layer key source context result world).2.memory.filled.find? site =
      world.memory.filled.find? site := by
  rcases @outcome_world layer key source context result world with h | ⟨products, -, h⟩
  · rw [h]
  · have hapart : ∀ delivery ∈ deliveries layer.scope source products, site ≠ delivery.1 := by
      rintro delivery hdelivery rfl
      exact unlocked (mem_locks_of_delivery hdelivery)
    rw [h]
    exact foldl_deliver_find? hapart world

theorem finish_advances (result : Except ResolutionError Yield) (world : World) :
    world.Advances (finish layer key source context result world).2 :=
  (outcome_advances result world).trans (Grows.report _ _ _ _ _).toAdvances

theorem finish_find? {site : Site} (unlocked : site ∉ layer.scope.locks source)
    (result : Except ResolutionError Yield) (world : World) :
    (finish layer key source context result world).2.memory.filled.find? site =
      world.memory.filled.find? site := by
  have hreport (world : World) (answer : Answer) :
      (world.report layer.scope key source answer).memory = world.memory := by
    cases answer <;> rfl
  unfold finish
  dsimp only
  rw [hreport]
  exact outcome_find? unlocked result world

def Grow (perform : Command → Engine Reply) : Prop :=
  ∀ command (world : World), world.Grows (perform command world).2

theorem run_grows {α : Type} {perform : Command → Engine Reply} (grow : Grow perform)
    (act : Act Command α) (world : World) : world.Grows (Engine.run perform act world).2 := by
  have hkeeps : Engine.Keeps world.Grows (Engine.run perform act) := by
    refine .run ?_ ?_ ?_ ?_ ?_ act
    · exact fun token between h => h.trans (.sidestep (.cancel between token))
    · exact fun time between h => h.trans (.sidestep (.elapse between time))
    · exact fun name between h => h.trans (.emit between _)
    · exact fun command between h => h.trans (grow command between)
    · exact fun reply between h => h.trans (.emit between _)
  exact hkeeps world (.refl world)

theorem Ends.grows {perform : Command → Engine Reply} {world after : World}
    {gathered : Except Stop (Except ResolutionError (List Argument))}
    {result : Except Stop Answer} (grow : Grow perform)
    (ends : Ends perform layer key source context world gathered result after) :
    world.Advances after ∧ ∀ site ∈ world.held, site ∉ layer.scope.locks source →
      after.memory.filled.find? site = world.memory.filled.find? site := by
  cases ends with
  | unsupplied => exact ⟨.refl _, fun _ _ _ => rfl⟩
  | refused =>
    exact ⟨finish_advances _ _, fun site _ unlocked => finish_find? unlocked _ _⟩
  | @broken arguments stop _ body =>
    have hbody := run_grows grow (source.generator.body (world.nextRun layer.scope source) arguments)
      (world.enterBody layer.scope source arguments)
    rw [body] at hbody
    have hgrows := (Grows.enterBody world layer.scope source arguments).trans hbody
    exact ⟨hgrows.toAdvances, fun site hsite _ => hgrows.locked site hsite⟩
  | @returned arguments yield between body =>
    have hbody := run_grows grow (source.generator.body (world.nextRun layer.scope source) arguments)
      (world.enterBody layer.scope source arguments)
    rw [body] at hbody
    have hgrows := ((Grows.enterBody world layer.scope source arguments).trans hbody).trans
      (.emit between (.returned layer.scope.id source.place
        (world.nextRun layer.scope source) yield))
    refine ⟨hgrows.toAdvances.trans (finish_advances _ _), fun site hsite unlocked => ?_⟩
    rw [finish_find? unlocked]
    exact hgrows.locked site hsite

theorem Binds.enters {perform : Command → Engine Reply} {scope : Scope} {binding : Binding}
    {value : Value} {world after : World} {result : Except Stop Answer} (grow : Grow perform)
    (binds : Binds perform scope key binding value world result after)
    (typed : value.type = binding.source) :
    (world.enterCast (scope.site key) binding value.payload).Grows after := by
  have hcast := run_grows grow
    (binding.cast.apply (world.nextCast (scope.site key)) value.payload)
    (world.enterCast (scope.site key) binding value.payload)
  cases binds with
  | mistyped other => exact absurd typed other
  | broken typed cast => rwa [cast] at hcast
  | bound typed cast =>
    rw [cast] at hcast
    exact hcast.trans (.bind _ _ _ _ _)

theorem Binds.grows {perform : Command → Engine Reply} {scope : Scope} {binding : Binding}
    {value : Value} {world after : World} {result : Except Stop Answer} (grow : Grow perform)
    (binds : Binds perform scope key binding value world result after) : world.Grows after := by
  by_cases typed : value.type = binding.source
  · exact (Grows.enterCast _ _ _ _).trans (binds.enters grow typed)
  · cases binds with
    | mistyped => exact .refl _
    | broken typed' | bound typed' => exact absurd typed' typed

theorem Starts.grows {chain : Chain} {world between after : World} {inquiries : List Inquiry}
    {gathered : Except Stop (Except ResolutionError (List Argument))} {result : Except Stop Answer}
    {perform : Command → Engine Reply} (grow : Grow perform)
    (starts : Starts layer key chain context world source inquiries gathered between)
    (answers : ∀ inquiry ∈ inquiries, inquiry.before.Grows inquiry.after)
    (ends : Ends perform layer key source context between gathered result after) :
    world.Grows { after with held := world.held } := by
  have hgathers := starts.gathers.chain Grows.refl (fun h h' => h.trans h') answers
  obtain ⟨hadvances, hlocked⟩ := ends.grows grow
  refine ⟨((Advances.start _ _ _ _ _).trans hgathers.toAdvances).trans
    (hadvances.trans (.hold _ _)), rfl, fun site hsite => ?_⟩
  have hheld : site ∈ (world.start layer.scope key source chain).held :=
    List.mem_append_right _ hsite
  have hunlocked : site ∉ layer.scope.locks source := by
    intro hlock
    have hcontains : world.held.contains site = true := List.contains_iff_mem.mpr hsite
    exact starts.unlocked (List.any_eq_true.mpr ⟨site, hlock, hcontains⟩)
  calc
    after.memory.filled.find? site = between.memory.filled.find? site :=
      hlocked site (hgathers.held ▸ hheld) hunlocked
    _ = (world.start layer.scope key source chain).memory.filled.find? site :=
      hgathers.locked site hheld
    _ = world.memory.filled.find? site := rfl

/-- Every request leaves the world grown, if the commands given meanwhile do. -/
theorem Resolves.grows_of_grow {fuel : Nat} {chain : Chain} {world after : World}
    {result : Except Stop Answer} (grow : ∀ less ≤ fuel, Grow (Session.handler less))
    (resolves : Resolves fuel layer key chain context world result after) : world.Grows after := by
  induction resolves with
  | stored => exact .emit _ _
  | exhausted => exact .refl _
  | obstructed => exact .obstruct _ _ _ _ _ _
  | blocked => exact .emit _ _
  | run starts answers ends ih =>
    refine starts.grows (grow _ (Nat.le_refl _)) (fun inquiry hinquiry => ?_) ends
    exact ih inquiry hinquiry fun less hless => grow less (Nat.le_succ_of_le hless)
  | bound => exact .refl _
  | unbacked => exact .refl _
  | unsourced noSlot interface unbound behind answer lost ih => exact ih grow
  | cast noSlot interface unbound behind answer binds ih =>
    exact (ih grow).trans (binds.grows (grow _ (Nat.le_refl _)))
  | imported => exact .refl _
  | missing => exact .refl _
  | unavailable unowned unknown answer lost ih => exact (Grows.delegate _ _ _ _).trans (ih grow)
  | delegated unowned unknown answer ih =>
    exact ((Grows.delegate _ _ _ _).trans (ih grow)).trans (.hoist _ _ _ _)

end Resolution

def World.conclude (world : World) (layer : Layer) (key : Key) : Except Stop Answer → World
  | .ok (.ok value) => world.emit (.granted (layer.scope.site key) value)
  | .ok (.error error) =>
    (world.emit (.denied (layer.scope.site key) error)).emit
      (.logged (.resolutionFailed layer.scope.id key error))
  | .error _ => world

theorem World.Grows.conclude (world : World) (layer : Layer) (key : Key)
    (result : Except Stop Answer) : world.Grows (world.conclude layer key result) := by
  rcases result with stop | (error | value)
  · exact .refl world
  · exact (emit _ _).trans (emit _ _)
  · exact emit _ _

/-- A failed request: with the dump that its error has brought along, and otherwise with one of the
layer if one is wanted. -/
def Layer.failure (layer : Layer) (wanted : Bool) (memory : Memory) (error : ResolutionError) :
    Failure :=
  ⟨error, error.brought?.or (if wanted then some (layer.dump memory) else none)⟩

@[simp] theorem Layer.failure_error (layer : Layer) (wanted : Bool) (memory : Memory)
    (error : ResolutionError) : (layer.failure wanted memory error).error = error := rfl

/-- A request from outside is a request with no run in progress. -/
theorem Layer.request_eq {resolve : Resolver} {layer : Layer} {key : Key} {context : Context}
    {world after : World} {result : Except Stop Answer}
    (h : resolve layer key [] context (world.emit (.asked (layer.scope.site key))) =
      (result, after)) :
    layer.request resolve key context world =
      (result.map (Except.mapError (layer.failure layer.scope.settings.snapshot after.memory)),
        after.conclude layer key result) := by
  unfold Layer.request
  rw [Engine.emit_bind_apply, Engine.bind_apply, h]
  rcases result with stop | (error | value) <;> rfl

theorem Layer.request_world (resolve : Resolver) (layer : Layer) (key : Key) (context : Context)
    (world : World) :
    (layer.request resolve key context world).2 =
      let asked := world.emit (.asked (layer.scope.site key))
      (resolve layer key [] context asked).2.conclude layer key
        (resolve layer key [] context asked).1 := by
  rw [Layer.request_eq rfl]

theorem Layer.request_granted {resolve : Resolver} {layer : Layer} {key : Key} {context : Context}
    {world after : World} {value : Value}
    (h : resolve layer key [] context (world.emit (.asked (layer.scope.site key))) =
      (.ok (.ok value), after)) :
    layer.request resolve key context world =
      (.ok (.ok value), after.emit (.granted (layer.scope.site key) value)) :=
  Layer.request_eq h

theorem Layer.request_denied {resolve : Resolver} {layer : Layer} {key : Key} {context : Context}
    {world : World} {error : ResolutionError}
    (h : (resolve layer key [] context (world.emit (.asked (layer.scope.site key)))).1 =
      .ok (.error error)) :
    ∃ snapshot, (layer.request resolve key context world).1 = .ok (.error ⟨error, snapshot⟩) := by
  rw [Layer.request_eq (Prod.ext h rfl)]
  exact ⟨_, rfl⟩

/-- A request from outside answers what it came to, a failure with a dump if the layer asks for one. -/
theorem Layer.request_answered {resolve : Resolver} {layer : Layer} {key : Key} {context : Context}
    {world : World} {answer : Answer}
    (h : (resolve layer key [] context (world.emit (.asked (layer.scope.site key)))).1 =
      .ok answer) :
    ∃ snapshot, (layer.request resolve key context world).1 =
      .ok (answer.mapError fun error => ⟨error, snapshot⟩) := by
  cases answer with
  | ok value => exact ⟨none, congrArg Prod.fst (Layer.request_granted (Prod.ext h rfl))⟩
  | error error => exact Layer.request_denied h

theorem Layer.request_inv {resolve : Resolver} {layer : Layer} {key : Key} {context : Context}
    {world after : World} {answered : Answered}
    (h : layer.request resolve key context world = (.ok answered, after)) :
    ∃ answer between,
      resolve layer key [] context (world.emit (.asked (layer.scope.site key))) =
        (.ok answer, between) ∧
      after = between.conclude layer key (.ok answer) := by
  rcases hresolve : resolve layer key [] context (world.emit (.asked (layer.scope.site key))) with
    ⟨stop | answer, between⟩
  · rw [Layer.request_eq hresolve] at h
    cases h
  · rw [Layer.request_eq hresolve] at h
    exact ⟨answer, between, rfl, (Prod.mk.inj h).2.symm⟩

theorem Layer.request_congr {resolve resolve' : Resolver} {layer : Layer} {key : Key}
    {context : Context} {world : World}
    (h : resolve layer key [] context (world.emit (.asked (layer.scope.site key))) =
      resolve' layer key [] context (world.emit (.asked (layer.scope.site key)))) :
    layer.request resolve key context world = layer.request resolve' key context world := by
  unfold Layer.request
  rw [Engine.emit_bind_apply, Engine.emit_bind_apply, Engine.bind_apply, Engine.bind_apply, h]

def Layer.reply (layer : Layer) (memory : Memory) (key : Key) : Answer → Answered
  | .ok value => if value.type = key then .ok value else .error ⟨.mismatch key, none⟩
  | .error error => .error (layer.failure layer.scope.settings.snapshot memory error)

theorem Layer.resolveAs_eq {resolve : Resolver} {layer : Layer} {key : Key} {context : Context}
    {world after : World} {result : Except Stop Answer}
    (h : resolve layer key [] context (world.emit (.asked (layer.scope.site key))) =
      (result, after)) :
    layer.resolveAs resolve key context world =
      (result.map (layer.reply after.memory key), after.conclude layer key result) := by
  unfold resolveAs
  rw [Engine.bind_apply]
  rcases result with stop | (error | value)
  · rw [Layer.request_eq h]
    rfl
  · rw [Layer.request_eq h]
    rfl
  · rw [Layer.request_granted h]
    by_cases typed : value.type = key
    · simp [Resolution.typed, typed, Except.map, reply, World.conclude]
    · simp [Resolution.typed, typed, Except.map, reply, World.conclude]

theorem Layer.resolveAs_apply {resolve : Resolver} {layer : Layer} {key : Key} {context : Context}
    {world after : World} {answered : Answered}
    (h : layer.request resolve key context world = (.ok answered, after))
    (typed : ∀ value, answered = .ok value → value.type = key) :
    layer.resolveAs resolve key context world = (.ok answered, after) := by
  unfold resolveAs
  rw [Engine.bind_apply_ok h]
  cases answered with
  | error failure => rfl
  | ok value =>
    dsimp only [Resolution.typed]
    rw [if_pos (typed value rfl)]
    rfl

namespace Session

open Resolution World

variable {fuel : Nat} {start world : World} {seen : List Layer}

theorem request_grows_of_grow (grow : ∀ less ≤ fuel, Grow (handler less)) (layer : Layer)
    (key : Key) (context : Context) (world : World) :
    world.Grows (layer.request (resolver fuel) key context world).2 := by
  have hresolves := resolver_resolves fuel layer key [] context
    (world.emit (.asked (layer.scope.site key)))
  rw [Layer.request_world]
  exact ((Grows.emit _ _).trans (hresolves.grows_of_grow grow)).trans (.conclude _ _ _ _)

theorem Course.grows_of_grow (grow : ∀ less ≤ fuel, Grow (handler less))
    (course : Course fuel start seen world) : start.Grows world := by
  induction course with
  | rest => exact .refl _
  | sidestep course sidesteps ih => exact ih.trans (.sidestep sidesteps)
  | note course incidental ih => exact ih.trans (.emit _ _)
  | look course named ih => exact ih
  | name course met ih => exact ih.trans (.of_filled { Advances.refl _ with } rfl rfl)
  | enter course parent assembled ih => exact ih.trans (.enter _ _)
  | request course met ih => exact ih.trans (request_grows_of_grow grow _ _ _ _)

theorem handler_grows (fuel : Nat) : Grow (handler fuel) := by
  have hbelow : ∀ less ≤ fuel, Grow (handler less) := by
    induction fuel with
    | zero =>
      intro less hless command world
      obtain rfl := Nat.le_zero.mp hless
      exact .refl world
    | succ fuel ih =>
      intro less hless command world
      rcases Nat.le_succ_iff.mp hless with hle | rfl
      · exact ih less hle command world
      · obtain ⟨seen, course⟩ := perform_course fuel command world
        exact course.grows_of_grow ih
  exact hbelow fuel (Nat.le_refl fuel)

theorem request_grows (fuel : Nat) (layer : Layer) (key : Key) (context : Context)
    (world : World) : world.Grows (layer.request (resolver fuel) key context world).2 :=
  request_grows_of_grow (fun less _ => handler_grows less) layer key context world

theorem commission_built (fuel : Nat) (builder : Builder) (layer : Layer) (world : World) :
    layer ∈ (builder.commission (resolver fuel) layer world).2.built := by
  have hlog (entry : LogEntry) :
      Engine.Keeps (fun world => layer ∈ world.built) (Engine.log entry) :=
    fun _ h => h
  have hfill : Engine.Keeps (fun world => layer ∈ world.built)
      (layer.fillEager (resolver fuel)) := by
    unfold Layer.fillEager
    split
    · exact .throw _
    · refine .forM fun key _ => .onThread (fun _ _ h => h) (.catchPanic (.bind ?_ ?_) ?_)
      · exact fun world h => (request_grows fuel layer key .background world).built.mem h
      · intro answered
        cases answered <;> exact hlog _
      · exact fun message => hlog _
  have hended : Engine.Keeps (fun world => layer ∈ world.built)
      (do if layer.races then Engine.emit .raceEnded) := by
    split
    · exact fun _ h => h
    · exact .pure _
  rw [Builder.commission_apply]
  refine Engine.Keeps.bind hfill (fun _ => hended) _ ?_
  rw [Builder.opening_eq]
  exact List.mem_cons_self

/-- Whatever a command does, it takes nothing back. -/
theorem perform_grows (fuel : Nat) (command : Command) (world : World) :
    world.Grows (perform (resolver fuel) command world).2 :=
  handler_grows (fuel + 1) command world

theorem mem_built_step {layer : Layer} (known : layer ∈ world.built) (fuel : Nat)
    (command : Command) : layer ∈ (step fuel world command).2.built :=
  (perform_grows fuel command world).built.mem known

theorem step_built {command : Command}
    (h : world.built.length = (step fuel world command).2.built.length) :
    (step fuel world command).2.built = world.built :=
  ((perform_grows fuel command world).built.eq_of_length h).symm

end Session

theorem Resolution.Resolves.grows {fuel : Nat} {layer : Layer} {key : Key} {chain : Chain}
    {context : Context} {world after : World} {result : Except Stop Answer}
    (resolves : Resolves fuel layer key chain context world result after) : world.Grows after :=
  resolves.grows_of_grow fun less _ => Session.handler_grows less

end LayerGraph
