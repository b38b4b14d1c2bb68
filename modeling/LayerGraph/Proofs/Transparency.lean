import LayerGraph.Proofs.Progress

/-! What is remembered is what evaluation comes to.

As long as generators and casts are steady, every value that a slot, an interface or an import has is
the one that its type comes to, whatever was asked for before. So a request is answered as if nothing
were remembered, unless its context ends or its depth runs out. -/

namespace LayerGraph

def Recalls (built : List Layer) (table : Table Site Value) : Prop :=
  ∀ layer ∈ built, ∀ key value, table.find? (layer.scope.site key) = some value →
    layer.Evaluates key (.ok value)

namespace Recalls

variable {built : List Layer} {table : Table Site Value} {layer : Layer}

theorem add (recalls : Recalls built table) {key : Key} {value : Value}
    (unique : ∀ other ∈ built, other.scope.id = layer.scope.id → other = layer)
    (answers : table.find? (layer.scope.site key) = none → layer.Evaluates key (.ok value)) :
    Recalls built (table.add (layer.scope.site key) value) := by
  intro other hother found stored h
  rw [Table.find?_add] at h
  split at h
  · next hsite =>
    obtain ⟨hid, rfl⟩ := Site.mk.inj hsite
    obtain rfl := unique other hother hid
    cases hold : table.find? (other.scope.site found) with
    | none =>
      rw [hold] at h
      obtain rfl := Option.some.inj h
      exact answers hold
    | some old =>
      rw [hold] at h
      obtain rfl := Option.some.inj h
      exact recalls other hother found old hold
  · exact recalls other hother found stored h

theorem cons (recalls : Recalls built table)
    (fresh : ∀ key value, table.find? (layer.scope.site key) ≠ some value) :
    Recalls (layer :: built) table := by
  intro other hother key value h
  rcases List.mem_cons.mp hother with rfl | hmem
  · exact absurd h (fresh key value)
  · exact recalls other hmem key value h

end Recalls

/-- Whatever is remembered is what evaluation comes to, and an interface without a value has not been
cast yet. -/
structure World.Agrees (world : World) : Prop where
  filled : Recalls world.built world.memory.filled
  bound : Recalls world.built world.memory.bound
  imported : Recalls world.built world.memory.imported
  uncast : ∀ site, world.memory.bound.find? site = none → world.casts.find? site = none

namespace World.Agrees

variable {world after : World} {layer : Layer} {key : Key}

theorem initial : World.Agrees {} := by
  refine ⟨?_, ?_, ?_, fun _ _ => rfl⟩
  all_goals
    intro layer h
    cases h

theorem of_same (agrees : world.Agrees) (built : after.built = world.built)
    (memory : after.memory = world.memory) (casts : after.casts = world.casts) : after.Agrees where
  filled := built ▸ memory ▸ agrees.filled
  bound := built ▸ memory ▸ agrees.bound
  imported := built ▸ memory ▸ agrees.imported
  uncast := memory ▸ casts ▸ agrees.uncast

theorem sidestep (agrees : world.Agrees) (sidesteps : world.Sidesteps after) : after.Agrees :=
  agrees.of_same sidesteps.built sidesteps.memory sidesteps.casts

theorem emit (agrees : world.Agrees) (event : Event) : (world.emit event).Agrees :=
  agrees.of_same rfl rfl rfl

theorem report (agrees : world.Agrees) (scope : Scope) (key : Key) (source : Registered)
    (answer : Answer) : (world.report scope key source answer).Agrees := by
  cases answer <;> exact agrees.of_same rfl rfl rfl

theorem deliver (agrees : world.Agrees) (hosts : world.Hosts layer) {value : Value}
    (answers : layer.Evaluates key (.ok value)) :
    (world.deliver (layer.scope.site key, value)).Agrees := by
  unfold World.deliver
  split
  · exact agrees.emit _
  · have hfilled := agrees.filled.add
      (fun other hother hid => hosts.1.unique other hother layer hosts.2 hid) fun _ => answers
    have hfill : World.Agrees
        { world with memory := world.memory.fill (layer.scope.site key) value } :=
      { agrees with filled := hfilled }
    exact hfill.emit _

theorem hoist (agrees : world.Agrees) (hosts : world.Hosts layer) {value : Value}
    (answers : layer.Evaluates key (.ok value)) :
    (world.hoist layer.scope key value).Agrees := by
  unfold World.hoist
  split
  · have himported := agrees.imported.add
      (fun other hother hid => hosts.1.unique other hother layer hosts.2 hid) fun _ => answers
    exact { agrees with imported := himported }
  · exact agrees

theorem hoisted (agrees : world.Agrees) (hosts : world.Hosts layer) {value : Value}
    (answers : layer.Evaluates key (.ok value)) :
    layer.Evaluates key (.ok (Resolution.hoisted layer.scope key value world)) := by
  have hafter := agrees.hoist hosts answers
  have hbuilt := (World.Grows.hoist world layer.scope key value).built.mem hosts.2
  unfold Resolution.hoisted
  split
  · cases himported : (world.hoist layer.scope key value).memory.imported.find?
        (layer.scope.site key) with
    | none => exact answers
    | some old => exact hafter.imported layer hbuilt key old himported
  · exact answers

theorem bind (agrees : world.Agrees) (hosts : world.Hosts layer) {binding : Binding}
    {payload result : String}
    (answers : world.memory.bound.find? (layer.scope.site key) = none →
      layer.Evaluates key (.ok ⟨key, result⟩))
    (built : after.built = world.built) (memory : after.memory = world.memory)
    (casts : after.casts =
      (world.enterCast (layer.scope.site key) binding payload).casts) :
    (after.bind layer.scope key binding result).Agrees := by
  have hunique : ∀ other ∈ world.built, other.scope.id = layer.scope.id → other = layer :=
    fun other hother hid => hosts.1.unique other hother layer hosts.2 hid
  have hbound : (after.bind layer.scope key binding result).memory.bound =
      world.memory.bound.add (layer.scope.site key) ⟨key, result⟩ := by
    rw [← memory]
    rfl
  have hfilled : Recalls after.built after.memory.filled := built ▸ memory ▸ agrees.filled
  have himported : Recalls after.built after.memory.imported := built ▸ memory ▸ agrees.imported
  refine ⟨hfilled, ?_, himported, fun site h => ?_⟩
  · rw [hbound]
    exact built ▸ agrees.bound.add hunique answers
  · rw [hbound, Table.find?_add] at h
    split at h
    · cases h
    · next hsite =>
      change after.casts.find? site = none
      rw [casts]
      change (world.casts.set _ _).find? site = none
      rw [Table.find?_set_of_ne _ _ hsite]
      exact agrees.uncast site h

theorem enter (agrees : world.Agrees) (valid : world.Valid) {builder : Builder}
    (assembled : builder.assemble world.memory world.nextLayer = .ok layer) :
    (world.enter layer).Agrees := by
  obtain ⟨-, -, -, -, -, hid, -⟩ := Builder.assemble_inv assembled
  have hfresh {site : Site} (known : ∃ old ∈ world.built, old.scope.id = site.layer) :
      layer.scope.id ≠ site.layer := by
    obtain ⟨old, hold, hsame⟩ := known
    have hlt := valid.ids old hold
    omega
  refine ⟨agrees.filled.cons fun key value h => ?_, agrees.bound.cons fun key value h => ?_,
    agrees.imported.cons fun key value h => ?_, agrees.uncast⟩
  · obtain ⟨old, hold, hsame, -⟩ := valid.filled _ value h
    exact hfresh ⟨old, hold, hsame⟩ rfl
  · obtain ⟨old, hold, hsame, -⟩ := valid.bound _ value h
    exact hfresh ⟨old, hold, hsame⟩ rfl
  · obtain ⟨old, hold, hsame, -⟩ := valid.imported _ value h
    exact hfresh ⟨old, hold, hsame⟩ rfl

theorem conclude (agrees : world.Agrees) (layer : Layer) (key : Key)
    (result : Except Stop Answer) : (world.conclude layer key result).Agrees := by
  rcases result with stop | (error | value)
  · exact agrees
  · exact (agrees.emit _).emit _
  · exact agrees.emit _

end World.Agrees

theorem Registered.product_of_mem_zip {source : Registered} {output : Key} {value : Value}
    {products : List Value} (distinct : source.generator.outputs.Nodup)
    (h : (output, value) ∈ source.generator.outputs.zip products) :
    source.product output (.products products) = .ok value := by
  obtain ⟨index, hindex, hpair⟩ := List.mem_iff_getElem.mp h
  rw [List.getElem_zip] at hpair
  obtain ⟨rfl, rfl⟩ := Prod.mk.inj hpair
  rw [List.length_zip] at hindex
  have hlt : index < products.length := by omega
  unfold Registered.product
  dsimp only
  rw [distinct.idxOf_getElem, List.getElem?_eq_getElem hlt]

namespace Resolution

variable {fuel : Nat} {layer : Layer} {key : Key} {source : Registered} {eager : Bool}
  {chain : Chain} {context : Context} {world after : World} {result : Except Stop Answer}

inductive Truthful (layer : Layer) (key : Key) : Except Stop Answer → Prop
  | stopped {stop} : Truthful layer key (.error stop)
  | cut {answer} (cut : IsCut answer) : Truthful layer key (.ok answer)
  | told {answer} (answers : layer.Evaluates key answer) : Truthful layer key (.ok answer)

theorem Truthful.evaluates {answer : Answer} (truthful : Truthful layer key (.ok answer))
    (uncut : ¬ IsCut answer) : layer.Evaluates key answer := by
  cases truthful with
  | cut cut => exact absurd cut uncut
  | told answers => exact answers

theorem Truthful.of_parent {scope parent : Scope} {further : List Scope}
    (truthful : Truthful ⟨parent, further⟩ key result) (unowned : scope.owns key = false) :
    Truthful ⟨scope, parent :: further⟩ key result := by
  cases truthful with
  | stopped => exact .stopped
  | cut cut => exact .cut cut
  | told answers => exact .told (.of_parent unowned answers)

theorem Gathers.collects {supplies : List Supply} {inquiries : List Inquiry}
    {gathered : Except Stop (Except ResolutionError (List Argument))}
    (gathers : Gathers layer context supplies inquiries world gathered after)
    (asks : ∀ supply ∈ supplies, supply.key? ≠ none)
    (answers : ∀ inquiry ∈ inquiries, Truthful layer inquiry.key inquiry.result)
    (collected : Except ResolutionError (List Argument)) (h : gathered = .ok collected) :
    (∃ error, collected = .error error ∧ IsCut (.error error)) ∨
      layer.Collects supplies collected := by
  induction gathers generalizing collected with
  | done =>
    obtain rfl := Except.ok.inj h
    exact .inr (.nil layer)
  | given unasked willing further ih => exact absurd unasked (asks _ List.mem_cons_self)
  | declined unasked refusal => exact absurd unasked (asks _ List.mem_cons_self)
  | stopped asked => cases h
  | @refused supply rest key before answer after error asked unacceptable =>
    obtain rfl := Except.ok.inj h
    have htruthful : Truthful layer key (.ok answer) := answers _ List.mem_cons_self
    cases htruthful with
    | cut cut =>
      obtain ⟨found, hfound, hcut⟩ := cut.accept supply key
      rw [unacceptable] at hfound
      obtain rfl := Except.error.inj hfound
      exact .inl ⟨error, rfl, hcut⟩
    | told hanswer => exact .inr (.refused asked hanswer unacceptable)
  | @found supply rest inquiries key before answer between argument gathered after asked
      acceptable further ih =>
    have htruthful : Truthful layer key (.ok answer) := answers _ List.mem_cons_self
    cases htruthful with
    | cut cut =>
      obtain ⟨found, hfound, -⟩ := cut.accept supply key
      rw [acceptable] at hfound
      cases hfound
    | told hanswer =>
      cases gathered with
      | error stop => cases h
      | ok remaining =>
        obtain rfl := Except.ok.inj h
        have hrest := ih (fun other hother => asks other (List.mem_cons_of_mem _ hother))
          (fun other hother => answers other (List.mem_cons_of_mem _ hother)) remaining rfl
        rcases hrest with ⟨error, rfl, hcut⟩ | hcollects
        · exact .inl ⟨error, rfl, hcut⟩
        · exact .inr (.found asked hanswer acceptable hcollects)

/-- Gathering arguments keeps memory to what evaluation comes to, and so does what is gathered. -/
theorem Gathers.agrees {supplies : List Supply} {inquiries : List Inquiry}
    {gathered : Except Stop (Except ResolutionError (List Argument))}
    (gathers : Gathers layer context supplies inquiries world gathered after)
    (asks : ∀ supply ∈ supplies, supply.key? ≠ none)
    (answers : ∀ inquiry ∈ inquiries, inquiry.before.Hosts layer → inquiry.before.Agrees →
      inquiry.after.Hosts layer ∧ inquiry.after.Agrees ∧
        Truthful layer inquiry.key inquiry.result)
    (hosts : world.Hosts layer) (agrees : world.Agrees) :
    after.Hosts layer ∧ after.Agrees ∧ ∀ collected, gathered = .ok collected →
      (∃ error, collected = .error error ∧ IsCut (.error error)) ∨
        layer.Collects supplies collected := by
  have hstep : ∀ inquiry ∈ inquiries, inquiry.before.Hosts layer ∧ inquiry.before.Agrees →
      inquiry.after.Hosts layer ∧ inquiry.after.Agrees := by
    intro inquiry hinquiry h
    obtain ⟨hhosts, hagrees, -⟩ := answers inquiry hinquiry h.1 h.2
    exact ⟨hhosts, hagrees⟩
  have hbefore := gathers.before (fun world => world.Hosts layer ∧ world.Agrees) hstep
    ⟨hosts, agrees⟩
  have hafter := gathers.keeps (fun world => world.Hosts layer ∧ world.Agrees) hstep
    ⟨hosts, agrees⟩
  refine ⟨hafter.1, hafter.2, gathers.collects asks fun inquiry hinquiry => ?_⟩
  obtain ⟨hhosts, hagrees⟩ := hbefore inquiry hinquiry
  exact (answers inquiry hinquiry hhosts hagrees).2.2

structure Invoked (layer : Layer) (key : Key) (source : Registered)
    (result : Except ResolutionError Yield) : Prop where
  failed : ∀ error, result = .error error →
    IsCut (.error error) ∨ layer.Evaluates key (.error error)
  yielded : ∀ yield, result = .ok yield → ∀ output ∈ layer.scope.fedBy source,
    layer.Evaluates output (source.product output yield)
  full : ∀ products, result = .ok (.products products) →
    products.length = source.generator.outputs.length

theorem foldl_deliver_find?_of_full {products : List Value} (hfed : key ∈ layer.scope.fedBy source)
    (full : products.length = source.generator.outputs.length) (world : World) :
    ((deliveries layer.scope source products).foldl World.deliver world).memory.filled.find?
      (layer.scope.site key) ≠ none := by
  have hindex : source.generator.outputs.idxOf key < products.length :=
    full ▸ List.idxOf_lt_length_iff.mpr (Scope.mem_fedBy.mp hfed).1
  rw [foldl_deliver_lookup, lookup_deliveries hfed, List.getElem?_eq_getElem hindex]
  simp

theorem outcome_truthful {invocation : Except ResolutionError Yield} {error : ResolutionError}
    (invoked : Invoked layer key source invocation) (hfed : key ∈ layer.scope.fedBy source)
    (h : (outcome layer key source context invocation world).1 = .error error) :
    Truthful layer key (.ok (.error error)) := by
  have rule := outcome_rule layer key source context invocation world
  generalize outcome layer key source context invocation world = ended at rule h
  cases rule with
  | canceled =>
    obtain rfl := Except.error.inj h
    exact .cut trivial
  | refused =>
    obtain rfl := Except.error.inj h
    rcases invoked.failed _ rfl with cut | answers
    · exact .cut cut
    · exact .told answers
  | failed | nil =>
    rw [← h]
    exact .told (invoked.yielded _ rfl key hfed)
  | found => cases h
  | unfilled _ delivers empty =>
    rw [← delivers] at empty
    exact absurd empty (foldl_deliver_find?_of_full hfed (invoked.full _ rfl) world)

theorem finish_agrees (context : Context) {invocation : Except ResolutionError Yield}
    (hosts : world.Hosts layer) (agrees : world.Agrees)
    (slot : layer.scope.slots.find? key = some (.generated source eager false))
    (invoked : Invoked layer key source invocation) :
    (finish layer key source context invocation world).2.Agrees ∧
      Truthful layer key (.ok (finish layer key source context invocation world).1) := by
  have sound := hosts.1.sound layer hosts.2
  have hafter : World.Hosts layer (finish layer key source context invocation world).2 ∧
      (finish layer key source context invocation world).2.Agrees := by
    refine finish_keeps (fun world => world.Hosts layer ∧ world.Agrees) ?_ ?_ ⟨hosts, agrees⟩
    · intro products hproducts delivery hdelivery between h
      obtain ⟨output, hpair, hany, hsite⟩ := mem_deliveries.mp hdelivery
      have houtput : output ∈ layer.scope.fedBy source :=
        List.mem_filter.mpr ⟨(List.of_mem_zip hpair).1, hany⟩
      have hanswer := invoked.yielded _ hproducts output houtput
      rw [Registered.product_of_mem_zip (sound.distinct _ _ _ _ slot) hpair] at hanswer
      obtain ⟨site, value⟩ := delivery
      obtain rfl : site = layer.scope.site output := hsite
      exact ⟨h.1.deliver hdelivery, h.2.deliver h.1 hanswer⟩
    · intro answer between h
      exact ⟨h.1.report _ _ _ answer, h.2.report _ _ _ answer⟩
  refine ⟨hafter.2, ?_⟩
  change Truthful layer key (.ok (outcome layer key source context invocation world).1)
  cases hanswer : (outcome layer key source context invocation world).1 with
  | error error => exact outcome_truthful invoked (sound.mem_fedBy_of_slot slot) hanswer
  | ok value =>
    have hfilled := outcome_filled hanswer
    rw [← report_memory _ layer.scope key source
      (outcome layer key source context invocation world).1] at hfilled
    exact .told (hafter.2.filled layer hafter.1.2 key value hfilled)

/-- However a run ends, it stores and answers what evaluation comes to. -/
theorem Ends.agrees {perform : Command → Engine Reply}
    {gathered : Except Stop (Except ResolutionError (List Argument))}
    (ends : Ends perform layer key source context world gathered result after)
    (steady : layer.scope.Steady) (hosts : world.Hosts layer) (agrees : world.Agrees)
    (slot : layer.scope.slots.find? key = some (.generated source eager false))
    (collects : ∀ collected, gathered = .ok collected →
      (∃ error, collected = .error error ∧ IsCut (.error error)) ∨
        layer.Collects (source.generator.parameters.map Parameter.supply) collected) :
    after.Agrees ∧ Truthful layer key result := by
  cases ends with
  | unsupplied => exact ⟨agrees, .stopped⟩
  | @refused error =>
    have invoked : Invoked layer key source (.error error) := by
      refine ⟨fun found h => ?_, fun yield h => (nomatch h), fun products h => (nomatch h)⟩
      obtain rfl := Except.error.inj h
      rcases collects _ rfl with ⟨other, hother, cut⟩ | hcollects
      · obtain rfl := Except.error.inj hother
        exact .inl cut
      · exact .inr (.of_unsupplied slot hcollects)
    exact finish_agrees context hosts agrees slot invoked
  | broken body =>
    obtain ⟨yield, hresult, -⟩ := steady.body_returns slot body
    cases hresult
  | @returned arguments yield between body =>
    obtain ⟨found, hresult, houtcome, hproducts⟩ := steady.body_returns slot body
    obtain rfl := Except.ok.inj hresult
    have hcollects : layer.Collects (source.generator.parameters.map Parameter.supply)
        (.ok arguments) := by
      rcases collects _ rfl with ⟨other, hother, -⟩ | hcollects
      · cases hother
      · exact hcollects
    have invoked : Invoked layer key source (.ok yield) := by
      refine ⟨fun error h => (nomatch h), fun other h output hfed => ?_, fun products h => ?_⟩
      · obtain rfl := Except.ok.inj h
        have hslot := (hosts.1.sound layer hosts.2).slot_of_mem_fedBy slot hfed
        exact .of_returned hslot hcollects (houtcome 1)
      · obtain rfl := Except.ok.inj h
        rw [← hproducts products rfl, List.length_map]
    have hbody : between.Hosts layer ∧ between.Agrees := by
      have hkeeps : Engine.Keeps (fun world => world.Hosts layer ∧ world.Agrees)
          (Engine.run perform
            (source.generator.body (world.nextRun layer.scope source) arguments)) :=
        (Act.Silent.of_outcome? (houtcome _)).keeps
          (fun h sidesteps => ⟨h.1.sidestep sidesteps, h.2.sidestep sidesteps⟩)
          (fun h _ => ⟨h.1.emit _, h.2.emit _⟩)
      have hafter := hkeeps (world.enterBody layer.scope source arguments)
        ⟨hosts.enterBody arguments, agrees.of_same rfl rfl rfl⟩
      rwa [body] at hafter
    exact finish_agrees context (hbody.1.emit _) (hbody.2.emit _) slot invoked

theorem cast_unchanged {perform : Command → Engine Reply} {act : Act Command String}
    {payload : String} (silent : act.Silent)
    (cast : Engine.run perform act world = (.ok payload, after)) :
    after.built = world.built ∧ after.memory = world.memory ∧ after.casts = world.casts := by
  have hkeeps : Engine.Keeps
      (fun between => between.built = world.built ∧ between.memory = world.memory ∧
        between.casts = world.casts) (Engine.run perform act) :=
    silent.keeps
      (fun h sidesteps => ⟨sidesteps.built.trans h.1, sidesteps.memory.trans h.2.1,
        sidesteps.casts.trans h.2.2⟩)
      (fun h _ => h)
  have hafter := hkeeps world ⟨rfl, rfl, rfl⟩
  rw [cast] at hafter
  exact hafter

/-- An interface gets what evaluation makes of it, once its source has come to a value. -/
theorem Binds.agrees {perform : Command → Engine Reply} {scope : Scope} {outer : List Scope}
    {binding : Binding} {backing : Backing} {value : Value} (steady : scope.Steady)
    (hosts : world.Hosts ⟨scope, outer⟩) (agrees : world.Agrees)
    (noSlot : scope.slots.find? key = none)
    (interface : scope.bindings.find? key = some binding)
    (behind : scope.slots.find? binding.source = some backing)
    (source : Layer.Evaluates ⟨scope, outer⟩ binding.source (.ok value))
    (binds : Binds perform scope key binding value world result after) :
    after.Agrees ∧ Truthful ⟨scope, outer⟩ key result := by
  cases binds with
  | mistyped other => exact ⟨agrees, .told (.of_source noSlot interface behind source (if_neg other))⟩
  | broken typed cast =>
    obtain ⟨payload, hresult, -⟩ := steady.cast_returns interface cast
    cases hresult
  | @bound payload between typed cast =>
    obtain ⟨found, hresult, houtcome⟩ := steady.cast_returns interface cast
    obtain rfl := Except.ok.inj hresult
    obtain ⟨hbuilt, hmemory, hcasts⟩ := cast_unchanged (Act.Silent.of_outcome? houtcome) cast
    -- An interface without a value is cast for the first time.
    have hfirst (unbound : world.memory.bound.find? (scope.site key) = none) :
        Layer.Evaluates ⟨scope, outer⟩ key (.ok ⟨key, payload⟩) := by
      have hcall : world.nextCast (scope.site key) = 1 := by
        unfold World.nextCast
        rw [agrees.uncast _ unbound]
        rfl
      rw [hcall] at houtcome
      refine .of_source noSlot interface behind source ?_
      unfold Binding.convert
      dsimp only
      rw [if_pos typed, houtcome]
      rfl
    have hafter : (between.bind scope key binding payload).Agrees :=
      agrees.bind hosts hfirst hbuilt hmemory hcasts
    have hknown : ⟨scope, outer⟩ ∈ (between.bind scope key binding payload).built :=
      hbuilt ▸ hosts.2
    refine ⟨hafter, .told ?_⟩
    cases hbound : (between.bind scope key binding payload).memory.bound.find?
        (scope.site key) with
    | some bound => exact hafter.bound _ hknown key bound hbound
    | none =>
      have hadded : (between.memory.bound.add (scope.site key) ⟨key, payload⟩).find?
        (scope.site key) = none := hbound
      rw [Table.find?_add, if_pos rfl] at hadded
      cases hadded

/-- Requests keep memory to what evaluation comes to, and answer so, unless they are given up. -/
theorem Resolves.agrees
    (resolves : Resolves fuel layer key chain context world result after) (steady : layer.Steady)
    (hosts : world.Hosts layer) (fits : chain.Fits layer key) (agrees : world.Agrees) :
    after.Agrees ∧ Truthful layer key result := by
  induction resolves with
  | @stored fuel scope outer key chain context world backing value slot present =>
    refine ⟨agrees.emit _, .told ?_⟩
    cases backing with
    | value found =>
      obtain rfl := Option.some.inj present
      exact .of_value slot
    | generated source eager cyclic => exact agrees.filled _ hosts.2 key value present
  | exhausted => exact ⟨agrees, .stopped⟩
  | @obstructed fuel scope outer key chain context world source eager cyclic error slot empty
      obstacle =>
    refine ⟨agrees.of_same rfl rfl rfl, ?_⟩
    have unclaimed := fits.claims_eq_false (hosts.1.sound _ hosts.2) slot
    rcases obstacle?_some obstacle with ⟨hclaims, -⟩ | ⟨rfl, rfl⟩ | ⟨-, rfl⟩ | ⟨-, rfl⟩
    · cases unclaimed.symm.trans hclaims
    · exact .told (.of_cyclic slot)
    · exact .cut trivial
    · exact .cut trivial
  | blocked => exact ⟨agrees.emit _, .stopped⟩
  | @run fuel scope outer key chain context world source inquiries gathered between result after
      starts answers ends ih =>
    obtain ⟨⟨eager, cyclic, slot, free⟩, empty, unlocked, gathers⟩ := starts
    obtain rfl := obstacle?_none free
    have hsteady := steady scope List.mem_cons_self
    have hasks : ∀ supply ∈ source.generator.parameters.map Parameter.supply,
        supply.key? ≠ none := by
      intro supply hsupply
      obtain ⟨parameter, hparameter, rfl⟩ := List.mem_map.mp hsupply
      obtain ⟨dependency, hasked, -⟩ := hsteady.asks slot hparameter
      simp [hasked]
    have hinquiries : ∀ inquiry ∈ inquiries, inquiry.before.Hosts ⟨scope, outer⟩ →
        inquiry.before.Agrees → inquiry.after.Hosts ⟨scope, outer⟩ ∧ inquiry.after.Agrees ∧
          Truthful ⟨scope, outer⟩ inquiry.key inquiry.result := by
      intro inquiry hinquiry hhosts hagrees
      obtain ⟨supply, hsupply, hasked⟩ := gathers.asked inquiry hinquiry
      obtain ⟨parameter, hparameter, rfl⟩ := List.mem_map.mp hsupply
      have hdeclared := hsteady.declares key source eager false slot parameter hparameter _ hasked
      exact ⟨(answers inquiry hinquiry).hosts hhosts hhosts,
        ih inquiry hinquiry steady hhosts (fits.push slot hdeclared) hagrees⟩
    have hstart : (world.start scope key source chain).Agrees := agrees.of_same rfl rfl rfl
    obtain ⟨hhosts, hagrees, hcollects⟩ :=
      gathers.agrees hasks hinquiries (hosts.start _ _ _) hstart
    obtain ⟨hafter, htruthful⟩ := ends.agrees hsteady hhosts hagrees slot hcollects
    exact ⟨hafter.of_same rfl rfl rfl, htruthful⟩
  | @bound fuel scope outer key chain context world binding value noSlot interface present =>
    exact ⟨agrees, .told (agrees.bound _ hosts.2 key value present)⟩
  | unbacked noSlot interface unbound noSource =>
    exact ⟨agrees, .told (.of_unbacked noSlot interface noSource)⟩
  | @unsourced fuel scope outer key chain context world binding backing result after noSlot
      interface unbound behind answer lost ih =>
    obtain ⟨hafter, htruthful⟩ := ih steady hosts (fits.source noSlot interface behind) agrees
    refine ⟨hafter, ?_⟩
    cases htruthful with
    | stopped => exact .stopped
    | cut cut => exact .cut cut
    | @told found answers =>
      cases found with
      | ok value => exact absurd rfl (lost value)
      | error error => exact .told (.of_source noSlot interface behind answers rfl)
  | @cast fuel scope outer key chain context world binding backing value between result after
      noSlot interface unbound behind answer binds ih =>
    obtain ⟨hbetween, htruthful⟩ := ih steady hosts (fits.source noSlot interface behind) agrees
    exact binds.agrees (steady scope List.mem_cons_self) (answer.hosts hosts hosts) hbetween noSlot
      interface behind (htruthful.evaluates id)
  | @imported fuel scope outer key chain context world value unowned present =>
    exact ⟨agrees, .told (agrees.imported _ hosts.2 key value present)⟩
  | missing unowned unknown => exact ⟨agrees, .told (.of_missing unowned)⟩
  | unavailable unowned unknown answer lost ih =>
    obtain ⟨hafter, htruthful⟩ := ih steady.parent (hosts.delegate _ _ _).parent
      (fits.parent (hosts.1.id_notMem_outer hosts.2) _) (agrees.of_same rfl rfl rfl)
    exact ⟨hafter, htruthful.of_parent unowned⟩
  | @delegated fuel scope parent further key chain context world value between unowned unknown
      answer ih =>
    have hdelegate := hosts.delegate scope key parent
    obtain ⟨hbetween, htruthful⟩ := ih steady.parent hdelegate.parent
      (fits.parent (hosts.1.id_notMem_outer hosts.2) _) (agrees.of_same rfl rfl rfl)
    have hvalue : Layer.Evaluates ⟨scope, parent :: further⟩ key (.ok value) :=
      .of_parent unowned (htruthful.evaluates id)
    have hhosts := answer.hosts hdelegate.parent hdelegate
    exact ⟨hbetween.hoist hhosts hvalue, .told (hbetween.hoisted hhosts hvalue)⟩

end Resolution

namespace World.Agrees

open Session Resolution

theorem invariant : Invariant fun world =>
    world.Valid ∧ ((∀ layer ∈ world.built, layer.Steady) → world.Agrees) := by
  refine .of_valid ?_ ?_ ?_ ?_ ?_
  · exact fun h sidesteps steady => (h (sidesteps.built ▸ steady)).sidestep sidesteps
  · exact fun h incidental steady => (h steady).emit _
  · exact fun name h known steady => (h steady).of_same rfl rfl rfl
  · intro world layer builder valid h parent assembled steady
    have hbefore := h fun other hother => steady other (List.mem_cons_of_mem _ hother)
    exact hbefore.enter valid assembled
  · intro fuel keeps layer key context world hosts h steady
    have built := (request_grows fuel layer key context world).built
    have hbefore := h fun other hother => steady other (built.mem hother)
    rw [Layer.request_world]
    refine conclude ?_ layer key _
    have hresolves := resolver_resolves fuel layer key [] context
      (world.emit (.asked (layer.scope.site key)))
    exact (hresolves.agrees (steady layer (built.mem hosts.2)) (hosts.emit _)
      (.nil layer key) (hbefore.emit _)).1

end World.Agrees

namespace Session

theorem Reachable.agrees {world : World} (reachable : Reachable world)
    (steady : ∀ layer ∈ world.built, layer.Steady) : world.Agrees :=
  (reachable.keeps World.Agrees.invariant ⟨.initial, fun _ => .initial⟩).2 steady

/-- Memory does not show. Let generators and casts be steady, and let every layer that a request may
go through allow for as many runs below one another as there are generators in all of them: the limit
of an outer layer counts the runs further in as well. Whatever commands came before, a request whose
context lives as long as it takes is answered what its type comes to if nothing is remembered. -/
theorem memory_is_transparent {world : World} (reachable : Reachable world)
    (steady : ∀ layer ∈ world.built, layer.scope.Steady) {layer : Layer}
    (known : layer ∈ world.built)
    (deep : ∀ scope ∈ layer.ancestry, layer.generatorCount ≤ scope.settings.maxDepth) {fuel : Nat}
    (nesting : layer.generatorCount ≤ fuel) (key : Key) (context : Context)
    (live : context.isCancelled
      (layer.request (resolver fuel) key context world).2.signals = false) :
    ∃ (answer : Answer) (snapshot : Option Dump),
      (∀ depth, layer.generatorCount < depth → layer.evaluate depth key = some answer) ∧
      (layer.request (resolver fuel) key context world).1 =
        .ok (answer.mapError fun error => ⟨error, snapshot⟩) ∧
      layer.resolveAs (resolver fuel) key context world =
        layer.request (resolver fuel) key context world := by
  have valid := reachable.valid
  have hsteady : ∀ other ∈ world.built, other.Steady := by
    intro other hother scope hscope
    obtain ⟨outer, hbuilt⟩ := valid.built_of_mem_ancestry hother hscope
    exact steady _ hbuilt
  have proper := valid.proper known
  have clear {fuel : Nat} (nesting : layer.generatorCount ≤ fuel) :
      Chain.Clear [] layer fuel layer key :=
    ⟨proper, List.suffix_rfl, .nil layer key, .nil layer, nesting⟩
  let asked := world.emit (.asked (layer.scope.site key))
  have hosts : asked.Hosts layer := ⟨valid.emit _, known⟩
  have held : asked.HeldBy [] := by
    intro site hsite
    have hheld : asked.held = [] := reachable.held
    rw [hheld] at hsite
    cases hsite
  have hlive : context.isCancelled
      (resolver fuel layer key [] context asked).2.signals = false := by
    rw [Layer.request_world] at live
    exact (World.Grows.conclude _ layer key _).toAdvances.live live
  have hresolves := Resolution.resolver_resolves fuel layer key [] context asked
  obtain ⟨answer, hanswer, uncut⟩ :=
    hresolves.completes (hsteady layer known) deep hosts (clear nesting) held hlive
  have agrees : asked.Agrees := (reachable.agrees hsteady).emit _
  obtain ⟨-, htruthful⟩ := hresolves.agrees (hsteady layer known) hosts (.nil layer key) agrees
  rw [hanswer] at htruthful
  have hevaluates : layer.Evaluates key answer := htruthful.evaluates uncut
  have hdepth : layer.evaluate (layer.generatorCount + 1) key = some answer := by
    obtain ⟨found, hfound⟩ := (clear (Nat.le_refl _)).evaluates (hsteady layer known)
    rw [hfound, Layer.Evaluates.unique ⟨_, hfound⟩ hevaluates]
  obtain ⟨snapshot, hrequest⟩ := Layer.request_answered hanswer
  refine ⟨answer, snapshot, fun depth le => Layer.evaluate_mono le hdepth, hrequest, ?_⟩
  have happly : layer.request (resolver fuel) key context world =
      (.ok (answer.mapError fun error => ⟨error, snapshot⟩),
        (layer.request (resolver fuel) key context world).2) := Prod.ext hrequest rfl
  have htyped : ∀ value, (answer.mapError fun error => (⟨error, snapshot⟩ : Failure)) = .ok value →
      value.type = key := by
    intro value h
    cases answer with
    | error error => cases h
    | ok found =>
      obtain rfl := Except.ok.inj h
      exact hevaluates.typed proper.sound (hsteady layer known)
  exact (Layer.resolveAs_apply happly htyped).trans happly.symm

/-- A generator for an outer layer, and one for an inner layer that needs it. -/
def pieces : List Registered :=
  [⟨0, "part", "make_part", [], [⟨"Part"⟩], fun _ _ => .done (.products [⟨⟨"Part"⟩, "p"⟩])⟩,
    ⟨0, "whole", "make_whole", [.required ⟨"Part"⟩, .optional ⟨"Spare"⟩], [⟨"Whole"⟩],
      fun _ _ => .done (.products [⟨⟨"Whole"⟩, "w"⟩])⟩]

def face : Binding := ⟨⟨"Whole"⟩, "face", fun _ payload => .done ("face of " ++ payload)⟩

def outerScope : Scope :=
  { id := 1, label := none, locked := false
    slots := ⟨[(⟨"Part"⟩, .generated pieces[0] false false)]⟩
    bindings := {}, overridable := [], settings := {}, observers := [] }

def innerScope : Scope :=
  { id := 2, label := none, locked := false
    slots := ⟨[(⟨"Whole"⟩, .generated pieces[1] false false)]⟩
    bindings := ⟨[(⟨"Face"⟩, face)]⟩, overridable := [], settings := {}, observers := [] }

def pairedWorld : World :=
  let outer := (step 2 {} (.build "outer" none [.register (.generator pieces[0].generator false)])).2
  (step 2 outer (.build "inner" (some "outer")
    [.register (.generator pieces[1].generator false),
      .register (.interface ⟨"Face"⟩ ⟨"Whole"⟩ face.cast)])).2

def usedWorld : World := (step 2 pairedWorld (.resolve "inner" ⟨"Whole"⟩ {})).2

theorem usedWorld_built : usedWorld.built = [⟨innerScope, [outerScope]⟩, ⟨outerScope, []⟩] := by
  have hpaired : pairedWorld.built = [⟨innerScope, [outerScope]⟩, ⟨outerScope, []⟩] := rfl
  have hgrows : pairedWorld.Grows usedWorld := perform_grows 2 _ pairedWorld
  have hlength : pairedWorld.built.length = usedWorld.built.length := by decide +kernel
  rw [← hpaired]
  exact (hgrows.built.eq_of_length hlength).symm

theorem outerScope_steady : outerScope.Steady := by
  have houter {key : Key} {source : Registered} {eager cyclic : Bool}
      (slot : outerScope.slots.find? key = some (.generated source eager cyclic)) :
      source = pieces[0] := by
    have hmem := List.mem_singleton.mp (Table.mem_entries_of_find? slot)
    exact (Backing.generated.inj (Prod.mk.inj hmem).2).1
  refine ⟨?_, ?_, ?_⟩
  · intro key source eager cyclic slot parameter hparameter
    obtain rfl := houter slot
    cases hparameter
  · intro key source eager cyclic slot arguments
    obtain rfl := houter slot
    refine ⟨_, fun run => rfl, fun products h => ?_⟩
    obtain rfl := Yield.products.inj h
    rfl
  · intro key binding h
    cases h

theorem innerScope_steady : innerScope.Steady := by
  have hinner {key : Key} {source : Registered} {eager cyclic : Bool}
      (slot : innerScope.slots.find? key = some (.generated source eager cyclic)) :
      source = pieces[1] := by
    have hmem := List.mem_singleton.mp (Table.mem_entries_of_find? slot)
    exact (Backing.generated.inj (Prod.mk.inj hmem).2).1
  refine ⟨?_, ?_, ?_⟩
  · intro key source eager cyclic slot parameter hparameter
    obtain rfl := hinner slot
    rcases List.mem_cons.mp hparameter with rfl | hrest
    · exact ⟨_, .inl rfl⟩
    · obtain rfl := List.mem_singleton.mp hrest
      exact ⟨_, .inr rfl⟩
  · intro key source eager cyclic slot arguments
    obtain rfl := hinner slot
    refine ⟨_, fun run => rfl, fun products h => ?_⟩
    obtain rfl := Yield.products.inj h
    rfl
  · intro key binding h call payload
    have hmem := List.mem_singleton.mp (Table.mem_entries_of_find? h)
    obtain rfl := (Prod.mk.inj hmem).2
    exact ⟨_, rfl⟩

theorem memory_is_transparent_used :
    (∀ layer ∈ usedWorld.built, layer.scope.Steady) ∧
    usedWorld.memory.filled.find? ⟨2, ⟨"Whole"⟩⟩ = some ⟨⟨"Whole"⟩, "w"⟩ ∧
    (Layer.resolveAs (resolver 2) ⟨innerScope, [outerScope]⟩ ⟨"Face"⟩ .background usedWorld).1 =
      .ok (.ok ⟨⟨"Face"⟩, "face of w"⟩) := by
  have reachable : Reachable usedWorld := .step (.step (.step .initial _ _) _ _) _ _
  have steady : ∀ layer ∈ usedWorld.built, layer.scope.Steady := by
    intro layer hlayer
    rw [usedWorld_built] at hlayer
    rcases List.mem_cons.mp hlayer with rfl | hrest
    · exact innerScope_steady
    · obtain rfl := List.mem_singleton.mp hrest
      exact outerScope_steady
  have known : ⟨innerScope, [outerScope]⟩ ∈ usedWorld.built := by
    rw [usedWorld_built]
    exact List.mem_cons_self
  have hcount : Layer.generatorCount ⟨innerScope, [outerScope]⟩ = 2 := by decide +kernel
  have deep : ∀ scope ∈ Layer.ancestry ⟨innerScope, [outerScope]⟩,
      Layer.generatorCount ⟨innerScope, [outerScope]⟩ ≤ scope.settings.maxDepth := by
    rw [hcount]
    decide
  obtain ⟨answer, snapshot, hevaluate, hrequest, hresolve⟩ :=
    memory_is_transparent reachable steady known deep (Nat.le_of_eq hcount) ⟨"Face"⟩ .background rfl
  have hanswer : Layer.evaluate 3 ⟨innerScope, [outerScope]⟩ ⟨"Face"⟩ = some answer :=
    hevaluate 3 (by rw [hcount]; decide)
  have hface : Layer.evaluate 3 ⟨innerScope, [outerScope]⟩ ⟨"Face"⟩ =
    some (.ok ⟨⟨"Face"⟩, "face of w"⟩) := rfl
  obtain rfl := Option.some.inj (hface.symm.trans hanswer)
  refine ⟨steady, by decide +kernel, ?_⟩
  rw [hresolve, hrequest]
  rfl

end Session

end LayerGraph
