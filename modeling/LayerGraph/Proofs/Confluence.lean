import LayerGraph.Proofs.Filling
import LayerGraph.Proofs.Outcomes

/-! Requests do not get into each other's way.

Where a request finds a value that another one has left behind, it would have come to the same value
itself, and what it would have left behind on the way is there already. So what is in memory after
some requests is what each of them leaves behind by itself, whatever the order in which they were
made. -/

namespace LayerGraph

theorem Layer.Proper.eq_of_id {top layer layer' : Layer} (proper : top.Proper)
    (within : layer.ancestry <:+ top.ancestry) (within' : layer'.ancestry <:+ top.ancestry)
    (h : layer.scope.id = layer'.scope.id) : layer = layer' := by
  have hnested {inner outer : Layer} (within : outer.ancestry <:+ inner.ancestry)
      (nested : inner.ancestry <:+ top.ancestry) (h : outer.scope.id = inner.scope.id) :
      outer = inner := by
    obtain ⟨scope, further⟩ := inner
    obtain ⟨scope', further'⟩ := outer
    rcases List.suffix_cons_iff.mp within with hsame | hbelow
    · obtain ⟨rfl, rfl⟩ := List.cons.inj hsame
      rfl
    · have hmem : scope' ∈ further := hbelow.subset List.mem_cons_self
      have hdistinct := proper.distinct.sublist (nested.sublist.map Scope.id)
      exact absurd (List.mem_map.mpr ⟨scope', hmem, h⟩) (List.nodup_cons.mp hdistinct).1
  rcases List.suffix_or_suffix_of_suffix within within' with hsuffix | hsuffix
  · exact hnested hsuffix within' h
  · exact (hnested hsuffix within h.symm).symm

/-- Whatever is in memory beyond what was there at first is what its type comes to, and what that
leaves behind is in memory too. -/
structure Coherent (base : Memory) (top : Layer) (memory : Memory) : Prop where
  grown : base.Extends memory
  told : ∀ shelf site value, (memory.shelf shelf).find? site = some value →
    (base.shelf shelf).find? site = some value ∨
      ∃ layer kept, layer.ancestry <:+ top.ancestry ∧ layer.scope.id = site.layer ∧
        Comes base layer site.key (.ok (.ok value)) kept ∧ memory.Covers kept

namespace Coherent

variable {base memory : Memory} {top layer : Layer} {key : Key} {value : Value}

theorem refl (base : Memory) (top : Layer) : Coherent base top base :=
  ⟨.refl base, fun _ _ _ h => .inl h⟩

theorem unknown (coherent : Coherent base top memory) (shelf : Shelf) {site : Site}
    (h : (memory.shelf shelf).find? site = none) : (base.shelf shelf).find? site = none := by
  cases hfound : (base.shelf shelf).find? site with
  | none => rfl
  | some found => cases (coherent.grown.shelf shelf _ _ hfound).symm.trans h

theorem look (coherent : Coherent base top memory) (proper : top.Proper)
    (within : layer.ancestry <:+ top.ancestry) (shelf : Shelf)
    (h : (memory.shelf shelf).find? (layer.scope.site key) = some value) :
    (base.shelf shelf).find? (layer.scope.site key) = some value ∨
      ∃ kept, Comes base layer key (.ok (.ok value)) kept ∧ memory.keepAll kept = memory := by
  rcases coherent.told shelf _ value h with hbase | ⟨other, kept, hwithin, hid, hcomes, hcovers⟩
  · exact .inl hbase
  · obtain rfl := proper.eq_of_id hwithin within hid
    exact .inr ⟨kept, hcomes, hcovers.keepAll⟩

/-- A value that is found is what the type comes to, with what that leaves behind. -/
theorem comes_of_found (coherent : Coherent base top memory) (proper : top.Proper)
    (within : layer.ancestry <:+ top.ancestry) (shelf : Shelf)
    (h : (memory.shelf shelf).find? (layer.scope.site key) = some value)
    (first : (base.shelf shelf).find? (layer.scope.site key) = some value →
      Comes base layer key (.ok (.ok value)) []) :
    ∃ kept, Comes base layer key (.ok (.ok value)) kept ∧ memory = memory.keepAll kept ∧
      Coherent base top memory := by
  rcases coherent.look proper within shelf h with hbase | ⟨kept, hcomes, hkept⟩
  · exact ⟨[], first hbase, rfl, coherent⟩
  · exact ⟨kept, hcomes, hkept.symm, coherent⟩

/-- A value that was not there at first is what the type comes to. -/
theorem eq_of_comes (coherent : Coherent base top memory) (proper : top.Proper)
    (within : layer.ancestry <:+ top.ancestry) (shelf : Shelf)
    (unknown : (base.shelf shelf).find? (layer.scope.site key) = none)
    (h : (memory.shelf shelf).find? (layer.scope.site key) = some value)
    {result : Except Stop Answer} {kept : List Keepsake} (comes : Comes base layer key result kept) :
    result = .ok (.ok value) := by
  rcases coherent.look proper within shelf h with hbase | ⟨other, hcomes, -⟩
  · cases unknown.symm.trans hbase
  · exact (comes.unique hcomes).1

theorem keepAll (coherent : Coherent base top memory) {kept : List Keepsake}
    (h : ∀ shelf site value, ⟨shelf, site, value⟩ ∈ kept →
      (memory.shelf shelf).find? site = none →
      ∃ layer more, layer.ancestry <:+ top.ancestry ∧ layer.scope.id = site.layer ∧
        Comes base layer site.key (.ok (.ok value)) more ∧ (memory.keepAll kept).Covers more) :
    Coherent base top (memory.keepAll kept) where
  grown := coherent.grown.trans (.keepAll memory kept)
  told shelf site value hfound := by
    rcases memory.find?_keepAll hfound with hbefore | ⟨hnone, hmem⟩
    · rcases coherent.told shelf site value hbefore with
        hbase | ⟨other, more, hwithin, hid, hcomes, hcovers⟩
      · exact .inl hbase
      · exact .inr ⟨other, more, hwithin, hid, hcomes, hcovers.extend (.keepAll memory kept)⟩
    · exact .inr (h shelf site value hmem hnone)

end Coherent

namespace Registered

variable {source : Registered} {scope : Scope} {key : Key}
  {gathered : Except Stop (Except ResolutionError (List Argument))} {result : Except Stop Answer}
  {kept : List Keepsake}

theorem conclude?_of_ending {arguments : List Argument} {ending : Except String Yield}
    (h : (source.generator.body 1 arguments).ending? = some ending) :
    source.conclude? scope key (.ok (.ok arguments)) = some (source.harvest scope key ending) :=
  congrArg (Option.map (source.harvest scope key)) h

theorem harvest_products (products : List Value) :
    source.harvest scope key (.ok (.products products)) =
      (.ok ((((⟨Resolution.deliveries scope source products⟩ : Table Site Value).find?
          (scope.site key)).map .ok).getD (.error (.mismatch key))),
        (Resolution.deliveries scope source products).map fun delivery =>
          ⟨.filled, delivery.1, delivery.2⟩) :=
  rfl

theorem conclude?_fed (distinct : source.generator.outputs.Nodup)
    (h : source.conclude? scope key gathered = some (result, kept)) {shelf : Shelf} {site : Site}
    {value : Value} (hkept : ⟨shelf, site, value⟩ ∈ kept) :
    ∃ output ∈ scope.fedBy source, shelf = .filled ∧ site = scope.site output ∧
      source.conclude? scope output gathered = some (.ok (.ok value), kept) := by
  have hended {arguments : List Argument} {ending : Except String Yield}
      (hending : (source.generator.body 1 arguments).ending? = some ending)
      (hharvest : source.harvest scope key ending = (result, kept)) :
      ∃ output ∈ scope.fedBy source, shelf = .filled ∧ site = scope.site output ∧
        source.conclude? scope output (.ok (.ok arguments)) = some (.ok (.ok value), kept) := by
    rcases ending with message | (products | output | message)
    · cases hharvest
      cases hkept
    · cases hharvest
      obtain ⟨delivery, hdelivery, hsame⟩ := List.mem_map.mp hkept
      obtain ⟨rfl, rfl, rfl⟩ := Keepsake.mk.inj hsame
      have hfound : (⟨Resolution.deliveries scope source products⟩ : Table Site Value).find?
          delivery.1 = some delivery.2 :=
        Table.find?_of_mem_entries (Resolution.deliveries_nodup products distinct) hdelivery
      obtain ⟨output, hzip, hfed, hsite⟩ := Resolution.mem_deliveries.mp hdelivery
      have houtput : output ∈ scope.fedBy source :=
        List.mem_filter.mpr ⟨(List.of_mem_zip hzip).1, hfed⟩
      refine ⟨output, houtput, rfl, hsite, ?_⟩
      rw [conclude?_of_ending hending, harvest_products, ← hsite]
      rw [hfound]
      rfl
    · cases hharvest
      cases hkept
    · cases hharvest
      cases hkept
  rcases gathered with stop | (error | arguments)
  · cases h
    cases hkept
  · cases h
    cases hkept
  · obtain ⟨ending, hending, hharvest⟩ := Option.map_eq_some_iff.mp h
    exact hended hending hharvest

end Registered

theorem Binding.conclude?_bound {binding : Binding} {scope : Scope} {key : Key}
    {found result : Except Stop Answer} {kept : List Keepsake}
    (h : binding.conclude? scope key found = some (result, kept)) {shelf : Shelf} {site : Site}
    {value : Value} (hkept : ⟨shelf, site, value⟩ ∈ kept) :
    result = .ok (.ok value) ∧ shelf = .bound ∧ site = scope.site key := by
  unfold Binding.conclude? at h
  split at h
  · split at h
    · obtain ⟨ending, -, hsame⟩ := Option.map_eq_some_iff.mp h
      cases ending with
      | error message =>
        cases hsame
        cases hkept
      | ok payload =>
        cases hsame
        cases List.mem_singleton.mp hkept
        exact ⟨rfl, rfl, rfl⟩
    · cases h
      cases hkept
  · cases h
    cases hkept

theorem Scope.mem_souvenirs {scope : Scope} {key : Key} {value found : Value} {shelf : Shelf}
    {site : Site} (h : ⟨shelf, site, found⟩ ∈ scope.souvenirs key (.ok (.ok value))) :
    found = value ∧ shelf = .imported ∧ site = scope.site key := by
  unfold Scope.souvenirs at h
  dsimp only at h
  split at h
  · cases List.mem_singleton.mp h
    exact ⟨rfl, rfl, rfl⟩
  · cases h

namespace Memory

theorem deliver_keep (world : World) (delivery : Site × Value) :
    (world.deliver delivery).memory = world.memory.keep ⟨.filled, delivery.1, delivery.2⟩ := by
  unfold World.deliver
  split
  · next present =>
    have covers : world.memory.Covers [⟨.filled, delivery.1, delivery.2⟩] := by
      intro keepsake hkeepsake
      obtain rfl := List.mem_singleton.mp hkeepsake
      exact Option.isSome_iff_exists.mp present
    exact covers.keepAll.symm
  · rfl

theorem deliverAll_keepAll (world : World) (deliveries : List (Site × Value)) :
    (deliveries.foldl World.deliver world).memory =
      world.memory.keepAll (deliveries.map fun delivery => ⟨.filled, delivery.1, delivery.2⟩) := by
  induction deliveries generalizing world with
  | nil => rfl
  | cons delivery rest ih =>
    rw [List.foldl_cons, ih, deliver_keep]
    rfl

theorem find?_keep_filled (memory : Memory) (deliveries : List (Site × Value)) {site : Site}
    (empty : memory.filled.find? site = none) :
    (memory.keepAll (deliveries.map fun delivery => ⟨.filled, delivery.1, delivery.2⟩)).filled.find?
        site = (⟨deliveries⟩ : Table Site Value).find? site := by
  induction deliveries generalizing memory with
  | nil => exact empty
  | cons delivery rest ih =>
    change ((memory.fill delivery.1 delivery.2).keepAll _).filled.find? site =
      if delivery.1 = site then some delivery.2 else (⟨rest⟩ : Table Site Value).find? site
    split
    · next hsame =>
      subst hsame
      have hfirst : (memory.fill delivery.1 delivery.2).filled.find? delivery.1 =
          some delivery.2 := by
        change (memory.filled.add delivery.1 delivery.2).find? delivery.1 = some delivery.2
        rw [Table.find?_add, if_pos rfl, empty]
        rfl
      exact (Extends.keepAll _ _).filled _ _ hfirst
    · next hne =>
      refine ih _ ?_
      change (memory.filled.add delivery.1 delivery.2).find? site = none
      rw [Table.find?_add, if_neg (Ne.symm hne)]
      exact empty

end Memory

namespace Resolution

variable {base : Memory} {top layer : Layer} {scope : Scope} {key : Key} {source : Registered}
  {eager cyclic : Bool} {world after : World} {perform : Command → Engine Reply}
  {gathered : Except Stop (Except ResolutionError (List Argument))} {result : Except Stop Answer}

/-- A run whose body has returned keeps what is left behind, and answers what it comes to, unless its
slot has got another value meanwhile. -/
theorem finish_comes (layer : Layer) (key : Key) (source : Registered) (yield : Yield)
    (world : World)
    (unequal : ∀ value, world.memory.filled.find? (layer.scope.site key) = some value →
      (source.harvest layer.scope key (.ok yield)).1 = .ok (.ok value)) :
    Except.ok (finish layer key source .background (.ok yield) world).1 =
        (source.harvest layer.scope key (.ok yield)).1 ∧
      (finish layer key source .background (.ok yield) world).2.memory =
        world.memory.keepAll (source.harvest layer.scope key (.ok yield)).2 := by
  have hlive : ¬ Context.background.isCancelled world.signals := Bool.false_ne_true
  unfold finish
  dsimp only
  rw [report_memory]
  unfold outcome
  rw [if_neg hlive]
  cases yield with
  | failed message => exact ⟨rfl, rfl⟩
  | nil output => exact ⟨rfl, rfl⟩
  | products products =>
    have hmemory := Memory.deliverAll_keepAll world (deliveries layer.scope source products)
    have hfound : ((deliveries layer.scope source products).foldl World.deliver
          world).memory.filled.find? (layer.scope.site key) =
        (⟨deliveries layer.scope source products⟩ : Table Site Value).find?
          (layer.scope.site key) := by
      rw [hmemory]
      cases hbefore : world.memory.filled.find? (layer.scope.site key) with
      | none => exact world.memory.find?_keep_filled _ hbefore
      | some value =>
        have hsame := unequal value hbefore
        rw [Registered.harvest_products] at hsame
        cases hproduct : (⟨deliveries layer.scope source products⟩ : Table Site Value).find?
            (layer.scope.site key) with
        | none =>
          rw [hproduct] at hsame
          cases hsame
        | some product =>
          rw [hproduct] at hsame
          obtain rfl : product = value := Except.ok.inj (Except.ok.inj hsame)
          exact (Memory.Extends.keepAll _ _).filled _ _ hbefore
    rw [Registered.harvest_products]
    dsimp only
    rw [← hfound]
    split
    · next value hvalue => exact ⟨by rw [hvalue]; rfl, hmemory⟩
    · next hnone => exact ⟨by rw [hnone]; rfl, hmemory⟩

/-- However a run ends, it ends as what it comes to, unless its slot has got another value
meanwhile. -/
theorem Ends.comes (ends : Ends perform layer key source .background world gathered result after)
    (constant : layer.scope.Constant)
    (slot : layer.scope.slots.find? key = some (.generated source eager cyclic)) :
    ∃ drafted kept, source.conclude? layer.scope key gathered = some (drafted, kept) ∧
      ((∀ value, world.memory.filled.find? (layer.scope.site key) = some value →
          drafted = .ok (.ok value)) →
        result = drafted ∧ after.memory = world.memory.keepAll kept) := by
  have hlive : ¬ Context.background.isCancelled world.signals := Bool.false_ne_true
  cases ends with
  | unsupplied => exact ⟨_, [], rfl, fun _ => ⟨rfl, rfl⟩⟩
  | @refused error =>
    refine ⟨_, [], rfl, fun _ => ?_⟩
    unfold finish
    dsimp only
    rw [report_memory]
    unfold outcome
    rw [if_neg hlive]
    exact ⟨rfl, rfl⟩
  | @broken arguments stop after body =>
    obtain ⟨ending, hending⟩ := constant.bodies key source eager cyclic slot arguments
    obtain ⟨hresult, hmemory, -⟩ := Act.run_of_ending? (hending _) perform
      (world.enterBody layer.scope source arguments)
    rw [body] at hresult hmemory
    refine ⟨_, _, source.conclude?_of_ending (hending 1), fun _ => ?_⟩
    cases ending with
    | ok yield => cases hresult
    | error message =>
      obtain rfl : stop = .panic message := Except.error.inj hresult
      exact ⟨rfl, hmemory⟩
  | @returned arguments yield between body =>
    obtain ⟨ending, hending⟩ := constant.bodies key source eager cyclic slot arguments
    obtain ⟨hresult, hmemory, -⟩ := Act.run_of_ending? (hending _) perform
      (world.enterBody layer.scope source arguments)
    rw [body] at hresult hmemory
    refine ⟨_, _, source.conclude?_of_ending (hending 1), fun unequal => ?_⟩
    cases ending with
    | error message => cases hresult
    | ok other =>
      obtain rfl : yield = other := Except.ok.inj hresult
      have hbetween : between.memory = world.memory := hmemory
      have hfinish := finish_comes layer key source yield
        (between.emit (.returned layer.scope.id source.place (world.nextRun layer.scope source)
          yield)) (fun value hvalue => unequal value (hbetween ▸ hvalue))
      exact ⟨hfinish.1, hfinish.2.trans (congrArg (fun memory : Memory =>
        memory.keepAll (source.harvest layer.scope key (.ok yield)).2) hbetween)⟩

/-- However a cast ends, its interface ends as what it comes to, unless it has got another value
meanwhile. -/
theorem Binds.comes {binding : Binding} {value : Value}
    (binds : Binds perform scope key binding value world result after) (constant : scope.Constant)
    (interface : scope.bindings.find? key = some binding) :
    ∃ drafted kept, binding.conclude? scope key (.ok (.ok value)) = some (drafted, kept) ∧
      ((∀ value, world.memory.bound.find? (scope.site key) = some value →
          drafted = .ok (.ok value)) →
        result = drafted ∧ after.memory = world.memory.keepAll kept) := by
  obtain ⟨ending, hending⟩ := constant.casts key binding interface value.payload
  have hcast := Act.run_of_ending? (hending (world.nextCast (scope.site key))) perform
    (world.enterCast (scope.site key) binding value.payload)
  unfold Binding.conclude?
  cases binds with
  | mistyped other => exact ⟨_, _, if_neg other, fun _ => ⟨rfl, rfl⟩⟩
  | broken typed cast =>
    rw [cast] at hcast
    obtain ⟨hresult, hmemory, -⟩ := hcast
    dsimp only
    rw [if_pos typed, hending 1]
    refine ⟨_, _, rfl, fun _ => ?_⟩
    cases ending with
    | ok payload => cases hresult
    | error message =>
      obtain rfl := Except.error.inj hresult
      exact ⟨rfl, hmemory⟩
  | @bound payload between typed cast =>
    rw [cast] at hcast
    obtain ⟨hresult, hmemory, -⟩ := hcast
    dsimp only
    rw [if_pos typed, hending 1]
    refine ⟨_, _, rfl, fun unequal => ?_⟩
    cases ending with
    | error message => cases hresult
    | ok other =>
      obtain rfl : payload = other := Except.ok.inj hresult
      have hbetween : between.memory = world.memory := hmemory
      have hbound : (between.bind scope key binding payload).memory =
          world.memory.keepAll [⟨.bound, scope.site key, ⟨key, payload⟩⟩] :=
        congrArg (Memory.bind · (scope.site key) ⟨key, payload⟩) hbetween
      refine ⟨?_, hbound⟩
      rw [hbound]
      change Except.ok (Except.ok (((world.memory.bound.add (scope.site key)
        ⟨key, payload⟩).find? (scope.site key)).getD _)) = _
      rw [Table.find?_add, if_pos rfl]
      cases hbefore : world.memory.bound.find? (scope.site key) with
      | none => rfl
      | some found => exact (unequal found hbefore).symm

/-- A value that was found further out is passed on as it is, unless another one has been imported
meanwhile. -/
theorem hoist_comes (scope : Scope) (key : Key) (value : Value) (world : World)
    (unequal : ∀ other, world.memory.imported.find? (scope.site key) = some other →
      value = other) :
    hoisted scope key value world = value ∧ (world.hoist scope key value).memory =
      world.memory.keepAll (scope.souvenirs key (.ok (.ok value))) := by
  unfold hoisted World.hoist Scope.souvenirs
  split
  · refine ⟨?_, rfl⟩
    change ((world.memory.imported.add (scope.site key) value).find? (scope.site key)).getD value =
      value
    rw [Table.find?_add, if_pos rfl]
    cases hbefore : world.memory.imported.find? (scope.site key) with
    | none => rfl
    | some other => exact (unequal other hbefore).symm
  · exact ⟨rfl, rfl⟩

/-- The arguments of a run are what the types asked for come to. -/
theorem Gathers.finds {supplies : List Supply} {inquiries : List Inquiry}
    (gathers : Gathers layer .background supplies inquiries world gathered after)
    (answers : ∀ inquiry ∈ inquiries, Coherent base top inquiry.before.memory →
      ∃ kept, Comes base layer inquiry.key inquiry.result kept ∧
        inquiry.after.memory = inquiry.before.memory.keepAll kept ∧
        Coherent base top inquiry.after.memory)
    (coherent : Coherent base top world.memory) :
    ∃ findings, Finds layer supplies findings gathered ∧
      (∀ finding ∈ findings, Comes base layer finding.key finding.result finding.kept) ∧
      after.memory = world.memory.keepAll (findings.flatMap Finding.kept) ∧
      Coherent base top after.memory := by
  induction gathers with
  | done => exact ⟨[], .done, by simp, rfl, coherent⟩
  | given unasked willing further ih =>
    obtain ⟨findings, hfinds, hcomes, hmemory, hcoherent⟩ := ih answers coherent
    exact ⟨findings, .given unasked willing hfinds, hcomes, hmemory, hcoherent⟩
  | declined unasked refusal => exact ⟨[], .declined unasked refusal, by simp, rfl, coherent⟩
  | @stopped supply rest key before stop after asked =>
    obtain ⟨kept, hcomes, hmemory, hcoherent⟩ := answers _ List.mem_cons_self coherent
    refine ⟨[⟨key, .error stop, kept⟩], .lost asked (fun _ h => nomatch h), ?_, ?_, hcoherent⟩
    · simpa using hcomes
    · simpa using hmemory
  | @refused supply rest key before answer after error asked unacceptable =>
    obtain ⟨kept, hcomes, hmemory, hcoherent⟩ := answers _ List.mem_cons_self coherent
    have hargument : Finding.argument ⟨key, .ok answer, kept⟩ supply = .ok (.error error) :=
      congrArg Except.ok unacceptable
    have hlost : ∀ argument, Finding.argument ⟨key, .ok answer, kept⟩ supply ≠
        .ok (.ok argument) := by
      intro argument h
      rw [hargument] at h
      cases h
    have hfinds : Finds layer (supply :: rest) [⟨key, .ok answer, kept⟩]
        ((Finding.argument ⟨key, .ok answer, kept⟩ supply).map (Except.map fun _ => [])) :=
      .lost asked hlost
    rw [hargument] at hfinds
    refine ⟨_, hfinds, ?_, ?_, hcoherent⟩
    · simpa using hcomes
    · simpa using hmemory
  | @found supply rest inquiries key before answer between argument gathered after asked
      acceptable further ih =>
    obtain ⟨kept, hcomes, hmemory, hcoherent⟩ := answers _ List.mem_cons_self coherent
    obtain ⟨findings, hfinds, hrest, hafter, hlast⟩ :=
      ih (fun other hother => answers other (List.mem_cons_of_mem _ hother)) hcoherent
    refine ⟨⟨key, .ok answer, kept⟩ :: findings,
      .found asked (congrArg Except.ok acceptable) hfinds, ?_, ?_, hlast⟩
    · exact List.forall_mem_cons.mpr ⟨hcomes, hrest⟩
    · rw [hafter, hmemory, List.flatMap_cons, Memory.keepAll_append]

/-- A run keeps the memory coherent: it leaves behind what the types of its slots come to. -/
theorem Ends.coherent {findings : List Finding} {outer : List Scope}
    (ends : Ends perform ⟨scope, outer⟩ key source .background world gathered result after)
    (proper : top.Proper) (within : Layer.ancestry ⟨scope, outer⟩ <:+ top.ancestry)
    (constant : scope.Constant)
    (slot : scope.slots.find? key = some (.generated source eager false))
    (empty : base.filled.find? (scope.site key) = none)
    (finds : Finds ⟨scope, outer⟩ (source.generator.parameters.map Parameter.supply) findings
      gathered)
    (answers : ∀ finding ∈ findings,
      Comes base ⟨scope, outer⟩ finding.key finding.result finding.kept)
    (covers : world.memory.Covers (findings.flatMap Finding.kept))
    (coherent : Coherent base top world.memory) :
    ∃ kept, Comes base ⟨scope, outer⟩ key result (findings.flatMap Finding.kept ++ kept) ∧
      after.memory = world.memory.keepAll kept ∧ Coherent base top after.memory := by
  have sound : scope.Sound := proper.sound scope (within.subset List.mem_cons_self)
  obtain ⟨drafted, kept, hconcludes, hends⟩ := ends.comes constant slot
  have hcomes : Comes base ⟨scope, outer⟩ key drafted (findings.flatMap Finding.kept ++ kept) :=
    .run slot empty finds answers hconcludes
  obtain ⟨rfl, hmemory⟩ := hends fun value hvalue =>
    coherent.eq_of_comes proper within .filled empty hvalue hcomes
  refine ⟨kept, hcomes, hmemory, ?_⟩
  rw [hmemory]
  refine coherent.keepAll fun shelf site value hkept hnone => ?_
  obtain ⟨output, hfed, rfl, rfl, houtput⟩ :=
    Registered.conclude?_fed (sound.distinct _ _ _ _ slot) hconcludes hkept
  have hunfilled : base.filled.find? (scope.site output) = none := coherent.unknown .filled hnone
  exact ⟨⟨scope, outer⟩, findings.flatMap Finding.kept ++ kept, within, rfl,
    .run (sound.slot_of_mem_fedBy slot hfed) hunfilled finds answers houtput,
    (covers.extend (.keepAll _ kept)).append (Memory.covers_keepAll _ kept)⟩

/-- A cast keeps the memory coherent: it leaves behind what its interface comes to. -/
theorem Binds.coherent {binding : Binding} {backing : Backing} {value : Value} {kept : List Keepsake}
    {outer : List Scope} (binds : Binds perform scope key binding value world result after)
    (proper : top.Proper) (within : Layer.ancestry ⟨scope, outer⟩ <:+ top.ancestry)
    (constant : scope.Constant) (noSlot : scope.slots.find? key = none)
    (interface : scope.bindings.find? key = some binding)
    (unbound : base.bound.find? (scope.site key) = none)
    (behind : scope.slots.find? binding.source = some backing)
    (source : Comes base ⟨scope, outer⟩ binding.source (.ok (.ok value)) kept)
    (covers : world.memory.Covers kept) (coherent : Coherent base top world.memory) :
    ∃ more, Comes base ⟨scope, outer⟩ key result (kept ++ more) ∧
      after.memory = world.memory.keepAll more ∧ Coherent base top after.memory := by
  obtain ⟨drafted, more, hconcludes, hbinds⟩ := binds.comes constant interface
  have hcomes : Comes base ⟨scope, outer⟩ key drafted (kept ++ more) :=
    .cast noSlot interface unbound behind source hconcludes
  obtain ⟨rfl, hmemory⟩ := hbinds fun value hvalue =>
    coherent.eq_of_comes proper within .bound unbound hvalue hcomes
  refine ⟨more, hcomes, hmemory, ?_⟩
  rw [hmemory]
  refine coherent.keepAll fun shelf site found hkept hnone => ?_
  obtain ⟨hresult, rfl, rfl⟩ := Binding.conclude?_bound hconcludes hkept
  exact ⟨⟨scope, outer⟩, kept ++ more, within, rfl, hresult ▸ hcomes,
    (covers.extend (.keepAll _ more)).append (Memory.covers_keepAll _ more)⟩

/-- Passing a value on keeps the memory coherent: it leaves behind what the type comes to here. -/
theorem hoist_coherent {parent : Scope} {further : List Scope} {value : Value}
    {kept : List Keepsake} (proper : top.Proper)
    (within : Layer.ancestry ⟨scope, parent :: further⟩ <:+ top.ancestry)
    (unowned : scope.owns key = false)
    (unimported : base.imported.find? (scope.site key) = none)
    (answer : Comes base ⟨parent, further⟩ key (.ok (.ok value)) kept)
    (covers : world.memory.Covers kept) (coherent : Coherent base top world.memory) :
    ∃ more, Comes base ⟨scope, parent :: further⟩ key
        (.ok (.ok (hoisted scope key value world))) (kept ++ more) ∧
      (world.hoist scope key value).memory = world.memory.keepAll more ∧
      Coherent base top (world.hoist scope key value).memory := by
  obtain ⟨noSlot, noInterface⟩ := Scope.owns_eq_false_iff.mp unowned
  have hcomes := Comes.outward noSlot noInterface unimported answer
  obtain ⟨hvalue, hmemory⟩ := hoist_comes scope key value world fun other hother =>
    Except.ok.inj (Except.ok.inj
      (coherent.eq_of_comes proper within .imported unimported hother hcomes))
  rw [hvalue]
  refine ⟨_, hcomes, hmemory, ?_⟩
  rw [hmemory]
  refine coherent.keepAll fun shelf site found hkept hnone => ?_
  obtain ⟨rfl, rfl, rfl⟩ := Scope.mem_souvenirs hkept
  exact ⟨⟨scope, parent :: further⟩, _, within, rfl, hcomes,
    (covers.extend (.keepAll _ _)).append (Memory.covers_keepAll _ _)⟩

variable {fuel : Nat} {chain : Chain} {context : Context}

theorem Resolves.comes (resolves : Resolves fuel layer key chain context world result after)
    (background : context = .background) (constant : ∀ scope ∈ top.ancestry, scope.Constant)
    (declares : ∀ scope ∈ top.ancestry, scope.Declares)
    (deep : ∀ scope ∈ top.ancestry, top.generatorCount ≤ scope.settings.maxDepth)
    (clear : chain.Clear top fuel layer key) (held : world.HeldBy chain)
    (coherent : Coherent base top world.memory) :
    ∃ kept, Comes base layer key result kept ∧ after.memory = world.memory.keepAll kept ∧
      Coherent base top after.memory := by
  subst background
  generalize hcontext : Context.background = context at resolves
  induction resolves with
  | @stored fuel scope outer key chain context world backing value slot present =>
    cases backing with
    | value found =>
      exact ⟨[], .stored slot present, rfl, coherent⟩
    | generated source eager cyclic =>
      exact coherent.comes_of_found clear.proper clear.within .filled present (.stored slot)
  | exhausted slot empty =>
    have hroom := clear.room slot
    have hnesting := clear.nesting
    omega
  | @obstructed fuel scope outer key chain context world source eager cyclic error slot empty
      obstacle =>
    subst hcontext
    rcases obstacle?_some obstacle with ⟨hclaims, -⟩ | ⟨rfl, rfl⟩ | ⟨hdepth, -⟩ | ⟨hcancelled, -⟩
    · cases (clear.unclaimed slot).symm.trans hclaims
    · exact ⟨[], .cyclic slot (coherent.unknown .filled empty), rfl, coherent⟩
    · have hroom := clear.room slot
      have hlimit := deep scope clear.known
      have hdepth : scope.settings.maxDepth ≤ chain.length := hdepth
      omega
    · cases hcancelled
  | blocked slot empty free locked => exact absurd locked (held.unlocked clear slot)
  | @run fuel scope outer key chain context world source inquiries gathered between result after
      starts answers ends ih =>
    subst hcontext
    obtain ⟨⟨eager, cyclic, slot, free⟩, empty, unlocked, gathers⟩ := starts
    obtain rfl := obstacle?_none free
    have hgrown := gathers.before (fun between => (world.start scope key source chain).Grows between)
      (fun inquiry hinquiry h => h.trans (answers inquiry hinquiry).grows) (.refl _)
    have hinquiries : ∀ inquiry ∈ inquiries, Coherent base top inquiry.before.memory →
        ∃ kept, Comes base ⟨scope, outer⟩ inquiry.key inquiry.result kept ∧
          inquiry.after.memory = inquiry.before.memory.keepAll kept ∧
          Coherent base top inquiry.after.memory := by
      intro inquiry hinquiry hcoherent
      obtain ⟨supply, hsupply, hasked⟩ := gathers.asked inquiry hinquiry
      obtain ⟨parameter, hparameter, rfl⟩ := List.mem_map.mp hsupply
      have declared := declares scope clear.known key source eager false slot parameter hparameter
        _ hasked
      exact ih inquiry hinquiry (clear.push slot declared) (held.push (hgrown inquiry hinquiry))
        hcoherent rfl
    obtain ⟨findings, hfinds, hfound, hmemory, hbetween⟩ := gathers.finds hinquiries coherent
    have hstarted : (world.start scope key source chain).memory = world.memory := rfl
    obtain ⟨kept, hcomes, hlast, hafter⟩ := ends.coherent clear.proper clear.within
      (constant scope clear.known) slot (coherent.unknown .filled empty) hfinds hfound
      (hmemory ▸ Memory.covers_keepAll _ _) hbetween
    refine ⟨_, hcomes, ?_, hafter⟩
    rw [Memory.keepAll_append, ← hstarted, ← hmemory]
    exact hlast
  | @bound fuel scope outer key chain context world binding value noSlot interface present =>
    exact coherent.comes_of_found clear.proper clear.within .bound present (.bound noSlot interface)
  | unbacked noSlot interface unbound noSource =>
    exact ⟨[], .unbacked noSlot interface (coherent.unknown .bound unbound) noSource, rfl,
      coherent⟩
  | @unsourced fuel scope outer key chain context world binding backing result after noSlot
      interface unbound behind answer lost ih =>
    obtain ⟨kept, hcomes, hmemory, hafter⟩ :=
      ih (clear.behind noSlot interface behind) held coherent hcontext
    have hconcludes : binding.conclude? scope key result = some (result, []) := by
      rcases result with stop | (error | value)
      · rfl
      · rfl
      · exact absurd rfl (lost value)
    refine ⟨kept ++ [], .cast noSlot interface (coherent.unknown .bound unbound) behind hcomes
      hconcludes, ?_, hafter⟩
    rw [List.append_nil]
    exact hmemory
  | @cast fuel scope outer key chain context world binding backing value between result after
      noSlot interface unbound behind answer binds ih =>
    obtain ⟨kept, hsource, hmemory, hbetween⟩ :=
      ih (clear.behind noSlot interface behind) held coherent hcontext
    obtain ⟨more, hcomes, hlast, hafter⟩ := binds.coherent clear.proper clear.within
      (constant scope clear.known) noSlot interface (coherent.unknown .bound unbound) behind hsource
      (hmemory ▸ Memory.covers_keepAll _ kept) hbetween
    refine ⟨_, hcomes, ?_, hafter⟩
    rw [Memory.keepAll_append, ← hmemory]
    exact hlast
  | @imported fuel scope outer key chain context world value unowned present =>
    obtain ⟨noSlot, noInterface⟩ := Scope.owns_eq_false_iff.mp unowned
    exact coherent.comes_of_found clear.proper clear.within .imported present
      (.imported noSlot noInterface)
  | missing unowned unknown =>
    obtain ⟨noSlot, noInterface⟩ := Scope.owns_eq_false_iff.mp unowned
    exact ⟨[], .missing noSlot noInterface (coherent.unknown .imported unknown), rfl, coherent⟩
  | @unavailable fuel scope parent further key chain context world result after unowned unknown
      answer lost ih =>
    obtain ⟨noSlot, noInterface⟩ := Scope.owns_eq_false_iff.mp unowned
    obtain ⟨kept, hcomes, hmemory, hafter⟩ := ih clear.parent held coherent hcontext
    have hnone : scope.souvenirs key result = [] := by
      rcases result with stop | (error | value)
      · rfl
      · rfl
      · exact absurd rfl (lost value)
    have hcomes := Comes.outward noSlot noInterface (coherent.unknown .imported unknown) hcomes
    rw [hnone, List.append_nil] at hcomes
    exact ⟨kept, hcomes, hmemory, hafter⟩
  | @delegated fuel scope parent further key chain context world value between unowned unknown
      answer ih =>
    obtain ⟨kept, hanswer, hmemory, hbetween⟩ := ih clear.parent held coherent hcontext
    obtain ⟨more, hcomes, hlast, hafter⟩ := hoist_coherent clear.proper clear.within unowned
      (coherent.unknown .imported unknown) hanswer (hmemory ▸ Memory.covers_keepAll _ kept) hbetween
    refine ⟨_, hcomes, ?_, hafter⟩
    rw [Memory.keepAll_append, hlast]
    exact congrArg (Memory.keepAll · more) hmemory

end Resolution

end LayerGraph
