import LayerGraph.Proofs.Interfaces
import LayerGraph.Proofs.Propagation

/-! Dumps on failures.

Whether failures get a dump is a setting that nothing looks at while a request is answered: not the
layer that was asked, and none around it. So a request comes to the same under either setting, and
at the end a failure gets the dump that was wanted. There are three exceptions. A parameter that
fails by itself may bring a dump along, which stays. That a value which was granted is not of the type
that was asked for is noticed only after that end, and such a failure has no dump; the value is a
product of some body. And when a request is to be made on another thread and the task is given up
before it begins, nothing is asked at all, and that failure has no dump either. -/

namespace LayerGraph

def Scope.snapping (choose : Scope → Bool) (scope : Scope) : Scope :=
  { scope with settings := { scope.settings with snapshot := choose scope } }

namespace Layer

def snapping (choose : Scope → Bool) (layer : Layer) : Layer :=
  ⟨layer.scope.snapping choose, layer.outer.map (Scope.snapping choose)⟩

def redump {α : Type} (layer : Layer) (wanted : Bool)
    (ended : Except Stop (Except Failure α) × World) : Except Stop (Except Failure α) × World :=
  (ended.1.map (Except.mapError fun failure => layer.failure wanted ended.2.memory failure.error),
    ended.2)

/-- A way to do something for a layer that does not look at the setting. -/
def Unaware {α : Type} (choose : Scope → Bool) (action : Layer → α) : Prop :=
  ∀ layer, action (layer.snapping choose) = action layer

theorem failure_snapping (choose : Scope → Bool) (wanted : Bool) (memory : Memory) :
    Unaware choose fun layer => layer.failure wanted memory := by
  intro layer
  have hscope : (fun scope : Scope => scope.dump memory) ∘ Scope.snapping choose =
      fun scope => scope.dump memory := rfl
  have hdump : (layer.snapping choose).dump memory = layer.dump memory := by
    simp only [dump, ancestry, snapping, List.map_cons, List.map_map, hscope]
    rfl
  funext error
  simp only [failure, hdump]

end Layer

namespace Resolution

open Layer (Unaware)

variable {choose : Scope → Bool}

theorem fetchAll_snapping {resolve : Resolver} (unaware : Unaware choose resolve) (layer : Layer)
    (chain : Chain) (context : Context) (supplies : List Supply) :
    fetchAll resolve (layer.snapping choose) chain context supplies =
      fetchAll resolve layer chain context supplies := by
  induction supplies with
  | nil => rfl
  | cons supply rest ih =>
    have hfetch : fetch resolve (layer.snapping choose) chain context supply =
        fetch resolve layer chain context supply := by
      unfold fetch
      rw [unaware layer]
      rfl
    rw [fetchAll, fetchAll, hfetch, ih]

theorem runGenerator_snapping {resolve : Resolver} (unaware : Unaware choose resolve)
    (perform : Command → Engine Reply) : Unaware choose (runGenerator resolve perform) := by
  intro layer
  have hinvoke (source : Registered) (chain : Chain) (context : Context) :
      invoke resolve perform (layer.snapping choose) source chain context =
        invoke resolve perform layer source chain context := by
    unfold invoke
    dsimp only
    rw [fetchAll_snapping unaware layer]
    rfl
  have hproduce (key : Key) (source : Registered) (chain : Chain) (context : Context) :
      produce resolve perform (layer.snapping choose) key source chain context =
        produce resolve perform layer key source chain context := by
    unfold produce
    simp only [hinvoke]
    rfl
  funext key source cyclic chain context
  unfold runGenerator
  simp only [hproduce]
  rfl

theorem within_snapping {run : Runner} (unaware : Unaware choose run)
    (perform : Command → Engine Reply) : Unaware choose (within run perform) := by
  rintro ⟨scope, outer⟩
  funext key chain context
  change seek run perform key chain context (scope.snapping choose)
    (outer.map (Scope.snapping choose)) = seek run perform key chain context scope outer
  have hslot (layer : Layer) (key : Key) (backing : Backing) :
      fromSlot run (layer.snapping choose) key backing chain context =
        fromSlot run layer key backing chain context := by
    unfold fromSlot
    simp only [unaware layer]
    rfl
  induction outer generalizing scope with
  | nil =>
    have hscope := hslot ⟨scope, []⟩
    simp only [Layer.snapping, List.map_nil] at hscope
    unfold seek fromBinding
    simp only [List.map_nil, hscope]
    rfl
  | cons parent further ih =>
    have hscope := hslot ⟨scope, parent :: further⟩
    simp only [Layer.snapping, List.map_cons] at hscope
    unfold seek fromBinding
    simp only [List.map_cons, hscope, ih]
    rfl

end Resolution

theorem Session.resolver_snapping (choose : Scope → Bool) (fuel : Nat) :
    Layer.Unaware choose (resolver fuel) := by
  induction fuel with
  | zero => exact Resolution.within_snapping (fun layer => rfl) _
  | succ fuel ih => exact Resolution.within_snapping (Resolution.runGenerator_snapping ih _) _

namespace Layer

variable (choose : Scope → Bool) (fuel : Nat) (layer : Layer) (key : Key) (context : Context)
  (world : World)

theorem request_snapping :
    (layer.snapping choose).request (Session.resolver fuel) key context world =
      layer.redump (choose layer.scope)
        (layer.request (Session.resolver fuel) key context world) := by
  rcases h : Session.resolver fuel layer key [] context
    (world.emit (.asked (layer.scope.site key))) with ⟨result, after⟩
  have hsnapping : Session.resolver fuel (layer.snapping choose) key [] context
      (world.emit (.asked (layer.scope.site key))) = (result, after) := by
    rw [Session.resolver_snapping choose fuel layer, h]
  have hfailure := failure_snapping choose (choose layer.scope) after.memory layer
  rw [request_eq h, request_eq hsnapping]
  rcases result with stop | (error | value)
  · rfl
  · exact congrArg (fun failure : ResolutionError → Failure =>
      (Except.ok (Except.error (failure error)), after.conclude layer key (.ok (.error error))))
      hfailure
  · rfl

theorem resolveAll_snapping (keys : List Key) :
    (layer.snapping choose).resolveAll (Session.resolver fuel) keys world =
      layer.redump (choose layer.scope) (layer.resolveAll (Session.resolver fuel) keys world) := by
  induction keys generalizing world with
  | nil => rfl
  | cons key rest ih =>
    rw [resolveAll, resolveAll, Engine.bind_apply, Engine.bind_apply, request_snapping]
    rcases layer.request (Session.resolver fuel) key .background world with
      ⟨stop | (failure | value), after⟩
    · rfl
    · rfl
    · exact ih after

theorem resolveAs_snapping {result : Except Stop Answer} {after : World}
    (h : Session.resolver fuel layer key [] context (world.emit (.asked (layer.scope.site key))) =
      (result, after)) :
    (layer.snapping choose).resolveAs (Session.resolver fuel) key context world =
      (result.map ((layer.snapping choose).reply after.memory key),
        after.conclude layer key result) := by
  have hsnapping : Session.resolver fuel (layer.snapping choose) key [] context
      (world.emit (.asked (layer.scope.site key))) = (result, after) := by
    rw [Session.resolver_snapping choose fuel layer, h]
  rw [resolveAs_eq hsnapping]
  rcases result with stop | (error | value) <;> rfl

theorem reply_snapping (memory : Memory) (error : ResolutionError) :
    (layer.snapping choose).reply memory key (.error error) =
      .error (layer.failure (choose layer.scope) memory error) :=
  congrArg Except.error
    (congrFun (failure_snapping choose (layer.snapping choose).scope.settings.snapshot memory layer)
      error)

end Layer

namespace Resolution

/-- Where a value that a layer was granted comes from if it is of another type: a body has handed it
over for the type that was asked for. -/
def Blamed (layer : Layer) (key : Key) (value : Value) (trace : List Event) : Prop :=
  ∃ scope ∈ layer.ancestry, ∃ source eager cyclic run products,
    scope.slots.find? key = some (.generated source eager cyclic) ∧
    .returned scope.id source.place run (.products products) ∈ trace ∧
    (key, value) ∈ source.generator.outputs.zip products

theorem handed_over {world : World} {layer : Layer} {key : Key} {value : Value}
    {source : Registered} {eager cyclic : Bool} (hosts : world.Hosts layer)
    (accountable : world.Accountable)
    (slot : layer.scope.slots.find? key = some (.generated source eager cyclic))
    (filled : world.memory.filled.find? (layer.scope.site key) = some value) :
    ∃ run products, .returned layer.scope.id source.place run (.products products) ∈ world.trace ∧
      (key, value) ∈ source.generator.outputs.zip products := by
  obtain ⟨later, now, htrace⟩ := List.append_of_mem ((accountable.stored _ value).mp filled)
  obtain ⟨other, hother, hid, maker, early, flagged, hslot, run, arguments, hstems⟩ :=
    accountable.stems later _ value now htrace
  obtain rfl := hosts.1.unique other hother layer hosts.2 hid
  obtain ⟨rfl, -, -⟩ := Backing.generated.inj (Option.some.inj (slot.symm.trans hslot))
  obtain ⟨arrivals, products, before, hnow, -, hpair, -⟩ := hstems
  refine ⟨run, products, ?_, hpair⟩
  rw [htrace, hnow]
  simp

theorem cell_typed_or_blamed {world : World} {layer : Layer} {key : Key} {value : Value}
    (hosts : world.Hosts layer) (accountable : world.Accountable) (backed : world.Backed)
    (hcell : layer.cell? world.memory key = some value) :
    value.type = key ∨ Blamed layer key value world.trace := by
  obtain ⟨scope, howner, hstored⟩ := Option.bind_eq_some_iff.mp hcell
  have hscope : scope ∈ layer.ancestry := List.mem_of_find?_eq_some howner
  obtain ⟨outer, hbuilt⟩ := hosts.1.built_of_mem_ancestry hosts.2 hscope
  unfold Scope.cell? at hstored
  split at hstored
  · next backing slot =>
    cases backing with
    | value found =>
      obtain rfl := Option.some.inj hstored
      exact .inl ((hosts.1.sound _ hbuilt).typed key found slot)
    | generated source eager cyclic =>
      obtain ⟨run, products, hreturned, hpair⟩ :=
        @handed_over _ ⟨scope, outer⟩ _ _ _ _ _ ⟨hosts.1, hbuilt⟩ accountable slot hstored
      exact .inr ⟨scope, hscope, source, eager, cyclic, run, products, slot, hreturned, hpair⟩
  · split at hstored
    · exact .inl (backed.bound _ hbuilt key value hstored).1
    · cases hstored

end Resolution

/-- Some generator of a layer, or of one around it, has a parameter that fails with an error that it
makes itself. -/
def Layer.HasRefusal (layer : Layer) (error : ResolutionError) : Prop :=
  ∃ scope ∈ layer.ancestry, ∃ key source eager cyclic,
    scope.slots.find? key = some (.generated source eager cyclic) ∧
      ∃ parameter ∈ source.generator.parameters, parameter.supply.refusal? = some error

/-- A failure that a request has ended with. It has the dump that its error has brought along, which
is one that a parameter makes itself, and otherwise the dump of the layer as it is after the request,
if the layer wants one. -/
structure Layer.Attaches (layer : Layer) (failure : Failure) (after : World) : Prop where
  reported : ∃ key, after.trace.head? =
    some (.logged (.resolutionFailed layer.scope.id key failure.error))
  attached : failure.error.brought? = none →
    failure.snapshot = if layer.scope.settings.snapshot then some (layer.dump after.memory) else none
  brought : ∀ dump, failure.error.brought? = some dump →
    failure.snapshot = some dump ∧ layer.HasRefusal failure.error

namespace Resolution

theorem Resolves.brought {fuel : Nat} {layer : Layer} {key : Key} {chain : Chain}
    {context : Context} {world after : World} {result : Except Stop Answer}
    (resolves : Resolves fuel layer key chain context world result after)
    {error : ResolutionError} (h : result = .ok (.error error)) {dump : Dump}
    (brought : error.brought? = some dump) : layer.HasRefusal error := by
  induction resolves with
  | stored | exhausted | blocked | bound | imported | delegated => cases h
  | unbacked | missing =>
    obtain rfl := Except.error.inj (Except.ok.inj h)
    cases brought
  | obstructed slot empty obstacle =>
    obtain rfl := Except.error.inj (Except.ok.inj h)
    rcases obstacle?_some obstacle with ⟨-, rfl⟩ | ⟨-, rfl⟩ | ⟨-, rfl⟩ | ⟨-, rfl⟩ <;> cases brought
  | @run fuel scope outer key chain context world source inquiries gathered between result after
      starts answers ends ih =>
    rcases ends.failed h with hgathered | hend
    · obtain ⟨eager, cyclic, slot, -⟩ := starts.slot
      obtain ⟨supply, hsupply, refusal | ⟨inquiry, hinquiry, answer, -, hanswer, unacceptable⟩⟩ :=
        starts.gathers.failed hgathered
      · obtain ⟨parameter, hparameter, rfl⟩ := List.mem_map.mp hsupply
        exact ⟨scope, List.mem_cons_self, key, source, eager, cyclic, slot, parameter, hparameter,
          refusal⟩
      · rcases accept_error unacceptable with rfl | ⟨rfl, -⟩
        · exact ih inquiry hinquiry hanswer
        · cases brought
    · cases hend <;> cases brought
  | unsourced noSlot interface unbound behind answer lost ih => exact ih h
  | cast noSlot interface unbound behind answer binds =>
    cases binds with
    | mistyped =>
      obtain rfl := Except.error.inj (Except.ok.inj h)
      cases brought
    | broken | bound => cases h
  | unavailable unowned unknown answer lost ih =>
    obtain ⟨scope, hscope, hrefusal⟩ := ih h
    exact ⟨scope, List.mem_cons_of_mem _ hscope, hrefusal⟩

end Resolution

namespace Session

open Resolution

theorem Arises.backed {world : World} (arises : Arises world) : world.Backed := by
  have hinvariant := World.Backed.invariant
  refine (arises.keeps .initial (fun _ course valid backed => ?_)
    (fun _ resolves hosts backed => resolves.backed hosts backed) ?_).2
  · exact (hinvariant.course (fun less _ => hinvariant.handler less) course ⟨valid, backed⟩).1.2
  · intro world after backed advances built memory
    exact backed.of_same built advances.memory (by rw [memory]) (by rw [memory])

/-- What a request of a layer is granted is of the type that was asked for, or else some body is to
blame. -/
theorem Arises.granted {world after : World} (arises : Arises world) {layer : Layer}
    (known : layer ∈ world.built) {fuel : Nat} {key : Key} {context : Context} {value : Value}
    (h : resolver fuel layer key [] context (world.emit (.asked (layer.scope.site key))) =
      (.ok (.ok value), after)) :
    value.type = key ∨ Blamed layer key value after.trace := by
  obtain ⟨valid, accountable⟩ := (arises.ask known key).accountable
  have hosts : (world.emit (.asked (layer.scope.site key))).Hosts layer := ⟨valid, known⟩
  have hresolves := resolver_resolves fuel layer key [] context
    (world.emit (.asked (layer.scope.site key)))
  rw [h] at hresolves
  have hcell := (hresolves.faithful hosts accountable.faithful).2 value rfl
  exact cell_typed_or_blamed (hresolves.hosts hosts hosts) (hresolves.accountable hosts accountable)
    (hresolves.backed hosts (arises.ask known key).backed) hcell

theorem attaches_of_resolved {world after : World} {layer : Layer} {fuel : Nat} {key : Key}
    {context : Context} {error : ResolutionError}
    (h : resolver fuel layer key [] context (world.emit (.asked (layer.scope.site key))) =
      (.ok (.error error), after)) :
    layer.Attaches (layer.failure layer.scope.settings.snapshot after.memory error)
      (after.conclude layer key (.ok (.error error))) where
  reported := ⟨key, rfl⟩
  attached unbrought := by
    rw [Layer.failure_error] at unbrought
    rw [Layer.failure, unbrought, Option.none_or]
    rfl
  brought dump hbrought := by
    have hresolves := resolver_resolves fuel layer key [] context
      (world.emit (.asked (layer.scope.site key)))
    rw [h] at hresolves
    rw [Layer.failure_error] at hbrought
    refine ⟨?_, hresolves.brought rfl hbrought⟩
    rw [Layer.failure, hbrought, Option.some_or]

theorem resolveAll_attaches {world after : World} {layer : Layer} {fuel : Nat} {keys : List Key}
    {failure : Failure}
    (h : layer.resolveAll (resolver fuel) keys world = (.ok (.error failure), after)) :
    layer.Attaches failure after := by
  induction keys generalizing world with
  | nil => cases h
  | cons key rest ih =>
    rw [Layer.resolveAll, Engine.bind_apply] at h
    rcases hresolve : resolver fuel layer key [] .background
      (world.emit (.asked (layer.scope.site key))) with ⟨stop | (error | value), between⟩
    · rw [Layer.request_eq hresolve] at h
      cases h
    · rw [Layer.request_eq hresolve] at h
      obtain ⟨hfailure, rfl⟩ := Prod.mk.inj h
      obtain rfl := Except.error.inj (Except.ok.inj hfailure)
      exact attaches_of_resolved hresolve
    · rw [Layer.request_eq hresolve] at h
      exact ih h

/-- Failures carry dumps as configured. At whatever moment a layer is asked, and whatever fails at
whatever depth and in whichever layer, the failure is the same whatever the settings on dumps are,
and so is all else that happens. Of these settings only that of the layer asked matters: the failure
carries the dump of this layer at the end of the request if it is on, and none if it is off. The
exceptions are independent of the settings. A dump that a parameter's own error has brought along
stays. If a body has handed over a value of another type for the type that was asked for, and the
request was granted this value, then its type is looked at after that, and the failure never carries
a dump. Nor does the failure of a request that was given up before its task began on another thread.
When types are asked for one after the other, no types are looked at. -/
theorem failures_carry_dumps_as_configured {world : World} (arises : Arises world) {layer : Layer}
    (known : layer ∈ world.built) (fuel : Nat) (context : Context) :
    (∀ keys failure after,
      layer.resolveAll (resolver fuel) keys world = (.ok (.error failure), after) →
        layer.Attaches failure after ∧
        ∀ choose, (layer.snapping choose).resolveAll (resolver fuel) keys world =
          (.ok (.error (layer.failure (choose layer.scope) after.memory failure.error)), after)) ∧
    (∀ key failure after,
      layer.resolveAs (resolver fuel) key context world = (.ok (.error failure), after) →
        (layer.Attaches failure after ∧
          ∀ choose, (layer.snapping choose).resolveAs (resolver fuel) key context world =
            (.ok (.error (layer.failure (choose layer.scope) after.memory failure.error)),
              after)) ∨
        ∃ value, after.trace.head? = some (.granted (layer.scope.site key) value) ∧
          value.type ≠ key ∧ Blamed layer key value after.trace ∧
          failure = ⟨.mismatch key, none⟩ ∧
          ∀ choose, (layer.snapping choose).resolveAs (resolver fuel) key context world =
            (.ok (.error failure), after)) ∧
    ∀ key join failure after,
      layer.resolveAsync (resolver fuel) key context join world = (.ok (.error failure), after) →
        (join = .finished ∧
          layer.resolveAs (resolver fuel) key context world = (.ok (.error failure), after)) ∨
        join = .dropped ∧ failure = ⟨.canceled key, none⟩ ∧ after = world ∧
          ∀ choose, (layer.snapping choose).resolveAsync (resolver fuel) key context join world =
            (.ok (.error failure), after) := by
  refine ⟨fun keys failure after h => ?_, fun key failure after h => ?_,
    fun key join failure after h => ?_⟩
  · refine ⟨resolveAll_attaches h, fun choose => ?_⟩
    rw [layer.resolveAll_snapping choose fuel world keys, h]
    rfl
  · rcases hresolve : resolver fuel layer key [] context
      (world.emit (.asked (layer.scope.site key))) with ⟨result, between⟩
    rw [Layer.resolveAs_eq hresolve] at h
    obtain ⟨hreply, rfl⟩ := Prod.mk.inj h
    rcases result with stop | (error | value)
    · cases hreply
    · obtain rfl : layer.failure layer.scope.settings.snapshot between.memory error = failure :=
        Except.error.inj (Except.ok.inj hreply)
      refine .inl ⟨attaches_of_resolved hresolve, fun choose => ?_⟩
      rw [layer.resolveAs_snapping choose fuel key context world hresolve, Except.map,
        layer.reply_snapping choose key]
      rfl
    · -- The value was granted, so the failure comes of a look at its type.
      by_cases typed : value.type = key
      · simp [Except.map, Layer.reply, typed] at hreply
      · have hmismatch : ⟨.mismatch key, none⟩ = failure := by
          simpa [Except.map, Layer.reply, typed] using hreply
        subst hmismatch
        obtain ⟨scope, hscope, source, eager, cyclic, run, products, slot, hreturned, hpair⟩ :=
          (arises.granted known hresolve).resolve_left typed
        have blamed : Blamed layer key value (between.conclude layer key (.ok (.ok value))).trace :=
          ⟨scope, hscope, source, eager, cyclic, run, products, slot,
            List.mem_cons_of_mem _ hreturned, hpair⟩
        refine .inr ⟨value, rfl, typed, blamed, rfl, fun choose => ?_⟩
        rw [layer.resolveAs_snapping choose fuel key context world hresolve]
        simp [Except.map, Layer.reply, typed]
  · cases join with
    | finished => exact .inl ⟨rfl, h⟩
    | dropped =>
      obtain ⟨hfailure, rfl⟩ := Prod.mk.inj h
      obtain rfl := Except.error.inj (Except.ok.inj hfailure)
      exact .inr ⟨rfl, rfl, rfl, fun choose => rfl⟩

/-- A layer that wants dumps, around it one that does not. There a generator of widgets fails on its
first run, and from then on hands over a value of another type than it is to make. A generator of
gizmos has a parameter that fails with an empty dump. -/
def dumpingWorld : World :=
  let widgets : Generator Command :=
    ⟨"widgets", "make", [], [⟨"Widget"⟩], fun run _ =>
      .done (if run = 1 then .failed "out of stock" else .products [⟨⟨"Gadget"⟩, "gadget"⟩])⟩
  let gizmos : Generator Command :=
    ⟨"gizmos", "make", [.refusing ⟨"Part"⟩ "parts" "out of order" (some ⟨[]⟩)], [⟨"Gizmo"⟩],
      fun _ _ => .done (.products [])⟩
  let base := (step 1 {} (.build "base" none
    [.register (.generator widgets false), .register (.generator gizmos false)])).2
  (step 1 base (.build "app" none [.parent "base", .settings { snapshot := true }])).2

theorem failures_carry_dumps_as_configured_two_failures :
    Arises dumpingWorld ∧ ∃ layer ∈ dumpingWorld.built, layer.scope.settings.snapshot = true ∧
      (∃ after,
        layer.resolveAs (resolver 1) ⟨"Widget"⟩ .background dumpingWorld =
          (.ok (.error ⟨.failed ⟨"Widget"⟩ "make() -> Widget" "out of stock",
            some (layer.dump after.memory)⟩), after) ∧
        (layer.snapping fun _ => false).resolveAs (resolver 1) ⟨"Widget"⟩ .background dumpingWorld =
          (.ok (.error ⟨.failed ⟨"Widget"⟩ "make() -> Widget" "out of stock", none⟩), after)) ∧
      ∃ after,
        layer.resolveAs (resolver 1) ⟨"Gizmo"⟩ .background dumpingWorld =
          (.ok (.error ⟨.failed ⟨"Part"⟩ "parts" "out of order" (some ⟨[]⟩), some ⟨[]⟩⟩), after) ∧
        (layer.snapping fun _ => false).resolveAs (resolver 1) ⟨"Gizmo"⟩ .background dumpingWorld =
          (.ok (.error ⟨.failed ⟨"Part"⟩ "parts" "out of order" (some ⟨[]⟩), some ⟨[]⟩⟩), after) := by
  have reachable : Reachable dumpingWorld := .step (.step .initial _ _) _ _
  have h : (dumpingWorld.layers.find? "app").map (fun layer => (layer.scope.settings.snapshot,
      (layer.resolveAs (resolver 1) ⟨"Widget"⟩ .background dumpingWorld).1.map
        (Except.mapError Failure.error),
      (layer.resolveAs (resolver 1) ⟨"Gizmo"⟩ .background dumpingWorld).1.map
        (Except.mapError Failure.error))) =
      some (true, .ok (.error (.failed ⟨"Widget"⟩ "make() -> Widget" "out of stock")),
        .ok (.error (.failed ⟨"Part"⟩ "parts" "out of order" (some ⟨[]⟩)))) := by
    decide +kernel
  obtain ⟨layer, hlayer, hends⟩ := Option.map_eq_some_iff.mp h
  obtain ⟨hsnapshot, hends⟩ := Prod.mk.inj hends
  obtain ⟨hwidget, hgizmo⟩ := Prod.mk.inj hends
  have known : layer ∈ dumpingWorld.built := reachable.valid.named "app" layer hlayer
  have hdumps := (failures_carry_dumps_as_configured reachable.arises known 1 .background).2.1
  -- A failure that is no mismatch has been reported, and has the dump that goes with its error.
  have hfailed {key : Key} {error : ResolutionError} (other : error ≠ .mismatch key)
      (hends : (layer.resolveAs (resolver 1) key .background dumpingWorld).1.map
        (Except.mapError Failure.error) = .ok (.error error)) :
      ∃ failure after, failure.error = error ∧ layer.Attaches failure after ∧
        layer.resolveAs (resolver 1) key .background dumpingWorld = (.ok (.error failure), after) ∧
        (layer.snapping fun _ => false).resolveAs (resolver 1) key .background dumpingWorld =
          (.ok (.error (layer.failure false after.memory error)), after) := by
    rcases hresolve : layer.resolveAs (resolver 1) key .background dumpingWorld with
      ⟨stop | (failure | value), after⟩
    · simp [hresolve, Except.map] at hends
    · obtain rfl : failure.error = error := by
        simpa [hresolve, Except.map, Except.mapError] using hends
      rcases hdumps key failure after hresolve with ⟨attaches, hsnapping⟩ | ⟨_, -, -, -, rfl, -⟩
      · exact ⟨failure, after, rfl, attaches, rfl, hsnapping fun _ => false⟩
      · exact absurd rfl other
    · simp [hresolve, Except.map, Except.mapError] at hends
  refine ⟨reachable.arises, layer, known, hsnapshot, ?_, ?_⟩
  · obtain ⟨⟨error, snapshot⟩, after, rfl, attaches, hresolve, hother⟩ := hfailed (by simp) hwidget
    have hattached := attaches.attached rfl
    rw [hsnapshot, if_pos rfl] at hattached
    subst hattached
    exact ⟨after, hresolve, hother⟩
  · obtain ⟨⟨error, snapshot⟩, after, rfl, attaches, hresolve, hother⟩ := hfailed (by simp) hgizmo
    obtain ⟨hbrought, -⟩ := attaches.brought _ rfl
    subst hbrought
    exact ⟨after, hresolve, hother⟩

/-- After the first run of the generator of widgets, the layer wants dumps as before, and the next
failure has none. -/
theorem mistyped_failure_lacks_its_dump :
    ∃ layer, (step 1 dumpingWorld (.resolve "app" ⟨"Widget"⟩ {})).2.layers.find? "app" = some layer ∧
      layer.scope.settings.snapshot = true ∧
      (layer.resolveAs (resolver 1) ⟨"Widget"⟩ .background
        (step 1 dumpingWorld (.resolve "app" ⟨"Widget"⟩ {})).2).1 =
          .ok (.error ⟨.mismatch ⟨"Widget"⟩, none⟩) := by
  have h : ((step 1 dumpingWorld (.resolve "app" ⟨"Widget"⟩ {})).2.layers.find? "app").map
      (fun layer => (layer.scope.settings.snapshot,
        (layer.resolveAs (resolver 1) ⟨"Widget"⟩ .background
          (step 1 dumpingWorld (.resolve "app" ⟨"Widget"⟩ {})).2).1)) =
        some (true, .ok (.error ⟨.mismatch ⟨"Widget"⟩, none⟩)) := by
    decide +kernel
  obtain ⟨layer, hlayer, hends⟩ := Option.map_eq_some_iff.mp h
  exact ⟨layer, hlayer, Prod.mk.inj hends⟩

end Session

end LayerGraph
