import LayerGraph.Proofs.Propagation

/-! What a run has stored by the time its end is told.

The products of a run go to its outputs in order, for as long as there are any, and the run counts as
a success if the type that was asked for is among those that got one. So a body that hands over too
few products leaves slots empty though its run is said to have finished, or has filled some though it
is said to have failed. A body that hands over a product for each output does neither. -/

namespace LayerGraph

/-- From one world to another, the empty slots of a generator get what there is for them among these
products, and its other slots keep their values. -/
def World.Stores (world : World) (scope : Scope) (source : Registered) (products : List Value)
    (after : World) : Prop :=
  ∀ output ∈ scope.fedBy source, after.memory.filled.find? (scope.site output) =
    (world.memory.filled.find? (scope.site output)).or
      products[source.generator.outputs.idxOf output]?

namespace World.Stores

variable {world between after : World} {scope : Scope} {source : Registered}
  {products : List Value} {output : Key}

theorem nothing (memory : after.memory = world.memory) : world.Stores scope source [] after := by
  intro output _
  rw [memory, List.getElem?_nil, Option.or_none]

theorem of_grows (grows : world.Grows after)
    (locked : ∀ site ∈ scope.locks source, site ∈ world.held) :
    world.Stores scope source [] after := by
  intro output hfed
  have hsite : scope.site output ∈ scope.locks source := Scope.mem_locks.mpr ⟨output, hfed, rfl⟩
  rw [grows.locked _ (locked _ hsite), List.getElem?_nil, Option.or_none]

theorem unchanged (stores : world.Stores scope source [] after)
    (hfed : output ∈ scope.fedBy source) :
    after.memory.filled.find? (scope.site output) =
      world.memory.filled.find? (scope.site output) := by
  rw [stores output hfed, List.getElem?_nil, Option.or_none]

theorem after_nothing (nothing : world.Stores scope source [] between)
    (stores : between.Stores scope source products after) :
    world.Stores scope source products after := by
  intro output hfed
  rw [stores output hfed, nothing.unchanged hfed]

theorem of_same (stores : world.Stores scope source products between)
    (memory : after.memory = between.memory) : world.Stores scope source products after := by
  intro output hfed
  rw [memory, stores output hfed]

theorem filled (stores : world.Stores scope source products after)
    (full : products.length = source.generator.outputs.length)
    (hfed : output ∈ scope.fedBy source) :
    after.memory.filled.find? (scope.site output) ≠ none := by
  have hindex : source.generator.outputs.idxOf output < products.length :=
    full ▸ List.idxOf_lt_length_iff.mpr (Scope.mem_fedBy.mp hfed).1
  rw [stores output hfed, List.getElem?_eq_getElem hindex]
  simp

end World.Stores

namespace Resolution

variable {layer : Layer} {key : Key} {source : Registered} {context : Context}
  {world between after : World} {result : Except Stop Answer}

theorem foldl_deliver_stores (scope : Scope) (source : Registered) (products : List Value)
    (world : World) : world.Stores scope source products
      ((deliveries scope source products).foldl World.deliver world) := by
  intro output hfed
  rw [foldl_deliver_lookup, lookup_deliveries hfed]

inductive Tells (layer : Layer) (key : Key) (source : Registered) (run : Nat) (world : World) :
    Except Stop Answer → World → Prop
  /-- Control never came back. Nothing is told, and nothing has been stored. -/
  | stopped {stop after} (nothing : world.Stores layer.scope source [] after) :
      Tells layer key source run world (.error stop) after
  /-- The run is said to have failed, and nothing has been stored. -/
  | failed {error stored} (nothing : world.Stores layer.scope source [] stored) :
      Tells layer key source run world (.ok (.error error))
        (stored.report layer.scope key source (.error error))
  /-- The run is said to have failed, as its products do not reach as far as the type that was asked
  for. What products there are have been stored. -/
  | short {products stored}
      (returned : .returned layer.scope.id source.place run (.products products) ∈ stored.trace)
      (short : products.length ≤ source.generator.outputs.idxOf key)
      (stores : world.Stores layer.scope source products stored) :
      Tells layer key source run world (.ok (.error (.mismatch key)))
        (stored.report layer.scope key source (.error (.mismatch key)))
  /-- The run is said to have finished. The type that was asked for has its product, and what other
  products there are have been stored. -/
  | finished {products stored value}
      (returned : .returned layer.scope.id source.place run (.products products) ∈ stored.trace)
      (reached : products[source.generator.outputs.idxOf key]? = some value)
      (stores : world.Stores layer.scope source products stored) :
      Tells layer key source run world (.ok (.ok value))
        (stored.report layer.scope key source (.ok value))

namespace Tells

variable {run : Nat}

theorem after_nothing (nothing : world.Stores layer.scope source [] between)
    (tells : Tells layer key source run between result after) :
    Tells layer key source run world result after := by
  cases tells with
  | stopped none => exact .stopped (nothing.after_nothing none)
  | failed none => exact .failed (nothing.after_nothing none)
  | short returned short stores => exact .short returned short (nothing.after_nothing stores)
  | finished returned reached stores =>
    exact .finished returned reached (nothing.after_nothing stores)

/-- If the body hands over a product for each output, a failed run has stored nothing, and a finished
one has left no slot empty. -/
theorem of_full (tells : Tells layer key source run world result after)
    (produced : key ∈ source.generator.outputs)
    (full : ∀ products,
      .returned layer.scope.id source.place run (.products products) ∈ after.trace →
        products.length = source.generator.outputs.length) :
    (∀ error, result = .ok (.error error) → ∀ output ∈ layer.scope.fedBy source,
      after.memory.filled.find? (layer.scope.site output) =
        world.memory.filled.find? (layer.scope.site output)) ∧
    ∀ value, result = .ok (.ok value) → ∀ output ∈ layer.scope.fedBy source,
      after.memory.filled.find? (layer.scope.site output) ≠ none := by
  have hreport {stored : World} {answer : Answer} {event : Event} (h : event ∈ stored.trace) :
      event ∈ (stored.report layer.scope key source answer).trace :=
    (World.Grows.report stored layer.scope key source answer).toAdvances.trace.mem h
  cases tells with
  | stopped => exact ⟨fun _ h => (by cases h), fun _ h => (by cases h)⟩
  | failed nothing =>
    refine ⟨fun error _ output hfed => ?_, fun _ h => (by cases h)⟩
    rw [report_memory]
    exact nothing.unchanged hfed
  | short returned short stores =>
    have hlength := full _ (hreport returned)
    have hindex := List.idxOf_lt_length_iff.mpr produced
    omega
  | finished returned reached stores =>
    refine ⟨fun _ h => (by cases h), fun value _ output hfed => ?_⟩
    rw [report_memory]
    exact stores.filled (full _ (hreport returned)) hfed

end Tells

theorem finish_tells {run : Nat} {invocation : Except ResolutionError Yield}
    (hfed : key ∈ layer.scope.fedBy source)
    (returned : ∀ products, invocation = .ok (.products products) →
      .returned layer.scope.id source.place run (.products products) ∈ world.trace)
    (empty : world.memory.filled.find? (layer.scope.site key) = none) :
    Tells layer key source run world (.ok (finish layer key source context invocation world).1)
      (finish layer key source context invocation world).2 := by
  have rule := outcome_rule layer key source context invocation world
  unfold finish
  generalize outcome layer key source context invocation world = ended at rule ⊢
  cases rule with
  | canceled | refused | failed | nil => exact .failed (.nothing rfl)
  | @found products delivered value _ delivers filled =>
    subst delivers
    have hstores := foldl_deliver_stores layer.scope source products world
    rw [hstores key hfed, empty, Option.none_or] at filled
    exact .finished ((foldl_deliver_advances _ world).trace.mem (returned _ rfl)) filled hstores
  | @unfilled products delivered _ delivers unfilled =>
    subst delivers
    have hstores := foldl_deliver_stores layer.scope source products world
    rw [hstores key hfed, empty, Option.none_or] at unfilled
    exact .short ((foldl_deliver_advances _ world).trace.mem (returned _ rfl))
      (List.getElem?_eq_none_iff.mp unfilled) hstores

/-- However a run ends, its end is told as it is: its locks keep out everything else. -/
theorem Ends.tells {fuel : Nat} {gathered : Except Stop (Except ResolutionError (List Argument))}
    (ends : Ends (Session.handler fuel) layer key source context world gathered result after)
    (hfed : key ∈ layer.scope.fedBy source)
    (locked : ∀ site ∈ layer.scope.locks source, site ∈ world.held)
    (empty : world.memory.filled.find? (layer.scope.site key) = none) :
    Tells layer key source (world.nextRun layer.scope source) world result after := by
  have hbody (arguments : List Argument) : world.Stores layer.scope source []
      (Engine.run (Session.handler fuel)
        (source.generator.body (world.nextRun layer.scope source) arguments)
        (world.enterBody layer.scope source arguments)).2 :=
    .of_grows ((World.Grows.enterBody world layer.scope source arguments).trans
      (run_grows (Session.handler_grows fuel) _ _)) locked
  cases ends with
  | unsupplied => exact .stopped (.nothing rfl)
  | refused => exact finish_tells hfed (fun _ h => by cases h) empty
  | @broken arguments stop _ body =>
    have hnothing := hbody arguments
    rw [body] at hnothing
    exact .stopped hnothing
  | @returned arguments yield last body =>
    have hnothing := hbody arguments
    rw [body] at hnothing
    have hreturned : world.Stores layer.scope source [] (last.emit (.returned layer.scope.id
        source.place (world.nextRun layer.scope source) yield)) := hnothing.of_same rfl
    refine .after_nothing hreturned (finish_tells hfed ?_ ((hreturned.unchanged hfed).trans empty))
    intro products h
    obtain rfl := Except.ok.inj h
    exact List.mem_cons_self

end Resolution

namespace Session

open Resolution

/-- The end of a run tells what the run has stored. Whatever bodies do and hand over, and at whatever
moment a run is begun: when the run is said to have failed, it has stored nothing, unless its body
handed over fewer products than it takes to reach the type that was asked for, and then it has stored
these; when the run is said to have finished, it has stored its products, and that of the type that
was asked for is among them. So if the body hands over a product for each output, then a run that is
said to have failed has stored nothing, and one that is said to have finished has left no slot of its
generator empty. -/
theorem ends_tell_what_is_stored {world : World} (arises : Arises world) {layer : Layer}
    (known : layer ∈ world.built) {fuel : Nat} {key : Key} {chain : Chain} {context : Context}
    {source : Registered} {inquiries : List Inquiry}
    {gathered : Except Stop (Except ResolutionError (List Argument))} {between after : World}
    {result : Except Stop Answer}
    (starts : Starts layer key chain context world source inquiries gathered between)
    (answers : ∀ inquiry ∈ inquiries,
      Resolves fuel layer inquiry.key (layer.scope.frame key source :: chain) context
        inquiry.before inquiry.result inquiry.after)
    (ends : Ends (handler (fuel + 1)) layer key source context between gathered result after) :
    let run := between.nextRun layer.scope source
    Tells layer key source run world result after ∧
    ((∀ products,
        .returned layer.scope.id source.place run (.products products) ∈ after.trace →
          products.length = source.generator.outputs.length) →
      (∀ error, result = .ok (.error error) → ∀ output ∈ layer.scope.fedBy source,
        after.memory.filled.find? (layer.scope.site output) =
          world.memory.filled.find? (layer.scope.site output)) ∧
      ∀ value, result = .ok (.ok value) → ∀ output ∈ layer.scope.fedBy source,
        after.memory.filled.find? (layer.scope.site output) ≠ none) := by
  intro run
  have hosts : world.Hosts layer := ⟨arises.accountable.1, known⟩
  obtain ⟨eager, cyclic, slot, -⟩ := starts.slot
  have hfed := (hosts.1.sound layer known).mem_fedBy_of_slot slot
  have hlocked : ∀ site ∈ layer.scope.locks source,
      site ∈ (world.start layer.scope key source chain).held :=
    fun _ hsite => List.mem_append_left _ hsite
  have hgrows : (world.start layer.scope key source chain).Grows between :=
    starts.gathers.chain .refl .trans fun inquiry hinquiry => (answers inquiry hinquiry).grows
  have hbegun : world.Stores layer.scope source [] (world.start layer.scope key source chain) :=
    .nothing rfl
  have hnothing := hbegun.after_nothing (.of_grows hgrows hlocked)
  have htells : Tells layer key source run between result after :=
    ends.tells hfed (fun site hsite => hgrows.held ▸ hlocked site hsite)
      ((hnothing.unchanged hfed).trans starts.empty)
  have hfull := (htells.after_nothing hnothing).of_full (Scope.mem_fedBy.mp hfed).1
  exact ⟨htells.after_nothing hnothing, hfull⟩

/-- A generator whose body hands over a product of the first of its types alone, and one whose body
hands over both. -/
def terse : Registered :=
  ⟨0, "terse", "make_short", [], [⟨"A"⟩, ⟨"B"⟩], fun _ _ => .done (.products [⟨⟨"A"⟩, "a"⟩])⟩

def ample : Registered :=
  ⟨1, "ample", "make_full", [], [⟨"C"⟩, ⟨"D"⟩], fun _ _ =>
    .done (.products [⟨⟨"C"⟩, "c"⟩, ⟨⟨"D"⟩, "d"⟩])⟩

def pairedLayer : Layer :=
  { scope :=
      { id := 1, label := none, locked := false
        slots := ⟨[(⟨"A"⟩, .generated terse false false), (⟨"B"⟩, .generated terse false false),
          (⟨"C"⟩, .generated ample false false), (⟨"D"⟩, .generated ample false false)]⟩
        bindings := {}, overridable := [], settings := {}, observers := [.recorder "log"] }
    outer := [] }

def pairedOutputs : World :=
  (step 1 {} (.build "app" none [.observe (.recorder "log"),
    .register (.generator terse.generator false), .register (.generator ample.generator false)])).2

theorem pairedOutputs_built : pairedOutputs.built = [pairedLayer] := by rfl

theorem pairedOutputs_starts (key : Key) (source : Registered)
    (slot : pairedLayer.scope.slots.find? key = some (.generated source false false))
    (parameters : source.generator.parameters = []) :
    Starts pairedLayer key [] .background pairedOutputs source [] (.ok (.ok []))
      (pairedOutputs.start pairedLayer.scope key source []) where
  slot := ⟨false, false, slot, rfl⟩
  empty := rfl
  unlocked := by
    have held : pairedOutputs.held = [] := rfl
    simp [held]
  gathers := by
    rw [parameters]
    exact .done

def returnedWorld (key : Key) (source : Registered) (yield : Yield) : World :=
  ((pairedOutputs.start pairedLayer.scope key source []).enterBody pairedLayer.scope source []).emit
    (.returned 1 source.place 1 yield)

theorem returnedWorld_ends (key : Key) (source : Registered) {yield : Yield}
    (body : source.generator.body 1 [] = .done yield) :
    Ends (handler 1) pairedLayer key source .background
      (pairedOutputs.start pairedLayer.scope key source []) (.ok (.ok []))
      (.ok (finish pairedLayer key source .background (.ok yield)
        (returnedWorld key source yield)).1)
      (finish pairedLayer key source .background (.ok yield)
        (returnedWorld key source yield)).2 := by
  have hrun : (pairedOutputs.start pairedLayer.scope key source []).nextRun pairedLayer.scope
      source = 1 := rfl
  refine .returned ?_
  rw [hrun, body]
  rfl

theorem ends_tell_what_is_stored_ample :
    Arises pairedOutputs ∧ pairedLayer ∈ pairedOutputs.built ∧ ∃ between after,
      Starts pairedLayer ⟨"D"⟩ [] .background pairedOutputs ample [] (.ok (.ok [])) between ∧
      Ends (handler 1) pairedLayer ⟨"D"⟩ ample .background between (.ok (.ok []))
        (.ok (.ok ⟨⟨"D"⟩, "d"⟩)) after ∧
      Tells pairedLayer ⟨"D"⟩ ample 1 pairedOutputs (.ok (.ok ⟨⟨"D"⟩, "d"⟩)) after ∧
      ∀ output ∈ pairedLayer.scope.fedBy ample,
        after.memory.filled.find? (pairedLayer.scope.site output) ≠ none := by
  have arises : Arises pairedOutputs := Reachable.arises (.step .initial _ _)
  have known : pairedLayer ∈ pairedOutputs.built := pairedOutputs_built ▸ List.mem_cons_self
  have starts := pairedOutputs_starts ⟨"D"⟩ ample rfl rfl
  have ends := returnedWorld_ends ⟨"D"⟩ ample rfl
  obtain ⟨htells, hfull⟩ := ends_tell_what_is_stored arises known starts (by simp) ends
  have hproducts : ((finish pairedLayer ⟨"D"⟩ ample .background
      (.ok (.products [⟨⟨"C"⟩, "c"⟩, ⟨⟨"D"⟩, "d"⟩]))
      (returnedWorld ⟨"D"⟩ ample (.products [⟨⟨"C"⟩, "c"⟩, ⟨⟨"D"⟩, "d"⟩]))).2.trace.all fun
        | .returned _ _ _ (.products products) => products.length == 2
        | _ => true) = true := by decide +kernel
  refine ⟨arises, known, _, _, starts, ends, htells, (hfull fun products h => ?_).2 _ rfl⟩
  exact beq_iff_eq.mp (List.all_eq_true.mp hproducts _ h)

/-- A run is said to have failed and has filled a slot, or to have finished with a slot left empty,
depending on what was asked for. -/
theorem report_belies_what_is_stored :
    Reachable pairedOutputs ∧ pairedLayer ∈ pairedOutputs.built ∧
    pairedOutputs.memory.filled.find? ⟨1, ⟨"A"⟩⟩ = none ∧
    (∃ after, resolver 1 pairedLayer ⟨"B"⟩ [] .background pairedOutputs =
        (.ok (.error (.mismatch ⟨"B"⟩)), after) ∧
      .noticed (.recorder "log") (.failed 1 ⟨"B"⟩ "make_short() -> (A, B)" (.mismatch ⟨"B"⟩)) ∈
        after.trace ∧
      after.memory.filled.find? ⟨1, ⟨"A"⟩⟩ = some ⟨⟨"A"⟩, "a"⟩) ∧
    ∃ after, resolver 1 pairedLayer ⟨"A"⟩ [] .background pairedOutputs =
        (.ok (.ok ⟨⟨"A"⟩, "a"⟩), after) ∧
      .noticed (.recorder "log") (.finished 1 ⟨"A"⟩ "make_short() -> (A, B)") ∈ after.trace ∧
      after.memory.filled.find? ⟨1, ⟨"B"⟩⟩ = none := by
  have resolves (key : Key)
      (slot : pairedLayer.scope.slots.find? key = some (.generated terse false false)) :
      Resolves 1 pairedLayer key [] .background pairedOutputs _ _ :=
    .run (pairedOutputs_starts key terse slot rfl) (by simp) (returnedWorld_ends key terse rfl)
  refine ⟨.step .initial _ _, pairedOutputs_built ▸ List.mem_cons_self, rfl, ?_, ?_⟩
  · exact ⟨_, (resolves ⟨"B"⟩ rfl).eq_resolver, by decide +kernel, rfl⟩
  · exact ⟨_, (resolves ⟨"A"⟩ rfl).eq_resolver, by decide +kernel, rfl⟩

end Session

end LayerGraph
