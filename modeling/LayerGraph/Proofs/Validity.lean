import LayerGraph.Proofs.Assembly
import LayerGraph.Proofs.Growth

/-! What is true of every world that commands lead to.

A world is valid when its layers are sound and told apart by their ids, and when its memory is about
them. Commands keep worlds valid, and what requests keep of valid worlds, commands keep. -/

namespace LayerGraph

namespace Scope

variable {scope : Scope} {key output : Key} {source : Registered} {eager cyclic : Bool}

theorem mem_fedBy : output ∈ scope.fedBy source ↔ output ∈ source.generator.outputs ∧
    ∃ other eager cyclic, scope.slots.find? output = some (.generated other eager cyclic) ∧
      other.place = source.place := by
  unfold fedBy
  rw [List.mem_filter, Resolution.any_isFedBy]

theorem Sound.mem_fedBy_of_slot (sound : scope.Sound)
    (slot : scope.slots.find? key = some (.generated source eager cyclic)) :
    key ∈ scope.fedBy source :=
  mem_fedBy.mpr ⟨sound.produced key source eager cyclic slot, source, eager, cyclic, slot, rfl⟩

theorem Sound.slot_of_mem_fedBy (sound : scope.Sound)
    (slot : scope.slots.find? key = some (.generated source eager cyclic))
    (hfed : output ∈ scope.fedBy source) :
    scope.slots.find? output = some (.generated source eager cyclic) := by
  obtain ⟨-, other, early, flagged, hslot, hplace⟩ := mem_fedBy.mp hfed
  obtain ⟨rfl, rfl, rfl⟩ := sound.placed _ _ _ _ _ _ _ _ hslot slot hplace
  exact hslot

theorem mem_locks {site : Site} :
    site ∈ scope.locks source ↔ ∃ output ∈ scope.fedBy source, site = scope.site output := by
  unfold locks
  rw [List.mem_map]
  constructor
  · intro h
    obtain ⟨output, hmem, rfl⟩ := h
    exact ⟨output, List.mem_mergeSort.mp hmem, rfl⟩
  · intro h
    obtain ⟨output, hmem, rfl⟩ := h
    exact ⟨output, List.mem_mergeSort.mpr hmem, rfl⟩

end Scope

/-- The layers of a world, and the places in them that its memory is about. -/
structure World.Valid (world : World) : Prop where
  named : ∀ name layer, world.layers.find? name = some layer → layer ∈ world.built
  ids : ∀ layer ∈ world.built, layer.scope.id < world.nextLayer
  unique : ∀ layer ∈ world.built, ∀ other ∈ world.built, layer.scope.id = other.scope.id →
    layer = other
  sound : ∀ layer ∈ world.built, layer.scope.Sound
  outer : ∀ layer ∈ world.built, ∀ parent further, layer.outer = parent :: further →
    ⟨parent, further⟩ ∈ world.built
  filled : ∀ site value, world.memory.filled.find? site = some value →
    ∃ layer ∈ world.built, layer.scope.id = site.layer ∧ ∃ source eager cyclic,
      layer.scope.slots.find? site.key = some (.generated source eager cyclic)
  bound : ∀ site value, world.memory.bound.find? site = some value →
    ∃ layer ∈ world.built, layer.scope.id = site.layer ∧ layer.scope.slots.find? site.key = none ∧
      ∃ binding, layer.scope.bindings.find? site.key = some binding
  imported : ∀ site value, world.memory.imported.find? site = some value →
    ∃ layer ∈ world.built, layer.scope.id = site.layer ∧ layer.scope.owns site.key = false

namespace World.Valid

theorem initial : World.Valid {} := by
  refine ⟨?_, ?_, ?_, ?_, ?_, ?_, ?_, ?_⟩
  all_goals
    intros
    contradiction

theorem of_same {world after : World} (valid : world.Valid) (layers : after.layers = world.layers)
    (built : after.built = world.built) (nextLayer : after.nextLayer = world.nextLayer)
    (memory : after.memory = world.memory) : after.Valid where
  named := layers ▸ built ▸ valid.named
  ids := built ▸ nextLayer ▸ valid.ids
  unique := built ▸ valid.unique
  sound := built ▸ valid.sound
  outer := built ▸ valid.outer
  filled := memory ▸ built ▸ valid.filled
  bound := memory ▸ built ▸ valid.bound
  imported := memory ▸ built ▸ valid.imported

variable {world : World}

theorem emit (valid : world.Valid) (event : Event) : (world.emit event).Valid :=
  valid.of_same rfl rfl rfl rfl

theorem emitAll (valid : world.Valid) (events : List Event) : (world.emitAll events).Valid :=
  valid.of_same rfl rfl rfl rfl

theorem sidestep {after : World} (valid : world.Valid) (sidesteps : world.Sidesteps after) :
    after.Valid where
  named name layer h := sidesteps.built ▸ valid.named name layer (sidesteps.named name layer h)
  ids := sidesteps.built ▸ sidesteps.nextLayer ▸ valid.ids
  unique := sidesteps.built ▸ valid.unique
  sound := sidesteps.built ▸ valid.sound
  outer := sidesteps.built ▸ valid.outer
  filled := sidesteps.memory ▸ sidesteps.built ▸ valid.filled
  bound := sidesteps.memory ▸ sidesteps.built ▸ valid.bound
  imported := sidesteps.memory ▸ sidesteps.built ▸ valid.imported

theorem name (valid : world.Valid) {layer : Layer} (known : layer ∈ world.built) (name : String) :
    World.Valid { world with layers := world.layers.set name layer } := by
  refine { valid with named := fun other found h => ?_ }
  have h : (world.layers.set name layer).find? other = some found := h
  rw [Table.find?_set] at h
  split at h
  · obtain rfl := Option.some.inj h
    exact known
  · exact valid.named other found h

theorem enter (valid : world.Valid) {builder : Builder} {layer : Layer}
    (parent : ∀ parent, builder.parent = some parent → parent ∈ world.built)
    (assembled : builder.assemble world.memory world.nextLayer = .ok layer) :
    (world.enter layer).Valid := by
  have hsound := Builder.assemble_sound assembled
  obtain ⟨-, -, -, -, -, hid, houter, -⟩ := Builder.assemble_inv assembled
  have hold {other : Layer} (h : other ∈ world.built) : other ∈ (world.enter layer).built :=
    List.mem_cons_of_mem _ h
  refine ⟨fun name other h => hold (valid.named name other h), ?_, ?_, ?_, ?_, ?_, ?_, ?_⟩
  · intro other hother
    change other.scope.id < world.nextLayer + 1
    rcases List.mem_cons.mp hother with rfl | hmem
    · omega
    · have hlt := valid.ids other hmem
      omega
  · intro first hfirst second hsecond hsame
    rcases List.mem_cons.mp hfirst with rfl | hmem
    · rcases List.mem_cons.mp hsecond with rfl | hmem'
      · rfl
      · have hlt := valid.ids second hmem'
        omega
    · rcases List.mem_cons.mp hsecond with rfl | hmem'
      · have hlt := valid.ids first hmem
        omega
      · exact valid.unique first hmem second hmem' hsame
  · intro other hother
    rcases List.mem_cons.mp hother with rfl | hmem
    · exact hsound
    · exact valid.sound other hmem
  · intro other hother scope further hscope
    rcases List.mem_cons.mp hother with rfl | hmem
    · rw [houter] at hscope
      unfold Builder.outer at hscope
      split at hscope
      · cases hscope
      · next found hfound =>
        obtain ⟨rfl, rfl⟩ := List.cons.inj hscope
        exact hold (parent found hfound)
    · exact hold (valid.outer other hmem scope further hscope)
  · intro site value h
    obtain ⟨found, hfound, hrest⟩ := valid.filled site value h
    exact ⟨found, hold hfound, hrest⟩
  · intro site value h
    obtain ⟨found, hfound, hrest⟩ := valid.bound site value h
    exact ⟨found, hold hfound, hrest⟩
  · intro site value h
    obtain ⟨found, hfound, hrest⟩ := valid.imported site value h
    exact ⟨found, hold hfound, hrest⟩

theorem ancestor (valid : world.Valid) {layer : Layer} (known : layer ∈ world.built)
    {scope : Scope} (h : scope ∈ layer.outer) :
    ∃ outer, ⟨scope, outer⟩ ∈ world.built ∧ outer.length < layer.outer.length := by
  obtain ⟨inner, outer⟩ := layer
  induction outer generalizing inner with
  | nil => cases h
  | cons parent further ih =>
    have hparent := valid.outer _ known _ _ rfl
    rcases List.mem_cons.mp h with rfl | hmem
    · exact ⟨further, hparent, Nat.lt_succ_self _⟩
    · obtain ⟨outer, hbuilt, hlt⟩ := ih parent hparent hmem
      exact ⟨outer, hbuilt, Nat.lt_succ_of_lt hlt⟩

theorem built_of_mem_ancestry (valid : world.Valid) {layer : Layer} (known : layer ∈ world.built)
    {scope : Scope} (h : scope ∈ layer.ancestry) : ∃ outer, ⟨scope, outer⟩ ∈ world.built := by
  rcases List.mem_cons.mp h with rfl | hmem
  · exact ⟨layer.outer, known⟩
  · obtain ⟨outer, hbuilt, -⟩ := valid.ancestor known hmem
    exact ⟨outer, hbuilt⟩

theorem id_notMem_outer (valid : world.Valid) {layer : Layer} (known : layer ∈ world.built) :
    layer.scope.id ∉ layer.outer.map Scope.id := by
  intro h
  obtain ⟨scope, hscope, hid⟩ := List.mem_map.mp h
  obtain ⟨outer, hbuilt, hlt⟩ := valid.ancestor known hscope
  obtain rfl := valid.unique _ hbuilt _ known hid
  exact Nat.lt_irrefl _ hlt

end World.Valid

structure Layer.Proper (layer : Layer) : Prop where
  sound : ∀ scope ∈ layer.ancestry, scope.Sound
  distinct : (layer.ancestry.map Scope.id).Nodup

theorem World.Valid.proper {world : World} (valid : world.Valid) {layer : Layer}
    (known : layer ∈ world.built) : layer.Proper := by
  refine ⟨fun scope hscope => ?_, ?_⟩
  · obtain ⟨outer, hbuilt⟩ := valid.built_of_mem_ancestry known hscope
    exact valid.sound _ hbuilt
  · obtain ⟨scope, outer⟩ := layer
    induction outer generalizing scope with
    | nil => exact List.nodup_singleton _
    | cons parent further ih =>
      have hparent := ih parent (valid.outer _ known parent further rfl)
      exact List.nodup_cons.mpr ⟨valid.id_notMem_outer known, hparent⟩

namespace Session

open Engine (Keeps)

/-- A property of worlds that commands keep, given that requests of layers that have been built
keep it as long as the commands given meanwhile do. -/
structure Invariant (holds : World → Prop) : Prop where
  valid : ∀ {world}, holds world → world.Valid
  sidestep : ∀ {world after}, holds world → world.Sidesteps after → holds after
  note : ∀ {world event}, holds world → event.IsIncidental → holds (world.emit event)
  name : ∀ {world layer} name, holds world → layer ∈ world.built →
    holds { world with layers := world.layers.set name layer }
  enter : ∀ {world layer} {builder : Builder}, holds world →
    (∀ parent, builder.parent = some parent → parent ∈ world.built) →
    builder.assemble world.memory world.nextLayer = .ok layer → holds (world.enter layer)
  request : ∀ {fuel}, (∀ less ≤ fuel, ∀ command, Keeps holds (handler less command)) →
    ∀ {layer} key context {world}, layer ∈ world.built → holds world →
      holds (layer.request (resolver fuel) key context world).2

namespace Invariant

variable {holds : World → Prop} {fuel : Nat}

theorem course (invariant : Invariant holds)
    (h : ∀ less ≤ fuel, ∀ command, Keeps holds (handler less command)) {start world : World}
    {seen : List Layer} (course : Course fuel start seen world) (hstart : holds start) :
    holds world ∧ ∀ layer ∈ seen, layer ∈ world.built := by
  induction course with
  | rest => exact ⟨hstart, by simp⟩
  | sidestep course sidesteps ih =>
    exact ⟨invariant.sidestep ih.1 sidesteps, sidesteps.built ▸ ih.2⟩
  | note course incidental ih => exact ⟨invariant.note ih.1 incidental, ih.2⟩
  | look course named ih =>
    refine ⟨ih.1, fun other hother => ?_⟩
    rcases List.mem_cons.mp hother with rfl | hmem
    · exact (invariant.valid ih.1).named _ _ named
    · exact ih.2 other hmem
  | name course met ih => exact ⟨invariant.name _ ih.1 (ih.2 _ met), ih.2⟩
  | enter course parent assembled ih =>
    refine ⟨invariant.enter ih.1 (fun other h => ih.2 other (parent other h)) assembled, ?_⟩
    intro other hother
    rcases List.mem_cons.mp hother with rfl | hmem
    · exact List.mem_cons_self
    · exact List.mem_cons_of_mem _ (ih.2 other hmem)
  | @request seen between layer key context course met ih =>
    refine ⟨invariant.request h key context (ih.2 layer met) ih.1, fun other hother => ?_⟩
    exact (request_grows fuel layer key context between).built.mem (ih.2 other hother)

theorem handler (invariant : Invariant holds) (fuel : Nat) (command : Command) :
    Keeps holds (handler fuel command) := by
  have hbelow : ∀ less ≤ fuel, ∀ command, Keeps holds (Session.handler less command) := by
    induction fuel with
    | zero =>
      intro less hless command
      obtain rfl := Nat.le_zero.mp hless
      exact .throw _
    | succ fuel ih =>
      intro less hless command
      rcases Nat.le_succ_iff.mp hless with hle | rfl
      · exact ih less hle command
      · intro world hworld
        obtain ⟨seen, course⟩ := perform_course fuel command world
        exact (invariant.course ih course hworld).1
  exact hbelow fuel (Nat.le_refl fuel) command

theorem perform (invariant : Invariant holds) (fuel : Nat) (command : Command) :
    Keeps holds (perform (resolver fuel) command) :=
  invariant.handler (fuel + 1) command

end Invariant

end Session

namespace Resolution

open Engine (Keeps)

variable {layer : Layer} {key : Key} {source : Registered} {context : Context}
  {world after : World}

theorem Gathers.keeps (holds : World → Prop) {supplies : List Supply} {inquiries : List Inquiry}
    {gathered : Except Stop (Except ResolutionError (List Argument))}
    (gathers : Gathers layer context supplies inquiries world gathered after)
    (h : ∀ inquiry ∈ inquiries, holds inquiry.before → holds inquiry.after)
    (hworld : holds world) : holds after :=
  gathers.chain (R := fun before after => holds before → holds after) (fun _ h => h)
    (fun hfirst hsecond h => hsecond (hfirst h)) h hworld

theorem Gathers.before (holds : World → Prop) {supplies : List Supply} {inquiries : List Inquiry}
    {gathered : Except Stop (Except ResolutionError (List Argument))}
    (gathers : Gathers layer context supplies inquiries world gathered after)
    (h : ∀ inquiry ∈ inquiries, holds inquiry.before → holds inquiry.after)
    (hworld : holds world) : ∀ inquiry ∈ inquiries, holds inquiry.before := by
  induction gathers with
  | done => simp
  | given unasked willing further ih => exact ih h hworld
  | declined unasked refusal => simp
  | stopped asked =>
    intro inquiry hinquiry
    obtain rfl := List.mem_singleton.mp hinquiry
    exact hworld
  | refused asked unacceptable =>
    intro inquiry hinquiry
    obtain rfl := List.mem_singleton.mp hinquiry
    exact hworld
  | found asked acceptable further ih =>
    intro inquiry hinquiry
    rcases List.mem_cons.mp hinquiry with rfl | hmem
    · exact hworld
    · have hbetween := h _ List.mem_cons_self hworld
      exact ih (fun other hother => h other (List.mem_cons_of_mem _ hother)) hbetween inquiry hmem

theorem Gathers.onward {supplies : List Supply} {inquiries : List Inquiry}
    {gathered : Except Stop (Except ResolutionError (List Argument))}
    (gathers : Gathers layer context supplies inquiries world gathered after)
    (h : ∀ inquiry ∈ inquiries, inquiry.before.Grows inquiry.after) :
    ∀ inquiry ∈ inquiries, inquiry.after.Grows after := by
  induction gathers with
  | done => simp
  | given unasked willing further ih => exact ih h
  | declined unasked refusal => simp
  | stopped asked =>
    intro inquiry hinquiry
    obtain rfl := List.mem_singleton.mp hinquiry
    exact .refl _
  | refused asked unacceptable =>
    intro inquiry hinquiry
    obtain rfl := List.mem_singleton.mp hinquiry
    exact .refl _
  | found asked acceptable further ih =>
    have hrest := fun other hother => h other (List.mem_cons_of_mem _ hother)
    intro inquiry hinquiry
    rcases List.mem_cons.mp hinquiry with rfl | hmem
    · exact further.chain World.Grows.refl (fun h h' => h.trans h') hrest
    · exact ih hrest inquiry hmem

/-- What the entry into the body, the body and the end of a run keep, all of it keeps. -/
theorem Ends.keeps (holds : World → Prop) {perform : Command → Engine Reply}
    {gathered : Except Stop (Except ResolutionError (List Argument))} {result : Except Stop Answer}
    (ends : Ends perform layer key source context world gathered result after)
    (henter : ∀ arguments, holds world → holds (world.enterBody layer.scope source arguments))
    (hbody : ∀ run arguments,
      Keeps holds (Engine.run perform (source.generator.body run arguments)))
    (hreturned : ∀ between run yield, holds between →
      holds (between.emit (.returned layer.scope.id source.place run yield)))
    (hfinish : ∀ result between, holds between →
      holds (finish layer key source context result between).2)
    (hworld : holds world) : holds after := by
  cases ends with
  | unsupplied => exact hworld
  | refused => exact hfinish _ _ hworld
  | @broken arguments stop _ body =>
    have hafter := hbody (world.nextRun layer.scope source) arguments
      (world.enterBody layer.scope source arguments) (henter arguments hworld)
    rwa [body] at hafter
  | @returned arguments yield between body =>
    have hafter := hbody (world.nextRun layer.scope source) arguments
      (world.enterBody layer.scope source arguments) (henter arguments hworld)
    rw [body] at hafter
    exact hfinish _ _ (hreturned _ _ _ hafter)

theorem Binds.keeps (holds : World → Prop) {perform : Command → Engine Reply} {scope : Scope}
    {binding : Binding} {value : Value} {result : Except Stop Answer}
    (binds : Binds perform scope key binding value world result after)
    (henter : ∀ payload, holds world → holds (world.enterCast (scope.site key) binding payload))
    (hcast : ∀ call payload, Keeps holds (Engine.run perform (binding.cast.apply call payload)))
    (hbind : ∀ payload between, holds between → holds (between.bind scope key binding payload))
    (hworld : holds world) : holds after := by
  cases binds with
  | mistyped other => exact hworld
  | broken typed cast =>
    have hafter := hcast (world.nextCast (scope.site key)) value.payload
      (world.enterCast (scope.site key) binding value.payload) (henter value.payload hworld)
    rwa [cast] at hafter
  | bound typed cast =>
    have hafter := hcast (world.nextCast (scope.site key)) value.payload
      (world.enterCast (scope.site key) binding value.payload) (henter value.payload hworld)
    rw [cast] at hafter
    exact hbind _ _ hafter

theorem foldl_deliver_keeps (holds : World → Prop) {deliveries : List (Site × Value)}
    (hdeliver : ∀ delivery ∈ deliveries, ∀ between, holds between → holds (between.deliver delivery))
    (hworld : holds world) : holds (deliveries.foldl World.deliver world) := by
  induction deliveries generalizing world with
  | nil => exact hworld
  | cons delivery rest ih =>
    refine ih (fun other hother => ?_) (hdeliver delivery List.mem_cons_self world hworld)
    exact hdeliver other (List.mem_cons_of_mem _ hother)

theorem outcome_keeps (holds : World → Prop) {result : Except ResolutionError Yield}
    (hdeliver : ∀ products, result = .ok (.products products) →
      ∀ delivery ∈ deliveries layer.scope source products, ∀ between,
        holds between → holds (between.deliver delivery))
    (hworld : holds world) : holds (outcome layer key source context result world).2 := by
  rcases @outcome_world layer key source context result world with h | ⟨products, hproducts, h⟩
  · rwa [h]
  · rw [h]
    exact foldl_deliver_keeps holds (hdeliver products hproducts) hworld

theorem finish_keeps (holds : World → Prop) {result : Except ResolutionError Yield}
    (hdeliver : ∀ products, result = .ok (.products products) →
      ∀ delivery ∈ deliveries layer.scope source products, ∀ between,
        holds between → holds (between.deliver delivery))
    (hreport : ∀ answer between, holds between →
      holds (between.report layer.scope key source answer))
    (hworld : holds world) : holds (finish layer key source context result world).2 :=
  hreport _ _ (outcome_keeps holds hdeliver hworld)

end Resolution

namespace World.Valid

variable {world : World} {layer : Layer} {key : Key} {source : Registered}

theorem deliver (valid : world.Valid) (known : layer ∈ world.built) {products : List Value}
    {delivery : Site × Value} (h : delivery ∈ Resolution.deliveries layer.scope source products) :
    (world.deliver delivery).Valid := by
  obtain ⟨output, -, hfed, hsite⟩ := Resolution.mem_deliveries.mp h
  unfold World.deliver
  split
  · exact valid.emit _
  · have hfill : World.Valid
        { world with memory := world.memory.fill delivery.1 delivery.2 } := by
      refine { valid with filled := fun site value hfilled => ?_ }
      have hfilled : (world.memory.filled.add delivery.1 delivery.2).find? site = some value :=
        hfilled
      rw [Table.find?_add] at hfilled
      split at hfilled
      · next heq =>
        obtain ⟨other, eager, cyclic, hslot, -⟩ := Resolution.any_isFedBy.mp hfed
        rw [heq, hsite]
        exact ⟨layer, known, rfl, other, eager, cyclic, hslot⟩
      · exact valid.filled site value hfilled
    exact hfill.emit _

theorem bind (valid : world.Valid) (known : layer ∈ world.built)
    (noSlot : layer.scope.slots.find? key = none) {binding : Binding}
    (interface : layer.scope.bindings.find? key = some binding) (payload : String) :
    (world.bind layer.scope key binding payload).Valid := by
  refine { valid with bound := fun site value hbound => ?_ }
  have hbound : (world.memory.bound.add (layer.scope.site key) ⟨key, payload⟩).find? site =
    some value := hbound
  rw [Table.find?_add] at hbound
  split at hbound
  · next heq =>
    rw [heq]
    exact ⟨layer, known, rfl, noSlot, binding, interface⟩
  · exact valid.bound site value hbound

theorem hoist (valid : world.Valid) (known : layer ∈ world.built)
    (unowned : layer.scope.owns key = false) (value : Value) :
    (world.hoist layer.scope key value).Valid := by
  unfold World.hoist
  split
  · refine { valid with imported := fun site found himported => ?_ }
    have himported : (world.memory.imported.add (layer.scope.site key) value).find? site =
      some found := himported
    rw [Table.find?_add] at himported
    split at himported
    · next heq =>
      rw [heq]
      exact ⟨layer, known, rfl, unowned⟩
    · exact valid.imported site found himported
  · exact valid

theorem report (valid : world.Valid) (scope : Scope) (answer : Answer) :
    (world.report scope key source answer).Valid := by
  cases answer <;> exact (valid.emit _).emitAll _

end World.Valid

def World.Hosts (layer : Layer) (world : World) : Prop := world.Valid ∧ layer ∈ world.built

namespace World.Hosts

variable {world after : World} {layer : Layer} {key : Key} {source : Registered}

theorem grow (hosts : world.Hosts layer) (grows : world.Grows after) (valid : after.Valid) :
    after.Hosts layer :=
  ⟨valid, grows.built.mem hosts.2⟩

theorem of_same (hosts : world.Hosts layer) (layers : after.layers = world.layers)
    (built : after.built = world.built) (nextLayer : after.nextLayer = world.nextLayer)
    (memory : after.memory = world.memory) : after.Hosts layer :=
  ⟨hosts.1.of_same layers built nextLayer memory, built ▸ hosts.2⟩

theorem emit (hosts : world.Hosts layer) (event : Event) : (world.emit event).Hosts layer :=
  hosts.of_same rfl rfl rfl rfl

theorem sidestep (hosts : world.Hosts layer) (sidesteps : world.Sidesteps after) :
    after.Hosts layer :=
  ⟨hosts.1.sidestep sidesteps, sidesteps.built ▸ hosts.2⟩

theorem start (hosts : world.Hosts layer) (key : Key) (source : Registered) (chain : Chain) :
    (world.start layer.scope key source chain).Hosts layer :=
  hosts.of_same rfl rfl rfl rfl

theorem enterBody (hosts : world.Hosts layer) (arguments : List Argument) :
    (world.enterBody layer.scope source arguments).Hosts layer :=
  hosts.of_same rfl rfl rfl rfl

theorem enterCast (hosts : world.Hosts layer) (site : Site) (binding : Binding)
    (payload : String) : (world.enterCast site binding payload).Hosts layer :=
  hosts.of_same rfl rfl rfl rfl

theorem delegate (hosts : world.Hosts layer) (scope : Scope) (key : Key) (parent : Scope) :
    (world.delegate scope key parent).Hosts layer :=
  hosts.of_same rfl rfl rfl rfl

theorem parent {scope parent : Scope} {further : List Scope}
    (hosts : world.Hosts ⟨scope, parent :: further⟩) : world.Hosts ⟨parent, further⟩ :=
  ⟨hosts.1, hosts.1.outer _ hosts.2 _ _ rfl⟩

theorem deliver (hosts : world.Hosts layer) {products : List Value} {delivery : Site × Value}
    (h : delivery ∈ Resolution.deliveries layer.scope source products) :
    (world.deliver delivery).Hosts layer :=
  ⟨hosts.1.deliver hosts.2 h, (World.Advances.deliver world delivery).built.mem hosts.2⟩

theorem report (hosts : world.Hosts layer) (scope : Scope) (key : Key) (source : Registered)
    (answer : Answer) : (world.report scope key source answer).Hosts layer :=
  hosts.grow (World.Grows.report _ _ _ _ _) (hosts.1.report _ answer)

theorem finish (hosts : world.Hosts layer) (key : Key) (source : Registered) (context : Context)
    (result : Except ResolutionError Yield) :
    (Resolution.finish layer key source context result world).2.Hosts layer := by
  refine Resolution.finish_keeps (World.Hosts layer) ?_ ?_ hosts
  · exact fun products _ delivery hdelivery between hbetween => hbetween.deliver hdelivery
  · exact fun answer between hbetween => hbetween.report _ _ _ answer

theorem run {α : Type} {fuel : Nat} {act : Act Command α}
    (h : Engine.Keeps World.Valid (Engine.run (Session.handler fuel) act)) :
    Engine.Keeps (World.Hosts layer) (Engine.run (Session.handler fuel) act) :=
  fun world hosts =>
    hosts.grow (Resolution.run_grows (Session.handler_grows fuel) act world) (h world hosts.1)

end World.Hosts

namespace Resolution

open Engine (Keeps)

theorem Resolves.valid_of_keeps {fuel : Nat} {layer : Layer} {key : Key} {chain : Chain}
    {context : Context} {world after : World} {result : Except Stop Answer}
    (keeps : ∀ less ≤ fuel, ∀ {α : Type} (act : Act Command α),
      Keeps World.Valid (Engine.run (Session.handler less) act))
    (resolves : Resolves fuel layer key chain context world result after)
    (hosts : world.Hosts layer) : after.Valid := by
  induction resolves with
  | stored => exact hosts.1.emit _
  | exhausted => exact hosts.1
  | obstructed => exact (hosts.1.emit _).emitAll _
  | blocked => exact hosts.1.emit _
  | @run fuel scope outer key chain context world source inquiries gathered between result after
      starts answers ends ih =>
    have hgathers : between.Hosts ⟨scope, outer⟩ := by
      refine starts.gathers.keeps _ (fun inquiry hinquiry hbefore => ?_) (hosts.start _ _ _)
      refine hbefore.grow (answers inquiry hinquiry).grows ?_
      exact ih inquiry hinquiry (fun less hless => keeps less (Nat.le_succ_of_le hless)) hbefore
    have hends : after.Hosts ⟨scope, outer⟩ :=
      ends.keeps _ (fun arguments h => h.enterBody arguments)
        (fun _ _ => World.Hosts.run (keeps _ (Nat.le_refl _) _))
        (fun _ _ _ h => h.emit _) (fun result _ h => h.finish key source context result) hgathers
    exact hends.1.of_same rfl rfl rfl rfl
  | bound => exact hosts.1
  | unbacked => exact hosts.1
  | unsourced noSlot interface unbound behind answer lost ih => exact ih keeps hosts
  | @cast fuel scope outer key chain context world binding backing value between result after
      noSlot interface unbound behind answer binds ih =>
    have hbinds : after.Hosts ⟨scope, outer⟩ :=
      binds.keeps _ (fun payload h => h.enterCast _ _ payload)
        (fun _ _ => World.Hosts.run (keeps _ (Nat.le_refl _) _))
        (fun payload between h => ⟨h.1.bind h.2 noSlot interface payload, h.2⟩)
        (hosts.grow answer.grows (ih keeps hosts))
    exact hbinds.1
  | imported => exact hosts.1
  | missing => exact hosts.1
  | unavailable unowned unknown answer lost ih =>
    exact ih keeps (hosts.delegate _ _ _).parent
  | @delegated fuel scope parent further key chain context world value between unowned unknown
      answer ih =>
    have hdelegate := hosts.delegate scope key parent
    have hbetween := hdelegate.grow answer.grows (ih keeps hdelegate.parent)
    exact hbetween.1.hoist hbetween.2 unowned value

end Resolution

namespace World.Valid

open Session

theorem conclude {world : World} (valid : world.Valid) (layer : Layer) (key : Key)
    (result : Except Stop Answer) : (world.conclude layer key result).Valid := by
  rcases result with stop | (error | value)
  · exact valid
  · exact (valid.emit _).emit _
  · exact valid.emit _

theorem run {α : Type} {perform : Command → Engine Reply}
    (h : ∀ command, Engine.Keeps World.Valid (perform command)) (act : Act Command α) :
    Engine.Keeps World.Valid (Engine.run perform act) :=
  .outside (fun valid sidesteps => valid.sidestep sidesteps) (fun valid _ => valid.emit _) h act

theorem invariant : Invariant World.Valid where
  valid := id
  sidestep valid sidesteps := valid.sidestep sidesteps
  note valid _ := valid.emit _
  name name valid known := valid.name known name
  enter valid parent assembled := valid.enter parent assembled
  request := by
    intro fuel keeps layer key context world known valid
    rw [Layer.request_world]
    have hosts : (world.emit (.asked (layer.scope.site key))).Hosts layer :=
      ⟨valid.emit _, known⟩
    refine conclude (Resolution.Resolves.valid_of_keeps ?_
      (Resolution.resolver_resolves fuel layer key [] context _) hosts) layer key _
    exact fun less hless {α} act => run (keeps less hless) act

end World.Valid

theorem Session.Invariant.of_valid {holds : World → Prop}
    (sidestep : ∀ {world after}, holds world → world.Sidesteps after → holds after)
    (note : ∀ {world event}, holds world → event.IsIncidental → holds (world.emit event))
    (name : ∀ {world layer} name, holds world → layer ∈ world.built →
      holds { world with layers := world.layers.set name layer })
    (enter : ∀ {world : World} {layer} {builder : Builder}, world.Valid → holds world →
      (∀ parent, builder.parent = some parent → parent ∈ world.built) →
      builder.assemble world.memory world.nextLayer = .ok layer → holds (world.enter layer))
    (request : ∀ {fuel}, (∀ less ≤ fuel, ∀ command,
        Engine.Keeps (fun world => world.Valid ∧ holds world) (Session.handler less command)) →
      ∀ {layer} key context {world : World}, world.Hosts layer → holds world →
        holds (layer.request (resolver fuel) key context world).2) :
    Invariant (fun world => world.Valid ∧ holds world) where
  valid h := h.1
  sidestep h sidesteps := ⟨h.1.sidestep sidesteps, sidestep h.2 sidesteps⟩
  note h incidental := ⟨h.1.emit _, note h.2 incidental⟩
  name other h known := ⟨h.1.name known other, name other h.2 known⟩
  enter h parent assembled := ⟨h.1.enter parent assembled, enter h.1 h.2 parent assembled⟩
  request := by
    intro fuel keeps layer key context world known h
    exact ⟨World.Valid.invariant.request (fun less _ => World.Valid.invariant.handler less) key
      context known h.1, request keeps key context ⟨h.1, known⟩ h.2⟩

theorem Resolution.Resolves.valid {fuel : Nat} {layer : Layer} {key : Key} {chain : Chain}
    {context : Context} {world after : World} {result : Except Stop Answer}
    (resolves : Resolves fuel layer key chain context world result after)
    (hosts : world.Hosts layer) : after.Valid :=
  resolves.valid_of_keeps
    (fun less _ => World.Valid.run (World.Valid.invariant.handler less)) hosts

theorem Resolution.Resolves.hosts {fuel : Nat} {layer other : Layer} {key : Key} {chain : Chain}
    {context : Context} {world after : World} {result : Except Stop Answer}
    (resolves : Resolves fuel layer key chain context world result after)
    (hosts : world.Hosts layer) (also : world.Hosts other) : after.Hosts other :=
  also.grow resolves.grows (resolves.valid hosts)

/-- What the inquiries of a run keep of valid worlds holds before each of them and after them all. -/
theorem Resolution.Starts.hosted (holds : World → Prop) {fuel : Nat} {layer : Layer} {key : Key}
    {chain : Chain} {context : Context} {world between : World} {source : Registered}
    {inquiries : List Inquiry} {gathered : Except Stop (Except ResolutionError (List Argument))}
    (starts : Starts layer key chain context world source inquiries gathered between)
    (answers : ∀ inquiry ∈ inquiries,
      Resolves fuel layer inquiry.key (layer.scope.frame key source :: chain) context
        inquiry.before inquiry.result inquiry.after)
    (h : ∀ inquiry ∈ inquiries, inquiry.before.Hosts layer → holds inquiry.before →
      holds inquiry.after)
    (hosts : world.Hosts layer) (hstart : holds (world.start layer.scope key source chain)) :
    (∀ inquiry ∈ inquiries, inquiry.before.Hosts layer ∧ holds inquiry.before) ∧
      between.Hosts layer ∧ holds between := by
  have hstep : ∀ inquiry ∈ inquiries, inquiry.before.Hosts layer ∧ holds inquiry.before →
      inquiry.after.Hosts layer ∧ holds inquiry.after := fun inquiry hinquiry hbefore =>
    ⟨(answers inquiry hinquiry).hosts hbefore.1 hbefore.1,
      h inquiry hinquiry hbefore.1 hbefore.2⟩
  have hbegin := And.intro (hosts.start key source chain) hstart
  exact ⟨starts.gathers.before (fun world => world.Hosts layer ∧ holds world) hstep hbegin,
    starts.gathers.keeps (fun world => world.Hosts layer ∧ holds world) hstep hbegin⟩

theorem Engine.Keeps.hosts {α : Type} {holds : World → Prop} {fuel : Nat} {act : Act Command α}
    (h : Keeps (fun world => world.Valid ∧ holds world) (Engine.run (Session.handler fuel) act))
    (layer : Layer) :
    Keeps (fun world => world.Hosts layer ∧ holds world)
      (Engine.run (Session.handler fuel) act) := by
  intro world hworld
  have hafter := h world ⟨hworld.1.1, hworld.2⟩
  exact ⟨hworld.1.grow (Resolution.run_grows (Session.handler_grows fuel) act world) hafter.1,
    hafter.2⟩

namespace Session

/-- The worlds that commands lead to from an empty one, with any depth of nesting for each. -/
inductive Reachable : World → Prop
  | initial : Reachable {}
  | step {world : World} (reachable : Reachable world) (fuel : Nat) (command : Command) :
      Reachable (step fuel world command).2

variable {holds : World → Prop} {world : World}

/-- What holds of the empty world and is kept by commands holds of every reachable world. -/
theorem Reachable.keeps (reachable : Reachable world) (invariant : Invariant holds)
    (hinitial : holds {}) : holds world := by
  induction reachable with
  | initial => exact hinitial
  | step reachable fuel command ih => exact invariant.perform fuel command _ ih

theorem Reachable.valid (reachable : Reachable world) : world.Valid :=
  reachable.keeps World.Valid.invariant .initial

/-- Between commands no locks are held. -/
theorem Reachable.held {world : World} (reachable : Reachable world) : world.held = [] := by
  induction reachable with
  | initial => rfl
  | step reachable fuel command ih => exact (perform_grows fuel command _).held.trans ih

end Session

end LayerGraph
