import LayerGraph.Proofs.Confluence

/-! Eager slots are filled in any order.

Each eager slot is filled by a request of its own, whose failure or panic is only noted. If outside
code behaves the same on each run, what the requests leave behind does not depend on which of them
comes first. -/

namespace LayerGraph

def Layer.closing (layer : Layer) (name : String) (world : World) : World :=
  let ended := if layer.races then world.emit .raceEnded else world
  { ended with layers := ended.layers.set name layer }

/-- A layer whose eager slots have been filled has been built, and gets its name. -/
theorem Session.built_of_filled {fuel : Nat} {world filled : World} {layer : Layer}
    {base : Option String} {directives : List (Directive Command)}
    (assembled : (Builder.ofDirectives world.layers base directives).assemble world.memory
      world.nextLayer = .ok layer)
    (startable : layer.startRefusal? = none)
    (h : layer.eagerKeys.forM (layer.warmUp (resolver fuel))
      ((Builder.ofDirectives world.layers base directives).opening layer world) =
        (.ok (), filled)) (name : String) :
    perform (resolver fuel) (.build name base directives) world =
      (.ok (.built layer.scope.id), layer.closing name filled) := by
  have hfill : layer.fillEager (resolver fuel)
      ((Builder.ofDirectives world.layers base directives).opening layer world) =
        (.ok (), filled) := by
    unfold Layer.fillEager
    rw [startable]
    exact h
  have hcommission : (Builder.ofDirectives world.layers base directives).commission
      (resolver fuel) layer world =
        (.ok (), if layer.races then filled.emit .raceEnded else filled) := by
    rw [Builder.commission_apply, Engine.bind_apply_ok hfill]
    split <;> rfl
  have hbuild : (Builder.ofDirectives world.layers base directives).build (resolver fuel) world =
      (.ok (.ok layer), if layer.races then filled.emit .raceEnded else filled) := by
    rw [build_of_assembled assembled, Engine.bind_apply_ok hcommission]
    rfl
  unfold perform Engine.catchPanic
  rw [carryOut, Engine.get_bind_apply, Engine.bind_apply_ok hbuild]
  rfl

theorem Finds.stopped {layer : Layer} {supplies : List Supply} {findings : List Finding}
    {gathered : Except Stop (Except ResolutionError (List Argument))}
    (finds : Finds layer supplies findings gathered) {stop : Stop} (h : gathered = .error stop) :
    ∃ finding ∈ findings, finding.result = .error stop := by
  induction finds with
  | done => cases h
  | @given supply rest findings gathered unasked willing further ih =>
    cases gathered with
    | error other => exact ih h
    | ok collected => cases h
  | declined => cases h
  | @lost supply rest finding asked lost =>
    obtain ⟨key, result, kept⟩ := finding
    cases result with
    | error other =>
      obtain rfl := Except.error.inj h
      exact ⟨_, List.mem_cons_self, rfl⟩
    | ok answer => cases h
  | @found supply rest finding findings argument gathered asked found further ih =>
    cases gathered with
    | error other =>
      obtain ⟨finding, hfinding, hresult⟩ := ih h
      exact ⟨finding, List.mem_cons_of_mem _ hfinding, hresult⟩
    | ok collected => cases h

theorem Comes.panics {base : Memory} {layer : Layer} {key : Key} {result : Except Stop Answer}
    {kept : List Keepsake} (comes : Comes base layer key result kept) {stop : Stop}
    (h : result = .error stop) : ∃ message, stop = .panic message := by
  induction comes generalizing stop with
  | stored | cyclic | bound | unbacked | imported | missing => cases h
  | @run scope outer key source eager findings gathered result kept slot empty finds answers
      concludes ih =>
    subst h
    rcases gathered with other | (error | arguments)
    · cases concludes
      obtain ⟨finding, hfinding, hresult⟩ := finds.stopped rfl
      exact ih finding hfinding hresult
    · cases concludes
    · obtain ⟨ending, -, hharvest⟩ := Option.map_eq_some_iff.mp concludes
      rcases ending with message | (products | output | message) <;> cases hharvest
      exact ⟨message, rfl⟩
  | @cast scope outer key binding backing found kept result more noSlot interface unbound behind
      source concludes ih =>
    subst h
    rcases found with other | (error | value)
    · cases concludes
      exact ih rfl
    · cases concludes
    · unfold Binding.conclude? at concludes
      dsimp only at concludes
      split at concludes
      · obtain ⟨ending, -, hcast⟩ := Option.map_eq_some_iff.mp concludes
        cases ending with
        | ok payload => cases hcast
        | error message =>
          cases hcast
          exact ⟨message, rfl⟩
      · cases concludes
  | outward noSlot noInterface unknown answer ih => exact ih h

/-- A value that two coherent memories have in one place is the same. -/
theorem Coherent.agree {base memory memory' : Memory} {top : Layer}
    (coherent : Coherent base top memory) (coherent' : Coherent base top memory')
    (proper : top.Proper) {shelf : Shelf} {site : Site} {value value' : Value}
    (h : (memory.shelf shelf).find? site = some value)
    (h' : (memory'.shelf shelf).find? site = some value') : value = value' := by
  rcases coherent.told shelf site value h with hbase | ⟨layer, kept, hwithin, hid, hcomes, -⟩
  · have hsame := (coherent'.grown.shelf shelf site value hbase).symm.trans h'
    exact Option.some.inj hsame
  · rcases coherent'.told shelf site value' h' with
      hbase' | ⟨layer', kept', hwithin', hid', hcomes', -⟩
    · have hsame := (coherent.grown.shelf shelf site value' hbase').symm.trans h
      exact (Option.some.inj hsame).symm
    · obtain rfl := proper.eq_of_id hwithin hwithin' (hid.trans hid'.symm)
      exact Except.ok.inj (Except.ok.inj (hcomes.unique hcomes').1)

/-- All code of a layer and around it behaves the same on each run, generators fetch what they
declare, and there is room for all of them below one another. -/
structure Layer.Dependable (layer : Layer) : Prop where
  constant : ∀ scope ∈ layer.ancestry, scope.Constant
  declares : ∀ scope ∈ layer.ancestry, scope.Declares
  deep : ∀ scope ∈ layer.ancestry, layer.generatorCount ≤ scope.settings.maxDepth

namespace Layer

variable {resolve : Resolver} {layer : Layer} {key : Key} {world after : World}

def warming (layer : Layer) (world : World) : World :=
  { world with thread := some layer.scope.settings.threadName }

theorem warmUp_apply (resolve : Resolver) (layer : Layer) (key : Key) (world : World) :
    layer.warmUp resolve key world =
      match layer.request resolve key .background (layer.warming world) with
      | (.ok (.ok _), after) =>
        (.ok (), { after.emit (.logged (.eagerResolved layer.scope.id key)) with
          thread := world.thread })
      | (.ok (.error failure), after) =>
        (.ok (), { after.emit (.logged (.eagerFailed layer.scope.id key failure.error)) with
          thread := world.thread })
      | (.error (.panic message), after) =>
        (.ok (), { after.emit (.logged (.eagerPanicked layer.scope.id key message)) with
          thread := world.thread })
      | (.error stop, after) => (.error stop, { after with thread := world.thread }) := by
  unfold warmUp Engine.onThread Engine.catchPanic warming
  dsimp only
  rw [Engine.bind_apply]
  rcases layer.request resolve key .background
    { world with thread := some layer.scope.settings.threadName } with
    ⟨(_ | _ | _) | (_ | _), after⟩ <;> rfl

/-- If its request comes to an answer or to a panic, the filling of an eager slot comes to its end
with what the request has left. -/
theorem warmUp_of_resolved
    {result : Except Stop Answer}
    (h : resolve layer key [] .background
      ((layer.warming world).emit (.asked (layer.scope.site key))) = (result, after))
    (panics : ∀ stop, result = .error stop → ∃ message, stop = .panic message) :
    (layer.warmUp resolve key world).1 = .ok () ∧
      (layer.warmUp resolve key world).2.memory = after.memory ∧
      (layer.warmUp resolve key world).2.held = after.held := by
  rw [warmUp_apply, request_eq h]
  rcases result with stop | (error | value)
  · obtain ⟨message, rfl⟩ := panics stop rfl
    exact ⟨rfl, rfl, rfl⟩
  · exact ⟨rfl, rfl, rfl⟩
  · exact ⟨rfl, rfl, rfl⟩

end Layer

namespace Session

variable {base : Memory} {layer : Layer} {fuel : Nat} {world : World}

theorem warmUp_comes (dependable : layer.Dependable) (proper : layer.Proper)
    (nesting : layer.generatorCount ≤ fuel) (unheld : world.held = [])
    (coherent : Coherent base layer world.memory) (key : Key) :
    (layer.warmUp (resolver fuel) key world).1 = .ok () ∧
      (layer.warmUp (resolver fuel) key world).2.held = [] ∧
      Coherent base layer (layer.warmUp (resolver fuel) key world).2.memory ∧
      ∃ result kept, Comes base layer key result kept ∧
        (layer.warmUp (resolver fuel) key world).2.memory = world.memory.keepAll kept := by
  let asked := (layer.warming world).emit (.asked (layer.scope.site key))
  have clear : Chain.Clear [] layer fuel layer key :=
    ⟨proper, List.suffix_rfl, .nil layer key, .nil layer, nesting⟩
  have held : asked.HeldBy [] := .of_held_nil unheld
  have hresolves := Resolution.resolver_resolves fuel layer key [] .background asked
  obtain ⟨kept, hcomes, hmemory, hafter⟩ := hresolves.comes rfl dependable.constant
    dependable.declares dependable.deep clear held coherent
  have happly : resolver fuel layer key [] .background asked =
      ((resolver fuel layer key [] .background asked).1,
        (resolver fuel layer key [] .background asked).2) := rfl
  obtain ⟨hresult, hkept, hheld⟩ :=
    Layer.warmUp_of_resolved happly fun stop h => hcomes.panics h
  refine ⟨hresult, hheld.trans (hresolves.grows.held.trans unheld), ?_, _, kept, hcomes, ?_⟩
  · rw [hkept]
    exact hafter
  · rw [hkept]
    exact hmemory

/-- Eager slots filled one after the other leave behind what each of their types comes to. -/
theorem warmUps_come (dependable : layer.Dependable) (proper : layer.Proper)
    (nesting : layer.generatorCount ≤ fuel) (order : List Key) (unheld : world.held = [])
    (coherent : Coherent base layer world.memory) :
    (order.forM (layer.warmUp (resolver fuel)) world).1 = .ok () ∧
      Coherent base layer (order.forM (layer.warmUp (resolver fuel)) world).2.memory ∧
      ∀ shelf site,
        ((∃ value, ((order.forM (layer.warmUp (resolver fuel)) world).2.memory.shelf shelf).find?
            site = some value) ↔
          (∃ value, (world.memory.shelf shelf).find? site = some value) ∨
          ∃ key ∈ order, ∃ result kept value, Comes base layer key result kept ∧
            ⟨shelf, site, value⟩ ∈ kept) := by
  induction order generalizing world with
  | nil => exact ⟨rfl, coherent, fun shelf site => by simp [List.forM]⟩
  | cons key rest ih =>
    obtain ⟨hdone, hheld, hcoherent, result, kept, hcomes, hmemory⟩ :=
      warmUp_comes dependable proper nesting unheld coherent key
    obtain ⟨hrest, hlast, hfound⟩ := ih hheld hcoherent
    have hforM : (key :: rest).forM (layer.warmUp (resolver fuel)) world =
        rest.forM (layer.warmUp (resolver fuel))
          (layer.warmUp (resolver fuel) key world).2 :=
      Engine.bind_apply_ok (Prod.ext hdone rfl)
    rw [hforM]
    refine ⟨hrest, hlast, fun shelf site => ?_⟩
    rw [hfound, hmemory]
    constructor
    · rintro (⟨value, hvalue⟩ | ⟨other, hother, further⟩)
      · rcases world.memory.find?_keepAll hvalue with hbefore | ⟨-, hkept⟩
        · exact .inl ⟨value, hbefore⟩
        · exact .inr ⟨key, List.mem_cons_self, result, kept, value, hcomes, hkept⟩
      · exact .inr ⟨other, List.mem_cons_of_mem _ hother, further⟩
    · rintro (⟨value, hvalue⟩ | ⟨other, hother, result', kept', value, hcomes', hkept⟩)
      · exact .inl ⟨value, (Memory.Extends.keepAll _ kept).shelf shelf site value hvalue⟩
      · rcases List.mem_cons.mp hother with rfl | hmem
        · obtain ⟨-, rfl⟩ := hcomes.unique hcomes'
          exact .inl (Memory.covers_keepAll world.memory kept _ hkept)
        · exact .inr ⟨other, hmem, result', kept', value, hcomes', hkept⟩

/-- In whatever order eager slots are filled, all slots, interfaces and imports have the same values
in the end. -/
theorem warmUps_agree {other : World} (dependable : layer.Dependable) (proper : layer.Proper)
    (nesting : layer.generatorCount ≤ fuel) {order order' : List Key} (perm : order'.Perm order)
    (unheld : world.held = []) (unheld' : other.held = []) (same : other.memory = world.memory)
    (shelf : Shelf) (site : Site) :
    ((order'.forM (layer.warmUp (resolver fuel)) other).2.memory.shelf shelf).find? site =
      ((order.forM (layer.warmUp (resolver fuel)) world).2.memory.shelf shelf).find? site := by
  obtain ⟨-, hcoherent, hfound⟩ := warmUps_come dependable proper nesting order unheld
    (.refl world.memory layer)
  have hsame : Coherent world.memory layer other.memory := by
    rw [same]
    exact .refl world.memory layer
  obtain ⟨-, hcoherent', hfound'⟩ :=
    warmUps_come dependable proper nesting order' unheld' hsame
  have hiff := (hfound' shelf site).trans (Iff.trans ?_ (hfound shelf site).symm)
  · refine Option.ext fun value => ⟨fun h => ?_, fun h => ?_⟩
    · obtain ⟨found, hother⟩ := hiff.mp ⟨value, h⟩
      rwa [hcoherent'.agree hcoherent proper h hother]
    · obtain ⟨found, hother⟩ := hiff.mpr ⟨value, h⟩
      rwa [hcoherent.agree hcoherent' proper h hother]
  · rw [same]
    refine or_congr_right ?_
    constructor
    · rintro ⟨key, hkey, further⟩
      exact ⟨key, perm.mem_iff.mp hkey, further⟩
    · rintro ⟨key, hkey, further⟩
      exact ⟨key, perm.mem_iff.mpr hkey, further⟩

end Session

end LayerGraph
