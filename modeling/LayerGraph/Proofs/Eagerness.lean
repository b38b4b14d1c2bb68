import LayerGraph.Proofs.Deferring
import LayerGraph.Proofs.Indifference

/-! Eager slots and the requests that fill them.

To build a layer with eager slots is to build it without marks and to make a request for each of them.
So a slot whose generator fails or panics stays pending, and if code behaves the same on each run it
makes no difference which slot comes first. -/

namespace LayerGraph

def Entry.isEager : Entry Command → Bool
  | .generator _ eager => eager
  | _ => false

/-- The types whose last entry is an eager generator, in the order in which they were first
registered. -/
def Builder.eagerKeys (builder : Builder) : List Key :=
  (builder.entries.flatMap Entry.keys).eraseDups.filter fun key =>
    (builder.entries.reverse.find? (Entry.registers key)).any Entry.isEager

theorem Layer.eagerKeys_eq {layer : Layer} (distinct : layer.scope.slots.keys.Nodup) :
    layer.eagerKeys = layer.scope.slots.keys.filter fun key =>
      (layer.scope.slots.find? key).any Backing.isEager := by
  unfold Layer.eagerKeys Table.keys
  rw [List.filter_map]
  refine congrArg (List.map _) (List.filter_congr fun entry hentry => ?_)
  change _ = (layer.scope.slots.find? entry.1).any Backing.isEager
  rw [Table.find?_of_mem_entries distinct hentry]
  rfl

namespace Builder

variable {builder : Builder} {memory : Memory} {id : Nat} {layer : Layer}

theorem Describes.isEager {scope : Scope} (describes : builder.Describes scope) {key : Key}
    (registered : ∃ entry ∈ builder.entries, key ∈ entry.keys) :
    (scope.slots.find? key).any Backing.isEager =
      (builder.entries.reverse.find? (Entry.registers key)).any Entry.isEager := by
  cases hlast : builder.entries.reverse.find? (Entry.registers key) with
  | none =>
    obtain ⟨entry, hentry, hkey⟩ := registered
    exact absurd (Entry.registers_iff.mpr hkey)
      (List.find?_eq_none.mp hlast entry (List.mem_reverse.mpr hentry))
  | some last =>
    obtain ⟨hregisters, later, before, hsplit, hlater⟩ := List.find?_eq_some_iff_append.mp hlast
    have split : builder.entries = before.reverse ++ last :: later.reverse := by
      rw [← List.reverse_reverse builder.entries, hsplit]
      simp
    have unregistered : ∀ other ∈ later.reverse, key ∉ other.keys := by
      intro other hother hkey
      have hnot := hlater other (List.mem_reverse.mp hother)
      rw [Entry.registers_iff.mpr hkey] at hnot
      cases hnot
    have hkey := Entry.registers_iff.mp hregisters
    cases last with
    | value type payload =>
      obtain rfl := List.mem_singleton.mp hkey
      rw [describes.value _ _ _ _ split unregistered]
      rfl
    | generator maker eager =>
      obtain ⟨index, hindex⟩ := List.mem_iff_getElem?.mp hkey
      obtain ⟨cyclic, slot, -⟩ :=
        describes.generated _ maker eager _ index key split hindex unregistered
      rw [slot]
      rfl
    | absent type => cases hkey
    | interface type source cast => cases hkey

theorem assemble_eagerKeys (h : builder.assemble memory id = .ok layer) :
    layer.eagerKeys = builder.eagerKeys := by
  have describes := assemble_describes h
  have distinct : layer.scope.slots.keys.Nodup := describes.keys ▸ nodup_eraseDups _
  rw [Layer.eagerKeys_eq distinct, describes.keys]
  refine List.filter_congr fun key hkey => describes.isEager ?_
  obtain ⟨entry, hentry, hkey⟩ := List.mem_flatMap.mp (List.mem_eraseDups.mp hkey)
  exact ⟨entry, hentry, hkey⟩

theorem eager_slot (assembled : builder.assemble memory id = .ok layer) {key : Key}
    (h : key ∈ layer.eagerKeys) :
    ∃ source cyclic, layer.scope.slots.find? key = some (.generated source true cyclic) := by
  have distinct : layer.scope.slots.keys.Nodup :=
    (assemble_describes assembled).keys ▸ nodup_eraseDups _
  obtain ⟨⟨key, backing⟩, hentry, rfl⟩ := List.mem_map.mp h
  obtain ⟨hentry, heager⟩ := List.mem_filter.mp hentry
  have slot := Table.find?_of_mem_entries distinct hentry
  cases backing with
  | value stored => cases heager
  | generated source eager cyclic =>
    obtain rfl : eager = true := heager
    exact ⟨source, cyclic, slot⟩

end Builder

namespace Session

variable {world : World} {layer : Layer} {fuel : Nat} {name : String} {base : Option String}
  {directives : List (Directive Command)}

theorem step_events_of_trace {command : Command} {newer : List Event}
    (h : (step fuel world command).2.trace = newer ++ world.trace) :
    (step fuel world command).1.events = newer.reverse := by
  have htrace := step_events fuel world command
  rw [h, List.append_cancel_right_eq] at htrace
  rw [htrace, List.reverse_reverse]

theorem warmUp_calm (resolve : Resolver) (key : Key) (world : World) (message : String) :
    (layer.warmUp resolve key world).1 ≠ .error (.panic message) := by
  rw [Layer.warmUp_apply]
  rcases layer.request resolve key .background (layer.warming world) with
    ⟨(_ | _ | _) | (_ | _), after⟩ <;> intro h <;> cases h

theorem warmUps_calm (resolve : Resolver) (keys : List Key) (world : World) (message : String) :
    (keys.forM (layer.warmUp resolve) world).1 ≠ .error (.panic message) := by
  induction keys generalizing world with
  | nil => exact fun h => nomatch h
  | cons key rest ih =>
    have hcalm : (layer.warmUp resolve key world).1 ≠ .error (.panic message) :=
      warmUp_calm resolve key world message
    change ((layer.warmUp resolve key >>= fun _ => rest.forM (layer.warmUp resolve)) world).1 ≠ _
    rw [Engine.bind_apply]
    revert hcalm
    rcases layer.warmUp resolve key world with ⟨_ | _, after⟩
    · exact id
    · exact fun _ => ih after

theorem skippings_trace (builder : Builder) (world : World) :
    ∃ entries : List LogEntry,
      (world.emitAll (builder.skipped.map fun key => .logged (.skippingNil key))).trace =
        entries.map .logged ++ world.trace := by
  refine ⟨(builder.skipped.map .skippingNil).reverse, ?_⟩
  rw [List.map_reverse, List.map_map]
  rfl

theorem opening_trace (builder : Builder) (serial : layer.races = false) (world : World) :
    ∃ entries : List LogEntry,
      (builder.opening layer world).trace = entries.map .logged ++ world.trace := by
  obtain ⟨entries, htrace⟩ := skippings_trace builder world
  refine ⟨.layerBuilt layer.scope.id (layer.scope.label.getD "") layer.scope.slots.size
    layer.parentId? :: entries, ?_⟩
  unfold Builder.opening
  rw [serial]
  exact congrArg (List.cons _) htrace

/-- A build whose eager slots cannot be filled, or not to the end, comes to no layer. -/
theorem build_of_stopped (assembled : (Builder.ofDirectives world.layers base directives).assemble
      world.memory world.nextLayer = .ok layer) {stop : Stop} {after : World}
    (h : layer.fillEager (resolver fuel)
      ((Builder.ofDirectives world.layers base directives).opening layer world) =
        (.error stop, after)) :
    perform (resolver fuel) (.build name base directives) world =
      match stop with
      | .panic message => (.ok (.panicked message), after)
      | stop => (.error stop, after) := by
  have hcommission : (Builder.ofDirectives world.layers base directives).commission
      (resolver fuel) layer world = (.error stop, after) := by
    rw [Builder.commission_apply, Engine.bind_apply, h]
  unfold perform Engine.catchPanic
  rw [carryOut, Engine.get_bind_apply, Engine.bind_apply, build_of_assembled assembled,
    Engine.bind_apply, hcommission]
  cases stop <;> rfl

/-- A build that comes to no layer is refused, or its eager slots cannot be filled. It only writes to
the log. -/
theorem build_unbuilt {reply : Reply} {after : World}
    (h : perform (resolver fuel) (.build name base directives) world = (.ok reply, after))
    (unbuilt : ∀ id, reply ≠ .built id) :
    ∃ entries : List LogEntry, after.trace = entries.map .logged ++ world.trace := by
  cases assembled : (Builder.ofDirectives world.layers base directives).assemble world.memory
      world.nextLayer with
  | error error =>
    unfold perform Engine.catchPanic at h
    rw [carryOut, Engine.get_bind_apply, Engine.bind_apply_ok (build_of_refused assembled)] at h
    obtain rfl := (Prod.mk.inj h).2
    exact skippings_trace _ world
  | ok layer =>
    cases startable : layer.startRefusal? with
    | none =>
      have hcalm (message : String) : (layer.eagerKeys.forM (layer.warmUp (resolver fuel))
          ((Builder.ofDirectives world.layers base directives).opening layer world)).1 ≠
            .error (.panic message) :=
        warmUps_calm (resolver fuel) layer.eagerKeys _ message
      rcases filled : layer.eagerKeys.forM (layer.warmUp (resolver fuel))
        ((Builder.ofDirectives world.layers base directives).opening layer world) with
        ⟨stop | _, last⟩
      · have hstopped : layer.fillEager (resolver fuel)
            ((Builder.ofDirectives world.layers base directives).opening layer world) =
              (.error stop, last) := by
          unfold Layer.fillEager
          rw [startable]
          exact filled
        rw [build_of_stopped assembled hstopped] at h
        cases stop with
        | panic message => exact absurd (congrArg Prod.fst filled) (hcalm message)
        | blocked => cases h
        | outOfFuel => cases h
      · rw [built_of_filled assembled startable filled] at h
        cases h
        exact absurd rfl (unbuilt _)
    | some message =>
      have hstopped : layer.fillEager (resolver fuel)
          ((Builder.ofDirectives world.layers base directives).opening layer world) =
            (.error (.panic message),
              (Builder.ofDirectives world.layers base directives).opening layer world) := by
        unfold Layer.fillEager
        rw [startable]
        rfl
      have serial : layer.races = false := by
        unfold Layer.races
        rw [startable, Option.isNone_some, Bool.and_false]
      rw [build_of_stopped assembled hstopped] at h
      obtain rfl := (Prod.mk.inj h).2
      exact opening_trace _ serial world

/-- A request of silent code stops in no other way than by a panic, given nesting for all
generators. -/
theorem request_panics (silent : ∀ scope ∈ layer.ancestry, scope.Silent) (proper : layer.Proper)
    (unheld : world.held = []) (nesting : layer.generatorCount < fuel) {key : Key}
    {context : Context} {stop : Stop} {after : World}
    (h : layer.request (resolver fuel) key context world = (.error stop, after)) :
    ∃ message, stop = .panic message := by
  have hresolves := Resolution.resolver_resolves fuel layer key [] context
    (world.emit (.asked (layer.scope.site key)))
  rcases hanswer : resolver fuel layer key [] context (world.emit (.asked (layer.scope.site key)))
    with ⟨stop' | answer, between⟩
  · rw [hanswer] at hresolves
    obtain ⟨message, rfl⟩ := hresolves.panics silent proper unheld nesting
    unfold Layer.request at h
    rw [Engine.emit_bind_apply, Engine.bind_apply, hanswer] at h
    cases h
    exact ⟨message, rfl⟩
  · obtain ⟨snapshot, hanswered⟩ := Layer.request_answered (congrArg Prod.fst hanswer)
    rw [h] at hanswered
    cases hanswered

theorem unmarked_races (layer : Layer) : layer.unmarked.races = false := by
  unfold Layer.races
  rw [layer.eagerKeys_unmarked]
  rfl

theorem opening_unmarked_trace (builder : Builder) (serial : layer.races = false) (world : World) :
    (builder.unmarked.opening layer.unmarked world).trace = (builder.opening layer world).trace := by
  have hsize : layer.unmarked.scope.slots.size = layer.scope.slots.size := List.length_map _
  unfold Builder.opening
  rw [serial, unmarked_races, hsize, builder.skipped_unmarked]
  rfl

theorem build_unmarked (assembled : (Builder.ofDirectives world.layers base directives).assemble
    world.memory world.nextLayer = .ok layer) (name : String) :
    perform (resolver fuel) (.build name base (directives.map Directive.unmarked)) world =
      (.ok (.built layer.scope.id),
        { world.enter layer.unmarked with
          layers := world.layers.set name layer.unmarked
          trace := ((Builder.ofDirectives world.layers base directives).unmarked.opening
            layer.unmarked world).trace }) := by
  have hbuilder := Builder.ofDirectives_unmarked world.layers base directives
  have hassembled : (Builder.ofDirectives world.layers base
      (directives.map Directive.unmarked)).assemble world.memory world.nextLayer =
        .ok layer.unmarked := by
    rw [hbuilder, Builder.assemble_unmarked, assembled]
    rfl
  have hstartable : layer.unmarked.startRefusal? = none := by
    unfold Layer.startRefusal?
    rw [layer.eagerKeys_unmarked]
    rfl
  have hfilled : layer.unmarked.eagerKeys.forM (layer.unmarked.warmUp (resolver fuel))
      ((Builder.ofDirectives world.layers base (directives.map Directive.unmarked)).opening
        layer.unmarked world) =
          (.ok (), (Builder.ofDirectives world.layers base directives).unmarked.opening
            layer.unmarked world) := by
    rw [layer.eagerKeys_unmarked, hbuilder]
    rfl
  rw [built_of_filled hassembled hstartable hfilled]
  unfold Layer.closing
  rw [unmarked_races, if_neg Bool.false_ne_true, Builder.opening_eq]
  rfl

/-- The first eager slot of a new layer begins to be filled in a world that knows the layer, with no
slot locked. -/
theorem warming_opening (reachable : Reachable world)
    (assembled : (Builder.ofDirectives world.layers base directives).assemble world.memory
      world.nextLayer = .ok layer) :
    let opened := (Builder.ofDirectives world.layers base directives).opening layer world
    (layer.warming opened).Hosts layer ∧ opened.held = [] := by
  have hvalid : (world.enter layer).Valid :=
    reachable.valid.enter (ofDirectives_parent_built reachable.valid) assembled
  dsimp only
  unfold Layer.warming
  rw [Builder.opening_eq]
  exact ⟨⟨hvalid.of_same rfl rfl rfl rfl, List.mem_cons_self⟩, reachable.held⟩

/-- What a build with a single eager slot comes to, and what it comes to without the mark followed by
a request for the slot. -/
theorem sole_eager_slot (reachable : Reachable world)
    (assembled : (Builder.ofDirectives world.layers base directives).assemble world.memory
      world.nextLayer = .ok layer) (startable : layer.startRefusal? = none) {key : Key}
    (sole : layer.eagerKeys = [key]) (silent : ∀ scope ∈ layer.ancestry, scope.Silent)
    (nesting : layer.generatorCount < fuel) (name : String) :
    ∃ filled bare asked reply entry earlier,
      perform (resolver fuel) (.build name base directives) world =
        (.ok (.built layer.scope.id), filled) ∧
      perform (resolver fuel) (.build name base (directives.map Directive.unmarked)) world =
        (.ok (.built layer.scope.id), bare) ∧
      perform (resolver fuel) (.resolveBatch name [key]) bare = (.ok reply, asked) ∧
      filled.unmarked = asked.unmarked ∧ layer.Outcome key reply entry ∧
      filled.trace = .logged entry :: (earlier ++ world.trace) ∧
      filled.layers.find? name = some layer ∧
      (reply ≠ .batch → filled.memory.filled.find? (layer.scope.site key) = none) := by
  let builder := Builder.ofDirectives world.layers base directives
  let opened := builder.opening layer world
  let bare : World :=
    { world.enter layer.unmarked with
      layers := world.layers.set name layer.unmarked
      trace := (builder.unmarked.opening layer.unmarked world).trace }
  have serial : layer.races = false := by
    unfold Layer.races
    rw [sole]
    rfl
  have hopened : opened = { world.enter layer with trace := opened.trace } :=
    builder.opening_eq layer world
  obtain ⟨hosts, unheld⟩ := warming_opening reachable assembled
  have beside : World.Beside (layer.warming opened) bare (layer.warming opened) bare := by
    have htold : bare.trace = opened.trace := opening_unmarked_trace builder serial world
    unfold Layer.warming
    rw [hopened]
    exact ⟨rfl, rfl, rfl, rfl, rfl, rfl, rfl, rfl, rfl, rfl, rfl, rfl, rfl, rfl,
      congrArg (List.filter _) htold⟩
  have named : bare.layers.find? name = some layer.unmarked := by
    simp [bare, Table.find?_set]
  rcases hrequest : layer.request (resolver fuel) key .background (layer.warming opened) with
    ⟨result, after⟩
  have panics (stop : Stop) (h : result = .error stop) : ∃ message, stop = .panic message := by
    subst h
    have hheld : (layer.warming opened).held = [] := unheld
    exact request_panics silent (hosts.1.proper hosts.2) hheld nesting hrequest
  obtain ⟨asked, reply, entry, hbeside, outcome, hfilled, hasked, hlost⟩ :=
    warmUp_deferred ⟨.inr rfl, silent⟩ beside named hrequest panics
  have hforM : layer.eagerKeys.forM (layer.warmUp (resolver fuel)) opened =
      (.ok (), { after.emit (.logged entry) with thread := opened.thread }) := by
    rw [sole]
    exact Engine.bind_apply_ok hfilled
  obtain ⟨newer, hnewer⟩ : opened.trace <:+ after.trace := by
    have hgrows := request_grows fuel layer key .background (layer.warming opened)
    rw [hrequest] at hgrows
    exact hgrows.trace
  obtain ⟨entries, hentries⟩ := opening_trace builder serial world
  refine ⟨_, bare, asked, reply, entry, newer ++ entries.map .logged,
    built_of_filled assembled startable hforM name, build_unmarked assembled name, hasked, ?_,
    outcome, ?_, ?_, fun lost => ?_⟩
  · refine closing_unmarked hbeside outcome.isOfFilling serial ?_ ?_ ?_
    · rw [hopened]
      rfl
    · rw [hopened]
      exact congrArg (· :: world.built.map Layer.unmarked) layer.unmarked_unmarked
    · rw [hopened]
      rfl
  · unfold Layer.closing
    rw [serial]
    change .logged entry :: after.trace = _
    rw [← hnewer, hentries, List.append_assoc]
  · unfold Layer.closing
    rw [serial]
    simp [Table.find?_set]
  · obtain ⟨source, cyclic, slot⟩ :=
      Builder.eager_slot assembled (sole ▸ List.mem_singleton_self key)
    have hempty := request_fruitless hosts slot hrequest (hlost lost)
    unfold Layer.closing
    rw [serial]
    exact hempty

/-- A request for an empty slot starts its generator, if there is room for it and it is not on a
cycle. -/
theorem resolveBatch_starts (reachable : Reachable world)
    (named : world.layers.find? name = some layer) {key : Key} {source : Registered} {eager : Bool}
    (slot : layer.scope.slots.find? key = some (.generated source eager false))
    (empty : world.memory.filled.find? (layer.scope.site key) = none)
    (room : 0 < layer.scope.settings.maxDepth) (nested : Nat) :
    .logged (.running layer.scope.id key source.generator.signature 1) ∈
      (step (nested + 1) world (.resolveBatch name [key])).1.events := by
  let asked := world.emit (.asked (layer.scope.site key))
  have hosts : asked.Hosts layer :=
    ⟨reachable.valid.emit _, reachable.valid.named name layer named⟩
  have hresolves := Resolution.resolver_resolves (nested + 1) layer key [] .background asked
  obtain ⟨between, hbetween, hafter⟩ := hresolves.starts_generator (Nat.succ_ne_zero nested) hosts
    (reachable.backed.emit _).faithful reachable.held (Layer.owner?_of_slot slot layer.outer) slot
    empty rfl room rfl
  have hrequest : (step (nested + 1) world (.resolveBatch name [key])).2 =
      (layer.request (resolver (nested + 1)) key .background world).2 := by
    change (perform (resolver (nested + 1)) (.resolveBatch name [key]) world).2 = _
    rw [resolveBatch_apply named]
    rcases layer.request (resolver (nested + 1)) key .background world with
      ⟨(_ | _ | _) | (_ | _), last⟩ <;> rfl
  have hlast : (between.start layer.scope key source []).trace <:+
      (layer.request (resolver (nested + 1)) key .background world).2.trace := by
    rw [Layer.request_world]
    exact hafter.trace.trans (World.Grows.conclude _ _ _ _).trace
  obtain ⟨later, hlater⟩ := hlast
  obtain ⟨earlier, hearlier⟩ : world.trace <:+ between.trace :=
    (World.Advances.emit world _).trace.trans hbetween.trace
  let started : List Event := (layer.scope.observers.map
    (Event.noticed · (.started layer.scope.id key source.generator.signature))).reverse
  have htrace : (step (nested + 1) world (.resolveBatch name [key])).2.trace =
      (later ++ .logged (.running layer.scope.id key source.generator.signature 1) ::
        (started ++ .attempted (layer.scope.site key) [] none :: earlier)) ++ world.trace := by
    rw [hrequest, ← hlater]
    change later ++ _ :: (started ++ _ :: between.trace) = _
    rw [← hearlier]
    simp
  rw [step_events_of_trace htrace]
  simp

theorem eager_slots_agree (reachable : Reachable world)
    (assembled : (Builder.ofDirectives world.layers base directives).assemble world.memory
      world.nextLayer = .ok layer) (startable : layer.startRefusal? = none)
    (dependable : layer.Dependable) (nesting : layer.generatorCount ≤ fuel) (name : String) :
    (perform (resolver fuel) (.build name base directives) world).1 =
      .ok (.built layer.scope.id) ∧
    ∀ order : List Key, order.Perm layer.eagerKeys →
      let filled := order.forM (layer.warmUp (resolver fuel))
        ((Builder.ofDirectives world.layers base directives).opening layer world)
      filled.1 = .ok () ∧ ∀ shelf site,
        (filled.2.memory.shelf shelf).find? site =
          ((perform (resolver fuel) (.build name base directives) world).2.memory.shelf
            shelf).find? site := by
  obtain ⟨hosts, unheld⟩ := warming_opening reachable assembled
  have proper : layer.Proper := hosts.1.proper hosts.2
  have hfilled (order : List Key) : (order.forM (layer.warmUp (resolver fuel))
      ((Builder.ofDirectives world.layers base directives).opening layer world)).1 = .ok () :=
    (warmUps_come dependable proper nesting order unheld (.refl _ layer)).1
  have hbuilt := built_of_filled assembled startable
    (Prod.ext (hfilled layer.eagerKeys) rfl) name
  rw [hbuilt]
  refine ⟨rfl, fun order perm => ⟨hfilled order, fun shelf site => ?_⟩⟩
  have hmemory (world : World) : (layer.closing name world).memory = world.memory := by
    unfold Layer.closing
    split <;> rfl
  rw [hmemory]
  exact warmUps_agree dependable proper nesting perm unheld unheld rfl shelf site

/-- Eager slots are filled by ordinary requests. A build that comes to no layer runs nothing: it only
writes to the log. The eager slots of a layer are those whose last entry is an eager generator, in the
order in which their types were first registered. Suppose that filling them can be started. If there
is a single one, and no code gives commands, then the layer is built, and joining it finds, apart from
eager marks and from word of the filling, the world that comes of a build without the marks followed
by a request for that slot. The reply to the request is what is logged of the filling. If there is no
value, the slot stays pending, and the next request starts its generator again. If there are several,
all code does the same on each run, generators fetch what they declare, and the limits on nesting
leave room for all generators, then the layer is built, and in whatever order the eager slots are
filled, all slots, interfaces and imports have the same values in the end. -/
theorem eager_slots_are_filled_by_requests (reachable : Reachable world) (name : String)
    (base : Option String) (directives : List (Directive Command)) (fuel : Nat) :
    let builder := Builder.ofDirectives world.layers base directives
    let eager := step fuel world (.build name base directives)
    (∀ reply, eager.1.reply = .ok reply → (∀ id, reply ≠ .built id) →
      ∀ event ∈ eager.1.events, ∃ entry, event = .logged entry) ∧
    ∀ layer, builder.assemble world.memory world.nextLayer = .ok layer →
      layer.eagerKeys = builder.eagerKeys ∧
      (layer.startRefusal? = none →
        (∀ key, layer.eagerKeys = [key] → (∀ scope ∈ layer.ancestry, scope.Silent) →
          layer.generatorCount < fuel →
            let joined := step fuel eager.2 (.joinEager name)
            let bare := step fuel world (.build name base (directives.map Directive.unmarked))
            let asked := step fuel bare.2 (.resolveBatch name [key])
            eager.1.reply = .ok (.built layer.scope.id) ∧
            bare.1.reply = .ok (.built layer.scope.id) ∧
            joined.2.unmarked = asked.2.unmarked ∧
            ∃ reply entry, asked.1.reply = .ok reply ∧ .logged entry ∈ eager.1.events ∧
              layer.Outcome key reply entry ∧
              (reply ≠ .batch →
                layer.scope.status? joined.2.memory key = some .pending ∧
                ∀ source, layer.scope.slots.find? key = some (.generated source true false) →
                  0 < layer.scope.settings.maxDepth → ∀ nested,
                    .logged (.running layer.scope.id key source.generator.signature 1) ∈
                      (step (nested + 1) joined.2 (.resolveBatch name [key])).1.events)) ∧
        (layer.Dependable → layer.generatorCount ≤ fuel →
          eager.1.reply = .ok (.built layer.scope.id) ∧
          ∀ order : List Key, order.Perm layer.eagerKeys →
            let filled := order.forM (layer.warmUp (resolver fuel)) (builder.opening layer world)
            filled.1 = .ok () ∧ ∀ shelf site,
              (filled.2.memory.shelf shelf).find? site =
                (eager.2.memory.shelf shelf).find? site)) := by
  refine ⟨fun reply hreply unbuilt event hevent => ?_, fun layer assembled => ⟨?_, ?_⟩⟩
  · obtain ⟨entries, htrace⟩ := build_unbuilt (Prod.ext hreply rfl) unbuilt
    rw [step_events_of_trace htrace, List.mem_reverse] at hevent
    obtain ⟨entry, -, rfl⟩ := List.mem_map.mp hevent
    exact ⟨entry, rfl⟩
  · exact Builder.assemble_eagerKeys assembled
  intro startable
  refine ⟨fun key sole silent nesting => ?_, fun dependable nesting => ?_⟩
  · obtain ⟨filled, bare, asked, reply, entry, earlier, heager, hbare, hasked, hsame, outcome,
      htrace, named, hempty⟩ := sole_eager_slot reachable assembled startable sole silent nesting name
    have hstep : (step fuel world (.build name base directives)).2 = filled :=
      congrArg Prod.snd heager
    have hjoined : (step fuel filled (.joinEager name)).2 = filled := by
      change (perform (resolver fuel) (.joinEager name) filled).2 = filled
      unfold perform Engine.catchPanic
      rw [carryOut, withLayer, Engine.get_bind_apply, named]
      rfl
    have hentry : .logged entry ∈ (step fuel world (.build name base directives)).1.events := by
      rw [step_events_of_trace (hstep ▸ htrace : _ = (.logged entry :: earlier) ++ world.trace)]
      simp
    have hbareStep : (step fuel world (.build name base
        (directives.map Directive.unmarked))).2 = bare := congrArg Prod.snd hbare
    have hunmarked : filled.unmarked =
        (step fuel bare (.resolveBatch name [key])).2.unmarked :=
      hsame.trans (congrArg (·.2.unmarked) hasked).symm
    dsimp only
    rw [hstep, hbareStep, hjoined]
    refine ⟨congrArg Prod.fst heager, congrArg Prod.fst hbare, hunmarked, reply, entry,
      congrArg Prod.fst hasked, hentry, outcome, fun lost => ⟨?_, ?_⟩⟩
    · obtain ⟨source, cyclic, slot⟩ :=
        Builder.eager_slot assembled (sole ▸ List.mem_singleton_self key)
      unfold Scope.status?
      rw [slot]
      simp [Scope.slotStatus, Table.contains, hempty lost]
    · intro source slot room nested
      have hreachable : Reachable filled := hstep ▸ reachable.step fuel _
      exact resolveBatch_starts hreachable named slot (hempty lost) room nested
  · exact eager_slots_agree reachable assembled startable dependable nesting name

/-- A generator that depends on the next one, and one that panics. -/
def ripe : List Registered :=
  [⟨0, "b", "make_b", [.required ⟨"A"⟩], [⟨"B"⟩], fun _ _ => .done (.products [⟨⟨"B"⟩, "b"⟩])⟩,
    ⟨1, "a", "make_a", [], [⟨"A"⟩], fun _ _ => .done (.products [⟨⟨"A"⟩, "a"⟩])⟩,
    ⟨2, "c", "make_c", [], [⟨"C"⟩], fun _ _ => .panic "lost"⟩]

def ripeLayer : Layer :=
  { scope :=
      { id := 1, label := none, locked := false
        slots := ⟨[(⟨"B"⟩, .generated ripe[0] true false), (⟨"A"⟩, .generated ripe[1] true false),
          (⟨"C"⟩, .generated ripe[2] true false)]⟩
        bindings := {}, overridable := [], settings := {}, observers := [] }
    outer := [] }

def ripeDirectives : List (Directive Command) :=
  ripe.map fun source => .register (.generator source.generator true)

theorem ripeLayer_dependable : ripeLayer.Dependable := by
  have hsource {key : Key} {source : Registered} {eager cyclic : Bool}
      (slot : ripeLayer.scope.slots.find? key = some (.generated source eager cyclic)) :
      source = ripe[0] ∨ source = ripe[1] ∨ source = ripe[2] := by
    have hmem := Table.mem_entries_of_find? slot
    simp only [ripeLayer, List.mem_cons, List.not_mem_nil, or_false, Prod.mk.injEq,
      Backing.generated.injEq] at hmem
    rcases hmem with ⟨-, rfl, -⟩ | ⟨-, rfl, -⟩ | ⟨-, rfl, -⟩
    · exact .inl rfl
    · exact .inr (.inl rfl)
    · exact .inr (.inr rfl)
  refine ⟨fun scope hscope => ⟨?_, fun key binding interface => ?_⟩, fun scope hscope => ?_,
    fun scope hscope => ?_⟩ <;> obtain rfl := List.mem_singleton.mp hscope
  · intro key source eager cyclic slot arguments
    rcases hsource slot with rfl | rfl | rfl <;> exact ⟨_, fun _ => rfl⟩
  · cases interface
  · intro key source eager cyclic slot parameter hparameter dependency asked
    rcases hsource slot with rfl | rfl | rfl
    · obtain rfl := List.mem_singleton.mp hparameter
      obtain rfl := Option.some.inj asked
      exact List.mem_singleton_self _
    · cases hparameter
    · cases hparameter
  · decide

/-- A layer whose only eager generator panics. -/
def rottenLayer : Layer :=
  { scope :=
      { id := 1, label := none, locked := false
        slots := ⟨[(⟨"C"⟩, .generated ⟨0, ripe[2].generator⟩ true false)]⟩
        bindings := {}, overridable := [], settings := {}, observers := [] }
    outer := [] }

def rottenDirectives : List (Directive Command) := [.register (.generator ripe[2].generator true)]

theorem rottenLayer_silent : ∀ scope ∈ rottenLayer.ancestry, scope.Silent := by
  intro scope hscope
  obtain rfl := List.mem_singleton.mp hscope
  refine ⟨fun key source eager cyclic slot run arguments => ?_, fun key binding interface => ?_⟩
  · have hmem := Table.mem_entries_of_find? slot
    obtain ⟨-, hsource⟩ := Prod.mk.inj (List.mem_singleton.mp hmem)
    obtain ⟨rfl, -, -⟩ := Backing.generated.inj hsource
    trivial
  · cases interface

theorem eager_slots_are_filled_by_requests_three_slots :
    (∀ order : List Key, order.Perm [⟨"B"⟩, ⟨"A"⟩, ⟨"C"⟩] →
      let filled := order.forM (ripeLayer.warmUp (resolver 4))
        ((Builder.ofDirectives {} none ripeDirectives).opening ripeLayer {})
      filled.2.memory.filled.find? ⟨1, ⟨"B"⟩⟩ = some ⟨⟨"B"⟩, "b"⟩ ∧
      filled.2.memory.filled.find? ⟨1, ⟨"C"⟩⟩ = none) ∧
    (∀ event ∈ (step 4 {} (.build "ripe" none (.permitNil :: .register (.absent ⟨"D"⟩) ::
      ripeDirectives ++ ripeDirectives))).1.events, ∃ entry, event = .logged entry) ∧
    let joined := step 2 (step 2 {} (.build "rotten" none rottenDirectives)).2 (.joinEager "rotten")
    let bare := step 2 {} (.build "rotten" none (rottenDirectives.map Directive.unmarked))
    let asked := step 2 bare.2 (.resolveBatch "rotten" [⟨"C"⟩])
    asked.1.reply = .ok (.panicked "lost") ∧ joined.2.unmarked = asked.2.unmarked ∧
    rottenLayer.scope.status? joined.2.memory ⟨"C"⟩ = some .pending ∧
    .logged (.running 1 ⟨"C"⟩ ripe[2].generator.signature 1) ∈
      (step 1 joined.2 (.resolveBatch "rotten" [⟨"C"⟩])).1.events := by
  refine ⟨fun order perm => ?_, ?_, ?_⟩
  · obtain ⟨-, hlayer⟩ :=
      eager_slots_are_filled_by_requests .initial "ripe" none ripeDirectives 4
    obtain ⟨-, hfilling⟩ := hlayer ripeLayer rfl
    obtain ⟨-, hagree⟩ := hfilling (by decide +kernel)
    obtain ⟨-, horders⟩ := hagree ripeLayer_dependable (by decide +kernel)
    obtain ⟨-, hsame⟩ := horders order perm
    exact ⟨(hsame .filled ⟨1, ⟨"B"⟩⟩).trans (by decide +kernel),
      (hsame .filled ⟨1, ⟨"C"⟩⟩).trans (by decide +kernel)⟩
  · obtain ⟨hunbuilt, -⟩ := eager_slots_are_filled_by_requests .initial "ripe" none
      (.permitNil :: .register (.absent ⟨"D"⟩) :: ripeDirectives ++ ripeDirectives) 4
    refine hunbuilt (.rejected (.duplicateSlot ⟨"B"⟩)) (by decide +kernel) fun id h => ?_
    cases h
  · obtain ⟨-, hlayer⟩ :=
      eager_slots_are_filled_by_requests .initial "rotten" none rottenDirectives 2
    obtain ⟨-, hfilling⟩ := hlayer rottenLayer rfl
    obtain ⟨hsole, -⟩ := hfilling (by decide +kernel)
    obtain ⟨-, -, hsame, reply, entry, hreply, -, -, hlost⟩ :=
      hsole ⟨"C"⟩ (by decide +kernel) rottenLayer_silent (by decide +kernel)
    have hpanicked : (step 2 (step 2 {} (.build "rotten" none
        (rottenDirectives.map Directive.unmarked))).2 (.resolveBatch "rotten" [⟨"C"⟩])).1.reply =
          .ok (.panicked "lost") := by decide +kernel
    obtain rfl := Except.ok.inj (hreply.symm.trans hpanicked)
    obtain ⟨hpending, hagain⟩ := hlost (fun h => nomatch h)
    exact ⟨hpanicked, hsame, hpending, hagain _ rfl (by decide) 0⟩

end Session

end LayerGraph
