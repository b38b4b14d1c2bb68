import LayerGraph.Proofs.Coupling
import LayerGraph.Proofs.Unhoisted

/-! What a session shows of hoisting: imports in listings, and the ways of requests.

Two runs whose layers differ in what they hoist go side by side, command by command. A layer that
hoists answers from what it has imported where the other one walks to the owner again; either way
the answer is the value in the cell of the owner, and the worlds without what hoisting leaves stay
the same. -/

namespace LayerGraph

theorem Layer.silent_of_same {layer layer' : Layer} (same : layer.unhoisted = layer'.unhoisted)
    (silent : layer.scope.Silent) : layer'.scope.Silent := by
  have hsilent : layer.unhoisted.scope.Silent := ⟨silent.bodies, silent.casts⟩
  rw [same] at hsilent
  exact ⟨hsilent.bodies, hsilent.casts⟩

structure World.Calm (world : World) : Prop where
  valid : world.Valid
  faithful : world.Faithful
  silent : ∀ layer ∈ world.built, layer.scope.Silent

namespace World.Calm

variable {world after : World}

theorem sidestep (calm : world.Calm) (sidesteps : world.Sidesteps after) : after.Calm where
  valid := calm.valid.sidestep sidesteps
  faithful := World.Faithful.lasts.sidestep calm.faithful sidesteps
  silent := sidesteps.built ▸ calm.silent

theorem emitAll (calm : world.Calm) (events : List Event) : (world.emitAll events).Calm :=
  ⟨calm.valid.emitAll events, calm.faithful, calm.silent⟩

theorem emit (calm : world.Calm) (event : Event) : (world.emit event).Calm :=
  ⟨calm.valid.emit event, calm.faithful, calm.silent⟩

theorem name (calm : world.Calm) {layer : Layer} (known : layer ∈ world.built) (name : String) :
    World.Calm { world with layers := world.layers.set name layer } :=
  ⟨calm.valid.name known name, calm.faithful, calm.silent⟩

theorem enter (calm : world.Calm) {builder : Builder} {layer : Layer}
    (parent : ∀ parent, builder.parent = some parent → parent ∈ world.built)
    (assembled : builder.assemble world.memory world.nextLayer = .ok layer)
    (silent : layer.scope.Silent) : (world.enter layer).Calm where
  valid := calm.valid.enter parent assembled
  faithful := calm.faithful.enter calm.valid assembled
  silent other hother := by
    rcases List.mem_cons.mp hother with rfl | hmem
    · exact silent
    · exact calm.silent other hmem

theorem ancestry_silent (calm : world.Calm) {layer : Layer} (known : layer ∈ world.built) :
    ∀ scope ∈ layer.ancestry, scope.Silent := by
  intro scope hscope
  obtain ⟨outer, hbuilt⟩ := calm.valid.built_of_mem_ancestry known hscope
  exact calm.silent _ hbuilt

end World.Calm

structure World.Twins (world other : World) : Prop where
  alike : world.Alike other
  calm : world.Calm
  calm' : other.Calm

structure World.Hosting (layer layer' : Layer) (world other : World) : Prop
    extends World.Twins world other where
  known : layer ∈ world.built
  known' : layer' ∈ other.built

namespace World.Twins

variable {world other : World}

theorem emit (twins : world.Twins other) (event : Event) :
    (world.emit event).Twins (other.emit event) :=
  ⟨twins.alike.emit event, twins.calm.emit event, twins.calm'.emit event⟩

theorem emitAll (twins : world.Twins other) (events : List Event) :
    (world.emitAll events).Twins (other.emitAll events) :=
  ⟨twins.alike.emitAll events, twins.calm.emitAll events, twins.calm'.emitAll events⟩

theorem enter (twins : world.Twins other) {builder builder' : Builder} {layer layer' : Layer}
    (parent : ∀ parent, builder.parent = some parent → parent ∈ world.built)
    (parent' : ∀ parent, builder'.parent = some parent → parent ∈ other.built)
    (assembled : builder.assemble world.memory world.nextLayer = .ok layer)
    (assembled' : builder'.assemble other.memory other.nextLayer = .ok layer')
    (same : layer.unhoisted = layer'.unhoisted) (silent : layer.scope.Silent) :
    World.Hosting layer layer' (world.enter layer) (other.enter layer') :=
  ⟨⟨twins.alike.enter same, twins.calm.enter parent assembled silent,
      twins.calm'.enter parent' assembled' (Layer.silent_of_same same silent)⟩,
    List.mem_cons_self, List.mem_cons_self⟩

theorem sidestep (twins : world.Twins other) {after after' : World} (alike : after.Alike after')
    (sidesteps : world.Sidesteps after) (sidesteps' : other.Sidesteps after') :
    after.Twins after' :=
  ⟨alike, twins.calm.sidestep sidesteps, twins.calm'.sidestep sidesteps'⟩

end World.Twins

namespace World.Hosting

variable {layer layer' : Layer} {world other : World}

theorem emit (hosting : World.Hosting layer layer' world other) (event : Event) :
    World.Hosting layer layer' (world.emit event) (other.emit event) :=
  ⟨hosting.toTwins.emit event, hosting.known, hosting.known'⟩

theorem onThread (hosting : World.Hosting layer layer' world other) (thread : Option String) :
    World.Hosting layer layer' { world with thread } { other with thread } :=
  ⟨⟨hosting.alike.change (fun world => { world with thread }) fun _ => rfl,
      hosting.calm.sidestep (.onThread world thread),
      hosting.calm'.sidestep (.onThread other thread)⟩, hosting.known, hosting.known'⟩

theorem name (hosting : World.Hosting layer layer' world other)
    (same : layer.unhoisted = layer'.unhoisted) (name : String) :
    World.Hosting layer layer' { world with layers := world.layers.set name layer }
      { other with layers := other.layers.set name layer' } :=
  ⟨⟨hosting.alike.name name same, hosting.calm.name hosting.known name,
    hosting.calm'.name hosting.known' name⟩, hosting.known, hosting.known'⟩

end World.Hosting

theorem World.Calm.canResolve_unhoisted {world : World} (calm : world.Calm) {layer : Layer}
    (known : layer ∈ world.built) (key : Key) :
    layer.unhoisted.canResolve world.memory.unhoisted key =
      layer.canResolve world.memory key := by
  rw [layer.unhoisted.canResolve_of_unimported rfl, Layer.owner?_unhoisted,
    Layer.canResolve_eq ⟨calm.valid, known⟩ calm.faithful, Option.isSome_map]

structure Failure.Alike (failure failure' : Failure) : Prop where
  error : failure.error = failure'.error
  snapshot : failure.snapshot.map Dump.unhoisted = failure'.snapshot.map Dump.unhoisted

inductive SameAnswer {α : Type} : Except Failure α → Except Failure α → Prop
  | granted (a : α) : SameAnswer (.ok a) (.ok a)
  | denied {failure failure' : Failure} (alike : failure.Alike failure') :
      SameAnswer (.error failure) (.error failure')

def Dump.reply (dump : Dump) : DumpForm → Reply
  | .text => .text dump.text
  | .json => .text dump.toJson.pretty
  | .compact => .text dump.toJson.compact
  | .find typeName => .row (dump.find? typeName) dump.slotCount

/-- The same reply, or replies that differ in what they show of hoisting: in listings, in the status
of imports and in the settings themselves. -/
inductive Reply.Alike : Reply → Reply → Prop
  | same (reply : Reply) : Reply.Alike reply reply
  | refused {failure failure' : Failure} (alike : failure.Alike failure') :
      Reply.Alike (.refused failure) (.refused failure')
  | status {status status' : Option Status}
      (alike : status.filter (· ≠ .imported) = status'.filter (· ≠ .imported)) :
      Reply.Alike (.status status) (.status status')
  | listing {dump dump' : Dump} (form : DumpForm) (alike : dump.unhoisted = dump'.unhoisted) :
      Reply.Alike (dump.reply form) (dump'.reply form)
  | profile {profile profile' : Profile} (alike : profile.unhoisted = profile'.unhoisted) :
      Reply.Alike (.profile profile) (.profile profile')

namespace Session

open Engine (Couples Meets)
open Resolution

variable {layer layer' : Layer} {fuel : Nat}

theorem site_eq (same : layer.unhoisted = layer'.unhoisted) (key : Key) :
    layer'.scope.site key = layer.scope.site key :=
  (congrArg (·.scope.site key) same.symm :)

theorem resolver_meets (same : layer.unhoisted = layer'.unhoisted) (key : Key) (chain : Chain)
    (context : Context) :
    Couples (World.Hosting layer layer') Eq (resolver fuel layer key chain context)
      (resolver fuel layer' key chain context) := by
  intro world other hosting
  have hosts : world.Hosts layer := ⟨hosting.calm.valid, hosting.known⟩
  have hosts' : other.Hosts layer' := ⟨hosting.calm'.valid, hosting.known'⟩
  obtain ⟨last, hlast, halike, hbuilt⟩ := resolver_unhoisted
    (hosting.calm.ancestry_silent hosting.known) hosts hosting.calm.faithful fuel key chain context
  obtain ⟨last', hlast', halike', hbuilt'⟩ := resolver_unhoisted
    (hosting.calm'.ancestry_silent hosting.known') hosts' hosting.calm'.faithful fuel key chain
    context
  have hresolves := resolver_resolves fuel layer key chain context world
  have hresolves' := resolver_resolves fuel layer' key chain context other
  rw [same, hosting.alike.unhoisted, hlast'] at hlast
  obtain ⟨hresult, rfl⟩ := Prod.mk.inj hlast
  have hafter : (resolver fuel layer key chain context world).2.Calm :=
    ⟨hresolves.valid hosts, (hresolves.faithful hosts hosting.calm.faithful).1,
      hbuilt ▸ hosting.calm.silent⟩
  have hafter' : (resolver fuel layer' key chain context other).2.Calm :=
    ⟨hresolves'.valid hosts', (hresolves'.faithful hosts' hosting.calm'.faithful).1,
      hbuilt' ▸ hosting.calm'.silent⟩
  exact ⟨⟨⟨halike.trans halike'.symm, hafter, hafter'⟩, hbuilt ▸ hosting.known,
    hbuilt' ▸ hosting.known'⟩, .of_eq hresult.symm⟩

theorem emit_couples (event : Event) :
    Couples (World.Hosting layer layer') (fun _ _ => True) (Engine.emit event)
      (Engine.emit event) :=
  .modify fun _ _ hosting => hosting.emit event

theorem request_couples (same : layer.unhoisted = layer'.unhoisted) (key : Key)
    (context : Context) :
    Couples (World.Hosting layer layer') SameAnswer
      (layer.request (resolver fuel) key context) (layer'.request (resolver fuel) key context) := by
  have hid : layer'.scope.id = layer.scope.id := (congrArg (·.scope.id) same.symm :)
  have hsnapshot : layer'.scope.settings.snapshot = layer.scope.settings.snapshot :=
    (congrArg (·.scope.settings.snapshot) same.symm :)
  unfold Layer.request
  rw [site_eq same, hid, hsnapshot]
  refine .bind (emit_couples _) fun _ _ _ => .bind (resolver_meets same key [] context) ?_
  rintro result _ rfl
  cases result with
  | ok value => exact .bind (emit_couples _) fun _ _ _ => .pure (.granted value)
  | error error =>
    refine .bind (emit_couples _) fun _ _ _ => .bind (emit_couples _) fun _ _ _ => ?_
    refine .get_bind fun world other hosting => .pure hosting (.denied ⟨rfl, ?_⟩)
    dsimp only
    cases error.brought? with
    | some brought => rfl
    | none =>
      split
      · change some (layer.dump world.memory).unhoisted = some (layer'.dump other.memory).unhoisted
        rw [layer.dump_unhoisted, layer'.dump_unhoisted, same, hosting.alike.memory]
      · rfl

theorem resolveAs_couples (same : layer.unhoisted = layer'.unhoisted) (key : Key)
    (context : Context) :
    Couples (World.Hosting layer layer') SameAnswer
      (layer.resolveAs (resolver fuel) key context)
      (layer'.resolveAs (resolver fuel) key context) := by
  refine .bind (request_couples same key context) fun answered answered' alike => ?_
  cases alike with
  | granted value =>
    dsimp only
    split
    · exact .pure (.granted _)
    · exact .pure (.denied ⟨rfl, rfl⟩)
  | denied alike => exact .pure (.denied alike)

theorem resolveAsync_couples (same : layer.unhoisted = layer'.unhoisted) (key : Key)
    (context : Context) (join : Join) :
    Couples (World.Hosting layer layer') SameAnswer
      (layer.resolveAsync (resolver fuel) key context join)
      (layer'.resolveAsync (resolver fuel) key context join) := by
  cases join with
  | finished => exact resolveAs_couples same key context
  | dropped => exact .pure (.denied ⟨rfl, rfl⟩)

theorem resolveAll_couples (same : layer.unhoisted = layer'.unhoisted) (keys : List Key) :
    Couples (World.Hosting layer layer') SameAnswer (layer.resolveAll (resolver fuel) keys)
      (layer'.resolveAll (resolver fuel) keys) := by
  induction keys with
  | nil => exact .pure (.granted _)
  | cons key rest ih =>
    refine .bind (request_couples same key .background) fun answered answered' alike => ?_
    cases alike with
    | granted value => exact ih
    | denied alike => exact .pure (.denied alike)

theorem warmUp_couples (same : layer.unhoisted = layer'.unhoisted) (key : Key) :
    Couples (World.Hosting layer layer') (fun _ _ => True) (layer.warmUp (resolver fuel) key)
      (layer'.warmUp (resolver fuel) key) := by
  have hid : layer'.scope.id = layer.scope.id := (congrArg (·.scope.id) same.symm :)
  have hthread : layer'.scope.settings.threadName = layer.scope.settings.threadName :=
    (congrArg (·.scope.settings.threadName) same.symm :)
  unfold Layer.warmUp
  rw [hid, hthread]
  refine .onThread (fun world other thread _ hosting h => h ▸ hosting.onThread thread)
    (fun world other hosting => hosting.alike.thread.symm) ?_
  refine .catchPanic (.bind (request_couples same key .background) ?_) fun message =>
    emit_couples _
  intro answered answered' alike
  cases alike with
  | granted value => exact emit_couples _
  | denied alike =>
    dsimp only
    rw [alike.error]
    exact emit_couples _

theorem fillEager_couples (same : layer.unhoisted = layer'.unhoisted) :
    Couples (World.Hosting layer layer') (fun _ _ => True) (layer.fillEager (resolver fuel))
      (layer'.fillEager (resolver fuel)) := by
  have hkeys : layer'.eagerKeys = layer.eagerKeys := (congrArg Layer.eagerKeys same.symm :)
  have hrefusal : layer'.startRefusal? = layer.startRefusal? :=
    (congrArg Layer.startRefusal? same.symm :)
  unfold Layer.fillEager
  rw [hkeys, hrefusal]
  split
  · exact .throw _
  · exact .forM fun key _ => warmUp_couples same key

variable {world other : World}

theorem withLayer_couples {name : String} {action action' : Layer → Engine Reply}
    (h : ∀ layer layer' : Layer, layer.unhoisted = layer'.unhoisted →
      Couples (World.Hosting layer layer') Reply.Alike (action layer) (action' layer')) :
    Couples World.Twins Reply.Alike (withLayer name action) (withLayer name action') := by
  refine .get_bind fun world other twins => ?_
  rcases twins.alike.named_cases name with
    ⟨hlayer, hlayer'⟩ | ⟨layer, layer', hlayer, hlayer', same⟩
  · rw [hlayer, hlayer']
    exact .pure twins (.same _)
  · rw [hlayer, hlayer']
    have hosting : World.Hosting layer layer' world other :=
      ⟨twins, twins.calm.valid.named _ _ hlayer, twins.calm'.valid.named _ _ hlayer'⟩
    exact (h layer layer' same world other hosting).mono (fun _ _ hosting => hosting.toTwins)
      fun _ _ alike => alike

theorem withToken_couples {name : String} {action : Token → Engine Reply}
    (h : ∀ token, Couples World.Twins Reply.Alike (action token) (action token)) :
    Couples World.Twins Reply.Alike (withToken name action) (withToken name action) := by
  refine .get_bind fun world other twins => ?_
  rw [twins.alike.tokens]
  cases other.tokens.find? name with
  | none => exact .pure twins (.same _)
  | some token => exact h token world other twins

section

variable {builder builder' : Builder}

theorem ledger_eq (same : builder.unhoisted = builder'.unhoisted) :
    builder'.ledger = builder.ledger := by
  rw [← builder'.ledger_unhoisted, ← same, builder.ledger_unhoisted]

/-- Builders of layers that differ in what these hoist meet with the same offence, or put such
layers together. -/
theorem assemble_cases (twins : world.Twins other)
    (same : builder.unhoisted = builder'.unhoisted)
    (parent : ∀ parent, builder.parent = some parent → parent ∈ world.built)
    (parent' : ∀ parent, builder'.parent = some parent → parent ∈ other.built) :
    (∃ error, builder.assemble world.memory world.nextLayer = .error error ∧
        builder'.assemble other.memory other.nextLayer = .error error) ∨
      ∃ layer layer', builder.assemble world.memory world.nextLayer = .ok layer ∧
        builder'.assemble other.memory other.nextLayer = .ok layer' ∧
        layer.unhoisted = layer'.unhoisted := by
  have hworld := Builder.assemble_unhoisted (fun layer h key =>
    twins.calm.canResolve_unhoisted (parent layer h) key) world.nextLayer
  have hother := Builder.assemble_unhoisted (fun layer h key =>
    twins.calm'.canResolve_unhoisted (parent' layer h) key) other.nextLayer
  rw [same, twins.alike.memory, twins.alike.nextLayer, hother] at hworld
  rw [twins.alike.nextLayer]
  cases hassembled : builder.assemble world.memory other.nextLayer with
  | error error =>
    cases hassembled' : builder'.assemble other.memory other.nextLayer with
    | error error' =>
      rw [hassembled, hassembled'] at hworld
      obtain rfl := Except.error.inj hworld
      exact .inl ⟨error', rfl, rfl⟩
    | ok layer' =>
      rw [hassembled, hassembled'] at hworld
      cases hworld
  | ok layer =>
    cases hassembled' : builder'.assemble other.memory other.nextLayer with
    | error error' =>
      rw [hassembled, hassembled'] at hworld
      cases hworld
    | ok layer' =>
      rw [hassembled, hassembled'] at hworld
      exact .inr ⟨layer, layer', rfl, rfl, (Except.ok.inj hworld).symm⟩

/-- Layers that differ in what they hoist are taken up and filled side by side. -/
theorem commission_meets (twins : world.Twins other)
    (same : builder.unhoisted = builder'.unhoisted)
    (parent : ∀ parent, builder.parent = some parent → parent ∈ world.built)
    (parent' : ∀ parent, builder'.parent = some parent → parent ∈ other.built)
    (assembled : builder.assemble world.memory world.nextLayer = .ok layer)
    (assembled' : builder'.assemble other.memory other.nextLayer = .ok layer')
    (alike : layer.unhoisted = layer'.unhoisted) (silent : layer.scope.Silent) :
    Meets (World.Hosting layer layer') (fun _ _ => True)
      (builder.commission (resolver fuel) layer world)
      (builder'.commission (resolver fuel) layer' other) := by
  have hskipped : builder'.skipped = builder.skipped := by
    unfold Builder.skipped
    rw [ledger_eq same]
  have hraces : layer'.races = layer.races := (congrArg Layer.races alike.symm :)
  have hbuilt : LogEntry.layerBuilt layer'.scope.id (layer'.scope.label.getD "")
        layer'.scope.slots.size layer'.parentId? =
      .layerBuilt layer.scope.id (layer.scope.label.getD "") layer.scope.slots.size
        layer.parentId? := by
    have hparent : layer'.parentId? = layer.parentId? := by
      rw [← layer'.parentId?_unhoisted, ← layer.parentId?_unhoisted, alike]
    rw [hparent]
    exact (congrArg (fun other : Layer => LogEntry.layerBuilt other.scope.id
      (other.scope.label.getD "") other.scope.slots.size layer.parentId?) alike.symm :)
  have hopened : World.Hosting layer layer' (builder.opening layer world)
      (builder'.opening layer' other) := by
    unfold Builder.opening
    dsimp only
    rw [hskipped, hraces, hbuilt]
    split
    · exact (((twins.emit _).emitAll _).enter parent parent' assembled assembled' alike
        silent).emit _
    · exact ((twins.emitAll _).enter parent parent' assembled assembled' alike silent).emit _
  have hended : Couples (World.Hosting layer layer') (fun _ _ => True)
      (do if layer.races then Engine.emit .raceEnded)
      (do if layer.races then Engine.emit .raceEnded) := by
    split
    · exact emit_couples _
    · exact .pure trivial
  rw [Builder.commission_apply, Builder.commission_apply, hraces]
  exact Couples.bind (fillEager_couples alike) (fun _ _ _ => hended) _ _ hopened

end

variable {name : String} {base base' : Option String}
  {directives directives' : List (Directive Command)}

theorem parent_built (calm : world.Calm) {parent : Layer}
    (h : (Builder.ofDirectives world.layers base directives).parent = some parent) :
    parent ∈ world.built := by
  obtain ⟨other, named⟩ := ofDirectives_parent h
  exact calm.valid.named other parent named

/-- Builds of layers that differ in what these hoist meet with the same offence, or give such layers
the same name. -/
theorem build_command_meets (twins : world.Twins other) (name : String)
    (same : (Builder.ofDirectives world.layers base directives).unhoisted =
      (Builder.ofDirectives other.layers base' directives').unhoisted)
    (silent : ∀ layer, (Builder.ofDirectives world.layers base directives).assemble world.memory
      world.nextLayer = .ok layer → layer.scope.Silent) :
    Meets World.Twins Reply.Alike (carryOut (resolver fuel) (.build name base directives) world)
      (carryOut (resolver fuel) (.build name base' directives') other) := by
  have parent {parent : Layer} := @parent_built _ base directives twins.calm parent
  have parent' {parent : Layer} := @parent_built _ base' directives' twins.calm' parent
  rw [carryOut, carryOut, Engine.get_bind_apply, Engine.get_bind_apply]
  rcases assemble_cases twins same (fun _ => parent) (fun _ => parent') with
    ⟨error, refused, refused'⟩ | ⟨layer, layer', assembled, assembled', alike⟩
  · have hskipped : (Builder.ofDirectives other.layers base' directives').skipped =
        (Builder.ofDirectives world.layers base directives).skipped := by
      unfold Builder.skipped
      rw [ledger_eq same]
    rw [Engine.bind_apply_ok (build_of_refused refused),
      Engine.bind_apply_ok (build_of_refused refused'), hskipped]
    exact .pure (twins.emitAll _) (.same _)
  · have hid : layer'.scope.id = layer.scope.id := (congrArg (·.scope.id) alike.symm :)
    have hbuild : Meets (World.Hosting layer layer')
        (fun result result' => result = .ok layer ∧ result' = .ok layer')
        ((Builder.ofDirectives world.layers base directives).build (resolver fuel) world)
        ((Builder.ofDirectives other.layers base' directives').build (resolver fuel) other) := by
      rw [build_of_assembled assembled, build_of_assembled assembled']
      exact (commission_meets twins same (fun _ => parent) (fun _ => parent') assembled assembled'
        alike (silent layer assembled)).bind fun _ _ _ => .pure ⟨rfl, rfl⟩
    refine (hbuild.bind ?_).mono (fun _ _ hosting => hosting.toTwins) fun _ _ alike => alike
    rintro _ _ ⟨rfl, rfl⟩
    dsimp only
    rw [hid]
    exact .bind (.modify fun world other hosting => hosting.name alike name) fun _ _ _ =>
      .pure (.same _)

theorem carryOut_couples (command : Command)
    (h : ∀ name base directives, command ≠ .build name base directives) :
    Couples World.Twins Reply.Alike (carryOut (resolver fuel) command)
      (carryOut (resolver fuel) command) := by
  cases command with
  | build name base directives => exact absurd rfl (h name base directives)
  | resolve name key terms =>
    refine withLayer_couples fun layer layer' same => .get_bind fun world other hosting => ?_
    rw [hosting.alike.contextOf]
    refine Couples.bind (resolveAs_couples same key (world.contextOf terms)) ?_ world other hosting
    intro answered answered' alike
    cases alike with
    | granted value => exact .pure (.same _)
    | denied alike => exact .pure (.refused alike)
  | resolveAsync name key terms join =>
    refine withLayer_couples fun layer layer' same => .get_bind fun world other hosting => ?_
    rw [hosting.alike.contextOf]
    refine Couples.bind (resolveAsync_couples same key (world.contextOf terms) join) ?_ world other
      hosting
    intro answered answered' alike
    cases alike with
    | granted value => exact .pure (.same _)
    | denied alike => exact .pure (.refused alike)
  | tryResolve name key =>
    refine withLayer_couples fun layer layer' same =>
      .bind (resolveAs_couples same key .background) fun answered answered' alike => ?_
    cases alike with
    | granted value => exact .pure (.same _)
    | denied alike =>
      dsimp only
      rw [alike.error]
      exact .bind (emit_couples _) fun _ _ _ => .pure (.same _)
  | must name key =>
    refine withLayer_couples fun layer layer' same =>
      .bind (resolveAs_couples same key .background) fun answered answered' alike => ?_
    cases alike with
    | granted value => exact .pure (.same _)
    | denied alike =>
      dsimp only
      rw [alike.error]
      exact .throw _
  | canResolve name key =>
    refine withLayer_couples fun layer layer' same => .get_bind fun world other hosting => ?_
    rw [← hosting.calm.canResolve_unhoisted hosting.known,
      ← hosting.calm'.canResolve_unhoisted hosting.known', same, hosting.alike.memory]
    exact .pure hosting (.same _)
  | statusOf name key =>
    refine withLayer_couples fun layer layer' same => .get_bind fun world other hosting => ?_
    refine .pure hosting (.status ?_)
    have hscope : layer.scope.unhoisted = layer'.scope.unhoisted :=
      (congrArg Layer.scope same :)
    rw [layer.scope.status?_unhoisted, layer'.scope.status?_unhoisted, hscope,
      hosting.alike.memory]
  | resolveBatch name keys =>
    refine withLayer_couples fun layer layer' same =>
      .bind (resolveAll_couples same keys) fun answered answered' alike => ?_
    cases alike with
    | granted value => exact .pure (.same _)
    | denied alike => exact .pure (.refused alike)
  | dump name form =>
    refine withLayer_couples fun layer layer' same => .get_bind fun world other hosting => ?_
    have hdump : (layer.dump world.memory).unhoisted = (layer'.dump other.memory).unhoisted := by
      rw [layer.dump_unhoisted, layer'.dump_unhoisted, same, hosting.alike.memory]
    cases form with
    | text => exact .pure hosting (.listing .text hdump)
    | json => exact .pure hosting (.listing .json hdump)
    | compact => exact .pure hosting (.listing .compact hdump)
    | find typeName => exact .pure hosting (.listing (.find typeName) hdump)
  | profile name =>
    refine withLayer_couples fun layer layer' same => .pure (.profile ?_)
    rw [layer.profile_unhoisted, layer'.profile_unhoisted, same]
  | joinEager name => exact withLayer_couples fun layer layer' same => .pure (.same _)
  | dropLayer name =>
    intro world other twins
    have hcontains : other.layers.contains name = world.layers.contains name := by
      unfold Table.contains
      rw [← Option.isSome_map, ← twins.alike.named name, Option.isSome_map]
    have hreply : Reply.Alike (.flag (world.layers.contains name))
        (.flag (other.layers.contains name)) := hcontains ▸ .same _
    exact ⟨twins.sidestep (twins.alike.erase name) (.erase world name) (.erase other name),
      .answered hreply⟩
  | token name base =>
    intro world other twins
    have halike := twins.alike.change
      (fun world => (carryOut (resolver fuel) (.token name base) world).2) fun _ => rfl
    exact ⟨twins.sidestep halike (.tokens world _ _) (.tokens other _ _), .answered (.same _)⟩
  | cancel name =>
    refine withToken_couples fun token => .bind (.modify fun world other twins => ?_) fun _ _ _ =>
      .pure (.same _)
    exact twins.sidestep (twins.alike.change (World.cancel token) fun _ => rfl)
      (.cancel world token) (.cancel other token)
  | isCancelled name =>
    refine withToken_couples fun token => .get_bind fun world other twins => ?_
    rw [twins.alike.signals]
    exact .pure twins (.same _)
  | awaitCancelled name => exact withToken_couples fun token => .pure (.same _)
  | context terms =>
    refine .get_bind fun world other twins => ?_
    rw [twins.alike.contextOf, twins.alike.signals]
    exact .pure twins (.same _)

theorem built_of_assembled (name : String)
    (assembled : (Builder.ofDirectives world.layers base directives).assemble world.memory
      world.nextLayer = .ok layer) :
    layer ∈ (perform (resolver fuel) (.build name base directives) world).2.built := by
  have hbuilt := commission_built fuel (Builder.ofDirectives world.layers base directives) layer world
  unfold perform Engine.catchPanic
  rw [carryOut, Engine.get_bind_apply, Engine.bind_apply, build_of_assembled assembled,
    Engine.bind_apply]
  revert hbuilt
  rcases (Builder.ofDirectives world.layers base directives).commission (resolver fuel) layer
    world with ⟨result, after⟩
  intro hbuilt
  rcases result with (message | _ | _) | _ <;> exact hbuilt

end Session

inductive Command.Alike (world other : World) : Command → Command → Prop
  | same (command : Command) : Command.Alike world other command command
  | build {base base' : Option String} {directives directives' : List (Directive Command)}
      (name : String) (same : (Builder.ofDirectives world.layers base directives).unhoisted =
        (Builder.ofDirectives other.layers base' directives').unhoisted) :
      Command.Alike world other (.build name base directives) (.build name base' directives')

namespace Session

open Engine (Agree Meets)

variable {world other : World} {fuel : Nat} {command command' : Command}

/-- Commands that are alike come to the same in twin worlds. -/
theorem perform_meets (twins : world.Twins other)
    (alike : Command.Alike world other command command')
    (silent : ∀ layer ∈ (perform (resolver fuel) command world).2.built, layer.scope.Silent) :
    Meets World.Twins Reply.Alike (perform (resolver fuel) command world)
      (perform (resolver fuel) command' other) := by
  refine Meets.catchPanic ?_ fun message => .pure (.same _)
  cases alike with
  | same command =>
    cases command with
    | build name base directives =>
      have same := Builder.ofDirectives_unhoisted twins.alike base directives
      refine build_command_meets twins name same fun layer assembled => ?_
      exact silent layer (built_of_assembled name assembled)
    | _ => exact carryOut_couples _ (by simp) world other twins
  | build name same =>
    refine build_command_meets twins name same fun layer assembled => ?_
    exact silent layer (built_of_assembled name assembled)

/-- What two runs come to in which commands that are alike are carried out, and no code gives
commands. -/
inductive Parallel : World → World → Prop
  | initial : Parallel {} {}
  | step {world other : World} {command command' : Command} (parallel : Parallel world other)
      (fuel : Nat) (alike : Command.Alike world other command command')
      (silent : ∀ layer ∈ (step fuel world command).2.built, layer.scope.Silent) :
      Parallel (step fuel world command).2 (step fuel other command').2

theorem Parallel.twins (parallel : Parallel world other) : world.Twins other := by
  induction parallel with
  | initial =>
    have hempty : World.Calm {} := by
      refine ⟨.initial, fun layer h => ?_, fun layer h => ?_⟩
      · cases h
      · cases h
    exact ⟨⟨rfl⟩, hempty, hempty⟩
  | step parallel fuel alike silent ih => exact (perform_meets ih alike silent).worlds

theorem step_events (fuel : Nat) (world : World) (command : Command) :
    (step fuel world command).2.trace =
      (step fuel world command).1.events.reverse ++ world.trace := by
  obtain ⟨events, htrace⟩ := (perform_grows fuel command world).trace
  change (perform (resolver fuel) command world).2.trace =
    ((perform (resolver fuel) command world).2.trace.take
      ((perform (resolver fuel) command world).2.trace.length -
        world.trace.length)).reverse.reverse ++ world.trace
  rw [← htrace, List.reverse_reverse, List.length_append, Nat.add_sub_cancel, List.take_left]

/-- Hoisting is transparent. Let commands that are alike be carried out in two runs, and let no code
give commands. Then the worlds differ in nothing but what layers hoist, what they have imported, and
the ways of requests; the next command gets replies that differ in listings, in the status of
imports and in the settings shown, if at all; and apart from the ways of requests the same
happens. -/
theorem hoisting_is_transparent (parallel : Parallel world other) :
    world.Alike other ∧
    ∀ fuel command command', Command.Alike world other command command' →
      (∀ layer ∈ (step fuel world command).2.built, layer.scope.Silent) →
        Agree Reply.Alike (step fuel world command).1.reply (step fuel other command').1.reply ∧
        (step fuel world command).1.events.filter (fun event => !event.isRouting) =
          (step fuel other command').1.events.filter (fun event => !event.isRouting) ∧
        (step fuel world command).2.Alike (step fuel other command').2 := by
  have twins := parallel.twins
  refine ⟨twins.alike, fun fuel command command' alike silent => ?_⟩
  have hmeets := perform_meets twins alike silent
  have hafter : (step fuel world command).2.Alike (step fuel other command').2 :=
    hmeets.worlds.alike
  refine ⟨hmeets.results, ?_, hafter⟩
  have hdeeds := hafter.deeds
  unfold World.deeds at hdeeds
  rw [step_events, step_events, List.filter_append, List.filter_append] at hdeeds
  have hbefore : world.trace.filter (fun event => !event.isRouting) =
    other.trace.filter fun event => !event.isRouting := twins.alike.deeds
  rw [hbefore, List.append_cancel_right_eq, List.filter_reverse, List.filter_reverse] at hdeeds
  exact List.reverse_injective hdeeds

def askingScope (hoist : Bool) : Scope :=
  { id := 2, label := none, locked := false, slots := {}, bindings := {}, overridable := []
    settings := { hoist }, observers := [] }

theorem askingScope_silent (hoist : Bool) : (askingScope hoist).Silent :=
  ⟨fun _ _ _ _ slot => (by cases slot), fun _ _ binding => (by cases binding)⟩

def hostWorld : World :=
  (step 2 {} (.build "outer" none [.register (.value ⟨"A"⟩ "outer"),
    .register (.generator echo.generator false)])).2

def askingWorld (hoist : Bool) : World :=
  (step 2 hostWorld (.build "inner" (some "outer") [.settings { hoist }])).2

def askedWorld (hoist : Bool) : World :=
  (step 2 (askingWorld hoist) (.resolve "inner" ⟨"A"⟩ {})).2

theorem hostWorld_silent : ∀ layer ∈ hostWorld.built, layer.scope.Silent := by
  have hbuilt : hostWorld.built = [⟨coveredScope, []⟩] := rfl
  rw [hbuilt]
  exact List.forall_mem_singleton.mpr coveredScope_silent

theorem askingWorld_silent (hoist : Bool) :
    ∀ layer ∈ (askingWorld hoist).built, layer.scope.Silent := by
  have hbuilt : (askingWorld hoist).built =
    [⟨askingScope hoist, [coveredScope]⟩, ⟨coveredScope, []⟩] := rfl
  rw [hbuilt]
  exact List.forall_mem_cons.mpr ⟨askingScope_silent hoist,
    List.forall_mem_singleton.mpr coveredScope_silent⟩

theorem askedWorld_silent (hoist : Bool) :
    ∀ layer ∈ (askedWorld hoist).built, layer.scope.Silent := by
  have hbuilt : (askedWorld hoist).built = (askingWorld hoist).built :=
    step_built (by cases hoist <;> decide +kernel)
  rw [hbuilt]
  exact askingWorld_silent hoist

theorem askedWorld_parallel : Parallel (askedWorld true) (askedWorld false) := by
  have hosts : Parallel hostWorld hostWorld := .step .initial 2 (.same _) hostWorld_silent
  have asking : Parallel (askingWorld true) (askingWorld false) :=
    .step hosts 2 (.build "inner" rfl) (askingWorld_silent true)
  exact .step asking 2 (.same _) (askedWorld_silent true)

theorem hoisting_is_transparent_asked :
    (askedWorld true).memory.imported.find? ⟨2, ⟨"A"⟩⟩ = some ⟨⟨"A"⟩, "outer"⟩ ∧
    (askedWorld false).memory.imported.find? ⟨2, ⟨"A"⟩⟩ = none ∧
    (askedWorld true).Alike (askedWorld false) ∧
    (step 2 (askedWorld true) (.resolve "inner" ⟨"B"⟩ {})).1.reply = .ok (.payload "outer") ∧
    Agree Reply.Alike (step 2 (askedWorld true) (.resolve "inner" ⟨"B"⟩ {})).1.reply
      (step 2 (askedWorld false) (.resolve "inner" ⟨"B"⟩ {})).1.reply := by
  obtain ⟨alike, hnext⟩ := hoisting_is_transparent askedWorld_parallel
  have hbuilt : (step 2 (askedWorld true) (.resolve "inner" ⟨"B"⟩ {})).2.built =
      (askedWorld true).built := step_built (by decide +kernel)
  have silent : ∀ layer ∈ (step 2 (askedWorld true) (.resolve "inner" ⟨"B"⟩ {})).2.built,
      layer.scope.Silent := by
    rw [hbuilt]
    exact askedWorld_silent true
  refine ⟨by decide +kernel, by decide +kernel, alike, by decide +kernel, ?_⟩
  exact (hnext 2 _ _ (.same _) silent).1

end Session

end LayerGraph
