import LayerGraph.Proofs.Hoisting
import LayerGraph.Proofs.Reparenting

/-! The order of registrations makes no difference.

Two runs in which layers come of the same registrations in different orders go side by side, command
by command, whatever commands outside code gives meanwhile. -/

namespace LayerGraph

namespace Builder

variable {world other : World}

theorem Reparents.intro (builder : Builder) {parent : Option Layer}
    (h : Option.Rel Layer.Reorders builder.parent parent) :
    builder.Reparents { builder with parent } :=
  ⟨h, rfl⟩

theorem Reparents.apply {builder builder' : Builder} (reparents : builder.Reparents builder')
    (reorders : world.Reorders other) (directive : Directive Command) :
    (builder.apply world.layers directive).Reparents (builder'.apply other.layers directive) := by
  obtain ⟨hparent, hrest⟩ := reparents
  revert hparent
  generalize builder'.parent = parent at hrest
  intro hparent
  subst hrest
  cases directive with
  | parent name =>
    rcases reorders.named_cases name with ⟨hnone, hnone'⟩ | ⟨layer, layer', hlayer, hlayer', hsame⟩
    · simp only [Builder.apply, hnone, hnone']
      exact .intro builder hparent
    · simp only [Builder.apply, hlayer, hlayer']
      exact .intro { builder with parent := some layer } (.some hsame)
  | register entry => exact .intro (builder.register entry) hparent
  | overridable key =>
    exact .intro { builder with overridable := builder.overridable ++ [key] } hparent
  | allowOverride allow => exact .intro { builder with allowOverride := allow } hparent
  | permitNil => exact .intro { builder with permitNil := true } hparent
  | lock => exact .intro { builder with locked := true } hparent
  | label label => exact .intro { builder with label := some label } hparent
  | settings settings => exact .intro { builder with settings := some settings } hparent
  | observe observer =>
    exact .intro { builder with observers := builder.observers ++ [observer] } hparent

theorem ofDirectives_reparents (reorders : world.Reorders other) (base : Option String)
    (directives : List (Directive Command)) :
    (Builder.ofDirectives world.layers base directives).Reparents
      (Builder.ofDirectives other.layers base directives) := by
  have hfold {builder builder' : Builder} (reparents : builder.Reparents builder') :
      (directives.foldl (Builder.apply world.layers) builder).Reparents
        (directives.foldl (Builder.apply other.layers) builder') := by
    induction directives generalizing builder builder' with
    | nil => exact reparents
    | cons directive rest ih => exact ih (reparents.apply reorders directive)
  refine hfold ⟨?_, rfl⟩
  cases base with
  | none => exact .none
  | some name => exact reorders.layers name

end Builder

namespace Session

open Engine (Couples Meets)

/-- Commands come to the same in worlds that differ in the order of registrations, with so much
nesting left or less. -/
def Indifferent (fuel : Nat) : Prop :=
  ∀ less ≤ fuel, ∀ command, Couples World.Reorders Eq (handler less command) (handler less command)

variable {fuel : Nat} {layer layer' : Layer}

theorem handler_housed (h : ∀ command,
      Couples World.Reorders Eq (handler fuel command) (handler fuel command))
    (root root' : Layer) (command : Command) :
    Couples (World.Housing root root') Eq (handler fuel command) (handler fuel command) := by
  intro world other housing
  have hmeets := h command world other housing.toReorders
  have hbuilt := (handler_grows fuel command world).built
  have hbuilt' := (handler_grows fuel command other).built
  exact ⟨⟨hmeets.worlds, hbuilt.mem housing.known, hbuilt'.mem housing.known'⟩, hmeets.results⟩

theorem Indifferent.accord (indifferent : Indifferent fuel) (root root' : Layer) {less : Nat}
    (le : less ≤ fuel) :
    Accord (Layer.Paired root root') (World.Housing root root') (handler less) (handler less) where
  bodies _ _ _ _ :=
    (World.Housing.mirroring root root').run_couples _
      (handler_housed (indifferent less le) root root')
  casts _ _ _ _ :=
    (World.Housing.mirroring root root').run_couples _
      (handler_housed (indifferent less le) root root')

theorem resolver_indifferent (indifferent : Indifferent fuel) (same : layer.Reorders layer')
    (key : Key) (chain : Chain) (context : Context) :
    Couples (World.Housing layer layer') Eq (resolver fuel layer key chain context)
      (resolver fuel layer' key chain context) :=
  (World.Housing.mirroring layer layer').resolver_couples
    (fun _ le => indifferent.accord layer layer' le) key chain context (.refl same)

theorem emit_indifferent {event : Event} (placeless : event.isPlaced = false) :
    Couples (World.Housing layer layer') (fun _ _ => True) (Engine.emit event)
      (Engine.emit event) :=
  (World.Housing.mirroring layer layer').emit_couples placeless

theorem request_indifferent (indifferent : Indifferent fuel) (same : layer.Reorders layer')
    (key : Key) (context : Context) :
    Couples (World.Housing layer layer') Eq (layer.request (resolver fuel) key context)
      (layer'.request (resolver fuel) key context) := by
  unfold Layer.request
  rw [same.scope.site, same.scope.id, same.scope.settings]
  refine .bind (emit_indifferent rfl) fun _ _ _ => ?_
  refine .bind_same (resolver_indifferent indifferent same key [] context) fun answer => ?_
  cases answer with
  | ok value => exact .bind (emit_indifferent rfl) fun _ _ _ => .pure rfl
  | error error =>
    refine .bind (emit_indifferent rfl) fun _ _ _ => .bind (emit_indifferent rfl) fun _ _ _ => ?_
    refine .get_bind fun world other housing => .pure housing ?_
    rw [housing.memory, same.dump]

theorem resolveAs_indifferent (indifferent : Indifferent fuel) (same : layer.Reorders layer')
    (key : Key) (context : Context) :
    Couples (World.Housing layer layer') Eq (layer.resolveAs (resolver fuel) key context)
      (layer'.resolveAs (resolver fuel) key context) := by
  refine .bind_same (request_indifferent indifferent same key context) fun answered => ?_
  cases answered with
  | ok value =>
    dsimp only
    split
    · exact .pure rfl
    · exact .pure rfl
  | error failure => exact .pure rfl

theorem resolveAsync_indifferent (indifferent : Indifferent fuel) (same : layer.Reorders layer')
    (key : Key) (context : Context) (join : Join) :
    Couples (World.Housing layer layer') Eq
      (layer.resolveAsync (resolver fuel) key context join)
      (layer'.resolveAsync (resolver fuel) key context join) := by
  cases join with
  | finished => exact resolveAs_indifferent indifferent same key context
  | dropped => exact .pure rfl

theorem resolveAll_indifferent (indifferent : Indifferent fuel) (same : layer.Reorders layer')
    (keys : List Key) :
    Couples (World.Housing layer layer') Eq (layer.resolveAll (resolver fuel) keys)
      (layer'.resolveAll (resolver fuel) keys) := by
  induction keys with
  | nil => exact .pure rfl
  | cons key rest ih =>
    refine .bind_same (request_indifferent indifferent same key .background) fun answered => ?_
    cases answered with
    | ok value => exact ih
    | error failure => exact .pure rfl

theorem warmUp_indifferent (indifferent : Indifferent fuel) (same : layer.Reorders layer')
    (key : Key) :
    Couples (World.Housing layer layer') (fun _ _ => True) (layer.warmUp (resolver fuel) key)
      (layer'.warmUp (resolver fuel) key) := by
  unfold Layer.warmUp
  rw [same.scope.id, same.scope.settings]
  refine .onThread (fun world other thread _ housing h => ?_) (fun _ _ housing => housing.thread) ?_
  · rw [h]
    exact ⟨housing.toReorders.onThread thread, housing.known, housing.known'⟩
  · refine .catchPanic ?_ fun message => emit_indifferent rfl
    refine .bind_same (request_indifferent indifferent same key .background) fun answered => ?_
    cases answered with
    | ok value => exact emit_indifferent rfl
    | error failure => exact emit_indifferent rfl

theorem fillEager_indifferent (indifferent : Indifferent fuel) (same : layer.Reorders layer')
    (keys : layer'.eagerKeys = layer.eagerKeys) :
    Couples (World.Housing layer layer') (fun _ _ => True) (layer.fillEager (resolver fuel))
      (layer'.fillEager (resolver fuel)) := by
  have hrefusal : layer'.startRefusal? = layer.startRefusal? := by
    unfold Layer.startRefusal?
    rw [keys, same.scope.settings]
  unfold Layer.fillEager
  rw [keys, hrefusal]
  split
  · exact .throw _
  · exact .forM fun key _ => warmUp_indifferent indifferent same key

variable {world other : World} {builder builder' : Builder}

/-- Layers from the same registrations are taken up and filled side by side. -/
theorem commission_indifferent (indifferent : Indifferent fuel) (reorders : world.Reorders other)
    (same : layer.Reorders layer') (keys : layer'.eagerKeys = layer.eagerKeys)
    (parent : ∀ parent, builder.parent = some parent → parent ∈ world.built)
    (parent' : ∀ parent, builder'.parent = some parent → parent ∈ other.built)
    (assembled : builder.assemble world.memory world.nextLayer = .ok layer)
    (assembled' : builder'.assemble other.memory other.nextLayer = .ok layer') :
    Meets (World.Housing layer layer') (fun _ _ => True)
      (builder.commission (resolver fuel) layer world)
      (builder'.commission (resolver fuel) layer' other) := by
  have hraces : layer'.races = layer.races := by
    unfold Layer.races Layer.startRefusal?
    rw [keys, same.scope.settings]
  -- What was skipped need not be the same, but nothing depends on it.
  have hentered {before before' : World} (skipped : before.Reorders before')
      (built : before.built = world.built) (built' : before'.built = other.built)
      (assembled : builder.assemble before.memory before.nextLayer = .ok layer)
      (assembled' : builder'.assemble before'.memory before'.nextLayer = .ok layer') :
      World.Housing layer layer' (before.enter layer) (before'.enter layer') :=
    ⟨skipped.enter same (built ▸ parent) (built' ▸ parent') assembled assembled',
      List.mem_cons_self, List.mem_cons_self⟩
  have hopened : World.Housing layer layer' (builder.opening layer world)
      (builder'.opening layer' other) := by
    unfold Builder.opening
    dsimp only
    rw [hraces, same.scope.id, same.scope.label, same.slots_size, same.parentId?]
    refine (World.Housing.mirroring layer layer').emit _ rfl ?_
    split
    · have hbegan : (world.emit .raceBegan).Reorders (other.emit .raceBegan) := reorders.emit rfl
      exact hentered (hbegan.skip builder.skipped builder'.skipped) rfl rfl assembled assembled'
    · exact hentered (reorders.skip builder.skipped builder'.skipped) rfl rfl assembled assembled'
  have hended : Couples (World.Housing layer layer') (fun _ _ => True)
      (do if layer.races then Engine.emit .raceEnded)
      (do if layer.races then Engine.emit .raceEnded) := by
    split
    · exact emit_indifferent rfl
    · exact .pure trivial
  rw [Builder.commission_apply, Builder.commission_apply, hraces]
  exact Couples.bind (fillEager_indifferent indifferent same keys) (fun _ _ _ => hended) _ _ hopened

variable {name : String} {base base' : Option String}
  {directives directives' : List (Directive Command)}

theorem ofDirectives_parent_built (valid : world.Valid) (parent : Layer)
    (h : (Builder.ofDirectives world.layers base directives).parent = some parent) :
    parent ∈ world.built := by
  obtain ⟨other, named⟩ := ofDirectives_parent h
  exact valid.named other parent named

theorem build_command_built (indifferent : Indifferent fuel) (reorders : world.Reorders other)
    (same : layer.Reorders layer') (keys : layer'.eagerKeys = layer.eagerKeys)
    (assembled : (Builder.ofDirectives world.layers base directives).assemble world.memory
      world.nextLayer = .ok layer)
    (assembled' : (Builder.ofDirectives other.layers base' directives').assemble other.memory
      other.nextLayer = .ok layer') (name : String) :
    Meets World.Reorders Eq (carryOut (resolver fuel) (.build name base directives) world)
      (carryOut (resolver fuel) (.build name base' directives') other) := by
  have hbuild : Meets (World.Housing layer layer')
      (fun result result' => result = .ok layer ∧ result' = .ok layer')
      ((Builder.ofDirectives world.layers base directives).build (resolver fuel) world)
      ((Builder.ofDirectives other.layers base' directives').build (resolver fuel) other) := by
    rw [build_of_assembled assembled, build_of_assembled assembled']
    exact (commission_indifferent indifferent reorders same keys
      (ofDirectives_parent_built reorders.valid) (ofDirectives_parent_built reorders.valid')
      assembled assembled').bind fun _ _ _ => .pure ⟨rfl, rfl⟩
  rw [carryOut, carryOut, Engine.get_bind_apply, Engine.get_bind_apply]
  refine (hbuild.bind ?_).mono (fun _ _ housing => housing.toReorders) fun _ _ h => h
  rintro _ _ ⟨rfl, rfl⟩
  dsimp only
  rw [same.scope.id]
  exact .bind (.modify fun _ _ housing =>
    ⟨housing.toReorders.name same housing.known housing.known' name, housing.known,
      housing.known'⟩) fun _ _ _ => .pure rfl

/-- A builder that is refused in both worlds leaves nothing behind. -/
theorem build_command_refused (reorders : world.Reorders other) {error error' : BuildError}
    (refused : (Builder.ofDirectives world.layers base directives).assemble world.memory
      world.nextLayer = .error error)
    (refused' : (Builder.ofDirectives other.layers base' directives').assemble other.memory
      other.nextLayer = .error error') (name : String) :
    Meets World.Reorders
      (fun reply reply' => reply = .rejected error ∧ reply' = .rejected error')
      (carryOut (resolver fuel) (.build name base directives) world)
      (carryOut (resolver fuel) (.build name base' directives') other) := by
  rw [carryOut, carryOut, Engine.get_bind_apply, Engine.get_bind_apply,
    Engine.bind_apply_ok (build_of_refused refused),
    Engine.bind_apply_ok (build_of_refused refused')]
  exact .pure (reorders.skip _ _) ⟨rfl, rfl⟩

theorem build_command_indifferent (indifferent : Indifferent fuel)
    (reorders : world.Reorders other) (name : String) (base : Option String)
    (directives : List (Directive Command)) :
    Meets World.Reorders Eq (carryOut (resolver fuel) (.build name base directives) world)
      (carryOut (resolver fuel) (.build name base directives) other) := by
  have reparents := Builder.ofDirectives_reparents reorders base directives
  cases assembled : (Builder.ofDirectives world.layers base directives).assemble world.memory
      world.nextLayer with
  | ok layer =>
    obtain ⟨layer', assembled', same, keys⟩ := reparents.assembled assembled
    rw [← reorders.memory, ← reorders.nextLayer] at assembled'
    exact build_command_built indifferent reorders same keys assembled assembled' name
  | error error =>
    have refused' := reparents.refused assembled
    rw [← reorders.memory, ← reorders.nextLayer] at refused'
    refine (build_command_refused reorders assembled refused' name).mono (fun _ _ h => h) ?_
    rintro _ _ ⟨rfl, rfl⟩
    rfl

theorem withLayer_indifferent {action : Layer → Engine Reply}
    (h : ∀ layer layer' : Layer, layer.Reorders layer' →
      Couples (World.Housing layer layer') Eq (action layer) (action layer')) :
    Couples World.Reorders Eq (withLayer name action) (withLayer name action) := by
  refine .get_bind fun world other reorders => ?_
  rcases reorders.named_cases name with
    ⟨hlayer, hlayer'⟩ | ⟨layer, layer', hlayer, hlayer', same⟩
  · rw [hlayer, hlayer']
    exact .pure reorders rfl
  · rw [hlayer, hlayer']
    have housing : World.Housing layer layer' world other :=
      ⟨reorders, reorders.valid.named _ _ hlayer, reorders.valid'.named _ _ hlayer'⟩
    exact (h layer layer' same world other housing).mono (fun _ _ housing => housing.toReorders)
      fun _ _ same => same

theorem withToken_indifferent {action : Token → Engine Reply}
    (h : ∀ token, Couples World.Reorders Eq (action token) (action token)) :
    Couples World.Reorders Eq (withToken name action) (withToken name action) := by
  refine .get_bind fun world other reorders => ?_
  rw [reorders.tokens]
  cases world.tokens.find? name with
  | none => exact .pure reorders rfl
  | some token => exact h token world other reorders

theorem carryOut_indifferent (indifferent : Indifferent fuel) (command : Command) :
    Couples World.Reorders Eq (carryOut (resolver fuel) command)
      (carryOut (resolver fuel) command) := by
  cases command with
  | build name base directives =>
    exact fun world other reorders =>
      build_command_indifferent indifferent reorders name base directives
  | resolve name key terms =>
    refine withLayer_indifferent fun layer layer' same => .get_bind fun world other housing => ?_
    rw [housing.contextOf]
    exact Couples.bind_same (resolveAs_indifferent indifferent same key (world.contextOf terms))
      (fun answered => .pure rfl) world other housing
  | resolveAsync name key terms join =>
    refine withLayer_indifferent fun layer layer' same => .get_bind fun world other housing => ?_
    rw [housing.contextOf]
    exact Couples.bind_same
      (resolveAsync_indifferent indifferent same key (world.contextOf terms) join)
      (fun answered => .pure rfl) world other housing
  | tryResolve name key =>
    refine withLayer_indifferent fun layer layer' same =>
      .bind_same (resolveAs_indifferent indifferent same key .background) fun answered => ?_
    cases answered with
    | ok value => exact .pure rfl
    | error failure => exact .bind (emit_indifferent rfl) fun _ _ _ => .pure rfl
  | must name key =>
    refine withLayer_indifferent fun layer layer' same =>
      .bind_same (resolveAs_indifferent indifferent same key .background) fun answered => ?_
    cases answered with
    | ok value => exact .pure rfl
    | error failure => exact .throw _
  | canResolve name key =>
    refine withLayer_indifferent fun layer layer' same => .get_bind fun world other housing => ?_
    rw [housing.memory, same.canResolve]
    exact .pure housing rfl
  | statusOf name key =>
    refine withLayer_indifferent fun layer layer' same => .get_bind fun world other housing => ?_
    rw [housing.memory, same.scope.status?]
    exact .pure housing rfl
  | resolveBatch name keys =>
    refine withLayer_indifferent fun layer layer' same =>
      .bind_same (resolveAll_indifferent indifferent same keys) fun answered => ?_
    cases answered with
    | ok _ => exact .pure rfl
    | error failure => exact .pure rfl
  | dump name form =>
    refine withLayer_indifferent fun layer layer' same => .get_bind fun world other housing => ?_
    rw [housing.memory, same.dump]
    cases form with
    | text => exact .pure housing rfl
    | json => exact .pure housing rfl
    | compact => exact .pure housing rfl
    | find typeName => exact .pure housing rfl
  | profile name =>
    exact withLayer_indifferent fun layer layer' same => .pure (by rw [same.profile])
  | joinEager name => exact withLayer_indifferent fun layer layer' same => .pure rfl
  | dropLayer name =>
    intro world other reorders
    have hcontains : other.layers.contains name = world.layers.contains name := by
      unfold Table.contains
      rcases reorders.named_cases name with ⟨h, h'⟩ | ⟨layer, layer', h, h', -⟩
      · rw [h, h']
      · rw [h, h']
        rfl
    exact ⟨reorders.erase name, .answered (congrArg Reply.flag hcontains.symm)⟩
  | token name base =>
    exact fun world other reorders =>
      ⟨reorders.endow (by rw [reorders.tokens, reorders.nextToken])
        (congrArg (· + 1) reorders.nextToken), .answered rfl⟩
  | cancel name =>
    refine withToken_indifferent fun token => .bind (.modify fun world other reorders => ?_)
      fun _ _ _ => .pure rfl
    unfold World.cancel
    rw [reorders.signals]
    exact reorders.signal _
  | isCancelled name =>
    refine withToken_indifferent fun token => .get_bind fun world other reorders => ?_
    rw [reorders.signals]
    exact .pure reorders rfl
  | awaitCancelled name => exact withToken_indifferent fun token => .pure rfl
  | context terms =>
    refine .get_bind fun world other reorders => ?_
    rw [reorders.contextOf, reorders.signals]
    exact .pure reorders rfl

theorem perform_indifferent (indifferent : Indifferent fuel) (command : Command) :
    Couples World.Reorders Eq (perform (resolver fuel) command)
      (perform (resolver fuel) command) :=
  .catchPanic (carryOut_indifferent indifferent command) fun _ => .pure rfl

theorem indifferent (fuel : Nat) : Indifferent fuel := by
  induction fuel with
  | zero =>
    intro less le command
    obtain rfl := Nat.le_zero.mp le
    exact .throw _
  | succ fuel ih =>
    intro less le command
    rcases Nat.le_succ_iff.mp le with below | rfl
    · exact ih less below command
    · exact perform_indifferent ih command

end Session

def Directive.isRegistration : Directive Command → Bool
  | .register _ => true
  | _ => false

namespace Builder

variable {layers : Table String Layer}

theorem apply_comm (builder : Builder) (entry : Entry Command) {directive : Directive Command}
    (h : directive.isRegistration = false) :
    (builder.apply layers (.register entry)).apply layers directive =
      (builder.apply layers directive).apply layers (.register entry) := by
  cases directive with
  | register other => cases h
  | parent name =>
    unfold Builder.apply
    dsimp only
    split <;> rfl
  | _ => rfl

theorem foldl_apply_register (builder : Builder) (entry : Entry Command)
    {directives : List (Directive Command)}
    (h : ∀ directive ∈ directives, directive.isRegistration = false) :
    directives.foldl (Builder.apply layers) (builder.apply layers (.register entry)) =
      (directives.foldl (Builder.apply layers) builder).apply layers (.register entry) := by
  induction directives generalizing builder with
  | nil => rfl
  | cons directive rest ih =>
    rw [List.foldl_cons, List.foldl_cons, builder.apply_comm entry (h directive List.mem_cons_self)]
    exact ih _ fun other hother => h other (List.mem_cons_of_mem _ hother)

theorem foldl_apply_sorted (directives : List (Directive Command)) (builder : Builder) :
    directives.foldl (Builder.apply layers) builder =
      (directives.filter (·.isRegistration)).foldl (Builder.apply layers)
        ((directives.filter (!·.isRegistration)).foldl (Builder.apply layers) builder) := by
  induction directives generalizing builder with
  | nil => rfl
  | cons directive rest ih =>
    have hothers : ∀ other ∈ rest.filter (!·.isRegistration), other.isRegistration = false := by
      intro other hother
      exact Bool.not_eq_eq_eq_not.mp (List.mem_filter.mp hother).2
    rw [List.foldl_cons, ih]
    cases directive with
    | register entry =>
      rw [foldl_apply_register builder entry hothers]
      rfl
    | _ => rfl

theorem ofDirectives_eq (base : Option String) {directives directives' : List (Directive Command)}
    (registrations : directives'.filter (·.isRegistration) =
      directives.filter (·.isRegistration))
    (rest : directives'.filter (!·.isRegistration) = directives.filter (!·.isRegistration)) :
    Builder.ofDirectives layers base directives' = Builder.ofDirectives layers base directives := by
  unfold Builder.ofDirectives
  rw [foldl_apply_sorted directives', foldl_apply_sorted directives, registrations, rest]

end Builder

/-- The same command, or builds by strict builders of the same entries in different orders, none of
them eager. -/
inductive Command.Reorders (world : World) : Command → Command → Prop
  | same (command : Command) : Command.Reorders world command command
  | build {base base' : Option String} {directives directives' : List (Directive Command)}
      (name : String)
      (shuffles : (Builder.ofDirectives world.layers base directives).Shuffles
        (Builder.ofDirectives world.layers base' directives'))
      (patient : ∀ maker,
        .generator maker true ∉ (Builder.ofDirectives world.layers base directives).entries) :
      Command.Reorders world (.build name base directives) (.build name base' directives')

/-- The same reply, or builds refused for whatever reason. -/
inductive Reply.Concurs : Reply → Reply → Prop
  | same (reply : Reply) : Reply.Concurs reply reply
  | rejected (error error' : BuildError) : Reply.Concurs (.rejected error) (.rejected error')

namespace Session

open Engine (Agree Couples Meets)

variable {world other : World} {command command' : Command} {fuel : Nat}

/-- Builds of the same entries in different orders are refused together, or give the name to layers
that answer alike. -/
theorem perform_meets_reordered (reorders : world.Reorders other)
    (same : Command.Reorders world command command') :
    Meets World.Reorders Reply.Concurs (perform (resolver fuel) command world)
      (perform (resolver fuel) command' other) := by
  cases same with
  | same command =>
    refine (perform_indifferent (indifferent fuel) command world other reorders).mono
      (fun _ _ h => h) ?_
    rintro reply _ rfl
    exact .same reply
  | @build base base' directives directives' name shuffles patient =>
    have hbuilder : (Builder.ofDirectives world.layers base directives).Reorders
        (Builder.ofDirectives other.layers base' directives') :=
      .shuffled _ shuffles patient (Builder.ofDirectives_reparents reorders base' directives')
    refine Meets.catchPanic ?_ fun message => .pure (.same _)
    cases assembled : (Builder.ofDirectives world.layers base directives).assemble world.memory
        world.nextLayer with
    | ok layer =>
      obtain ⟨layer', assembled', same, keys⟩ := hbuilder.assembled assembled
      rw [← reorders.memory, ← reorders.nextLayer] at assembled'
      refine (build_command_built (indifferent fuel) reorders same keys assembled assembled'
        name).mono (fun _ _ h => h) ?_
      rintro reply _ rfl
      exact .same reply
    | error error =>
      obtain ⟨error', refused'⟩ := hbuilder.refused assembled
      rw [← reorders.memory, ← reorders.nextLayer] at refused'
      refine (build_command_refused reorders assembled refused' name).mono (fun _ _ h => h) ?_
      rintro _ _ ⟨rfl, rfl⟩
      exact .rejected error error'

theorem step_reply_eq (reorders : world.Reorders other) (fuel : Nat)
    (command : Command) :
    (step fuel other command).1.reply = (step fuel world command).1.reply :=
  (perform_indifferent (indifferent fuel) command world other reorders).results.eq.symm

/-- What two runs come to in which the same commands are carried out, but for builds that make the
same registrations in different orders. -/
inductive Abreast : World → World → Prop
  | initial : Abreast {} {}
  | step {world other : World} {command command' : Command} (abreast : Abreast world other)
      (fuel : Nat) (same : Command.Reorders world command command') :
      Abreast (step fuel world command).2 (step fuel other command').2

theorem Abreast.reorders (abreast : Abreast world other) : world.Reorders other := by
  induction abreast with
  | initial => exact .initial
  | step abreast fuel same ih => exact (perform_meets_reordered ih same).worlds

theorem told_step (fuel : Nat) (world : World) (command : Command) :
    (step fuel world command).2.told =
      ((step fuel world command).1.events.filter (!·.isSkipping)).reverse ++ world.told := by
  unfold World.told
  rw [step_events, List.filter_append, List.filter_reverse]

theorem events_reorder {built built' : List Layer} (fuel : Nat)
    (before : List.Forall₂ (Event.Reorders world.built other.built) world.told other.told)
    (after : List.Forall₂ (Event.Reorders built built') (step fuel world command).2.told
      (step fuel other command').2.told) :
    List.Forall₂ (Event.Reorders built built')
      ((step fuel world command).1.events.filter (!·.isSkipping))
      ((step fuel other command').1.events.filter (!·.isSkipping)) := by
  rw [told_step, told_step] at after
  have hbefore := before.length_eq
  have hlength := after.length_eq
  rw [List.length_append, List.length_append, hbefore, Nat.add_right_cancel_iff] at hlength
  have hnew := List.forall₂_take
    ((step fuel world command).1.events.filter (!·.isSkipping)).reverse.length after
  rw [List.take_left, hlength, List.take_left] at hnew
  exact List.forall₂_reverse_iff.mp hnew

/-- The order of registrations makes no difference. A strict builder is accepted or refused whatever
the order of its entries. Let the same commands be carried out in two runs, but for builds that make
the same registrations in different orders. Then the next command gets the same reply in both, and
apart from absent values passed over the same happens, at places where either layer has the same
generator; and builds of the same entries in different orders are refused together or reply alike.
Directives that register nothing may be given anywhere among the others, whatever the builder. -/
theorem registration_order_is_irrelevant :
    (∀ {builder builder' : Builder}, builder.Shuffles builder' → ∀ memory id,
      ((∃ layer, builder.assemble memory id = .ok layer) ↔
        ∃ layer', builder'.assemble memory id = .ok layer')) ∧
    (∀ {world other}, Abreast world other → world.Reorders other ∧
      ∀ fuel command command', Command.Reorders world command command' →
        Agree Reply.Concurs (step fuel world command).1.reply (step fuel other command').1.reply ∧
        (command' = command →
          (step fuel other command').1.reply = (step fuel world command).1.reply) ∧
        List.Forall₂ (Event.Reorders (step fuel world command).2.built
            (step fuel other command').2.built)
          ((step fuel world command).1.events.filter (!·.isSkipping))
          ((step fuel other command').1.events.filter (!·.isSkipping)) ∧
        (step fuel world command).2.Reorders (step fuel other command').2) ∧
    ∀ {directives directives' : List (Directive Command)},
      directives'.filter (·.isRegistration) = directives.filter (·.isRegistration) →
      directives'.filter (!·.isRegistration) = directives.filter (!·.isRegistration) →
        ∀ fuel world name base, step fuel world (.build name base directives') =
          step fuel world (.build name base directives) := by
  refine ⟨fun shuffles memory id => ⟨?_, ?_⟩, fun abreast => ?_, ?_⟩
  · rintro ⟨layer, assembled⟩
    obtain ⟨layer', assembled', -, -⟩ := shuffles.assemble assembled
    exact ⟨layer', assembled'⟩
  · rintro ⟨layer', assembled'⟩
    obtain ⟨layer, assembled, -, -⟩ := shuffles.symm.assemble assembled'
    exact ⟨layer, assembled⟩
  · refine ⟨abreast.reorders, fun fuel command command' same => ?_⟩
    obtain ⟨hafter, hreplies⟩ := @perform_meets_reordered _ _ _ _ fuel abreast.reorders same
    refine ⟨hreplies, ?_, events_reorder fuel abreast.reorders.told hafter.told, hafter⟩
    rintro rfl
    exact step_reply_eq abreast.reorders fuel command'
  · intro directives directives' registrations rest fuel world name base
    have hbuilder : Builder.ofDirectives world.layers base directives' =
        Builder.ofDirectives world.layers base directives :=
      Builder.ofDirectives_eq base registrations rest
    have hcarried : carryOut (resolver fuel) (.build name base directives') world =
        carryOut (resolver fuel) (.build name base directives) world := by
      rw [carryOut, carryOut, Engine.get_bind_apply, Engine.get_bind_apply, hbuilder]
    unfold step perform Engine.catchPanic
    rw [hcarried]

def relay (source target : Key) : Generator Command :=
  { echo.generator with
    parameters := [.required source]
    outputs := [target]
    body := fun _ arguments =>
      .done (.products [⟨target, " ".intercalate (arguments.map Argument.text)⟩]) }

/-- Two generators, of which the one takes what the other makes, before or after one another. -/
def relaying (reversed : Bool) : List (Directive Command) :=
  let seed : Directive Command := .register (.value ⟨"A"⟩ "seed")
  let near : Directive Command := .register (.generator (relay ⟨"A"⟩ ⟨"B"⟩) false)
  let far : Directive Command := .register (.generator (relay ⟨"B"⟩ ⟨"C"⟩) false)
  if reversed then [far, .permitNil, near, seed] else [.permitNil, seed, near, far]

theorem relaying_shuffles :
    (Builder.ofDirectives {} none (relaying false)).Shuffles
      (Builder.ofDirectives {} none (relaying true)) :=
  ⟨List.reverse_perm (Builder.ofDirectives {} none (relaying false)).entries, rfl, rfl⟩

def relayWorld (reversed : Bool) : World :=
  (step 3 {} (.build "relay" none (relaying reversed))).2

theorem relayWorld_abreast : Abreast (relayWorld false) (relayWorld true) := by
  refine .step .initial 3 (.build "relay" relaying_shuffles fun maker h => ?_)
  change Entry.generator maker true ∈ [.value ⟨"A"⟩ "seed", .generator _ false, .generator _ false]
    at h
  simp at h

theorem registration_order_is_irrelevant_relay :
    (∃ layer, (Builder.ofDirectives {} none (relaying true)).assemble {} 1 = .ok layer) ∧
    (relayWorld false).Reorders (relayWorld true) ∧
    (step 3 (relayWorld true) (.resolve "relay" ⟨"C"⟩ {})).1.reply = .ok (.payload "seed") ∧
    step 3 {} (.build "relay" none [.register (.value ⟨"A"⟩ "seed"), .permitNil]) =
      step 3 {} (.build "relay" none [.permitNil, .register (.value ⟨"A"⟩ "seed")]) := by
  obtain ⟨haccepted, hruns, hmoved⟩ := registration_order_is_irrelevant
  obtain ⟨hreorders, hnext⟩ := hruns relayWorld_abreast
  have hreply : (step 3 (relayWorld false) (.resolve "relay" ⟨"C"⟩ {})).1.reply =
      .ok (.payload "seed") := by decide +kernel
  refine ⟨(haccepted relaying_shuffles {} 1).mp ⟨_, rfl⟩, hreorders, ?_, ?_⟩
  · obtain ⟨-, hsame, -⟩ := hnext 3 (.resolve "relay" ⟨"C"⟩ {}) _ (.same _)
    exact (hsame rfl).trans hreply
  · exact hmoved rfl rfl 3 {} "relay" none

end Session

end LayerGraph
