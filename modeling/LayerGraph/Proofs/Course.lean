import LayerGraph.Proofs.Engine
import LayerGraph.Session

/-! What carrying out a command comes to.

Whatever a command does is a course of small moves: it looks a layer up, takes up a new one, makes a
request of a layer it has come by, or does something that no slot takes notice of. -/

namespace LayerGraph

def Event.IsIncidental : Event → Prop
  | .answered _ | .thread _ | .logged _ | .raceBegan | .raceEnded => True
  | _ => False

/-- A change that leaves alone whatever requests depend on, but for the signals, which only come. -/
structure World.Sidesteps (before after : World) : Prop where
  memory : after.memory = before.memory
  built : after.built = before.built
  runs : after.runs = before.runs
  casts : after.casts = before.casts
  nextLayer : after.nextLayer = before.nextLayer
  held : after.held = before.held
  trace : after.trace = before.trace
  cancelled : before.signals.cancelled <:+ after.signals.cancelled
  now : before.signals.now ≤ after.signals.now
  named : ∀ name layer, after.layers.find? name = some layer →
    before.layers.find? name = some layer

namespace World.Sidesteps

theorem refl (world : World) : world.Sidesteps world :=
  ⟨rfl, rfl, rfl, rfl, rfl, rfl, rfl, List.suffix_rfl, Nat.le_refl _, fun _ _ named => named⟩

theorem cancel (world : World) (token : Token) : world.Sidesteps (world.cancel token) :=
  { refl world with cancelled := List.suffix_cons _ _ }

theorem elapse (world : World) (time : Nat) : world.Sidesteps (world.elapse time) :=
  { refl world with now := Nat.le_add_right _ _ }

theorem onThread (world : World) (thread : Option String) :
    world.Sidesteps { world with thread } :=
  { refl world with }

theorem tokens (world : World) (tokens : Table String Token) (nextToken : Nat) :
    world.Sidesteps { world with tokens, nextToken } :=
  { refl world with }

theorem erase (world : World) (name : String) :
    world.Sidesteps { world with layers := world.layers.erase name } := by
  refine { refl world with named := fun other layer hfound => ?_ }
  have hfound : (world.layers.erase name).find? other = some layer := hfound
  rw [Table.find?_erase] at hfound
  split at hfound
  · cases hfound
  · exact hfound

end World.Sidesteps

theorem Engine.Keeps.outside {α : Type} {holds : World → Prop} {perform : Command → Engine Reply}
    (sidestep : ∀ {world after}, holds world → world.Sidesteps after → holds after)
    (note : ∀ {world event}, holds world → event.IsIncidental → holds (world.emit event))
    (h : ∀ command, Keeps holds (perform command)) (act : Act Command α) :
    Keeps holds (Engine.run perform act) := by
  refine .run ?_ ?_ ?_ h ?_ act
  · exact fun token world hworld => sidestep hworld (.cancel world token)
  · exact fun time world hworld => sidestep hworld (.elapse world time)
  · exact fun name world hworld => @note world (.thread name) hworld trivial
  · exact fun reply world hworld => @note world (.answered reply) hworld trivial

/-- Whether a layer has several eager slots to fill, by tasks that need not wait for each other. -/
def Layer.races (layer : Layer) : Bool :=
  1 < layer.eagerKeys.length && layer.startRefusal?.isNone

/-- The world in which the eager slots of a new layer begin to be filled. -/
def Builder.opening (builder : Builder) (layer : Layer) (world : World) : World :=
  let begun := if layer.races then world.emit .raceBegan else world
  ((begun.emitAll (builder.skipped.map fun key => .logged (.skippingNil key))).enter layer).emit
    (.logged (.layerBuilt layer.scope.id (layer.scope.label.getD "") layer.scope.slots.size
      layer.parentId?))

theorem Builder.opening_eq (builder : Builder) (layer : Layer) (world : World) :
    builder.opening layer world =
      { world.enter layer with trace := (builder.opening layer world).trace } := by
  unfold opening
  split <;> rfl

theorem Builder.commission_apply (resolve : Resolver) (builder : Builder) (layer : Layer)
    (world : World) :
    builder.commission resolve layer world =
      (do
        layer.fillEager resolve
        if layer.races then Engine.emit .raceEnded) (builder.opening layer world) := by
  unfold commission opening Layer.races
  dsimp only
  split
  · rw [Engine.emit_bind_apply, Engine.bind_apply_ok (Engine.forM_log_apply _ _ _)]
    rfl
  · rw [Engine.bind_apply_ok (Engine.forM_log_apply _ _ _)]
    rfl

/-- What holds of the world outlasts word of what is skipped, and taking the layer up makes of it what
holds from then on. -/
theorem Builder.opening_of {builder : Builder} {layer : Layer} {world : World}
    {taken : World → Prop} (holds : World → Prop)
    (began : ∀ world, holds world → holds (world.emit .raceBegan))
    (skips : ∀ world key, holds world → holds (world.emit (.logged (.skippingNil key))))
    (enter : ∀ world, holds world → taken (world.enter layer))
    (built : ∀ world id label count parent, taken world →
      taken (world.emit (.logged (.layerBuilt id label count parent))))
    (h : holds world) : taken (builder.opening layer world) := by
  have hskipped (keys : List Key) (world : World) (h : holds world) :
      holds (world.emitAll (keys.map fun key => .logged (.skippingNil key))) := by
    induction keys generalizing world with
    | nil => exact h
    | cons key rest ih =>
      have hrest := ih _ (skips world key h)
      simpa [World.emit, World.emitAll] using hrest
  refine built _ _ _ _ _ (enter _ (hskipped builder.skipped _ ?_))
  split
  · exact began world h
  · exact h

namespace Session

/-- The worlds that a command can come to from the world it starts in, with the layers it has come
by on the way. -/
inductive Course (fuel : Nat) (start : World) : List Layer → World → Prop
  | rest : Course fuel start [] start
  | sidestep {seen world after} (course : Course fuel start seen world)
      (sidesteps : world.Sidesteps after) : Course fuel start seen after
  | note {seen world event} (course : Course fuel start seen world)
      (incidental : event.IsIncidental) : Course fuel start seen (world.emit event)
  | look {seen world name layer} (course : Course fuel start seen world)
      (named : world.layers.find? name = some layer) : Course fuel start (layer :: seen) world
  | name {seen world name layer} (course : Course fuel start seen world) (met : layer ∈ seen) :
      Course fuel start seen { world with layers := world.layers.set name layer }
  | enter {seen world layer} {builder : Builder} (course : Course fuel start seen world)
      (parent : ∀ parent, builder.parent = some parent → parent ∈ seen)
      (assembled : builder.assemble world.memory world.nextLayer = .ok layer) :
      Course fuel start (layer :: seen) (world.enter layer)
  | request {seen world layer key context} (course : Course fuel start seen world)
      (met : layer ∈ seen) :
      Course fuel start seen (layer.request (resolver fuel) key context world).2

def Reaches (fuel : Nat) (start : World) (known : List Layer) (world : World) : Prop :=
  ∃ seen, Course fuel start seen world ∧ known ⊆ seen

variable {fuel : Nat} {start : World} {known : List Layer} {world : World}

namespace Reaches

theorem sidestep {after : World} (reaches : Reaches fuel start known world)
    (sidesteps : world.Sidesteps after) : Reaches fuel start known after := by
  obtain ⟨seen, course, hknown⟩ := reaches
  exact ⟨seen, course.sidestep sidesteps, hknown⟩

theorem note {event : Event} (reaches : Reaches fuel start known world)
    (incidental : event.IsIncidental) : Reaches fuel start known (world.emit event) := by
  obtain ⟨seen, course, hknown⟩ := reaches
  exact ⟨seen, course.note incidental, hknown⟩

theorem notes {events : List Event} (reaches : Reaches fuel start known world)
    (incidental : ∀ event ∈ events, event.IsIncidental) :
    Reaches fuel start known (world.emitAll events) := by
  induction events generalizing world with
  | nil => exact reaches
  | cons event rest ih =>
    have hfirst := reaches.note (incidental event List.mem_cons_self)
    have hrest := ih hfirst fun other hother => incidental other (List.mem_cons_of_mem _ hother)
    simpa [World.emit, World.emitAll] using hrest

theorem enter {builder : Builder} {layer : Layer} (reaches : Reaches fuel start known world)
    (parent : ∀ parent, builder.parent = some parent → parent ∈ known)
    (assembled : builder.assemble world.memory world.nextLayer = .ok layer) :
    Reaches fuel start (layer :: known) (world.enter layer) := by
  obtain ⟨seen, course, hknown⟩ := reaches
  have hparent : ∀ parent, builder.parent = some parent → parent ∈ seen :=
    fun other hother => hknown (parent other hother)
  exact ⟨layer :: seen, course.enter hparent assembled, List.cons_subset_cons _ hknown⟩

theorem look {name : String} {layer : Layer} (reaches : Reaches fuel start known world)
    (named : world.layers.find? name = some layer) :
    Reaches fuel start (layer :: known) world := by
  obtain ⟨seen, course, hknown⟩ := reaches
  exact ⟨layer :: seen, course.look named, List.cons_subset_cons _ hknown⟩

theorem forget {layer : Layer} (reaches : Reaches fuel start (layer :: known) world) :
    Reaches fuel start known world := by
  obtain ⟨seen, course, hknown⟩ := reaches
  exact ⟨seen, course, fun other hother => hknown (List.mem_cons_of_mem _ hother)⟩

end Reaches

open Engine (Keeps)

theorem emit_keeps {event : Event} (incidental : event.IsIncidental) :
    Keeps (Reaches fuel start known) (Engine.emit event) :=
  fun _ reaches => reaches.note incidental

theorem log_keeps (entry : LogEntry) : Keeps (Reaches fuel start known) (Engine.log entry) :=
  emit_keeps trivial

theorem request_keeps {layer : Layer} (met : layer ∈ known) (key : Key) (context : Context) :
    Keeps (Reaches fuel start known) (layer.request (resolver fuel) key context) := by
  intro world h
  obtain ⟨seen, course, hknown⟩ := h
  exact ⟨seen, course.request (hknown met), hknown⟩

theorem resolveAs_keeps {layer : Layer} (met : layer ∈ known) (key : Key) (context : Context) :
    Keeps (Reaches fuel start known) (layer.resolveAs (resolver fuel) key context) := by
  refine .bind (request_keeps met key context) fun answered => ?_
  cases answered with
  | error failure => exact .pure _
  | ok value =>
    dsimp only
    split <;> exact .pure _

theorem resolveAsync_keeps {layer : Layer} (met : layer ∈ known) (key : Key) (context : Context)
    (join : Join) :
    Keeps (Reaches fuel start known) (layer.resolveAsync (resolver fuel) key context join) := by
  cases join with
  | finished => exact resolveAs_keeps met key context
  | dropped => exact .pure _

theorem resolveAll_keeps {layer : Layer} (met : layer ∈ known) (keys : List Key) :
    Keeps (Reaches fuel start known) (layer.resolveAll (resolver fuel) keys) := by
  induction keys with
  | nil => exact .pure _
  | cons key rest ih =>
    refine .bind (request_keeps met key .background) fun answered => ?_
    cases answered with
    | error failure => exact .pure _
    | ok value => exact ih

theorem warmUp_keeps {layer : Layer} (met : layer ∈ known) (key : Key) :
    Keeps (Reaches fuel start known) (layer.warmUp (resolver fuel) key) := by
  refine .onThread (fun world thread reaches => reaches.sidestep (.onThread world thread)) ?_
  refine .catchPanic (.bind (request_keeps met key .background) fun answered => ?_)
    fun message => log_keeps _
  cases answered <;> exact log_keeps _

theorem fillEager_keeps {layer : Layer} (met : layer ∈ known) :
    Keeps (Reaches fuel start known) (layer.fillEager (resolver fuel)) := by
  unfold Layer.fillEager
  split
  · exact .throw _
  · exact .forM fun key _ => warmUp_keeps met key

theorem commission_reaches {builder : Builder} {layer : Layer}
    (reaches : Reaches fuel start known world)
    (parent : ∀ parent, builder.parent = some parent → parent ∈ known)
    (assembled : builder.assemble world.memory world.nextLayer = .ok layer) :
    Reaches fuel start (layer :: known) (builder.commission (resolver fuel) layer world).2 := by
  have hopened : Reaches fuel start (layer :: known) (builder.opening layer world) :=
    Builder.opening_of
      (fun world => Reaches fuel start known world ∧
        builder.assemble world.memory world.nextLayer = .ok layer)
      (fun _ h => ⟨h.1.note trivial, h.2⟩) (fun _ _ h => ⟨h.1.note trivial, h.2⟩)
      (fun _ h => h.1.enter parent h.2) (fun _ _ _ _ _ h => h.note trivial) ⟨reaches, assembled⟩
  have hended : Keeps (Reaches fuel start (layer :: known))
      (do if layer.races then Engine.emit .raceEnded) := by
    split
    · exact emit_keeps trivial
    · exact .pure _
  rw [Builder.commission_apply]
  exact Keeps.bind (fillEager_keeps List.mem_cons_self) (fun _ => hended) _ hopened

section

variable {builder : Builder} {layer : Layer}

theorem build_of_refused {resolve : Resolver} {error : BuildError}
    (refused : builder.assemble world.memory world.nextLayer = .error error) :
    builder.build resolve world =
      (.ok (.error error),
        world.emitAll (builder.skipped.map fun key => .logged (.skippingNil key))) := by
  unfold Builder.build
  rw [Engine.get_bind_apply, refused]
  exact Engine.bind_apply_ok (Engine.forM_log_apply _ _ _)

theorem build_of_assembled {resolve : Resolver}
    (assembled : builder.assemble world.memory world.nextLayer = .ok layer) :
    builder.build resolve world =
      (do
        builder.commission resolve layer
        return .ok layer : Engine (Except BuildError Layer)) world := by
  unfold Builder.build
  rw [Engine.get_bind_apply, assembled]

end

theorem build_reaches {builder : Builder} (reaches : Reaches fuel start known world)
    (parent : ∀ parent, builder.parent = some parent → parent ∈ known) :
    Reaches fuel start known (builder.build (resolver fuel) world).2 ∧
      ∀ layer after, builder.build (resolver fuel) world = (.ok (.ok layer), after) →
        Reaches fuel start (layer :: known) after := by
  cases assembled : builder.assemble world.memory world.nextLayer with
  | error error =>
    rw [build_of_refused assembled]
    refine ⟨reaches.notes fun event hevent => ?_, fun _ _ h => nomatch h⟩
    obtain ⟨key, -, rfl⟩ := List.mem_map.mp hevent
    trivial
  | ok layer =>
    have hreaches := commission_reaches reaches parent assembled
    rw [build_of_assembled assembled, Engine.bind_apply]
    revert hreaches
    rcases builder.commission (resolver fuel) layer world with ⟨result, after⟩
    intro hreaches
    cases result with
    | error stop => exact ⟨hreaches.forget, fun _ _ h => nomatch h⟩
    | ok _ =>
      refine ⟨hreaches.forget, fun _ _ h => ?_⟩
      cases h
      exact hreaches

theorem ofDirectives_parent {layers : Table String Layer} {base : Option String}
    {directives : List (Directive Command)} {parent : Layer}
    (h : (Builder.ofDirectives layers base directives).parent = some parent) :
    ∃ name, layers.find? name = some parent := by
  have hfold : ∀ (directives : List (Directive Command)) (builder : Builder),
      (∀ parent, builder.parent = some parent → ∃ name, layers.find? name = some parent) →
      ∀ parent, (directives.foldl (Builder.apply layers) builder).parent = some parent →
        ∃ name, layers.find? name = some parent := by
    intro directives
    induction directives with
    | nil => exact fun builder hbuilder => hbuilder
    | cons directive rest ih =>
      intro builder hbuilder
      refine ih _ ?_
      cases directive with
      | parent name =>
        cases hname : layers.find? name with
        | none => simpa [Builder.apply, hname] using hbuilder
        | some layer =>
          intro found hfound
          simp only [Builder.apply, hname, Option.some.injEq] at hfound
          exact ⟨name, hfound ▸ hname⟩
      | _ => exact hbuilder
  refine hfold directives _ ?_ parent h
  intro found hfound
  cases base with
  | none => cases hfound
  | some name => exact ⟨name, hfound⟩

theorem withLayer_keeps {name : String} {action : Layer → Engine Reply}
    (h : ∀ layer, Keeps (Reaches fuel start (layer :: known)) (action layer)) :
    Keeps (Reaches fuel start known) (withLayer name action) := by
  refine .get_bind fun world reaches => ?_
  cases named : world.layers.find? name with
  | none => exact reaches
  | some layer => exact (h layer world (reaches.look named)).forget

theorem withToken_keeps {name : String} {action : Token → Engine Reply}
    (h : ∀ token, Keeps (Reaches fuel start known) (action token)) :
    Keeps (Reaches fuel start known) (withToken name action) := by
  refine .get_bind fun world reaches => ?_
  cases world.tokens.find? name with
  | none => exact reaches
  | some token => exact h token world reaches

theorem build_command_keeps (name : String) (base : Option String)
    (directives : List (Directive Command)) :
    Keeps (Reaches fuel start known) (carryOut (resolver fuel) (.build name base directives)) := by
  refine .get_bind fun world reaches => ?_
  have hbuild (known : List Layer) (reaches : Reaches fuel start known world)
      (parent : ∀ parent, (Builder.ofDirectives world.layers base directives).parent = some parent →
        parent ∈ known) :
      Reaches fuel start known
        (carryOut (resolver fuel) (.build name base directives) world).2 := by
    have hreaches := build_reaches reaches parent
    rw [carryOut, Engine.get_bind_apply, Engine.bind_apply]
    revert hreaches
    rcases (Builder.ofDirectives world.layers base directives).build (resolver fuel) world with
      ⟨result, after⟩
    intro h
    obtain ⟨hreaches, hbuilt⟩ := h
    rcases result with stop | (error | layer)
    · exact hreaches
    · exact hreaches
    · obtain ⟨seen, course, hknown⟩ := hbuilt layer after rfl
      have hnamed := @Course.name _ _ _ _ name _ course (hknown List.mem_cons_self)
      exact Reaches.forget ⟨seen, hnamed, hknown⟩
  cases hparent : (Builder.ofDirectives world.layers base directives).parent with
  | none => exact hbuild known reaches fun _ h => nomatch hparent.symm.trans h
  | some parent =>
    obtain ⟨other, named⟩ := ofDirectives_parent hparent
    have hreaches := hbuild (parent :: known) (reaches.look named) (by
      rw [hparent]
      intro _ h
      cases h
      exact List.mem_cons_self)
    exact hreaches.forget

theorem carryOut_keeps (command : Command) :
    Keeps (Reaches fuel start known) (carryOut (resolver fuel) command) := by
  cases command with
  | build name base directives => exact build_command_keeps name base directives
  | resolve name key terms =>
    refine withLayer_keeps fun layer => .get_bind fun world reaches => ?_
    exact Keeps.bind (resolveAs_keeps List.mem_cons_self key _) (fun _ => .pure _) world reaches
  | resolveAsync name key terms join =>
    refine withLayer_keeps fun layer => .get_bind fun world reaches => ?_
    exact Keeps.bind (resolveAsync_keeps List.mem_cons_self key _ join) (fun _ => .pure _) world
      reaches
  | tryResolve name key =>
    refine withLayer_keeps fun layer =>
      .bind (resolveAs_keeps List.mem_cons_self key .background) fun answered => ?_
    cases answered with
    | ok value => exact .pure _
    | error failure => exact .bind (log_keeps _) fun _ => .pure _
  | must name key =>
    refine withLayer_keeps fun layer =>
      .bind (resolveAs_keeps List.mem_cons_self key .background) fun answered => ?_
    cases answered with
    | ok value => exact .pure _
    | error failure => exact .throw _
  | canResolve name key => exact withLayer_keeps fun layer => .get_bind fun world reaches => reaches
  | statusOf name key => exact withLayer_keeps fun layer => .get_bind fun world reaches => reaches
  | resolveBatch name keys =>
    refine withLayer_keeps fun layer =>
      .bind (resolveAll_keeps List.mem_cons_self keys) fun answered => ?_
    cases answered <;> exact .pure _
  | dump name form =>
    refine withLayer_keeps fun layer => .get_bind fun world reaches => ?_
    cases form <;> exact reaches
  | profile name => exact withLayer_keeps fun layer => .pure _
  | joinEager name => exact withLayer_keeps fun layer => .pure _
  | dropLayer name => exact fun world reaches => reaches.sidestep (.erase world name)
  | token name base => exact fun world reaches => reaches.sidestep (.tokens world _ _)
  | cancel name =>
    refine withToken_keeps fun token => .bind (.modify fun world reaches => ?_) fun _ => .pure _
    exact reaches.sidestep (.cancel world token)
  | isCancelled name => exact withToken_keeps fun token => .get_bind fun world reaches => reaches
  | awaitCancelled name => exact withToken_keeps fun token => .pure _
  | context terms => exact .get_bind fun world reaches => reaches

theorem perform_keeps (command : Command) :
    Keeps (Reaches fuel start known) (perform (resolver fuel) command) :=
  .catchPanic (carryOut_keeps command) fun _ => .pure _

/-- Carrying out a command is a course, however it ends. -/
theorem perform_course (fuel : Nat) (command : Command) (world : World) :
    ∃ seen, Course fuel world seen (perform (resolver fuel) command world).2 := by
  have hkeeps : Keeps (Reaches fuel world []) (perform (resolver fuel) command) :=
    perform_keeps command
  obtain ⟨seen, course, -⟩ := hkeeps world ⟨[], .rest, fun _ h => h⟩
  exact ⟨seen, course⟩

end Session

end LayerGraph
