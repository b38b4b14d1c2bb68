import LayerGraph.Proofs.Growth

/-! What carrying out a command comes to if whatever is asked for on the way is answered.

A course tells where a command leads, however it ends. A passage is the course of a command that
comes to its end: every request made on it is answered or panics, and a panic is told of or is the
last that happens. -/

namespace LayerGraph

def Event.isAlarm : Event → Bool
  | .answered (.panicked _) | .logged (.eagerPanicked ..) => true
  | _ => false

theorem Event.isIncidental_of_isAlarm {event : Event} (h : event.isAlarm) : event.IsIncidental := by
  unfold Event.isAlarm at h
  split at h
  · trivial
  · trivial
  · exact absurd h Bool.false_ne_true

def Event.IsMute : Event → Prop
  | .noticed .. | .attempted .. => False
  | .logged (.running ..) | .logged (.finished ..) | .logged (.failed ..) => False
  | .logged (.delegating ..) => False
  | _ => True

namespace Engine

variable {α β : Type}

/-- If the first property holds of the world in which the computation begins, then the second one
holds of its result and the world after it, or, if it panics, the third one of the world left. -/
def Leads (before : World → Prop) (action : Engine α) (after : α → World → Prop)
    (panicked : World → Prop) : Prop :=
  ∀ world, before world →
    match action world with
    | (.ok a, between) => after a between
    | (.error (.panic _), between) => panicked between
    | (.error _, _) => True

namespace Leads

variable {before other panicked : World → Prop} {after : α → World → Prop}
  {further : β → World → Prop}

theorem pure {a : α} (h : ∀ world, before world → after a world) :
    Leads before (pure a : Engine α) after panicked :=
  h

theorem throw {stop : Stop} (h : ∀ world, before world → panicked world) :
    Leads before (throw stop : Engine α) after panicked := by
  cases stop with
  | panic message => exact h
  | blocked | outOfFuel => exact fun _ _ => trivial

theorem modify {change : World → World} {after : Unit → World → Prop}
    (h : ∀ world, before world → after () (change world)) :
    Leads before (modify change : Engine Unit) after panicked :=
  h

theorem get_bind {next : World → Engine α}
    (h : ∀ world, before world → Leads (· = world) (next world) after panicked) :
    Leads before (get >>= next) after panicked :=
  fun world hworld => h world hworld world rfl

theorem mono {loose : World → Prop} {later : α → World → Prop} {action : Engine α}
    (h : Leads other action after panicked) (hbefore : ∀ world, before world → other world)
    (hafter : ∀ a world, after a world → later a world)
    (hpanicked : ∀ world, panicked world → loose world) : Leads before action later loose := by
  intro world hworld
  have hleads := h world (hbefore world hworld)
  revert hleads
  rcases action world with ⟨(message | _ | _) | a, between⟩
  · exact hpanicked between
  · exact id
  · exact id
  · exact hafter a between

theorem bind {action : Engine α} {next : α → Engine β} (hfirst : Leads before action after panicked)
    (hnext : ∀ a, Leads (after a) (next a) further panicked) :
    Leads before (action >>= next) further panicked := by
  intro world hworld
  have hleads := hfirst world hworld
  rw [bind_apply]
  revert hleads
  rcases action world with ⟨(message | _ | _) | a, between⟩
  · exact id
  · exact id
  · exact id
  · exact hnext a between

theorem forM {step : α → Engine Unit} {items : List α}
    (h : ∀ item ∈ items, Leads before (step item) (fun _ => before) panicked) :
    Leads before (items.forM step) (fun _ => before) panicked := by
  induction items with
  | nil => exact .pure fun _ => id
  | cons item rest ih =>
    refine .bind (h item List.mem_cons_self) fun _ => ih fun other hother => ?_
    exact h other (List.mem_cons_of_mem _ hother)

theorem catchPanic {caught : World → Prop} {action : Engine α} {answer : String → Engine α}
    (haction : Leads before action after caught)
    (hanswer : ∀ message, Leads caught (answer message) after panicked) :
    Leads before (catchPanic action answer) after panicked := by
  intro world hworld
  have hleads := haction world hworld
  unfold Engine.catchPanic
  revert hleads
  rcases action world with ⟨(message | _ | _) | a, between⟩
  · exact hanswer message between
  · exact id
  · exact id
  · exact id

theorem onThread {name : String} {action : Engine α}
    (hbefore : ∀ world thread, before world → before { world with thread })
    (hafter : ∀ a world thread, after a world → after a { world with thread })
    (hpanicked : ∀ world thread, panicked world → panicked { world with thread })
    (haction : Leads before action after panicked) :
    Leads before (onThread name action) after panicked := by
  intro world hworld
  have hleads := haction _ (hbefore world (some name) hworld)
  unfold Engine.onThread
  revert hleads
  rcases action { world with thread := some name } with ⟨(message | _ | _) | a, between⟩
  · exact hpanicked between world.thread
  · exact id
  · exact id
  · exact hafter a between world.thread

theorem outside {holds : World → Prop} {perform : Command → Engine Reply}
    (sidestep : ∀ {world after}, holds world → world.Sidesteps after → holds after)
    (thread : ∀ {world} name, holds world → holds (world.emit (.thread name)))
    (answered : ∀ command, Leads holds (perform command)
      (fun reply after => holds (after.emit (.answered reply))) holds)
    (act : Act Command α) : Leads holds (Engine.run perform act) (fun _ => holds) holds := by
  induction act with
  | done result => exact .pure fun _ => id
  | panic message => exact .throw fun _ => id
  | cancel name next ih =>
    refine .bind (.modify fun world h => ?_) fun _ => ih
    cases world.tokens.find? name with
    | some token => exact sidestep h (.cancel world token)
    | none => exact h
  | elapse time next ih =>
    exact .bind (.modify fun world h => sidestep h (.elapse world time)) fun _ => ih
  | noteThread next ih => exact fun world h => ih _ (thread world.thread h)
  | perform command next ih =>
    exact .bind (answered command) fun reply => .bind (.modify fun _ => id) fun _ => ih reply

end Leads

end Engine

namespace Session

/-- The worlds that a command can come to from the world it starts in, with the layers it has come
by on the way, if its requests are answered or panic. The flag says whether there has been no panic,
or it has been told of. -/
inductive Passage (fuel : Nat) (start : World) : Bool → List Layer → World → Prop
  | rest : Passage fuel start true [] start
  | sidestep {calm seen world after} (passage : Passage fuel start calm seen world)
      (sidesteps : world.Sidesteps after) : Passage fuel start calm seen after
  | note {calm seen world event} (passage : Passage fuel start calm seen world)
      (incidental : event.IsIncidental) (mute : event.IsMute) :
      Passage fuel start calm seen (world.emit event)
  | look {calm seen world name layer} (passage : Passage fuel start calm seen world)
      (named : world.layers.find? name = some layer) : Passage fuel start calm (layer :: seen) world
  | name {calm seen world name layer} (passage : Passage fuel start calm seen world)
      (met : layer ∈ seen) :
      Passage fuel start calm seen { world with layers := world.layers.set name layer }
  | enter {calm seen world layer} {builder : Builder} (passage : Passage fuel start calm seen world)
      (parent : ∀ parent, builder.parent = some parent → parent ∈ seen)
      (assembled : builder.assemble world.memory world.nextLayer = .ok layer) :
      Passage fuel start calm (layer :: seen) (world.enter layer)
  | request {calm seen world layer key context answered after}
      (passage : Passage fuel start calm seen world) (met : layer ∈ seen)
      (answer : layer.request (resolver fuel) key context world = (.ok answered, after)) :
      Passage fuel start calm seen after
  | panic {calm seen world layer key context message after}
      (passage : Passage fuel start calm seen world) (met : layer ∈ seen)
      (panics : layer.request (resolver fuel) key context world =
        (.error (.panic message), after)) :
      Passage fuel start false seen after
  | alarm {calm seen world event} (passage : Passage fuel start calm seen world)
      (alarm : event.isAlarm) : Passage fuel start true seen (world.emit event)

variable {fuel : Nat} {start : World} {calm : Bool} {known : List Layer} {world : World}

theorem Passage.course {seen : List Layer} (passage : Passage fuel start calm seen world) :
    Course fuel start seen world := by
  induction passage with
  | rest => exact .rest
  | sidestep passage sidesteps ih => exact ih.sidestep sidesteps
  | note passage incidental mute ih => exact ih.note incidental
  | look passage named ih => exact ih.look named
  | name passage met ih => exact ih.name met
  | enter passage parent assembled ih => exact ih.enter parent assembled
  | @request calm seen world layer key context answered after passage met answer ih =>
    have hcourse := @Course.request _ _ _ _ _ key context ih met
    rwa [answer] at hcourse
  | @panic calm seen world layer key context message after passage met panics ih =>
    have hcourse := @Course.request _ _ _ _ _ key context ih met
    rwa [panics] at hcourse
  | alarm passage alarm ih => exact ih.note (Event.isIncidental_of_isAlarm alarm)

def Passes (fuel : Nat) (start : World) (calm : Bool) (known : List Layer) (world : World) : Prop :=
  ∃ seen, Passage fuel start calm seen world ∧ known ⊆ seen

def Strays (fuel : Nat) (start : World) (known : List Layer) (world : World) : Prop :=
  ∃ calm, Passes fuel start calm known world

namespace Passes

theorem strays (passes : Passes fuel start calm known world) : Strays fuel start known world :=
  ⟨calm, passes⟩

theorem sidestep {after : World} (passes : Passes fuel start calm known world)
    (sidesteps : world.Sidesteps after) : Passes fuel start calm known after := by
  obtain ⟨seen, passage, hknown⟩ := passes
  exact ⟨seen, passage.sidestep sidesteps, hknown⟩

theorem note {event : Event} (passes : Passes fuel start calm known world)
    (incidental : event.IsIncidental) (mute : event.IsMute) :
    Passes fuel start calm known (world.emit event) := by
  obtain ⟨seen, passage, hknown⟩ := passes
  exact ⟨seen, passage.note incidental mute, hknown⟩

theorem enter {builder : Builder} {layer : Layer} (passes : Passes fuel start calm known world)
    (parent : ∀ parent, builder.parent = some parent → parent ∈ known)
    (assembled : builder.assemble world.memory world.nextLayer = .ok layer) :
    Passes fuel start calm (layer :: known) (world.enter layer) := by
  obtain ⟨seen, passage, hknown⟩ := passes
  have hparent : ∀ parent, builder.parent = some parent → parent ∈ seen :=
    fun other hother => hknown (parent other hother)
  exact ⟨layer :: seen, passage.enter hparent assembled, List.cons_subset_cons _ hknown⟩

theorem look {name : String} {layer : Layer} (passes : Passes fuel start calm known world)
    (named : world.layers.find? name = some layer) :
    Passes fuel start calm (layer :: known) world := by
  obtain ⟨seen, passage, hknown⟩ := passes
  exact ⟨layer :: seen, passage.look named, List.cons_subset_cons _ hknown⟩

theorem forget {layer : Layer} (passes : Passes fuel start calm (layer :: known) world) :
    Passes fuel start calm known world := by
  obtain ⟨seen, passage, hknown⟩ := passes
  exact ⟨seen, passage, fun other hother => hknown (List.mem_cons_of_mem _ hother)⟩

end Passes

theorem Strays.forget {layer : Layer} (strays : Strays fuel start (layer :: known) world) :
    Strays fuel start known world := by
  obtain ⟨calm, passes⟩ := strays
  exact ⟨calm, passes.forget⟩

abbrev Proceeds {α : Type} (fuel : Nat) (start : World) (known : List Layer) (action : Engine α) :
    Prop :=
  Engine.Leads (Passes fuel start true known) action (fun _ => Passes fuel start true known)
    (Strays fuel start known)

section

variable {α : Type}

theorem pure_proceeds (a : α) : Proceeds fuel start known (pure a : Engine α) := .pure fun _ => id

theorem throw_proceeds (stop : Stop) : Proceeds fuel start known (throw stop : Engine α) :=
  .throw fun _ => Passes.strays

theorem get_bind_proceeds {next : World → Engine α}
    (h : ∀ world, Proceeds fuel start known (next world)) :
    Proceeds fuel start known (get >>= next) :=
  fun world hworld => h world world hworld

theorem modify_proceeds {change : World → World}
    (h : ∀ world : World, world.Sidesteps (change world)) :
    Proceeds fuel start known (modify change : Engine Unit) :=
  .modify fun world passes => Passes.sidestep passes (h world)

theorem emit_proceeds {event : Event} (incidental : event.IsIncidental) (mute : event.IsMute) :
    Proceeds fuel start known (Engine.emit event) :=
  .modify fun _ passes => Passes.note passes incidental mute

theorem log_proceeds {entry : LogEntry} (mute : Event.IsMute (.logged entry)) :
    Proceeds fuel start known (Engine.log entry) :=
  emit_proceeds trivial mute

end

theorem request_proceeds {layer : Layer} (met : layer ∈ known) (key : Key) (context : Context) :
    Proceeds fuel start known (layer.request (resolver fuel) key context) := by
  rintro world ⟨seen, passage, hknown⟩
  rcases hrequest : layer.request (resolver fuel) key context world with
    ⟨(message | _ | _) | answered, after⟩
  · exact ⟨false, seen, passage.panic (hknown met) hrequest, hknown⟩
  · trivial
  · trivial
  · exact ⟨seen, passage.request (hknown met) hrequest, hknown⟩

theorem resolveAs_proceeds {layer : Layer} (met : layer ∈ known) (key : Key) (context : Context) :
    Proceeds fuel start known (layer.resolveAs (resolver fuel) key context) := by
  refine .bind (request_proceeds met key context) fun answered => ?_
  cases answered with
  | error failure => exact pure_proceeds _
  | ok value =>
    dsimp only
    split <;> exact pure_proceeds _

theorem resolveAsync_proceeds {layer : Layer} (met : layer ∈ known) (key : Key) (context : Context)
    (join : Join) :
    Proceeds fuel start known (layer.resolveAsync (resolver fuel) key context join) := by
  cases join with
  | finished => exact resolveAs_proceeds met key context
  | dropped => exact pure_proceeds _

theorem resolveAll_proceeds {layer : Layer} (met : layer ∈ known) (keys : List Key) :
    Proceeds fuel start known (layer.resolveAll (resolver fuel) keys) := by
  induction keys with
  | nil => exact pure_proceeds _
  | cons key rest ih =>
    refine .bind (request_proceeds met key .background) fun answered => ?_
    cases answered with
    | error failure => exact pure_proceeds _
    | ok value => exact ih

theorem warmUp_proceeds {layer : Layer} (met : layer ∈ known) (key : Key) :
    Proceeds fuel start known (layer.warmUp (resolver fuel) key) := by
  refine .onThread (fun world thread passes => passes.sidestep (.onThread world thread))
    (fun _ world thread passes => passes.sidestep (.onThread world thread))
    (fun world thread ⟨calm, passes⟩ => ⟨calm, passes.sidestep (.onThread world thread)⟩) ?_
  refine .catchPanic (.bind (request_proceeds met key .background) fun answered => ?_)
    fun message => .modify fun world strays => ?_
  · cases answered <;> exact log_proceeds trivial
  · obtain ⟨calm, seen, passage, hknown⟩ := strays
    exact ⟨seen, passage.alarm rfl, hknown⟩

theorem fillEager_proceeds {layer : Layer} (met : layer ∈ known) :
    Proceeds fuel start known (layer.fillEager (resolver fuel)) := by
  unfold Layer.fillEager
  split
  · exact throw_proceeds _
  · exact .forM fun key _ => warmUp_proceeds met key

theorem commission_proceeds {builder : Builder} {layer : Layer}
    (parent : ∀ parent, builder.parent = some parent → parent ∈ known) :
    Engine.Leads
      (fun world => Passes fuel start true known world ∧
        builder.assemble world.memory world.nextLayer = .ok layer)
      (builder.commission (resolver fuel) layer) (fun _ => Passes fuel start true (layer :: known))
      (Strays fuel start known) := by
  intro world hready
  have hopened : Passes fuel start true (layer :: known) (builder.opening layer world) :=
    Builder.opening_of
      (fun world => Passes fuel start true known world ∧
        builder.assemble world.memory world.nextLayer = .ok layer)
      (fun _ h => ⟨h.1.note trivial trivial, h.2⟩) (fun _ _ h => ⟨h.1.note trivial trivial, h.2⟩)
      (fun _ h => h.1.enter parent h.2) (fun _ _ _ _ _ h => h.note trivial trivial) hready
  have hended : Proceeds fuel start (layer :: known)
      (do if layer.races then Engine.emit .raceEnded) := by
    split
    · exact emit_proceeds trivial trivial
    · exact pure_proceeds _
  have hfilled : Proceeds fuel start (layer :: known) (layer.fillEager (resolver fuel)) :=
    fillEager_proceeds List.mem_cons_self
  rw [Builder.commission_apply]
  exact Engine.Leads.mono (.bind hfilled fun _ => hended) (fun _ => id) (fun _ _ => id)
    (fun _ => Strays.forget) _ hopened

theorem build_leads {builder : Builder}
    (parent : ∀ parent, builder.parent = some parent → parent ∈ known) :
    Engine.Leads (Passes fuel start true known) (builder.build (resolver fuel))
      (fun built world => match built with
        | .ok layer => Passes fuel start true (layer :: known) world
        | .error _ => Passes fuel start true known world)
      (Strays fuel start known) := by
  intro world passes
  cases assembled : builder.assemble world.memory world.nextLayer with
  | error error =>
    rw [build_of_refused assembled]
    have hskipped : Proceeds fuel start known
        (builder.skipped.forM fun key => Engine.log (.skippingNil key)) :=
      .forM fun key _ => log_proceeds trivial
    have hleads := hskipped world passes
    rwa [Engine.forM_log_apply] at hleads
  | ok layer =>
    have hcommission := @commission_proceeds fuel _ _ _ _ parent world ⟨passes, assembled⟩
    rw [build_of_assembled assembled, Engine.bind_apply]
    revert hcommission
    rcases builder.commission (resolver fuel) layer world with ⟨(message | _ | _) | _, after⟩ <;>
      exact id

theorem withLayer_proceeds {name : String} {action : Layer → Engine Reply}
    (h : ∀ layer, Proceeds fuel start (layer :: known) (action layer)) :
    Proceeds fuel start known (withLayer name action) := by
  refine .get_bind fun world passes => ?_
  cases named : world.layers.find? name with
  | none => exact .pure fun _ heq => heq ▸ passes
  | some layer =>
    exact (h layer).mono (fun _ heq => heq ▸ passes.look named) (fun _ _ => Passes.forget)
      fun _ => Strays.forget

theorem withToken_proceeds {name : String} {action : Token → Engine Reply}
    (h : ∀ token, Proceeds fuel start known (action token)) :
    Proceeds fuel start known (withToken name action) := by
  refine get_bind_proceeds fun world => ?_
  cases world.tokens.find? name with
  | none => exact pure_proceeds _
  | some token => exact h token

theorem build_command_proceeds (name : String) (base : Option String)
    (directives : List (Directive Command)) :
    Proceeds fuel start known (carryOut (resolver fuel) (.build name base directives)) := by
  refine .get_bind fun world passes => ?_
  -- The layer that the new one is to be built in has been come by too.
  obtain ⟨wider, hwider, parent, narrow⟩ : ∃ wider, Passes fuel start true wider world ∧
      (∀ parent, (Builder.ofDirectives world.layers base directives).parent = some parent →
        parent ∈ wider) ∧
      ∀ calm world, Passes fuel start calm wider world → Passes fuel start calm known world := by
    cases hparent : (Builder.ofDirectives world.layers base directives).parent with
    | none =>
      refine ⟨known, passes, fun _ h => ?_, fun _ _ => id⟩
      cases h
    | some parent =>
      obtain ⟨other, named⟩ := ofDirectives_parent hparent
      refine ⟨parent :: known, passes.look named, fun _ h => ?_, fun _ _ => Passes.forget⟩
      cases h
      exact List.mem_cons_self
  have hbuild := @build_leads fuel start _ _ parent
  refine Engine.Leads.bind (hbuild.mono (fun _ heq => heq ▸ hwider) (fun _ _ => id)
    fun _ => Exists.imp fun calm => narrow calm _) fun built => ?_
  cases built with
  | error error => exact .pure fun world => narrow true world
  | ok layer =>
    refine .bind (.modify fun world h => ?_) fun _ => pure_proceeds _
    obtain ⟨seen, passage, hknown⟩ := h
    exact narrow true _
      (Passes.forget ⟨seen, passage.name (hknown List.mem_cons_self), hknown⟩)

theorem carryOut_proceeds (command : Command) :
    Proceeds fuel start known (carryOut (resolver fuel) command) := by
  cases command with
  | build name base directives => exact build_command_proceeds name base directives
  | resolve name key terms =>
    refine withLayer_proceeds fun layer => get_bind_proceeds fun world => ?_
    exact .bind (resolveAs_proceeds List.mem_cons_self key _) fun _ => pure_proceeds _
  | resolveAsync name key terms join =>
    refine withLayer_proceeds fun layer => get_bind_proceeds fun world => ?_
    exact .bind (resolveAsync_proceeds List.mem_cons_self key _ join) fun _ => pure_proceeds _
  | tryResolve name key =>
    refine withLayer_proceeds fun layer =>
      .bind (resolveAs_proceeds List.mem_cons_self key .background) fun answered => ?_
    cases answered with
    | ok value => exact pure_proceeds _
    | error failure => exact .bind (log_proceeds trivial) fun _ => pure_proceeds _
  | must name key =>
    refine withLayer_proceeds fun layer =>
      .bind (resolveAs_proceeds List.mem_cons_self key .background) fun answered => ?_
    cases answered with
    | ok value => exact pure_proceeds _
    | error failure => exact throw_proceeds _
  | canResolve name key =>
    exact withLayer_proceeds fun layer => get_bind_proceeds fun world => pure_proceeds _
  | statusOf name key =>
    exact withLayer_proceeds fun layer => get_bind_proceeds fun world => pure_proceeds _
  | resolveBatch name keys =>
    refine withLayer_proceeds fun layer =>
      .bind (resolveAll_proceeds List.mem_cons_self keys) fun answered => ?_
    cases answered <;> exact pure_proceeds _
  | dump name form =>
    refine withLayer_proceeds fun layer => get_bind_proceeds fun world => ?_
    cases form <;> exact pure_proceeds _
  | profile name => exact withLayer_proceeds fun layer => pure_proceeds _
  | joinEager name => exact withLayer_proceeds fun layer => pure_proceeds _
  | dropLayer name => exact fun world passes => passes.sidestep (.erase world name)
  | token name base => exact fun world passes => passes.sidestep (.tokens world _ _)
  | cancel name =>
    exact withToken_proceeds fun token =>
      .bind (modify_proceeds fun world => .cancel world token) fun _ => pure_proceeds _
  | isCancelled name =>
    exact withToken_proceeds fun token => get_bind_proceeds fun world => pure_proceeds _
  | awaitCancelled name => exact withToken_proceeds fun token => pure_proceeds _
  | context terms => exact get_bind_proceeds fun world => pure_proceeds _

theorem perform_passage {command : Command} {reply : Reply} {after : World}
    (h : perform (resolver fuel) command world = (.ok reply, after)) :
    ∃ calm seen, Passage fuel world calm seen after ∧
      ((∀ message, reply ≠ .panicked message) → calm = true) := by
  have hperform : Engine.Leads (Passes fuel world true []) (perform (resolver fuel) command)
      (fun reply after => ∃ calm, Passes fuel world calm [] after ∧
        ((∀ message, reply ≠ .panicked message) → calm = true)) (fun _ => True) :=
    .catchPanic ((carryOut_proceeds command).mono (fun _ => id)
      (fun _ _ passes => ⟨true, passes, fun _ => rfl⟩) fun _ => id)
      fun message => .pure fun _ ⟨calm, passes⟩ =>
        ⟨calm, passes, fun calm => absurd rfl (calm message)⟩
  have hleads := hperform world ⟨[], .rest, fun _ h => h⟩
  rw [h] at hleads
  obtain ⟨calm, ⟨seen, passage, -⟩, hcalm⟩ := hleads
  exact ⟨calm, seen, passage, hcalm⟩

theorem handler_ne_panic {command : Command} {message : String} {after : World}
    (h : handler fuel command world = (.error (.panic message), after)) : False := by
  cases fuel with
  | zero => cases h
  | succ fuel =>
    change Engine.catchPanic (carryOut (resolver fuel) command)
      (fun message => pure (.panicked message)) world = _ at h
    unfold Engine.catchPanic at h
    split at h
    · cases h
    · next hother _ => exact hother _ (Prod.mk.inj h).1

end Session

end LayerGraph
