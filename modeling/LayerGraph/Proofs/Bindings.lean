import LayerGraph.Proofs.Recounting

/-! What requests for an interface come to.

Wherever the request is made, it comes down to the layer that the interface belongs to. That layer
answers with the one value that the interface has, or it fails and the interface has none. The value
is what the cast has made of the value of the source. The cast is applied again only if an earlier
application has panicked, or if the interface was requested while one was in progress. -/

namespace LayerGraph

def Event.isCastAt (site : Site) : Event → Bool
  | .casted other .. => other == site
  | _ => false

theorem Event.exists_of_isCastAt {event : Event} {site : Site} (h : event.isCastAt site) :
    ∃ tag call payload, event = .casted site tag call payload := by
  unfold Event.isCastAt at h
  split at h
  · exact ⟨_, _, _, by rw [beq_iff_eq.mp h]⟩
  · exact absurd h Bool.false_ne_true

theorem countP_isCastAt_le_one_iff {site : Site} {trace : List Event} :
    trace.countP (Event.isCastAt site) ≤ 1 ↔
      ∀ first second : Applied, second.In trace → first.site = site → second.site = site →
        ¬ first.In second.past := by
  have hcast (applied : Applied) (h : applied.site = site) :
      1 ≤ applied.events.countP (Event.isCastAt site) := by
    rw [Applied.events, List.countP_cons_of_pos (by simp [Event.isCastAt, h])]
    omega
  constructor
  · rintro h first second hsecond hsite hsite' hfirst
    have hown := hcast first hsite
    have hearlier : first.events.countP (Event.isCastAt site) ≤ _ := hfirst.sublist.countP_le
    have hlater : second.events.countP (Event.isCastAt site) ≤ _ := hsecond.sublist.countP_le
    rw [Applied.events, List.countP_cons_of_pos (by simp [Event.isCastAt, hsite'])] at hlater
    omega
  · intro h
    induction trace with
    | nil => simp
    | cons event rest ih =>
      cases hevent : event.isCastAt site with
      | false =>
        rw [List.countP_cons_of_neg (by simp [hevent])]
        exact ih fun first second hin => h first second (hin.trans (List.suffix_cons _ _))
      | true =>
        have hnone : rest.countP (Event.isCastAt site) = 0 := by
          rw [List.countP_eq_zero]
          intro other hother hcast
          obtain ⟨tag, call, payload, rfl⟩ := Event.exists_of_isCastAt hevent
          obtain ⟨tag', call', payload', rfl⟩ := Event.exists_of_isCastAt hcast
          obtain ⟨later, past, rfl⟩ := List.append_of_mem hother
          exact h ⟨site, tag', call', payload', past⟩ ⟨site, tag, call, payload, _⟩
            List.suffix_rfl rfl rfl (List.suffix_append later _)
        rw [List.countP_cons_of_pos hevent]
        omega

/-- Tasks were running side by side when the application began. -/
def Applied.Races (applied : Applied) : Prop :=
  applied.past.count .raceEnded < applied.past.count .raceBegan

theorem Applied.not_races {applied : Applied} {trace : List Event} (unraced : .raceBegan ∉ trace)
    (hin : applied.In trace) : ¬ applied.Races := by
  have hpast : applied.past <:+ trace := (List.suffix_cons _ _).trans hin
  have hnone : applied.past.count .raceBegan = 0 :=
    List.count_eq_zero.mpr fun hmem => unraced (hpast.mem hmem)
  unfold Races
  omega

namespace Resolution

open World

variable {fuel : Nat} {layer : Layer} {scope : Scope} {outer : List Scope} {key : Key}
  {binding : Binding} {backing : Backing} {held : Value} {chain : Chain} {context : Context}
  {world after : World} {result : Except Stop Answer}

/-- A slot that has a value answers with it. -/
theorem Resolves.eq_stored (resolves : Resolves fuel ⟨scope, outer⟩ key chain context world result
      after) (slot : scope.slots.find? key = some backing)
    (stored : world.memory.stored? (scope.site key) backing = some held) :
    result = .ok (.ok held) ∧ after = world.emit (.logged (.slotHit scope.id key)) :=
  Prod.mk.inj (resolves.eq_resolver.symm.trans (Resolves.stored slot stored).eq_resolver)

/-- A request for an interface without a value looks for its source. It fails as that does, or the
interface is bound to what has been found. -/
theorem Resolves.interface_inv
    (resolves : Resolves fuel ⟨scope, outer⟩ key chain context world result after)
    (noSlot : scope.slots.find? key = none)
    (interface : scope.bindings.find? key = some binding)
    (unbound : world.memory.bound.find? (scope.site key) = none) :
    (scope.slots.find? binding.source = none ∧ after = world) ∨
      ∃ backing found between, scope.slots.find? binding.source = some backing ∧
        Resolves fuel ⟨scope, outer⟩ binding.source chain context world found between ∧
        (((∀ value, found ≠ .ok (.ok value)) ∧ result = found ∧ after = between) ∨
          ∃ value, found = .ok (.ok value) ∧
            Binds (Session.handler fuel) scope key binding value between result after) := by
  cases resolves with
  | stored slot | exhausted slot | obstructed slot | blocked slot => cases noSlot.symm.trans slot
  | run starts =>
    obtain ⟨eager, cyclic, slot, -⟩ := starts.slot
    cases noSlot.symm.trans slot
  | bound _ _ present => cases unbound.symm.trans present
  | unbacked _ interface' _ noSource =>
    obtain rfl := Option.some.inj (interface.symm.trans interface')
    exact .inl ⟨noSource, rfl⟩
  | unsourced _ interface' _ behind answer lost =>
    obtain rfl := Option.some.inj (interface.symm.trans interface')
    exact .inr ⟨_, _, _, behind, answer, .inl ⟨lost, rfl, rfl⟩⟩
  | cast _ interface' _ behind answer binds =>
    obtain rfl := Option.some.inj (interface.symm.trans interface')
    exact .inr ⟨_, _, _, behind, answer, .inr ⟨_, rfl, binds⟩⟩
  | imported unowned | missing unowned | unavailable unowned | delegated unowned =>
    cases (Scope.owns_eq_false_iff.mp unowned).2.symm.trans interface

/-- A request for an interface without a value comes to its cast at once if the slot of its source
has a value. -/
theorem Resolves.binds_of_stored
    (resolves : Resolves fuel ⟨scope, outer⟩ key chain context world result after)
    (noSlot : scope.slots.find? key = none)
    (interface : scope.bindings.find? key = some binding)
    (unbound : world.memory.bound.find? (scope.site key) = none)
    (behind : scope.slots.find? binding.source = some backing)
    (stored : world.memory.stored? (scope.site binding.source) backing = some held) :
    Binds (Session.handler fuel) scope key binding held
      (world.emit (.logged (.slotHit scope.id binding.source))) result after := by
  obtain ⟨noSource, -⟩ | ⟨backing', found, between, -, answer, hends⟩ :=
    resolves.interface_inv noSlot interface unbound
  · cases noSource.symm.trans behind
  · obtain ⟨hfound, rfl⟩ := answer.eq_stored behind stored
    obtain ⟨lost, -⟩ | ⟨value, hvalue, binds⟩ := hends
    · exact absurd hfound (lost held)
    · obtain rfl := Except.ok.inj (Except.ok.inj (hvalue.symm.trans hfound))
      exact binds

theorem Resolves.at_owner (resolves : Resolves fuel layer key chain context world result after)
    (owner : layer.owner? key = some scope) (lost : ∀ value, result ≠ .ok (.ok value))
    (hosts : world.Hosts layer) :
    ∃ outer start, start.memory = world.memory ∧ start.built = world.built ∧
      start.Hosts ⟨scope, outer⟩ ∧
        Resolves fuel ⟨scope, outer⟩ key chain context start result after := by
  obtain ⟨inner, around⟩ := layer
  induction around generalizing inner world with
  | nil =>
    cases howns : inner.owns key with
    | false => simp [Layer.owner?, Layer.ancestry, howns] at owner
    | true =>
      obtain rfl : inner = scope := by simpa [Layer.owner?, Layer.ancestry, howns] using owner
      exact ⟨[], world, rfl, rfl, hosts, resolves⟩
  | cons parent further ih =>
    cases howns : inner.owns key with
    | true =>
      obtain rfl : inner = scope := by simpa [Layer.owner?, Layer.ancestry, howns] using owner
      exact ⟨_, world, rfl, rfl, hosts, resolves⟩
    | false =>
      rw [Layer.owner?_of_unowned howns] at owner
      obtain ⟨hslot, hinterface⟩ := Scope.owns_eq_false_iff.mp howns
      cases resolves with
      | stored slot | exhausted slot | obstructed slot | blocked slot =>
        cases hslot.symm.trans slot
      | run starts =>
        obtain ⟨eager, cyclic, slot, -⟩ := starts.slot
        cases hslot.symm.trans slot
      | bound _ interface | unbacked _ interface | unsourced _ interface | cast _ interface =>
        cases hinterface.symm.trans interface
      | imported | delegated => exact absurd rfl (lost _)
      | unavailable unowned unknown answer =>
        obtain ⟨outer, start, hfound⟩ :=
          ih parent answer owner (hosts.delegate inner key parent).parent
        exact ⟨outer, start, hfound⟩

/-- A request for an interface that fails leaves it without a value. If the slot of its source has a
value then, that is of another type, and the error is that the interface has none. -/
theorem Resolves.fails_unbound {error : ResolutionError}
    (resolves : Resolves fuel layer key chain context world (.ok (.error error)) after)
    (owner : layer.owner? key = some scope) (noSlot : scope.slots.find? key = none)
    (interface : scope.bindings.find? key = some binding) (hosts : world.Hosts layer)
    (backed : world.Backed) :
    after.memory.bound.find? (scope.site key) = none ∧
      ∀ backing held, scope.slots.find? binding.source = some backing →
        after.memory.stored? (scope.site binding.source) backing = some held →
          held.type ≠ binding.source ∧ error = .mismatch key := by
  obtain ⟨outer, start, memory, built, hosts, resolves⟩ :=
    resolves.at_owner owner (by simp) hosts
  have backed : start.Backed := backed.of_same built (memory ▸ .refl _) (by rw [memory])
    (by rw [memory])
  have unbound : start.memory.bound.find? (scope.site key) = none := by
    refine Option.eq_none_iff_forall_ne_some.mpr fun value present => ?_
    have hbound : Resolves fuel ⟨scope, outer⟩ key chain context start (.ok (.ok value)) start :=
      .bound noSlot interface present
    cases resolves.eq_resolver.symm.trans hbound.eq_resolver
  obtain ⟨noSource, rfl⟩ | ⟨backing', found, between, behind, answer, hends⟩ :=
    resolves.interface_inv noSlot interface unbound
  · exact ⟨unbound, fun backing held behind => nomatch noSource.symm.trans behind⟩
  have hbetween := answer.unbound interface behind hosts backed unbound
  obtain ⟨lost, rfl, rfl⟩ | ⟨value, rfl, binds⟩ := hends
  · refine ⟨hbetween, fun backing held slot stored => ?_⟩
    cases backing with
    | value other => exact absurd (answer.eq_stored slot rfl).1 (lost other)
    | generated source eager cyclic =>
      cases (answer.fruitless hosts slot lost).symm.trans stored
  · cases binds with
    | mistyped other =>
      refine ⟨hbetween, fun backing held slot stored => ?_⟩
      have hvalue := answer.stored_value slot hosts backed.faithful rfl
      obtain rfl := Option.some.inj (hvalue.symm.trans stored)
      exact ⟨other, rfl⟩

theorem Resolves.answers_bound {value : Value}
    (resolves : Resolves fuel layer key chain context world (.ok (.ok value)) after)
    (owner : layer.owner? key = some scope) (noSlot : scope.slots.find? key = none)
    (interface : scope.bindings.find? key = some binding) (hosts : world.Hosts layer)
    (faithful : world.Faithful) : after.memory.bound.find? (scope.site key) = some value := by
  have hcell := (resolves.faithful hosts faithful).2 value rfl
  simpa [Layer.cell?, owner, Scope.cell?, noSlot, Table.contains, interface] using hcell

/-- An interface cannot be had while the slot of its source has a value of another type. -/
theorem Resolves.mistyped
    (resolves : Resolves fuel layer key chain context world result after)
    (owner : layer.owner? key = some scope) (noSlot : scope.slots.find? key = none)
    (interface : scope.bindings.find? key = some binding)
    (behind : scope.slots.find? binding.source = some backing)
    (stored : world.memory.stored? (scope.site binding.source) backing = some held)
    (other : held.type ≠ binding.source) (hosts : world.Hosts layer) (backed : world.Backed) :
    result = .ok (.error (.mismatch key)) := by
  have hnone {world : World} (backed : world.Backed) (hosts : world.Hosts layer)
      (stored : world.memory.stored? (scope.site binding.source) backing = some held) :
      world.memory.bound.find? (scope.site key) = none := by
    obtain ⟨outer, known⟩ :=
      hosts.1.built_of_mem_ancestry hosts.2 (List.mem_of_find?_eq_some owner)
    refine @World.Backed.unbound _ ⟨scope, outer⟩ _ _ _ backed known interface behind ?_
    rintro value hvalue
    obtain rfl := Option.some.inj (stored.symm.trans hvalue)
    exact other
  have hafter := hnone (resolves.backed hosts backed) (resolves.hosts hosts hosts)
    (resolves.grows.memory.stored? stored)
  have lost (value : Value) : result ≠ .ok (.ok value) := by
    rintro rfl
    cases hafter.symm.trans (resolves.answers_bound owner noSlot interface hosts backed.faithful)
  have hbefore := hnone backed hosts stored
  obtain ⟨outer, start, memory, -, -, resolves⟩ := resolves.at_owner owner lost hosts
  rw [← memory] at hbefore stored
  cases resolves.binds_of_stored noSlot interface hbefore behind stored with
  | mistyped => rfl
  | broken typed | bound typed => exact absurd typed other

end Resolution

def Act.Calm {κ α : Type} : Act κ α → Prop
  | .done _ => True
  | .panic _ => False
  | .cancel _ next | .elapse _ next | .noteThread next => next.Calm
  | .perform _ next => ∀ reply, (next reply).Calm

theorem Act.Calm.run_ne_panic {α : Type} {act : Act Command α} (calm : act.Calm) {fuel : Nat}
    {world after : World} {message : String} :
    Engine.run (Session.handler fuel) act world ≠ (.error (.panic message), after) := by
  have hcommand (command : Command) : Engine.Leads (fun _ => True) (Session.handler fuel command)
      (fun _ _ => True) (fun _ => False) := by
    intro world _
    rcases hreply : Session.handler fuel command world with ⟨(message | _ | _) | reply, after⟩
    · exact Session.handler_ne_panic hreply
    · trivial
    · trivial
    · trivial
  have hrun : Engine.Leads (fun _ => True) (Engine.run (Session.handler fuel) act)
      (fun _ _ => True) (fun _ => False) := by
    induction act with
    | done result => exact .pure fun _ => id
    | panic message => exact calm.elim
    | cancel name next ih => exact .bind (.modify fun _ _ => trivial) fun _ => ih calm
    | elapse time next ih => exact .bind (.modify fun _ _ => trivial) fun _ => ih calm
    | noteThread next ih => exact fun world h => ih calm _ h
    | perform command next ih =>
      exact .bind (hcommand command) fun reply => .bind (.modify fun _ => id) fun _ =>
        ih reply (calm reply)
  intro h
  have hleads := hrun world trivial
  rw [h] at hleads
  exact hleads

namespace Application

variable {application : Application}

theorem Runs.applies (runs : application.Runs) : application.begun.Applies application.ended := by
  have invariant := World.Applies.invariant application.begun
  have hrun := Resolution.keeps_applies (invariant.handler application.query.fuel)
    (application.binding.cast.apply application.call application.held.payload) application.begun
    ⟨runs.ready.1, runs.ready.2, .refl _⟩
  rw [runs.run] at hrun
  exact hrun.2.2

theorem Runs.applied (runs : application.Runs) : ∃ applied : Applied,
    applied.site = application.site ∧ application.begun.trace = applied.events := by
  obtain ⟨past, told⟩ := runs.told
  exact ⟨⟨_, _, _, _, past⟩, rfl, told⟩

/-- An application that is in progress while its interface is requested is not the only one. Either
the interface has got a value meanwhile, which has been made by another application, or the request
applies the cast. -/
theorem Reenters.applied_again (reenters : application.Reenters) (runs : application.Runs) :
    ∃ other : Applied, other.In application.ended.trace ∧ other.site = application.site ∧
      application.begun.trace <:+ other.past := by
  obtain ⟨query, occurs, hlayer, hkey, since, until_⟩ := reenters
  obtain ⟨backing, behind, stored⟩ := runs.stored
  have noSlot := runs.noSlot
  have interface := runs.interface
  have hsite : application.site = query.site := by
    unfold site Query.site
    rw [hlayer, hkey]
  rw [← hlayer] at behind stored
  rw [← hlayer, ← hkey] at noSlot interface
  cases hbound : query.before.memory.bound.find? query.site with
  | some value =>
    have hlast := until_.memory.bound _ _ (occurs.grows.memory.bound _ _ hbound)
    rw [← hsite] at hlast
    obtain ⟨nested, -, hruns, inside, hnested, -, -, within⟩ :=
      (runs.applies.made _ _ hlast).resolve_left (by simp [runs.unbound])
    obtain ⟨applied, happlied, hbegun⟩ := hruns.applied
    refine ⟨applied, ?_, happlied.trans hnested, ?_⟩
    · rw [Applied.In, ← hbegun]
      exact (hruns.applies.advances.trans (hruns.left.trans inside.done)).trace
    · rw [hbegun] at within
      exact within
  | none =>
    let hit : Event := .logged (.slotHit query.layer.scope.id application.binding.source)
    have hbinds := occurs.binds_of_stored noSlot interface hbound behind
      (since.memory.stored? stored)
    have hcasted := (hbinds.enters (Session.handler_grows _) runs.typed).trace.trans until_.trace
    exact ⟨⟨query.site, application.binding.cast.tag,
      (query.before.emit hit).nextCast query.site, application.held.payload,
      hit :: query.before.trace⟩, hcasted, hsite.symm, since.trace.trans (List.suffix_cons _ _)⟩

theorem Runs.not_reenters (runs : application.Runs)
    (silent : (application.binding.cast.apply application.call application.held.payload).Silent) :
    ¬ application.Reenters := by
  intro reenters
  have hplain (name : Option String) : (Event.thread name).IsNoCast := trivial
  have hrun : Engine.Keeps application.begun.Refrains
      (Engine.run (Session.handler application.query.fuel) _) :=
    silent.keeps_aside (fun h sidesteps => h.trans (.sidestep sidesteps))
      fun name h => h.trans (.emit _ (hplain name))
  replace hrun := hrun application.begun (.refl _)
  rw [runs.run] at hrun
  obtain ⟨other, hin, -, hpast⟩ := reenters.applied_again runs
  exact hrun.not_past hin hpast

/-- A cast panics only by itself: the panics of what it asks for are replies to it. -/
theorem Runs.not_panics (runs : application.Runs)
    (calm : (application.binding.cast.apply application.call application.held.payload).Calm) :
    ¬ application.Panics := by
  rintro ⟨message, houtcome⟩
  exact calm.run_ne_panic (runs.run.trans (by rw [houtcome]))

end Application

structure Application.Past (application : Application) (world : World) (site : Site) : Prop where
  runs : application.Runs
  inside : application.In world
  site : application.site = site

theorem Application.Past.layer_eq {application : Application} {world : World} {layer : Layer}
    {key : Key} (past : application.Past world (layer.scope.site key)) (valid : world.Valid)
    (known : layer ∈ world.built) : application.query.layer = layer :=
  valid.unique _ past.inside.known _ known (Site.mk.inj past.site).1

theorem Application.Past.binding_eq {application : Application} {world : World} {layer : Layer}
    {key : Key} {binding : Binding} (past : application.Past world (layer.scope.site key))
    (valid : world.Valid) (known : layer ∈ world.built)
    (interface : layer.scope.bindings.find? key = some binding) :
    application.binding = binding := by
  have interface' := past.runs.interface
  rw [past.layer_eq valid known, (Site.mk.inj past.site).2, interface] at interface'
  exact (Option.some.inj interface').symm

/-- The slot of the source has a value of its type, and the cast of the binding, applied to that,
has come to the value of the interface. -/
def Layer.Casts (layer : Layer) (world : World) (key : Key) (binding : Binding) (value : Value) :
    Prop :=
  ∃ backing held, layer.scope.slots.find? binding.source = some backing ∧
    world.memory.stored? (layer.scope.site binding.source) backing = some held ∧
    held.type = binding.source ∧
    ∃ fuel call begun past payload ended,
      begun.trace = .casted (layer.scope.site key) binding.cast.tag call held.payload :: past ∧
      Engine.run (Session.handler fuel) (binding.cast.apply call held.payload) begun =
        (.ok payload, ended) ∧
      ended.Advances world ∧ value = ⟨key, payload⟩

theorem World.Made.casts {world : World} {layer : Layer} {key : Key} {binding : Binding}
    {value : Value} {past : List Event} (made : world.Made past (layer.scope.site key) value)
    (valid : world.Valid) (known : layer ∈ world.built)
    (interface : layer.scope.bindings.find? key = some binding) :
    layer.Casts world key binding value := by
  obtain ⟨application, payload, runs, inside, hsite, houtcome, rfl, -⟩ := made
  have hpast : application.Past world (layer.scope.site key) := ⟨runs, inside, hsite⟩
  obtain rfl := hpast.binding_eq valid known interface
  obtain rfl := hpast.layer_eq valid known
  obtain ⟨-, rfl⟩ := Site.mk.inj hsite
  obtain ⟨backing, behind, stored⟩ := runs.stored
  obtain ⟨earlier, told⟩ := runs.told
  have ended := runs.left.trans inside.done
  exact ⟨backing, application.held, behind,
    (runs.applies.advances.trans ended).memory.stored? stored, runs.typed, application.query.fuel,
    application.call, application.begun, earlier, payload, application.ended, told,
    runs.run.trans (by rw [houtcome]), ended, rfl⟩

/-- A request for an interface comes to the one value that it has from then on, or it fails and the
interface has none. If the slot of the source has a value of another type, that is why. -/
structure Scope.Serves (scope : Scope) (key : Key) (binding : Binding) (world : World)
    (result : Except Stop Answer) (after : World) : Prop where
  bound : ∀ value, result = .ok (.ok value) → ∀ later, after.Advances later →
    later.memory.bound.find? (scope.site key) = some value
  unbound : ∀ error, result = .ok (.error error) →
    after.memory.bound.find? (scope.site key) = none
  mismatch : ∀ error backing held, result = .ok (.error error) →
    scope.slots.find? binding.source = some backing →
      after.memory.stored? (scope.site binding.source) backing = some held →
        held.type ≠ binding.source ∧ error = .mismatch key
  mistyped : ∀ backing held, scope.slots.find? binding.source = some backing →
    world.memory.stored? (scope.site binding.source) backing = some held →
      held.type ≠ binding.source → result = .ok (.error (.mismatch key))

namespace Session

variable {world moment : World} {layer inner : Layer} {key : Key} {binding : Binding}

theorem Arises.steady (arises : Arises world) : world.Valid ∧ world.Steady := by
  have hbacked := World.Backed.invariant
  have hinherits := World.Inherits.invariant
  have backed : world.Valid ∧ world.Backed := arises.keeps .initial
    (fun _ course valid backed =>
      (hbacked.course (fun less _ => hbacked.handler less) course ⟨valid, backed⟩).1.2)
    (fun _ resolves => resolves.backed)
    (fun backed advances built memory =>
      backed.of_same built advances.memory (by rw [memory]) (by rw [memory]))
  have inherits : world.Valid ∧ world.Inherits := arises.keeps .initial
    (fun _ course valid inherits =>
      (hinherits.course (fun less _ => hinherits.handler less) course ⟨valid, inherits⟩).1.2)
    (fun _ resolves => resolves.inherits) (fun inherits _ built _ => inherits.of_built built)
  exact ⟨backed.1, backed.2, arises.accountable.2, inherits.2⟩

theorem Arises.made (arises : Arises world) : world.Valid ∧ ∀ site value,
    world.memory.bound.find? site = some value → world.Made [] site value := by
  refine @Arises.keeps (fun world => ∀ site value,
    world.memory.bound.find? site = some value → world.Made [] site value) _ arises
    (fun _ _ h => by cases h) (fun arises course valid made _ _ => ?_)
    (fun arises resolves hosts made _ _ => ?_) fun made advances _ memory site value h => ?_
  · exact (course.applies valid arises.steady.2).made_of made
  · exact (resolves.applies hosts arises.steady.2).made_of made
  · exact (made site value (memory ▸ h)).later advances

theorem Arises.serves (arises : Arises moment) (known : inner ∈ moment.built)
    (owner : inner.owner? key = some layer.scope)
    (noSlot : layer.scope.slots.find? key = none)
    (interface : layer.scope.bindings.find? key = some binding) (fuel : Nat) (chain : Chain)
    (context : Context) :
    layer.scope.Serves key binding moment (resolver fuel inner key chain context moment).1
      (resolver fuel inner key chain context moment).2 := by
  obtain ⟨valid, steady⟩ := arises.steady
  have hosts : moment.Hosts inner := ⟨valid, known⟩
  have resolves := Resolution.resolver_resolves fuel inner key chain context moment
  refine ⟨fun value hresult later advances => ?_, fun error hresult => ?_,
    fun error backing held hresult behind stored => ?_, fun backing held behind stored other =>
      resolves.mistyped owner noSlot interface behind stored other hosts steady.backed⟩
  · rw [hresult] at resolves
    exact advances.memory.bound _ _
      (resolves.answers_bound owner noSlot interface hosts steady.backed.faithful)
  · rw [hresult] at resolves
    exact (resolves.fails_unbound owner noSlot interface hosts steady.backed).1
  · rw [hresult] at resolves
    exact (resolves.fails_unbound owner noSlot interface hosts steady.backed).2 backing held behind
      stored

/-- Whenever a cast is applied, it is the one of its binding, and it is applied to what the slot of its
source has got before. -/
theorem Reachable.applied {applied : Applied} (reachable : Reachable world)
    (known : layer ∈ world.built) (interface : layer.scope.bindings.find? key = some binding)
    (hin : applied.In world.trace) (hsite : applied.site = layer.scope.site key) :
    applied.tag = binding.cast.tag ∧ ∃ backing held,
      layer.scope.slots.find? binding.source = some backing ∧
      (backing = .value held ∨ .filled (layer.scope.site binding.source) held ∈ applied.past) ∧
      held.type = binding.source ∧ applied.payload = held.payload := by
  obtain ⟨other, inside, key', binding', backing, held, hsame, interface', htag, behind, filled,
    typed, payload⟩ := reachable.applies.follows applied hin List.nil_suffix
  obtain ⟨hid, rfl⟩ := Site.mk.inj (hsame.symm.trans hsite)
  obtain rfl := reachable.valid.unique _ inside _ known hid
  obtain rfl := Option.some.inj (interface'.symm.trans interface)
  exact ⟨htag, backing, held, behind, filled, typed, payload⟩

/-- A cast is applied again only if it has panicked before, or if its own interface was requested while
it was being applied. -/
theorem Concluded.applied_again {site : Site} (concluded : Concluded world) {first second : Applied}
    (hsecond : second.In world.trace) (hsite : first.site = site) (hsite' : second.site = site)
    (hearlier : first.In second.past) :
    ∃ application : Application, application.Past world site ∧
      application.begun.trace = first.events ∧ (application.Panics ∨ application.Reenters) := by
  have hfirst : first.In world.trace := hearlier.trans ((List.suffix_cons _ _).trans hsecond)
  obtain ⟨application, accounts, -⟩ := concluded.recounts.accounted first hfirst List.nil_suffix
  have past : application.Past world site :=
    ⟨accounts.runs, accounts.inside, accounts.site.trans hsite⟩
  refine ⟨application, past, accounts.begun, or_iff_not_imp_left.mpr fun calm => ?_⟩
  refine accounts.last calm second hsecond (hsite'.trans past.site.symm) ?_
  rwa [accounts.begun]

/-- A cast that does not panic is applied more than once exactly if its own interface is requested while
it is being applied. -/
theorem Concluded.cast_once_iff {site : Site} (concluded : Concluded world)
    (calm : ∀ application : Application, application.Past world site → ¬ application.Panics) :
    world.trace.countP (Event.isCastAt site) ≤ 1 ↔
      ∀ application : Application, application.Past world site → ¬ application.Reenters := by
  rw [countP_isCastAt_le_one_iff]
  constructor
  · intro alone application past reenters
    obtain ⟨first, hfirst, hbegun⟩ := past.runs.applied
    obtain ⟨second, hin, hsecond, hpast⟩ := reenters.applied_again past.runs
    have hlater : second.In world.trace :=
      hin.trans (past.runs.left.trans past.inside.done).trace
    refine alone first second hlater (hfirst.trans past.site) (hsecond.trans past.site) ?_
    rwa [Applied.In, ← hbegun]
  · intro single first second hsecond hsite hsite' hearlier
    obtain ⟨application, past, -, panics | reenters⟩ :=
      concluded.applied_again hsecond hsite hsite' hearlier
    · exact calm application past panics
    · exact single application past reenters

/-- An interface has one value, and as a rule its cast is applied once. At every moment, what it has is
what the cast of its binding has made of the value of its source, and once it has that the cast is not
applied again. Wherever it is requested, below a running cast or from a layer further in, the answer
is the value that it has from then on; if the request fails, it has none. The cast is never applied
before the slot of the source has got a value of its type. If commands come to their end, and the cast
is not applied while tasks run side by side, then one application is followed by another one only if
it has panicked, or if the interface was requested while it was in progress. So a cast that does not
panic is applied more than once exactly if its interface is requested while it is being applied. -/
theorem interfaces_are_cast_once (reachable : Reachable world) (known : layer ∈ world.built)
    (interface : layer.scope.bindings.find? key = some binding) :
    (∀ moment, Arises moment → layer ∈ moment.built →
      (∀ value, moment.memory.bound.find? (layer.scope.site key) = some value →
        layer.Casts moment key binding value ∧
        ∀ fuel command, ∀ applied : Applied,
          applied.In (perform (resolver fuel) command moment).2.trace →
            applied.site = layer.scope.site key → applied.In moment.trace) ∧
      (layer.scope.slots.find? key = none → ∀ inner ∈ moment.built,
        inner.owner? key = some layer.scope → ∀ fuel chain context,
          layer.scope.Serves key binding moment
            (resolver fuel inner key chain context moment).1
            (resolver fuel inner key chain context moment).2)) ∧
    (layer.scope.slots.find? key = none → ∀ inner ∈ world.built,
      inner.owner? key = some layer.scope → ∀ value,
        .granted (inner.scope.site key) value ∈ world.trace →
          world.memory.bound.find? (layer.scope.site key) = some value) ∧
    (∀ applied : Applied, applied.In world.trace → applied.site = layer.scope.site key →
      applied.tag = binding.cast.tag ∧ ∃ backing held,
        layer.scope.slots.find? binding.source = some backing ∧
        (backing = .value held ∨ .filled (layer.scope.site binding.source) held ∈ applied.past) ∧
        held.type = binding.source ∧ applied.payload = held.payload) ∧
    (Concluded world →
      (∀ applied : Applied, applied.In world.trace → applied.site = layer.scope.site key →
        ¬ applied.Races) →
      (∀ first second : Applied, second.In world.trace → first.site = layer.scope.site key →
        second.site = layer.scope.site key → first.In second.past →
          ∃ application : Application, application.Past world (layer.scope.site key) ∧
            application.begun.trace = first.events ∧
            (application.Panics ∨ application.Reenters)) ∧
      ((∀ application : Application, application.Past world (layer.scope.site key) →
          ¬ application.Panics) →
        (world.trace.countP (Event.isCastAt (layer.scope.site key)) ≤ 1 ↔
          ∀ application : Application, application.Past world (layer.scope.site key) →
            ¬ application.Reenters))) := by
  refine ⟨fun moment arises known => ⟨fun value hbound => ⟨?_, ?_⟩,
    fun noSlot inner inside owner => arises.serves inside owner noSlot interface⟩,
    fun noSlot inner inside owner value granted => ?_,
    fun applied hin hsite => reachable.applied known interface hin hsite,
    fun concluded _ => ⟨fun first second hsecond hsite hsite' hearlier =>
      concluded.applied_again hsecond hsite hsite' hearlier, concluded.cast_once_iff⟩⟩
  · obtain ⟨valid, made⟩ := arises.made
    exact (made _ _ hbound).casts valid known interface
  · intro fuel command applied hin hsite
    obtain ⟨valid, steady⟩ := arises.steady
    obtain ⟨seen, course⟩ := perform_course fuel command moment
    have applies := course.applies valid steady
    refine (hin.before_or_after applies.advances.trace).resolve_right fun hlater => ?_
    cases (hsite ▸ applies.fresh applied hin hlater).symm.trans hbound
  · have hcell := reachable.coherent.grants inner inside key value granted
    simpa [Layer.cell?, owner, Scope.cell?, noSlot, Table.contains, interface] using hcell

def echoSource : Registered :=
  ⟨0, "t", "make_t", [], [⟨"T"⟩], fun _ _ => .done (.products [⟨⟨"T"⟩, "t"⟩])⟩

def plainCast : Cast Command := ⟨"i", fun _ payload => .done payload⟩

/-- A cast that requests its own interface when it is applied first. -/
def echoCast : Cast Command :=
  ⟨"j", fun call payload =>
    match call with
    | 1 => .perform (.resolve "outer" ⟨"J"⟩ {}) fun _ => .done (payload ++ "?")
    | _ => .done (payload ++ "!")⟩

def echoLayer : Layer :=
  { scope :=
      { id := 1, label := none, locked := false
        slots := ⟨[(⟨"T"⟩, .generated echoSource false false)]⟩
        bindings := ⟨[(⟨"I"⟩, ⟨⟨"T"⟩, plainCast⟩), (⟨"J"⟩, ⟨⟨"T"⟩, echoCast⟩)]⟩
        overridable := [], settings := {}, observers := [] }
    outer := [] }

def echoStart : World :=
  (step 6 (step 6 {} (.build "outer" none [.register (.generator echoSource.generator false),
      .register (.interface ⟨"I"⟩ ⟨"T"⟩ plainCast), .register (.interface ⟨"J"⟩ ⟨"T"⟩ echoCast)])).2
    (.build "inner" none [.parent "outer"])).2

theorem echoLayer_known : echoLayer ∈ echoStart.built := .tail _ (.head _)

/-- Both interfaces have been requested from the layer below, and the one with the plain cast once
more where it belongs. -/
def echoWorld : World :=
  (step 6 (step 6 (step 6 echoStart (.resolve "inner" ⟨"J"⟩ {})).2
    (.resolve "inner" ⟨"I"⟩ {})).2 (.resolve "outer" ⟨"I"⟩ {})).2

theorem interfaces_are_cast_once_echoed :
    Reachable echoWorld ∧ echoLayer ∈ echoWorld.built ∧
    echoLayer.scope.bindings.find? ⟨"I"⟩ = some ⟨⟨"T"⟩, plainCast⟩ ∧
    echoLayer.scope.bindings.find? ⟨"J"⟩ = some ⟨⟨"T"⟩, echoCast⟩ ∧
    echoLayer.Casts echoWorld ⟨"I"⟩ ⟨⟨"T"⟩, plainCast⟩ ⟨⟨"I"⟩, "t"⟩ ∧
    echoLayer.Casts echoWorld ⟨"J"⟩ ⟨⟨"T"⟩, echoCast⟩ ⟨⟨"J"⟩, "t!"⟩ ∧
    echoWorld.trace.countP (Event.isCastAt (echoLayer.scope.site ⟨"I"⟩)) ≤ 1 ∧
    ∃ application : Application,
      application.Past echoWorld (echoLayer.scope.site ⟨"J"⟩) ∧ application.Reenters := by
  have concluded : Concluded echoWorld := by
    refine .step (.step (.step (.step (.step .initial 6 _ ?_) 6 _ ?_) 6 _ ?_) 6 _ ?_) 6 _ ?_
    all_goals decide +kernel
  have known : echoLayer ∈ echoWorld.built :=
    mem_built_step (mem_built_step (mem_built_step echoLayer_known _ _) _ _) _ _
  have plain : echoLayer.scope.bindings.find? ⟨"I"⟩ = some ⟨⟨"T"⟩, plainCast⟩ := rfl
  have echo : echoLayer.scope.bindings.find? ⟨"J"⟩ = some ⟨⟨"T"⟩, echoCast⟩ := rfl
  have reachable := concluded.reachable
  have unraced : .raceBegan ∉ echoWorld.trace := by decide +kernel
  obtain ⟨hplain, -, -, honce⟩ := interfaces_are_cast_once reachable known plain
  obtain ⟨hecho, -, -, htwice⟩ := interfaces_are_cast_once reachable known echo
  have honce := (honce concluded fun _ hin _ => Applied.not_races unraced hin).2
  have htwice := (htwice concluded fun _ hin _ => Applied.not_races unraced hin).2
  refine ⟨reachable, known, plain, echo,
    ((hplain echoWorld reachable.arises known).1 _ (by decide +kernel)).1,
    ((hecho echoWorld reachable.arises known).1 _ (by decide +kernel)).1, ?_, ?_⟩
  · refine (honce fun application past => ?_).mpr fun application past => ?_
    · refine past.runs.not_panics ?_
      rw [past.binding_eq reachable.valid known plain]
      trivial
    · refine past.runs.not_reenters ?_
      rw [past.binding_eq reachable.valid known plain]
      trivial
  · have hcount : ¬ echoWorld.trace.countP (Event.isCastAt (echoLayer.scope.site ⟨"J"⟩)) ≤ 1 := by
      decide +kernel
    by_contra hnone
    refine hcount ((htwice fun application past => ?_).mpr
      fun application past reenters => hnone ⟨application, past, reenters⟩)
    refine past.runs.not_panics ?_
    rw [past.binding_eq reachable.valid known echo]
    unfold echoCast
    dsimp only
    split
    · exact fun _ => trivial
    · trivial

def castLayer (cast : Cast Command) : Layer :=
  { scope :=
      { id := 1, label := none, locked := false
        slots := ⟨[(⟨"T"⟩, .value ⟨⟨"T"⟩, "t"⟩)]⟩
        bindings := ⟨[(⟨"I"⟩, ⟨⟨"T"⟩, cast⟩)]⟩
        overridable := [], settings := {}, observers := [] }
    outer := [] }

def castStart (cast : Cast Command) : World :=
  (step 6 {} (.build "app" none
    [.register (.value ⟨"T"⟩ "t"), .register (.interface ⟨"I"⟩ ⟨"T"⟩ cast)])).2

theorem castLayer_known (cast : Cast Command) : castLayer cast ∈ (castStart cast).built := .head _

/-- A cast that panics when it is applied first. -/
def faultyCast : Cast Command :=
  ⟨"i", fun call payload =>
    match call with
    | 1 => .panic "out of order"
    | _ => .done payload⟩

def faultyWorld : World :=
  (step 6 (step 6 (castStart faultyCast) (.resolve "app" ⟨"I"⟩ {})).2 (.resolve "app" ⟨"I"⟩ {})).2

/-- A cast that builds a layer further in when it is applied first. That layer has an eager generator
that needs the interface. -/
def buildingCast : Cast Command :=
  let generator : Generator Command :=
    ⟨"g", "make_g", [.required ⟨"I"⟩], [⟨"G"⟩], fun _ _ => .done (.products [⟨⟨"G"⟩, "g"⟩])⟩
  ⟨"i", fun call payload =>
    match call with
    | 1 => .perform (.build "kid" none [.parent "app", .register (.generator generator true)])
        fun _ => .done (payload ++ "?")
    | _ => .done (payload ++ "!")⟩

def buildingWorld : World := (step 6 (castStart buildingCast) (.resolve "app" ⟨"I"⟩ {})).2

/-- A cast is applied again after a panic, and while what it has set off requests its interface, although
it gives no command to do so. -/
theorem casts_are_applied_again :
    (Concluded faultyWorld ∧ castLayer faultyCast ∈ faultyWorld.built ∧
      (∀ application : Application,
        application.Past faultyWorld ((castLayer faultyCast).scope.site ⟨"I"⟩) →
          ¬ application.Reenters) ∧
      faultyWorld.trace.countP (Event.isCastAt ((castLayer faultyCast).scope.site ⟨"I"⟩)) = 2) ∧
    Concluded buildingWorld ∧ castLayer buildingCast ∈ buildingWorld.built ∧
      (∀ call payload, (∃ text, buildingCast.apply call payload = .done text) ∨
        ∃ name base directives text, buildingCast.apply call payload =
          .perform (.build name base directives) fun _ => .done text) ∧
      buildingWorld.trace.countP (Event.isCastAt ((castLayer buildingCast).scope.site ⟨"I"⟩)) = 2 ∧
      .raceBegan ∉ faultyWorld.trace ∧ .raceBegan ∉ buildingWorld.trace := by
  have concluded : Concluded faultyWorld := by
    refine .step (.step (.step .initial 6 _ ?_) 6 _ ?_) 6 _ ?_ <;> decide +kernel
  have known : castLayer faultyCast ∈ faultyWorld.built := by
    unfold faultyWorld
    exact mem_built_step (mem_built_step (castLayer_known _) _ _) _ _
  have known' : castLayer buildingCast ∈ buildingWorld.built := by
    unfold buildingWorld
    exact mem_built_step (castLayer_known _) _ _
  refine ⟨⟨concluded, known, fun application past => ?_, by decide +kernel⟩, ?_, known',
    fun call payload => ?_, by decide +kernel, by decide +kernel, by decide +kernel⟩
  · refine past.runs.not_reenters ?_
    rw [past.binding_eq concluded.reachable.valid known rfl]
    unfold faultyCast
    dsimp only
    split <;> trivial
  · refine .step (.step .initial 6 _ ?_) 6 _ ?_ <;> decide +kernel
  · unfold buildingCast
    dsimp only
    split
    · exact .inr ⟨_, _, _, _, rfl⟩
    · exact .inl ⟨_, rfl⟩

end Session

end LayerGraph
