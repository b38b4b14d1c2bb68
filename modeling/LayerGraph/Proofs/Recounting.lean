import LayerGraph.Proofs.Casting

/-! When the cast of an interface is applied more than once.

An application that does not panic leaves the interface with a value. Whatever is applied besides it
has begun while it was in progress, on a request for the interface made meanwhile. -/

namespace LayerGraph

namespace Application

/-- This is the application that has begun there. Unless it has panicked, the interface has a value,
and if its cast has been applied again, then because the interface was requested meanwhile. -/
structure Accounts (application : Application) (applied : Applied) (world : World) : Prop where
  runs : application.Runs
  inside : application.In world
  site : application.site = applied.site
  begun : application.begun.trace = applied.events
  bound : ¬ application.Panics → world.memory.bound.find? application.site ≠ none
  last : ¬ application.Panics → ∀ other : Applied, other.In world.trace →
    other.site = application.site → application.begun.trace <:+ other.past → application.Reenters

theorem Accounts.later {application : Application} {applied : Applied} {world after : World}
    (accounts : application.Accounts applied world) (advances : world.Advances after)
    (earlier : ¬ application.Panics → ∀ other : Applied, other.In after.trace →
      other.site = application.site → other.In world.trace) :
    application.Accounts applied after where
  runs := accounts.runs
  inside := accounts.inside.later advances
  site := accounts.site
  begun := accounts.begun
  bound calm unbound := accounts.bound calm (advances.unbound unbound)
  last calm other hin hsite := accounts.last calm other (earlier calm other hin hsite) hsite

end Application

namespace World

structure Recounts (before after : World) : Prop extends Applies before after where
  accounted : ∀ applied : Applied, applied.In after.trace → before.trace <:+ applied.past →
    ∃ application : Application,
      application.Accounts applied after ∧ before.Advances application.query.before

namespace Recounts

variable {before world between after : World}

theorem of_refrains (refrains : world.Refrains after) : world.Recounts after :=
  ⟨.of_refrains refrains, fun _ hin hpast => absurd hpast (refrains.not_past hin)⟩

theorem refl (world : World) : world.Recounts world := of_refrains (.refl world)

theorem trans (hfirst : before.Recounts between) (hsecond : between.Recounts after) :
    before.Recounts after := by
  refine ⟨hfirst.toApplies.trans hsecond.toApplies, fun applied hin hpast => ?_⟩
  rcases hin.before_or_after hsecond.advances.trace with hearlier | hlater
  · obtain ⟨application, accounts, within⟩ := hfirst.accounted applied hearlier hpast
    refine ⟨application, accounts.later hsecond.advances fun calm other hother hsite => ?_, within⟩
    refine (hother.before_or_after hsecond.advances.trace).resolve_right fun hlater => ?_
    exact accounts.bound calm (hsite ▸ hsecond.fresh other hother hlater)
  · obtain ⟨application, accounts, within⟩ := hsecond.accounted applied hin hlater
    exact ⟨application, accounts, hfirst.advances.trans within⟩

/-- A request that applies a cast: its source is found, and the cast comes to its end and the
interface has a value, or the cast panics. -/
theorem application {application : Application} (runs : application.Runs)
    (found : application.query.before.Recounts world) (applies : world.Applies application.query.after)
    (entered : world.Advances application.begun)
    (told : application.begun.trace = .casted application.site application.binding.cast.tag
      application.call application.held.payload :: world.trace)
    (inside : application.begun.Recounts application.ended)
    (ended : ∀ applied : Applied, applied.In application.query.after.trace →
      applied.In application.ended.trace)
    (hosts : application.query.after.Hosts application.query.layer)
    (bound : ¬ application.Panics →
      application.query.after.memory.bound.find? application.site ≠ none) :
    application.query.before.Recounts application.query.after := by
  refine ⟨found.toApplies.trans applies, fun applied hin hpast => ?_⟩
  -- What has begun by then is the application itself, or began before it or while it lasted.
  have hbegun : applied.In world.trace ∨ applied.events = application.begun.trace ∨
      application.begun.trace <:+ applied.past := by
    rcases (ended applied hin).before_or_after inside.advances.trace with hbegun | hlater
    · rcases List.suffix_cons_iff.mp (told ▸ hbegun) with hown | hold
      · exact .inr (.inl (hown.trans told.symm))
      · exact .inl hold
    · exact .inr (.inr hlater)
  rcases hbegun with hold | hown | hlater
  · obtain ⟨other, accounts, within⟩ := found.accounted applied hold hpast
    refine ⟨other, accounts.later applies.advances fun calm later hlater hsame => ?_, within⟩
    refine (hlater.before_or_after applies.advances.trace).resolve_right fun hnew => ?_
    exact accounts.bound calm (hsame ▸ applies.fresh later hlater hnew)
  · have hsite : application.site = applied.site :=
      (Event.casted.inj (List.cons.inj (hown.trans told)).1).1.symm
    refine ⟨application, ⟨runs, ⟨hosts.2, .refl _⟩, hsite, hown.symm, bound, ?_⟩, .refl _⟩
    intro _ other hother hsame hlater
    obtain ⟨nested, accounts, within⟩ := inside.accounted other (ended other hother) hlater
    obtain ⟨hid, hkey⟩ := Site.mk.inj (accounts.site.trans hsame)
    have hlayer := hosts.1.unique _ (accounts.inside.later runs.left).known _ hosts.2 hid
    exact ⟨nested.query, accounts.runs.occurs, hlayer, hkey, within, accounts.inside.done⟩
  · obtain ⟨nested, accounts, within⟩ := inside.accounted applied (ended applied hin) hlater
    exact ⟨nested, accounts.later runs.left fun _ later hlater _ => ended later hlater,
      (found.advances.trans entered).trans within⟩

end Recounts

end World

namespace Session

theorem carries_recounts : Carries True World.Steady World.Recounts where
  invariant := World.Steady.invariant
  refl := .refl
  trans hfirst hsecond := hfirst.trans hsecond
  sidestep sidesteps := .of_refrains (.sidestep sidesteps)
  note world incidental _ := .of_refrains (.emit world incidental.isNoCast)
  name world name layer := .of_refrains (.name world name layer)
  enter world layer := .of_refrains (.enter world layer)
  alarm _ _ _ recounts alarm :=
    (recounts trivial).trans
      (.of_refrains (.emit _ (Event.isIncidental_of_isAlarm alarm).isNoCast))

end Session

namespace Resolution

open Session (Answers carries_recounts)

variable {fuel : Nat} {layer : Layer} {key : Key} {source : Registered} {chain : Chain}
  {context : Context} {world between after : World} {result : Except Stop Answer}

theorem Gathers.settled {panics : Prop} {supplies : List Supply} {inquiries : List Inquiry}
    {gathered : Except Stop (Except ResolutionError (List Argument))}
    (gathers : Gathers layer context supplies inquiries world gathered after)
    (settled : Settled panics gathered) :
    ∀ inquiry ∈ inquiries, Settled panics inquiry.result := by
  intro inquiry hinquiry
  cases hresult : inquiry.result with
  | ok answer => trivial
  | error stop =>
    obtain rfl := gathers.stops ⟨inquiry, hinquiry, hresult⟩
    exact settled.error

theorem Ends.recounts {gathered : Except Stop (Except ResolutionError (List Argument))}
    (answers : Answers True World.Steady World.Recounts fuel)
    (ends : Ends (Session.handler fuel) layer key source context world gathered result after)
    (settled : Settled True result)
    (entered : ∀ arguments, gathered = .ok (.ok arguments) →
      (world.enterBody layer.scope source arguments).Valid ∧
        (world.enterBody layer.scope source arguments).Steady) : world.Recounts after := by
  have hbody {arguments : List Argument} {yield : Except Stop Yield} {last : World}
      (body : Engine.run (Session.handler fuel)
        (source.generator.body (world.nextRun layer.scope source) arguments)
        (world.enterBody layer.scope source arguments) = (yield, last))
      (hgathered : gathered = .ok (.ok arguments)) (settled : Settled True yield) :
      world.Recounts last := by
    obtain ⟨hvalid, hsteady⟩ := entered arguments hgathered
    exact (World.Recounts.of_refrains (.enterBody world layer.scope source arguments)).trans
      (answers.run carries_recounts body settled hvalid hsteady)
  cases ends with
  | unsupplied => exact .refl world
  | refused => exact .of_refrains (.finish _ _ _ _ _ _)
  | @broken arguments stop last body => exact hbody body rfl settled.error
  | returned body =>
    exact (hbody body rfl trivial).trans
      (.of_refrains ((World.Refrains.emit _ (by trivial)).trans (.finish _ _ _ _ _ _)))

/-- A request for an interface that finds the source applies the cast once, unless the source has a
value of another type. -/
theorem Binds.recounts {scope : Scope} {outer : List Scope} {binding : Binding} {backing : Backing}
    {value : Value} (answers : Answers True World.Steady World.Recounts fuel)
    (noSlot : scope.slots.find? key = none) (interface : scope.bindings.find? key = some binding)
    (unbound : world.memory.bound.find? (scope.site key) = none)
    (behind : scope.slots.find? binding.source = some backing)
    (source : Resolves fuel ⟨scope, outer⟩ binding.source chain context world (.ok (.ok value))
      between)
    (binds : Binds (Session.handler fuel) scope key binding value between result after)
    (settled : Settled True result) (found : world.Recounts between)
    (hosts : world.Hosts ⟨scope, outer⟩) (steady : world.Steady) : world.Recounts after := by
  have hafter := (Resolves.cast noSlot interface unbound behind source binds).hosts hosts hosts
  have applies : between.Applies after :=
    binds.applies (keeps_applies ((World.Applies.invariant between).handler fuel)) noSlot interface
      unbound behind source hosts steady (.refl between)
  have hcast {outcome : Except Stop String} {last : World} (typed : value.type = binding.source)
      (cast : Engine.run (Session.handler fuel)
        (binding.cast.apply (between.nextCast (scope.site key)) value.payload)
        (between.enterCast (scope.site key) binding value.payload) = (outcome, last))
      (settled : Settled True outcome) (left : last.Advances after)
      (ended : ∀ applied : Applied, applied.In after.trace → applied.In last.trace)
      (bound : (∀ message, outcome ≠ .error (.panic message)) →
        after.memory.bound.find? (scope.site key) ≠ none) : world.Recounts after := by
    have runs :=
      source.cast_runs noSlot interface unbound behind binds typed cast left hosts steady
    have inside : (between.enterCast (scope.site key) binding value.payload).Recounts last :=
      answers.run carries_recounts cast settled ((source.hosts hosts hosts).enterCast _ _ _).1
        ((source.steady hosts steady).enterCast _ _ _)
    exact .application runs found applies (World.Grows.enterCast _ _ _ _).toAdvances rfl inside ended
      hafter fun calm => bound (not_exists.mp calm)
  cases binds with
  | mistyped => exact found
  | @broken stop last typed cast =>
    rcases stop with message | _ | _
    · exact hcast typed cast trivial (.refl _) (fun _ => id) fun calm => absurd rfl (calm message)
    · exact settled.elim
    · exact settled.elim
  | @bound payload last typed cast =>
    refine hcast typed cast trivial (World.Grows.bind _ _ _ _ _).toAdvances (fun applied hin => ?_)
      fun _ => ?_
    · let bound : Event := .logged (.interfaceBound scope.id key binding.source)
      have hin : applied.In ([bound] ++ last.trace) := hin
      exact hin.of_append (by simp [bound, Event.IsNoCast])
    · simp [World.bind, Memory.bind, Table.find?_add]

/-- A request that comes to an end accounts for the casts it applies if what is asked for meanwhile
does. -/
theorem Resolves.recounts (answers : ∀ less ≤ fuel, Answers True World.Steady World.Recounts less)
    (resolves : Resolves fuel layer key chain context world result after)
    (hosts : world.Hosts layer) (steady : world.Steady) (settled : Settled True result) :
    world.Recounts after := by
  induction resolves with
  | stored => exact .of_refrains (.emit _ trivial)
  | exhausted | blocked => exact settled.elim
  | bound | unbacked | imported | missing => exact .refl _
  | obstructed => exact .of_refrains (.obstruct _ _ _ _ _ _)
  | @run fuel scope outer key chain context world source inquiries gathered between result after
      starts inquired ends ih =>
    have hsupplied : Settled True gathered := by
      cases ends with
      | unsupplied => exact settled.error
      | refused | broken | returned => trivial
    obtain ⟨hasked, -, -⟩ := starts.hosted World.Steady inquired
      (fun inquiry hinquiry => (inquired inquiry hinquiry).steady) hosts (steady.start _ _ _)
    have hgathers : (world.start scope key source chain).Recounts between :=
      starts.gathers.chain .refl .trans fun inquiry hinquiry =>
        ih inquiry hinquiry (fun less hless => answers less (Nat.le_succ_of_le hless))
          (hasked inquiry hinquiry).1 (hasked inquiry hinquiry).2
          (starts.gathers.settled hsupplied inquiry hinquiry)
    have hends : between.Recounts after :=
      ends.recounts (answers _ (Nat.le_refl _)) settled fun arguments hgathered => by
        subst hgathered
        exact starts.steady_body inquired hosts steady
    exact ((World.Recounts.of_refrains (.start _ _ _ _ _)).trans (hgathers.trans hends)).trans
      (.of_refrains (.hold _ _))
  | unsourced noSlot interface unbound behind source lost ih =>
    exact ih answers hosts steady settled
  | cast noSlot interface unbound behind source binds ih =>
    exact binds.recounts (answers _ (Nat.le_refl _)) noSlot interface unbound behind source settled
      (ih answers hosts steady trivial) hosts steady
  | unavailable unowned unknown source lost ih =>
    exact (World.Recounts.of_refrains (.delegate _ _ _ _)).trans
      (ih answers (hosts.delegate _ _ _).parent (steady.delegate _ _ _) settled)
  | delegated unowned unknown source ih =>
    exact ((World.Recounts.of_refrains (.delegate _ _ _ _)).trans
      (ih answers (hosts.delegate _ _ _).parent (steady.delegate _ _ _) trivial)).trans
        (.of_refrains (.hoist _ _ _ _))

end Resolution

namespace Session

open Resolution

variable {fuel : Nat} {world after : World} {layer : Layer} {key : Key} {context : Context}

theorem request_recounts (answers : ∀ less ≤ fuel, Answers True World.Steady World.Recounts less)
    {outcome : Except Stop Answered}
    (h : layer.request (resolver fuel) key context world = (outcome, after))
    (settled : Settled True outcome) (hosts : world.Hosts layer) (steady : world.Steady) :
    world.Recounts after := by
  have hresolves := resolver_resolves fuel layer key [] context
    (world.emit (.asked (layer.scope.site key)))
  have hrecounts := hresolves.recounts answers (hosts.emit _) (steady.emit trivial)
    (Layer.request_settled h settled)
  obtain rfl : (layer.request (resolver fuel) key context world).2 = after := congrArg Prod.snd h
  rw [Layer.request_world]
  exact ((World.Recounts.of_refrains (.emit world (by trivial))).trans hrecounts).trans
    (.of_refrains (.conclude _ _ _ _))

theorem recounts (fuel : Nat) : Answers True World.Steady World.Recounts fuel :=
  carries_recounts.answers (fun answers => request_recounts answers) fuel

/-- The worlds that commands lead to, one after the other, as long as each of them comes to its end,
be it with a panic. -/
inductive Concluded : World → Prop
  | initial : Concluded {}
  | step {world : World} (concluded : Concluded world) (fuel : Nat) (command : Command)
      (replied : (step fuel world command).1.reply.isOk) : Concluded (step fuel world command).2

theorem Concluded.reachable (concluded : Concluded world) : Reachable world := by
  induction concluded with
  | initial => exact .initial
  | step concluded fuel command replied ih => exact ih.step fuel command

theorem Concluded.recounts (concluded : Concluded world) : World.Recounts {} world := by
  induction concluded with
  | initial => exact .refl _
  | @step world concluded fuel command replied ih =>
    have reachable := concluded.reachable
    obtain ⟨reply, hreply⟩ : ∃ reply, (Session.step fuel world command).1.reply = .ok reply := by
      cases hreply : (Session.step fuel world command).1.reply with
      | ok reply => exact ⟨reply, rfl⟩
      | error stop => simp [hreply, Except.isOk, Except.toBool] at replied
    have hperform : handler (fuel + 1) command world =
        (.ok reply, (Session.step fuel world command).2) := Prod.ext hreply rfl
    exact ih.trans (Session.recounts (fuel + 1) _ _ _ _ hperform (.inl trivial) reachable.valid
      reachable.steady)

end Session

end LayerGraph
