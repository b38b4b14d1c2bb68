import LayerGraph.Proofs.IdleWorlds
import LayerGraph.Proofs.Interfaces

/-! What a cancelled request leaves behind.

From the moment at which its context is over, a request starts nothing and fills nothing. The runs
in progress at that moment fail one after the other, each with the cancellation of what was asked of
it, and no error that came up further inside survives that. -/

namespace LayerGraph

namespace Resolution

variable {fuel : Nat} {layer : Layer} {scope : Scope} {key : Key} {source : Registered}
  {runs : Invocations} {context : Context} {world between after : World}

theorem outcome_of_cancelled {result : Except ResolutionError Yield}
    (lapsed : context.isCancelled world.signals = true) :
    outcome layer key source context result world = (.error (.canceled key), world) :=
  if_pos lapsed

theorem finish_of_cancelled {result : Except ResolutionError Yield}
    (lapsed : context.isCancelled world.signals = true) :
    finish layer key source context result world =
      (.error (.canceled key),
        world.report layer.scope key source (.error (.canceled key))) := by
  unfold finish
  rw [outcome_of_cancelled lapsed]

theorem Gathers.idles {supplies : List Supply} {inquiries : List Inquiry}
    {gathered : Except Stop (Except ResolutionError (List Argument))}
    (gathers : Gathers layer context supplies inquiries world gathered after)
    (h : ∀ inquiry ∈ inquiries, context.isCancelled inquiry.before.signals = true →
      inquiry.before.Idles inquiry.after)
    (lapsed : context.isCancelled world.signals = true) : world.Idles after := by
  induction gathers with
  | done => exact .refl _
  | given unasked willing further ih => exact ih h lapsed
  | declined unasked refusal => exact .refl _
  | stopped asked => exact h _ List.mem_cons_self lapsed
  | refused asked unacceptable => exact h _ List.mem_cons_self lapsed
  | found asked acceptable further ih =>
    have hfirst := h _ List.mem_cons_self lapsed
    have hfurther := ih fun inquiry hinquiry => h inquiry (List.mem_cons_of_mem _ hinquiry)
    exact hfirst.trans (hfurther (hfirst.lapsed lapsed))

theorem Gathers.answered {supplies : List Supply} {inquiries : List Inquiry}
    {collected : Except ResolutionError (List Argument)}
    (gathers : Gathers layer context supplies inquiries world (.ok collected) after) :
    ∀ inquiry ∈ inquiries, ∃ answer, inquiry.result = .ok answer := by
  intro inquiry hinquiry
  cases hresult : inquiry.result with
  | ok answer => exact ⟨answer, rfl⟩
  | error stop => cases gathers.stops ⟨inquiry, hinquiry, hresult⟩

theorem Ends.supplied {perform : Command → Engine Reply}
    {gathered : Except Stop (Except ResolutionError (List Argument))} {answer : Answer}
    (ends : Ends perform layer key source context world gathered (.ok answer) after) :
    ∃ collected, gathered = .ok collected := by
  cases gathered with
  | error stop => cases ends
  | ok collected => exact ⟨collected, rfl⟩

/-- If a look for arguments goes through a moment at which the context is over, the runs further in
fail, and the rest is idle. -/
theorem Gathers.abandons {supplies : List Supply} {inquiries : List Inquiry}
    {gathered : Except Stop (Except ResolutionError (List Argument))}
    (gathers : Gathers layer context supplies inquiries world gathered after)
    (answers : ∀ inquiry ∈ inquiries,
      Resolves fuel layer inquiry.key runs.chain context inquiry.before inquiry.result
        inquiry.after)
    (answered : ∀ inquiry ∈ inquiries, ∃ answer, inquiry.result = .ok answer)
    (h : ∀ inquiry ∈ inquiries,
      ∀ moment ∈ moments fuel layer inquiry.key runs context inquiry.before,
        context.isCancelled moment.world.signals = true →
        ∃ inner, moment.Abandons runs inquiry.after inner) :
    ∀ moment ∈ fetchMoments (Session.resolver fuel) (moments fuel) layer runs context supplies
      world, context.isCancelled moment.world.signals = true →
        ∃ inner, moment.Abandons runs after inner := by
  induction gathers with
  | done => simp [fetchMoments]
  | given unasked willing further ih =>
    rw [fetchMoments_of_given unasked willing]
    exact ih answers answered h
  | declined unasked refusal =>
    rw [fetchMoments_of_declined unasked refusal]
    intro moment hmoment lapsed
    obtain rfl := List.mem_singleton.mp hmoment
    exact ⟨[], rfl, .refl _, by simp⟩
  | stopped asked =>
    obtain ⟨answer, hanswer⟩ := answered _ List.mem_cons_self
    cases hanswer
  | @refused supply rest key before answer after error asked unacceptable =>
    have hanswer := (answers _ List.mem_cons_self).eq_resolver
    rw [fetchMoments_of_answer asked hanswer, unacceptable]
    intro moment hmoment lapsed
    rcases List.mem_append.mp hmoment with hmoment | hmoment
    · exact h _ List.mem_cons_self moment hmoment lapsed
    · obtain ⟨hruns, rfl⟩ := of_mem_verdict (List.append_nil _ ▸ hmoment)
      exact ⟨[], hruns, .refl _, by simp⟩
  | @found supply rest inquiries key before answer between argument gathered after asked acceptable
      further ih =>
    have hanswer := (answers _ List.mem_cons_self).eq_resolver
    have hfurther := ih (fun inquiry hinquiry => answers inquiry (List.mem_cons_of_mem _ hinquiry))
      (fun inquiry hinquiry => answered inquiry (List.mem_cons_of_mem _ hinquiry))
      (fun inquiry hinquiry => h inquiry (List.mem_cons_of_mem _ hinquiry))
    -- What follows the first answer is idle once the context is over.
    have hidles (lapsed : context.isCancelled between.signals = true) : between.Idles after := by
      refine further.idles (fun inquiry hinquiry hbefore => ?_) lapsed
      obtain ⟨inner, habandons⟩ := h inquiry (List.mem_cons_of_mem _ hinquiry) _
        (entry_mem_moments fuel layer) hbefore
      exact habandons.idles rfl
    rw [fetchMoments_of_answer asked hanswer, acceptable]
    intro moment hmoment lapsed
    rcases List.mem_append.mp hmoment with hmoment | hmoment
    · obtain ⟨inner, habandons⟩ := h _ List.mem_cons_self moment hmoment lapsed
      exact ⟨inner, habandons.idle (hidles (habandons.lapsed lapsed))⟩
    · rcases List.mem_append.mp hmoment with hmoment | hmoment
      · obtain ⟨hruns, rfl⟩ := of_mem_verdict hmoment
        exact ⟨[], hruns, hidles lapsed, by simp⟩
      · exact hfurther moment hmoment lapsed

/-- A run under a context that is over at some moment of its ending is cancelled. -/
theorem Ends.subsides_of_mem {perform : Command → Engine Reply}
    {gathered : Except Stop (Except ResolutionError (List Argument))} {answer : Answer}
    (run : Invocation)
    (ends : Ends perform layer run.requested run.source context world gathered (.ok answer) after)
    (scope : run.scope = layer.scope)
    (silent : ∀ number arguments, (run.source.generator.body number arguments).Silent)
    {moment : Moment} (h : moment ∈ closingMoments perform layer run runs context gathered world)
    (lapsed : context.isCancelled moment.world.signals = true) :
    moment.runs = run :: runs ∧ World.Subsides [run] moment.world after ∧
      answer = .error (.canceled run.requested) := by
  -- The world of the last moment is the one in which the run is cancelled.
  have hend {result : Except ResolutionError Yield} {world : World}
      (lapsed : context.isCancelled
        (endMoment run layer runs context result world).world.signals = true) :
      (endMoment run layer runs context result world).runs = run :: runs ∧
      (endMoment run layer runs context result world).world = world ∧
        finish layer run.requested run.source context result world =
          (.error (.canceled run.requested), world.report run.scope run.requested run.source
            (.error (.canceled run.requested))) := by
    have hsignals : (endMoment run layer runs context result world).world.signals =
      world.signals := outcome_signals _ _ _ _ _ _
    rw [hsignals] at lapsed
    refine ⟨rfl, ?_, scope ▸ finish_of_cancelled lapsed⟩
    change (outcome layer run.requested run.source context result world).2 = world
    rw [outcome_of_cancelled lapsed]
  generalize hresult : Except.ok answer = result at ends
  cases ends with
  | unsupplied => cases hresult
  | refused =>
    cases hresult
    obtain rfl := List.mem_singleton.mp h
    obtain ⟨hruns, hworld, hfinish⟩ := hend lapsed
    rw [hfinish, hworld]
    exact ⟨hruns, .fail run (.refl _), rfl⟩
  | broken => cases hresult
  | @returned arguments yield last body =>
    cases hresult
    rw [closingMoments, body] at h
    rcases List.mem_append.mp h with h | h
    · obtain ⟨passed, hpassed, rfl⟩ := List.mem_map.mp h
      have hbody := World.Idles.of_mem_passes (silent _ _) body hpassed
      have hreturned : last.Idles (last.emit (.returned layer.scope.id run.source.place
        (world.nextRun layer.scope run.source) yield)) := .emit last trivial
      have hidles := hbody.trans hreturned
      rw [finish_of_cancelled (hidles.lapsed lapsed), ← scope]
      rw [← scope] at hidles
      exact ⟨rfl, .fail run hidles, rfl⟩
    · obtain rfl := List.mem_singleton.mp h
      obtain ⟨hruns, hworld, hfinish⟩ := hend lapsed
      rw [hfinish, hworld]
      exact ⟨hruns, .fail run (.refl _), rfl⟩

theorem Ends.subsides {perform : Command → Engine Reply}
    {gathered : Except Stop (Except ResolutionError (List Argument))} {answer : Answer}
    (run : Invocation)
    (ends : Ends perform layer run.requested run.source context world gathered (.ok answer) after)
    (scope : run.scope = layer.scope)
    (silent : ∀ number arguments, (run.source.generator.body number arguments).Silent)
    (lapsed : context.isCancelled world.signals = true) :
    World.Subsides [run] world after ∧ answer = .error (.canceled run.requested) := by
  have hfirst : ∃ moment ∈ closingMoments perform layer run [] context gathered world,
      world.Idles moment.world := by
    cases ends with
    | @refused error =>
      refine ⟨_, List.mem_singleton_self _, ?_⟩
      change world.Idles (outcome layer run.requested run.source context (.error error) world).2
      rw [outcome_of_cancelled lapsed]
      exact .refl _
    | @returned arguments =>
      exact ⟨_, List.mem_append_left _ (List.mem_map_of_mem (Engine.mem_passes _ _ _)),
        .enterBody world layer.scope run.source arguments⟩
  obtain ⟨moment, hmoment, hidles⟩ := hfirst
  obtain ⟨-, hsubsides, hanswer⟩ :=
    ends.subsides_of_mem run scope silent hmoment (hidles.lapsed lapsed)
  exact ⟨.idle hidles hsubsides, hanswer⟩

/-- A run that ends under a context that is over fills nothing at its end. -/
theorem Ends.unfilled {perform : Command → Engine Reply}
    {gathered : Except Stop (Except ResolutionError (List Argument))} {answer : Answer}
    (ends : Ends perform layer key source context world gathered (.ok answer) after)
    (silent : ∀ number arguments, (source.generator.body number arguments).Silent)
    (lapsed : context.isCancelled after.signals = true) :
    after.memory.filled = world.memory.filled := by
  have hfinish {result : Except ResolutionError Yield} {world : World}
      (lapsed : context.isCancelled
        (finish layer key source context result world).2.signals = true) :
      (finish layer key source context result world).2.memory = world.memory := by
    rw [finish_signals] at lapsed
    rw [finish_of_cancelled lapsed, report_memory]
  generalize hresult : Except.ok answer = result at ends
  cases ends with
  | unsupplied => cases hresult
  | refused => rw [hfinish lapsed]
  | broken => cases hresult
  | @returned arguments yield last body =>
    rw [hfinish lapsed]
    exact (World.Idles.of_run (silent _ _) body).filled

/-- A run under a context that is over at some moment of it. -/
theorem Starts.settles {inquiries : List Inquiry}
    {gathered : Except Stop (Except ResolutionError (List Argument))} {answer : Answer}
    (starts : Starts layer key runs.chain context world source inquiries gathered between)
    (answers : ∀ inquiry ∈ inquiries,
      Resolves fuel layer inquiry.key (layer.scope.frame key source :: runs.chain) context
        inquiry.before inquiry.result inquiry.after)
    (ends : Ends (Session.handler (fuel + 1)) layer key source context between gathered
      (.ok answer) after) (hosts : world.Hosts layer) (silent : layer.scope.Silent)
    (h : ∀ inquiry ∈ inquiries, inquiry.before.Hosts layer → ∀ answer, inquiry.result = .ok answer →
      ∀ moment ∈ moments fuel layer inquiry.key (runAt layer key source runs world :: runs) context
        inquiry.before, context.isCancelled moment.world.signals = true →
          moment.Settles (runAt layer key source runs world :: runs) answer inquiry.after) :
    ∀ moment ∈ moments (fuel + 1) layer key runs context world,
      context.isCancelled moment.world.signals = true →
        moment.Settles runs answer { after with held := world.held } := by
  let run := runAt layer key source runs world
  have hmoments := moments_of_run starts answers
  have hhosted := (starts.hosted (fun _ => True) answers (fun _ _ _ _ => trivial) hosts trivial).1
  obtain ⟨⟨eager, cyclic, slot, free⟩, empty, -, gathers⟩ := starts
  obtain ⟨-, rfl, room, live⟩ := obstacle?_eq_none_iff.mp free
  have hbodies := silent.bodies key source eager false slot
  obtain ⟨collected, rfl⟩ := ends.supplied
  have hinterrupted (lapsed : context.isCancelled after.signals = true) : run.Interrupted after := by
    have hgrows : run.begun.Grows between := gathers.chain .refl .trans fun inquiry hinquiry =>
      (answers inquiry hinquiry).grows
    have hunfilled : ∀ site ∈ layer.scope.locks source,
        after.memory.filled.find? site = run.begun.memory.filled.find? site := by
      intro site hsite
      rw [ends.unfilled hbodies lapsed]
      exact hgrows.locked site (List.mem_append_left _ hsite)
    have hown : layer.scope.site key ∈ layer.scope.locks source :=
      Scope.mem_locks.mpr
        ⟨key, (hosts.1.sound layer hosts.2).mem_fedBy_of_slot slot, rfl⟩
    exact ⟨⟨eager, slot⟩, Nat.zero_lt_of_lt room, (hunfilled _ hown).trans empty, hunfilled⟩
  intro moment hmoment lapsed
  rw [hmoments] at hmoment
  rcases List.mem_cons.mp hmoment with rfl | hmoment
  · cases lapsed.symm.trans live
  rcases List.mem_cons.mp hmoment with rfl | hmoment
  · cases lapsed.symm.trans live
  rcases List.mem_append.mp hmoment with hmoment | hmoment
  · -- The context is over before the arguments have come to something.
    have habandons := gathers.abandons answers gathers.answered
      fun inquiry hinquiry moment hmoment lapsed => by
        obtain ⟨found, hfound⟩ := gathers.answered inquiry hinquiry
        obtain ⟨inner, habandons, -⟩ := h inquiry hinquiry (hhosted inquiry hinquiry).1 found hfound
          moment hmoment lapsed
        exact ⟨inner, habandons⟩
    obtain ⟨inner, habandons⟩ := habandons moment hmoment lapsed
    have hbetween := habandons.lapsed lapsed
    obtain ⟨hends, hanswer⟩ := ends.subsides run rfl hbodies hbetween
    exact (habandons.fail hends (hinterrupted (hends.lapsed hbetween)) hanswer).idle (.hold _ _)
  · obtain ⟨hruns, hends, hanswer⟩ := ends.subsides_of_mem run rfl hbodies hmoment lapsed
    have habandons : moment.Abandons (run :: runs) moment.world [] := ⟨hruns, .refl _, by simp⟩
    exact (habandons.fail hends (hinterrupted (hends.lapsed lapsed)) hanswer).idle (.hold _ _)

theorem Binds.idles {perform : Command → Engine Reply} {binding : Binding} {value : Value}
    {result : Except Stop Answer}
    (binds : Binds perform scope key binding value world result after)
    (silent : ∀ call payload, (binding.cast.apply call payload).Silent) : world.Idles after := by
  cases binds with
  | mistyped => exact .refl _
  | broken typed cast =>
    exact (World.Idles.enterCast _ _ _ _).trans (.of_run (silent _ _) cast)
  | bound typed cast =>
    have hcast := (World.Idles.enterCast _ _ _ _).trans (.of_run (silent _ _) cast)
    exact hcast.trans (.bind _ _ _ _ _)

theorem Binds.idles_of_mem {perform : Command → Engine Reply} {binding : Binding} {value : Value}
    {answer : Answer} (binds : Binds perform scope key binding value world (.ok answer) after)
    (silent : ∀ call payload, (binding.cast.apply call payload).Silent) {moment : Moment}
    (h : moment ∈ castMoments perform scope key binding runs world (.ok (.ok value))) :
    moment.runs = runs ∧ moment.world.Idles after := by
  rw [castMoments] at h
  generalize hresult : Except.ok answer = result at binds
  cases binds with
  | mistyped other =>
    rw [if_neg other] at h
    obtain rfl := List.mem_singleton.mp h
    exact ⟨rfl, .refl _⟩
  | broken => cases hresult
  | bound typed cast =>
    rw [if_pos typed] at h
    obtain ⟨passed, hpassed, rfl⟩ := List.mem_map.mp h
    exact ⟨rfl, (World.Idles.of_mem_passes (silent _ _) cast hpassed).trans (.bind _ _ _ _ _)⟩

/-- Once its context is over, a request starts and fills nothing, and the runs in progress fail with
their cancellation. -/
theorem Resolves.settles {chain : Chain} {result : Except Stop Answer} {answer : Answer}
    (resolves : Resolves fuel layer key chain context world result after)
    (silent : ∀ scope ∈ layer.ancestry, scope.Silent) (hosts : world.Hosts layer)
    (hchain : chain = runs.chain) (hanswer : result = .ok answer) :
    ∀ moment ∈ moments fuel layer key runs context world,
      context.isCancelled moment.world.signals = true → moment.Settles runs answer after := by
  induction resolves generalizing runs answer with
  | @stored fuel scope outer key chain context world backing value slot present =>
    rw [moments_of_stored slot present]
    intro moment hmoment _
    obtain rfl := List.mem_singleton.mp hmoment
    have hlogged : world.Idles (world.emit (.logged (.slotHit scope.id key))) := .emit _ trivial
    exact .of_idles rfl hlogged _
  | exhausted => cases hanswer
  | obstructed slot empty obstacle =>
    subst hchain
    rw [moments_of_obstacle slot empty obstacle]
    intro moment hmoment _
    rcases List.mem_cons.mp hmoment with rfl | hmoment
    · exact .of_idles rfl (.obstruct (obstructs_of_obstacle? obstacle)) _
    · obtain rfl := List.mem_singleton.mp hmoment
      exact .of_idles rfl (.refl _) _
  | blocked => cases hanswer
  | @run fuel scope outer key chain context world source inquiries gathered between result after
      starts answers ends ih =>
    subst hchain hanswer
    exact starts.settles answers ends hosts (silent scope List.mem_cons_self)
      fun inquiry hinquiry hhosts answer hanswer => ih inquiry hinquiry silent hhosts rfl hanswer
  | bound noSlot interface present =>
    rw [moments_of_bound noSlot interface present]
    intro moment hmoment _
    obtain rfl := List.mem_singleton.mp hmoment
    exact .of_idles rfl (.refl _) _
  | unbacked noSlot interface unbound noSource =>
    rw [moments_of_unbacked noSlot interface unbound noSource]
    intro moment hmoment _
    rcases List.mem_cons.mp hmoment with rfl | hmoment
    · exact .of_idles rfl (.refl _) _
    · obtain rfl := List.mem_singleton.mp hmoment
      exact .of_idles rfl (.refl _) _
  | @unsourced fuel scope outer key chain context world binding backing result after noSlot
      interface unbound behind resolved lost ih =>
    subst hchain hanswer
    have hsource := ih silent hosts rfl rfl
    obtain ⟨error, rfl⟩ : ∃ error, answer = .error error := by
      cases answer with
      | error error => exact ⟨error, rfl⟩
      | ok value => exact absurd rfl (lost value)
    rw [moments_of_unbound noSlot interface unbound behind resolved]
    intro moment hmoment lapsed
    rcases List.mem_cons.mp hmoment with rfl | hmoment
    · exact hsource _ (entry_mem_moments _ _) lapsed
    · have hmoment := (List.append_nil _).subst hmoment
      exact hsource moment hmoment lapsed
  | @cast fuel scope outer key chain context world binding backing value between result after
      noSlot interface unbound behind resolved binds ih =>
    subst hchain hanswer
    have hsource := ih silent hosts rfl rfl
    have hcasts := (silent scope List.mem_cons_self).casts key binding interface
    have hbefore {moment : Moment}
        (hmoment : moment ∈ moments fuel ⟨scope, outer⟩ binding.source runs context world)
        (lapsed : context.isCancelled moment.world.signals = true) :
        moment.Settles runs answer after := by
      obtain ⟨hruns, hidles⟩ := (hsource moment hmoment lapsed).idles
      exact .of_idles hruns (hidles.trans (binds.idles hcasts)) _
    rw [moments_of_unbound noSlot interface unbound behind resolved]
    intro moment hmoment lapsed
    rcases List.mem_cons.mp hmoment with rfl | hmoment
    · exact hbefore (entry_mem_moments _ _) lapsed
    · rcases List.mem_append.mp hmoment with hmoment | hmoment
      · exact hbefore hmoment lapsed
      · obtain ⟨hruns, hidles⟩ := binds.idles_of_mem hcasts hmoment
        exact .of_idles hruns hidles _
  | imported unowned present =>
    rw [moments_of_unowned unowned, present]
    intro moment hmoment _
    obtain rfl := List.mem_singleton.mp hmoment
    exact .of_idles rfl (.refl _) _
  | missing unowned unknown =>
    rw [moments_of_unowned unowned, unknown]
    intro moment hmoment _
    rcases List.mem_cons.mp hmoment with rfl | hmoment
    · exact .of_idles rfl (.refl _) _
    · obtain rfl := List.mem_singleton.mp hmoment
      exact .of_idles rfl (.refl _) _
  | @unavailable fuel scope parent further key chain context world result after unowned unknown
      resolved lost ih =>
    have hparent := ih (fun other h => silent other (List.mem_cons_of_mem _ h))
      (hosts.delegate _ _ _).parent hchain hanswer
    have hdelegate := World.Idles.delegate world scope key parent
    rw [moments_of_unowned unowned, unknown]
    intro moment hmoment lapsed
    rcases List.mem_cons.mp hmoment with rfl | hmoment
    · obtain ⟨inner, habandons, -⟩ := hparent _ (entry_mem_moments _ _) lapsed
      exact .of_idles rfl (hdelegate.trans (habandons.idles rfl)) _
    · exact hparent moment hmoment lapsed
  | @delegated fuel scope parent further key chain context world value between unowned unknown
      resolved ih =>
    cases hanswer
    have hparent := ih (fun other h => silent other (List.mem_cons_of_mem _ h))
      (hosts.delegate _ _ _).parent hchain rfl
    have hdelegate := World.Idles.delegate world scope key parent
    have hhoist := World.Idles.hoist between scope key value
    rw [moments_of_unowned unowned, unknown]
    intro moment hmoment lapsed
    rcases List.mem_cons.mp hmoment with rfl | hmoment
    · obtain ⟨-, hidles⟩ := (hparent _ (entry_mem_moments _ _) lapsed).idles
      exact .of_idles rfl ((hdelegate.trans hidles).trans hhoist) _
    · obtain ⟨hruns, hidles⟩ := (hparent moment hmoment lapsed).idles
      exact .of_idles hruns (hidles.trans hhoist) _

/-- A request under a context that is over yields a value of the type asked for exactly if the slot
behind that type has one of its own type already. -/
theorem Resolves.granted_iff_of_cancelled {chain : Chain} {result : Except Stop Answer}
    {answer : Answer} (resolves : Resolves fuel layer key chain context world result after)
    (hosts : world.Hosts layer) (backed : world.Backed)
    (lapsed : context.isCancelled world.signals = true) (hanswer : result = .ok answer) :
    (∃ value, answer = .ok value ∧ value.type = key) ↔ layer.Stores world.memory key := by
  induction resolves generalizing answer with
  | stored slot present =>
    cases hanswer
    rw [Layer.stores_of_slot slot, Scope.stores_iff slot, present]
    simp
  | exhausted => cases hanswer
  | obstructed slot empty =>
    cases hanswer
    rw [Layer.stores_of_slot slot, Scope.stores_iff slot, Memory.stored?, empty]
    simp
  | blocked => cases hanswer
  | run starts =>
    obtain ⟨eager, cyclic, -, free⟩ := starts.slot
    cases lapsed.symm.trans (obstacle?_eq_none_iff.mp free).2.2.2
  | @bound fuel scope outer key chain context world binding value noSlot interface present =>
    cases hanswer
    rw [stores_iff_of_cell hosts backed
      ((Layer.cell?_of_binding noSlot interface outer world.memory).trans present)]
    simp
  | unbacked noSlot interface unbound noSource =>
    cases hanswer
    rw [Layer.stores_of_binding noSlot interface]
    simp [Scope.Stores, noSource]
  | unsourced noSlot interface unbound behind resolved lost ih =>
    subst hanswer
    have hsource := ih hosts backed lapsed rfl
    rw [Layer.stores_of_slot behind] at hsource
    rw [Layer.stores_of_binding noSlot interface, ← hsource]
    have hlost (value : Value) : answer ≠ .ok value := fun h => lost value (h ▸ rfl)
    simp [hlost]
  | @cast fuel scope outer key chain context world binding backing value between result after
      noSlot interface unbound behind resolved binds ih =>
    subst hanswer
    have hsource := ih hosts backed lapsed rfl
    rw [Layer.stores_of_slot behind] at hsource
    rw [Layer.stores_of_binding noSlot interface, ← hsource]
    have whole : Resolves fuel ⟨scope, outer⟩ key chain context world (.ok answer) after :=
      .cast noSlot interface unbound behind resolved binds
    have hbound {found : Value} (h : answer = .ok found) : found.type = key := by
      subst h
      exact ((whole.backed hosts backed).bound _ (whole.hosts hosts hosts).2 key found
        binds.bound_value).1
    generalize hresult : Except.ok answer = result at binds
    cases binds with
    | mistyped other =>
      cases hresult
      simp [other]
    | broken => cases hresult
    | bound typed cast =>
      cases hresult
      simp [typed, hbound rfl]
  | @imported fuel scope outer key chain context world value unowned present =>
    cases hanswer
    rw [stores_iff_of_cell hosts backed (backed.faithful _ hosts.2 key value present)]
    simp
  | missing unowned unknown =>
    cases hanswer
    simp [Layer.not_stores_of_missing unowned]
  | @unavailable fuel scope parent further key chain context world result after unowned unknown
      resolved lost ih =>
    rw [Layer.stores_of_unowned unowned]
    exact ih (hosts.delegate _ _ _).parent (backed.of_same rfl (.refl _) rfl rfl) lapsed hanswer
  | @delegated fuel scope parent further key chain context world value between unowned unknown
      resolved ih =>
    cases hanswer
    have hstart : (world.delegate scope key parent).Backed := backed.of_same rfl (.refl _) rfl rfl
    obtain ⟨hhosts, hfaithful, hcell⟩ := resolved.delegated_cell unowned hosts backed.faithful
    have hparent := ih (hosts.delegate _ _ _).parent hstart lapsed rfl
    rw [Layer.stores_of_unowned unowned, hfaithful.hoisted_eq hhosts hcell]
    exact hparent

/-- An empty slot whose generator nothing keeps from being started is filled by starting it. -/
theorem Resolves.starts_generator {chain : Chain} {result : Except Stop Answer} {eager : Bool}
    (resolves : Resolves fuel layer key chain context world result after)
    (nested : fuel ≠ 0) (hosts : world.Hosts layer) (faithful : world.Faithful)
    (unheld : world.held = []) (owned : layer.owner? key = some scope)
    (slot : scope.slots.find? key = some (.generated source eager false))
    (empty : world.memory.filled.find? (scope.site key) = none)
    (unclaimed : chain.claims scope.id key = false)
    (room : chain.length < scope.settings.maxDepth)
    (live : context.isCancelled world.signals = false) :
    ∃ between, world.Advances between ∧ (between.start scope key source chain).Advances after := by
  have hunlocked (sites : List Site) {world : World} (unheld : world.held = []) :
      ¬ sites.any world.held.contains := by
    simp [unheld]
  induction resolves with
  | @stored fuel inner outer key chain context world backing value slot' present =>
    obtain rfl := Option.some.inj ((Layer.owner?_of_slot slot' outer).symm.trans owned)
    rw [slot] at slot'
    cases slot'
    cases empty.symm.trans present
  | exhausted => exact absurd rfl nested
  | @obstructed fuel inner outer key chain context world other early cyclic error slot' empty'
      obstacle =>
    obtain rfl := Option.some.inj ((Layer.owner?_of_slot slot' outer).symm.trans owned)
    rw [slot] at slot'
    cases slot'
    cases obstacle.symm.trans (obstacle?_eq_none_iff.mpr ⟨unclaimed, rfl, room, live⟩)
  | blocked slot' empty' free locked => exact absurd locked (hunlocked _ unheld)
  | @run fuel inner outer key chain context world other inquiries gathered between result after
      starts answers ends ih =>
    have hgathered := starts.gathers.chain World.Grows.refl (fun h h' => h.trans h')
      fun inquiry hinquiry => (answers inquiry hinquiry).grows
    obtain ⟨⟨early, cyclic, slot', -⟩, -⟩ := starts
    have slot' : inner.slots.find? key = some (.generated other early cyclic) := slot'
    obtain rfl := Option.some.inj ((Layer.owner?_of_slot slot' outer).symm.trans owned)
    rw [slot] at slot'
    cases slot'
    exact ⟨world, .refl _,
      (hgathered.toAdvances.trans (ends.grows (Session.handler_grows _)).1).trans (.hold _ _)⟩
  | @bound fuel inner outer key chain context world binding value noSlot interface =>
    obtain rfl := Option.some.inj ((Layer.owner?_of_binding interface outer).symm.trans owned)
    cases noSlot.symm.trans slot
  | @unbacked fuel inner outer key chain context world binding noSlot interface =>
    obtain rfl := Option.some.inj ((Layer.owner?_of_binding interface outer).symm.trans owned)
    cases noSlot.symm.trans slot
  | @unsourced fuel inner outer key chain context world binding backing result after noSlot
      interface =>
    obtain rfl := Option.some.inj ((Layer.owner?_of_binding interface outer).symm.trans owned)
    cases noSlot.symm.trans slot
  | @cast fuel inner outer key chain context world binding backing value between result after noSlot
      interface =>
    obtain rfl := Option.some.inj ((Layer.owner?_of_binding interface outer).symm.trans owned)
    cases noSlot.symm.trans slot
  | @imported fuel inner outer key chain context world value unowned present =>
    have hcell := faithful _ hosts.2 key value present
    rw [Layer.cell?, owned, Option.bind_some, Scope.cell?, slot] at hcell
    cases empty.symm.trans hcell
  | missing unowned =>
    rw [Layer.owner?, Layer.ancestry, List.find?_singleton, unowned] at owned
    cases owned
  | @unavailable fuel inner parent further key chain context world result after unowned unknown
      resolved lost ih =>
    rw [Layer.owner?_of_unowned unowned] at owned
    obtain ⟨between, hbetween, hafter⟩ := ih nested (hosts.delegate _ _ _).parent
      (faithful.of_same rfl (.refl _) rfl) unheld owned slot empty unclaimed room live
    exact ⟨between, (World.Grows.delegate _ _ _ _).toAdvances.trans hbetween, hafter⟩
  | @delegated fuel inner parent further key chain context world value between unowned unknown
      resolved ih =>
    rw [Layer.owner?_of_unowned unowned] at owned
    obtain ⟨reached, hreached, hbetween⟩ := ih nested (hosts.delegate _ _ _).parent
      (faithful.of_same rfl (.refl _) rfl) unheld owned slot empty unclaimed room live
    exact ⟨reached, (World.Grows.delegate _ _ _ _).toAdvances.trans hreached,
      hbetween.trans (World.Grows.hoist _ _ _ _).toAdvances⟩

end Resolution

namespace Session

open Resolution

/-- However things go on from the world, as long as the slot that was asked for is empty, a request
for it from any layer that it belongs to starts its generator anew, if its context is not over. -/
def Restarts (run : Invocation) (world : World) : Prop :=
  ∀ fuel seen later, Course fuel world seen later →
    later.memory.filled.find? (run.scope.site run.requested) = none →
    ∀ layer ∈ later.built, layer.owner? run.requested = some run.scope →
    ∀ context, context.isCancelled later.signals = false → ∀ nested,
      ∃ between, later.Advances between ∧
        (between.start run.scope run.requested run.source []).Advances
          (layer.resolveAs (resolver (nested + 1)) run.requested context later).2

/-- A run that has been interrupted is begun anew by the next request. -/
theorem restarts_of_interrupted {world : World} {run : Invocation} (valid : world.Valid)
    (faithful : world.Faithful) (unheld : world.held = []) (interrupted : run.Interrupted world) :
    Restarts run world := by
  intro fuel seen later course empty layer known owned context live nested
  have hinvariant := World.Faithful.invariant
  obtain ⟨hlater, -⟩ := hinvariant.course (fun less _ => hinvariant.handler less) course
    ⟨valid, faithful⟩
  have hheld : later.held = [] :=
    (course.grows_of_grow fun less _ => handler_grows less).held.trans unheld
  obtain ⟨eager, slot⟩ := interrupted.slot
  have hasked : (later.emit (.asked (layer.scope.site run.requested))).Faithful :=
    hlater.2.of_same rfl (.refl _) rfl
  have hresolves := resolver_resolves (nested + 1) layer run.requested [] context
    (later.emit (.asked (layer.scope.site run.requested)))
  obtain ⟨between, hbetween, hafter⟩ := hresolves.starts_generator (Nat.succ_ne_zero nested)
    ⟨hlater.1.emit _, known⟩ hasked hheld owned slot empty rfl interrupted.room live
  rw [Layer.resolveAs_eq rfl]
  exact ⟨between, (World.Advances.emit _ _).trans hbetween,
    hafter.trans (World.Grows.conclude _ _ _ _).toAdvances⟩

/-- A request of a layer of silent code is answered if there is nesting for all its generators and
nothing panics. -/
theorem resolver_answers {world : World} (reachable : Reachable world) {layer : Layer}
    (known : layer ∈ world.built) (silent : ∀ scope ∈ layer.ancestry, scope.Silent) (key : Key)
    (context : Context) {fuel : Nat} (nesting : layer.generatorCount < fuel)
    (calm : ∀ message,
      (layer.resolveAs (resolver fuel) key context world).1 ≠ .error (.panic message)) :
    ∃ answer after, resolver fuel layer key [] context
      (world.emit (.asked (layer.scope.site key))) = (.ok answer, after) := by
  have hresolves := resolver_resolves fuel layer key [] context
    (world.emit (.asked (layer.scope.site key)))
  rcases hresult : resolver fuel layer key [] context
    (world.emit (.asked (layer.scope.site key))) with ⟨stop | answer, after⟩
  · rw [hresult] at hresolves
    obtain ⟨message, rfl⟩ :=
      hresolves.panics silent (reachable.valid.proper known) reachable.held nesting
    refine absurd ?_ (calm message)
    rw [Layer.resolveAs_eq hresult]
    rfl
  · exact ⟨answer, after, rfl⟩

/-- Cancelled work is not kept. A request of silent code that does not panic is answered, and of
every moment of it at which its context is over, the following holds. The context stays over, no
generator is started and no slot is filled from then on. The runs in progress fail from the innermost
to the outermost, each reported once with the cancellation of its own type, whatever came up inside,
and their slots are as they were when they began. The request fails with the cancellation of the
outermost of them. As long as a slot is empty later on, the next live request for it starts its
generator anew. If the context is over at the end, it is so at some moment. If it is over from the
beginning, no run begins, and the request succeeds exactly if the slot behind the type has a value
of its own type already. -/
theorem cancelled_work_is_not_kept {world : World} (reachable : Reachable world) {layer : Layer}
    (known : layer ∈ world.built) (silent : ∀ scope ∈ layer.ancestry, scope.Silent) (key : Key)
    (context : Context) {fuel : Nat} (nesting : layer.generatorCount < fuel)
    (calm : ∀ message,
      (layer.resolveAs (resolver fuel) key context world).1 ≠ .error (.panic message)) :
    ∃ answered after, layer.resolveAs (resolver fuel) key context world = (.ok answered, after) ∧
      world.memory.Extends after.memory ∧
      (∀ moment ∈ layer.moments fuel key context world,
        context.isCancelled moment.world.signals = true →
          context.isCancelled after.signals = true ∧
          moment.world.Subsides moment.runs after ∧
          after.memory.filled = moment.world.memory.filled ∧
          (∀ run ∈ moment.runs, run.Interrupted after ∧ Restarts run after) ∧
          ∀ outermost, moment.runs.getLast? = some outermost →
            ∃ snapshot, answered = .error ⟨.canceled outermost.requested, snapshot⟩) ∧
      (context.isCancelled after.signals = true →
        ∃ moment ∈ layer.moments fuel key context world,
          context.isCancelled moment.world.signals = true) ∧
      (context.isCancelled world.signals = true →
        world.Idles after ∧
        ((∃ value, answered = .ok value) ↔ layer.Stores world.memory key)) := by
  have hosts : (world.emit (.asked (layer.scope.site key))).Hosts layer :=
    ⟨reachable.valid.emit _, known⟩
  have hbacked : (world.emit (.asked (layer.scope.site key))).Backed := reachable.backed.emit _
  have hresolves := resolver_resolves fuel layer key [] context
    (world.emit (.asked (layer.scope.site key)))
  obtain ⟨answer, after, hanswer⟩ :=
    resolver_answers reachable known silent key context nesting calm
  rw [hanswer] at hresolves
  have hidles : after.Idles (after.conclude layer key (.ok answer)) := .conclude _ _ _ _
  have hafter : (after.conclude layer key (.ok answer)).Backed :=
    (hresolves.backed hosts hbacked).conclude _ _ _
  have hvalid : (after.conclude layer key (.ok answer)).Valid :=
    (hresolves.valid hosts).conclude _ _ _
  have hgrows : world.Grows (after.conclude layer key (.ok answer)) :=
    ((World.Grows.emit _ _).trans hresolves.grows).trans (.conclude _ _ _ _)
  have hcut (moment : Moment) (hmoment : moment ∈ layer.moments fuel key context world)
      (lapsed : context.isCancelled moment.world.signals = true) :
      moment.Settles [] answer (after.conclude layer key (.ok answer)) := by
    rw [Layer.moments, hanswer] at hmoment
    rcases List.mem_append.mp hmoment with hmoment | hmoment
    · exact (hresolves.settles silent hosts rfl rfl moment hmoment lapsed).idle hidles
    · obtain ⟨hruns, hworld⟩ : moment.runs = [] ∧
          moment.world = after.conclude layer key (.ok answer) := by
        cases answer with
        | error error => cases hmoment
        | ok value =>
          dsimp only at hmoment
          split at hmoment
          · cases hmoment
          · obtain rfl := List.mem_singleton.mp hmoment
            exact ⟨rfl, rfl⟩
      exact .of_idles hruns (hworld ▸ .refl _) answer
  have hentry : ⟨[], world.emit (.asked (layer.scope.site key)), .passing⟩ ∈
      layer.moments fuel key context world :=
    List.mem_append_left _ (entry_mem_moments _ _)
  refine ⟨_, _, Layer.resolveAs_eq hanswer, hgrows.memory, fun moment hmoment lapsed => ?_, ?_, ?_⟩
  · obtain ⟨inner, habandons, houtermost⟩ := hcut moment hmoment lapsed
    obtain ⟨hruns, hsubsides, hinterrupted⟩ := habandons
    rw [List.append_nil] at hruns
    subst hruns
    refine ⟨hsubsides.lapsed lapsed, hsubsides, hsubsides.filled, fun run hrun => ?_, ?_⟩
    · exact ⟨hinterrupted run hrun, restarts_of_interrupted hvalid hafter.faithful
        (hgrows.held.trans reachable.held) (hinterrupted run hrun)⟩
    · intro outermost h
      obtain rfl := houtermost outermost h
      exact ⟨_, rfl⟩
  · intro lapsed
    obtain ⟨moment, hmoment, hsignals⟩ : ∃ moment ∈ Resolution.moments fuel layer key [] context
        (world.emit (.asked (layer.scope.site key))), moment.world.signals = after.signals :=
      hresolves.exists_moment rfl rfl
    refine ⟨moment, List.mem_append_left _ hmoment, ?_⟩
    rw [hsignals]
    cases answer with
    | error error => exact lapsed
    | ok value => exact lapsed
  · intro lapsed
    obtain ⟨inner, habandons, -⟩ := hcut _ hentry lapsed
    have hasked : world.Idles (world.emit (.asked (layer.scope.site key))) := .emit _ trivial
    refine ⟨hasked.trans (habandons.idles rfl), ?_⟩
    refine Iff.trans ?_ (hresolves.granted_iff_of_cancelled hosts hbacked lapsed rfl)
    cases answer with
    | error error => simp [Layer.reply]
    | ok value =>
      by_cases typed : value.type = key
      · simp [Layer.reply, typed]
      · simp [Layer.reply, typed]

/-- A generator that cancels the token of whoever waits for it, and one that asks for its value. -/
def hasty : List Registered :=
  [⟨0, "a", "make_a", [], [⟨"A"⟩], fun _ _ => .cancel "t" (.done (.products [⟨⟨"A"⟩, "a"⟩]))⟩,
    ⟨1, "b", "make_b", [.required ⟨"A"⟩], [⟨"B"⟩], fun _ _ => .done (.products [⟨⟨"B"⟩, "b"⟩])⟩]

def hastyLayer : Layer :=
  { scope :=
      { id := 1, label := none, locked := false
        slots := ⟨[(⟨"A"⟩, .generated hasty[0] false false),
          (⟨"B"⟩, .generated hasty[1] false false)]⟩
        bindings := {}, overridable := [], settings := {}, observers := [.recorder "log"] }
    outer := [] }

def hastyWorld : World :=
  (step 3 (step 3 {} (.token "t" none)).2 (.build "app" none (.observe (.recorder "log") ::
    hasty.map fun source => .register (.generator source.generator false)))).2

def hastyContext : Context := { token := some ⟨0, []⟩ }

theorem hastyWorld_built : hastyWorld.built = [hastyLayer] := rfl

theorem hastyLayer_silent : ∀ scope ∈ hastyLayer.ancestry, scope.Silent := by
  intro scope hscope
  obtain rfl := List.mem_singleton.mp hscope
  refine ⟨fun key source eager cyclic slot run arguments => ?_, fun key binding interface => ?_⟩
  · have hmem := Table.mem_entries_of_find? slot
    simp only [hastyLayer, hasty, List.getElem_cons_zero, List.getElem_cons_succ, List.mem_cons,
      List.not_mem_nil, or_false, Prod.mk.injEq, Backing.generated.injEq] at hmem
    rcases hmem with ⟨-, rfl, -⟩ | ⟨-, rfl, -⟩ <;> trivial
  · cases interface

def hastyMoments : List Moment := hastyLayer.moments 3 ⟨"B"⟩ hastyContext hastyWorld

theorem length_hastyMoments : hastyMoments.length = 8 := by decide +kernel

theorem cancelled_work_is_not_kept_two_runs :
    Reachable hastyWorld ∧ (∀ scope ∈ hastyLayer.ancestry, scope.Silent) ∧
    ∃ moment ∈ hastyLayer.moments 3 ⟨"B"⟩ hastyContext hastyWorld,
      hastyContext.isCancelled moment.world.signals = true ∧
      moment.runs.map Invocation.requested = [⟨"A"⟩, ⟨"B"⟩] ∧
      ∃ snapshot after, hastyLayer.resolveAs (resolver 3) ⟨"B"⟩ hastyContext hastyWorld =
          (.ok (.error ⟨.canceled ⟨"B"⟩, snapshot⟩), after) ∧
        moment.world.Subsides moment.runs after ∧
        ∀ run ∈ moment.runs, run.Interrupted after := by
  have reachable : Reachable hastyWorld := (Reachable.initial.step 3 _).step 3 _
  have calm : ∀ message, (hastyLayer.resolveAs (resolver 3) ⟨"B"⟩ hastyContext hastyWorld).1 ≠
      .error (.panic message) := by
    intro message
    have hfailed : (hastyLayer.resolveAs (resolver 3) ⟨"B"⟩ hastyContext hastyWorld).1 =
        .ok (.error ⟨.canceled ⟨"B"⟩, none⟩) := by decide +kernel
    rw [hfailed]
    simp
  obtain ⟨answered, after, hresolve, -, hmoments, -⟩ := cancelled_work_is_not_kept reachable
    (hastyWorld_built ▸ List.mem_singleton_self _) hastyLayer_silent ⟨"B"⟩ hastyContext
    (by decide) calm
  -- The moment right after the token has been cancelled.
  have hmember := List.get_mem hastyMoments ⟨5, length_hastyMoments ▸ by decide⟩
  have hover : hastyContext.isCancelled
      (hastyMoments.get ⟨5, length_hastyMoments ▸ by decide⟩).world.signals = true := by
    decide +kernel
  have hrequested : (hastyMoments.get ⟨5, length_hastyMoments ▸ by decide⟩).runs.map
      Invocation.requested = [⟨"A"⟩, ⟨"B"⟩] := by
    decide +kernel
  obtain ⟨-, hsubsides, -, hruns, houtermost⟩ := hmoments _ hmember hover
  obtain ⟨outermost, hlast, houter⟩ := Option.map_eq_some_iff.mp
    (List.getLast?_map.symm.trans (congrArg List.getLast? hrequested))
  obtain ⟨snapshot, rfl⟩ := houtermost outermost hlast
  rw [houter] at hresolve
  exact ⟨reachable, hastyLayer_silent, _, hmember, hover, hrequested, snapshot, after, hresolve,
    hsubsides, fun run hrun => (hruns run hrun).1⟩

end Session

end LayerGraph
