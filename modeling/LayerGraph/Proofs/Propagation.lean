import LayerGraph.Proofs.Cancelling
import LayerGraph.Proofs.Filling
import LayerGraph.Proofs.Provenance

/-! How an error gets from where it comes up to whoever made the request.

Only an optional parameter whose own type is missing makes do without it. Any other error is the
result of every run in progress, from the innermost to the outermost, and nothing happens on its way
but that each of them is reported as failed. -/

namespace LayerGraph

/-- The runs fail one after the other, each reported with the error. -/
def World.fail (error : ResolutionError) (runs : Invocations) (world : World) : World :=
  runs.foldl (fun world run => world.report run.scope run.requested run.source (.error error)) world

theorem World.fail_append (error : ResolutionError) (runs more : Invocations) (world : World) :
    world.fail error (runs ++ more) = (world.fail error runs).fail error more :=
  List.foldl_append

structure Invocation.Fruitless (run : Invocation) (world : World) : Prop where
  known : ∃ outer, ⟨run.scope, outer⟩ ∈ world.built
  slot : ∃ eager cyclic,
    run.scope.slots.find? run.requested = some (.generated run.source eager cyclic)
  empty : world.memory.filled.find? (run.scope.site run.requested) = none

namespace Invocation.Fruitless

variable {run : Invocation} {world after : World}

theorem of_same (fruitless : run.Fruitless world) (built : after.built = world.built)
    (memory : after.memory = world.memory) : run.Fruitless after where
  known := built ▸ fruitless.known
  slot := fruitless.slot
  empty := memory ▸ fruitless.empty

theorem conclude (fruitless : run.Fruitless world) (layer : Layer) (key : Key)
    (result : Except Stop Answer) : run.Fruitless (world.conclude layer key result) := by
  rcases result with stop | (error | value) <;> exact fruitless.of_same rfl rfl

theorem vacant (fruitless : run.Fruitless world) (valid : world.Valid) (full : world.Full)
    (settled : world.Settled) : world.Vacant run.scope run.source := by
  obtain ⟨outer, known⟩ := fruitless.known
  obtain ⟨eager, cyclic, slot⟩ := fruitless.slot
  exact settled.vacant full ⟨valid, known⟩ slot fruitless.empty

end Invocation.Fruitless

/-- The moments at which an error comes up, or is made do with. -/
def incidents (moments : List Moment) : List Moment :=
  moments.filter fun moment => decide (moment.turn ≠ .passing)

section

variable {moment : Moment} {moments more : List Moment}

@[simp] theorem incidents_append :
    incidents (moments ++ more) = incidents moments ++ incidents more :=
  List.filter_append ..

theorem incidents_cons_of_passing (h : moment.turn = .passing) :
    incidents (moment :: moments) = incidents moments := by
  simp [incidents, h]

theorem incidents_passing (runs : Invocations) (worlds : List World) :
    incidents (worlds.map (⟨runs, ·, .passing⟩)) = [] := by
  simp [incidents]

end

/-- The error comes up further in, the runs down to some run of those in progress fail with it, and
an optional parameter of that run makes do without its type. -/
structure Moment.Spares (missed taken : Moment) (key : Key) : Prop where
  missing : missed.turn = .raised (.notFound key)
  absorbed : taken.turn = .absorbed key
  optional : ∃ run outer, taken.runs = run :: outer ∧
    .optional key ∈ run.source.generator.parameters.map Parameter.supply
  failed : ∃ inner, missed.runs = inner ++ taken.runs ∧
    taken.world = { missed.world.fail (.notFound key) inner with held := taken.world.held }

/-- Each error is made do with by an optional parameter before another one comes up. -/
inductive Absorbed : List Moment → Prop
  | nil : Absorbed []
  | pair {missed taken key further} (spares : Moment.Spares missed taken key)
      (rest : Absorbed further) : Absorbed (missed :: taken :: further)

theorem Absorbed.append {moments more : List Moment} (hfirst : Absorbed moments)
    (hsecond : Absorbed more) : Absorbed (moments ++ more) := by
  induction hfirst with
  | nil => exact hsecond
  | pair spares rest ih => exact .pair spares ih

/-- The error comes up, and the runs in progress fail with it down to those that are in progress
anyway. -/
structure Moment.Fells (moment : Moment) (runs : Invocations) (error : ResolutionError)
    (after : World) : Prop where
  raised : moment.turn = .raised error
  failed : ∃ inner, moment.runs = inner ++ runs ∧
    after = { moment.world.fail error inner with held := after.held } ∧
    ∀ run ∈ inner, run.Fruitless after

namespace Moment.Fells

variable {moment : Moment} {runs : Invocations} {error : ResolutionError} {between after : World}

theorem here (raised : moment.turn = .raised error) (hruns : moment.runs = runs)
    (world : moment.world = after) : moment.Fells runs error after where
  raised := raised
  failed := ⟨[], hruns, by rw [world]; rfl, by simp⟩

theorem hold (fells : moment.Fells runs error after) (held : List Site) :
    moment.Fells runs error { after with held } := by
  obtain ⟨inner, hruns, hafter, hfruitless⟩ := fells.failed
  refine ⟨fells.raised, inner, hruns, ?_, fun run hrun => (hfruitless run hrun).of_same rfl rfl⟩
  rw [hafter]

theorem fail {run : Invocation} (fells : moment.Fells (run :: runs) error between)
    (after_eq : after = between.report run.scope run.requested run.source (.error error))
    (fruitless : run.Fruitless after) : moment.Fells runs error after := by
  obtain ⟨inner, hruns, hbetween, hfruitless⟩ := fells.failed
  have hmemory : after.memory = between.memory := by rw [after_eq, Resolution.report_memory]
  have hbuilt : after.built = between.built := by rw [after_eq]; rfl
  refine ⟨fells.raised, inner ++ [run], ?_, ?_, fun other hother => ?_⟩
  · rw [hruns, List.append_assoc, List.singleton_append]
  · rw [World.fail_append, after_eq, hbetween]
    rfl
  · rcases List.mem_append.mp hother with h | h
    · exact (hfruitless other h).of_same hbuilt hmemory
    · obtain rfl := List.mem_singleton.mp h
      exact fruitless

end Moment.Fells

/-- What the incidents of a computation say about its result: every error has been made do with but
the one, if any, that it fails with. -/
def Accounts {α : Type} (runs : Invocations) (incidents : List Moment) (after : World) :
    Except ResolutionError α → Prop
  | .ok _ => Absorbed incidents
  | .error error => ∃ earlier moment, incidents = earlier ++ [moment] ∧ Absorbed earlier ∧
      moment.Fells runs error after

namespace Accounts

variable {α β : Type} {runs : Invocations} {earlier incidents : List Moment} {between after : World}
  {result : Except ResolutionError α}

theorem map (accounts : Accounts runs incidents after result) (f : α → β) :
    Accounts runs incidents after (result.map f) := by
  cases result with
  | error error => exact accounts
  | ok value => exact accounts

theorem hold (accounts : Accounts runs incidents after result) (held : List Site) :
    Accounts runs incidents { after with held } result := by
  cases result with
  | error error =>
    obtain ⟨earlier, moment, hincidents, hearlier, hfells⟩ := accounts
    exact ⟨earlier, moment, hincidents, hearlier, hfells.hold held⟩
  | ok value => exact accounts

theorem prepend (absorbed : Absorbed earlier) (accounts : Accounts runs incidents after result) :
    Accounts runs (earlier ++ incidents) after result := by
  cases result with
  | error error =>
    obtain ⟨before, moment, rfl, hbefore, hfells⟩ := accounts
    exact ⟨earlier ++ before, moment, (List.append_assoc ..).symm, absorbed.append hbefore, hfells⟩
  | ok value => exact absorbed.append accounts

theorem error {error : ResolutionError}
    (accounts : Accounts runs incidents after (.error error : Except ResolutionError α)) :
    Accounts runs incidents after (.error error : Except ResolutionError β) :=
  accounts

theorem of_raised {moment : Moment} {error : ResolutionError} (raised : moment.turn = .raised error)
    (hruns : moment.runs = runs) (world : moment.world = after) :
    Accounts runs [moment] after (.error error : Except ResolutionError α) :=
  ⟨[], moment, rfl, .nil, .here raised hruns world⟩

end Accounts

namespace Resolution

variable {fuel : Nat} {layer : Layer} {scope : Scope} {key : Key} {source : Registered}
  {runs : Invocations} {context : Context} {world between after : World}

theorem outcome_fruitless {result : Except ResolutionError Yield} {error : ResolutionError}
    (h : (outcome layer key source context result world).1 = .error error)
    (empty : world.memory.filled.find? (layer.scope.site key) = none) :
    (outcome layer key source context result world).2.memory.filled.find? (layer.scope.site key) =
      none := by
  have rule := outcome_rule layer key source context result world
  generalize outcome layer key source context result world = ended at rule h ⊢
  cases rule with
  | canceled | refused | failed | nil => exact empty
  | found => cases h
  | unfilled _ _ unfilled => exact unfilled

/-- What comes up while a run looks for its arguments. -/
theorem Gathers.accounts {run : Invocation} {supplies : List Supply} {inquiries : List Inquiry}
    {gathered : Except Stop (Except ResolutionError (List Argument))}
    {collected : Except ResolutionError (List Argument)}
    (gathers : Gathers layer context supplies inquiries world gathered after)
    (answers : ∀ inquiry ∈ inquiries,
      Resolves fuel layer inquiry.key (Invocations.chain (run :: runs)) context inquiry.before
        inquiry.result inquiry.after)
    (supplied : supplies ⊆ run.source.generator.parameters.map Parameter.supply)
    (h : ∀ inquiry ∈ inquiries, ∀ answer, inquiry.result = .ok answer →
      context.isCancelled inquiry.after.signals = false →
        Accounts (run :: runs)
          (incidents (moments fuel layer inquiry.key (run :: runs) context inquiry.before))
          inquiry.after answer)
    (live : context.isCancelled after.signals = false) (hgathered : gathered = .ok collected) :
    Accounts (run :: runs)
      (incidents (fetchMoments (Session.resolver fuel) (moments fuel) layer (run :: runs) context
        supplies world)) after collected := by
  induction gathers generalizing collected with
  | done =>
    cases hgathered
    exact .nil
  | @given supply rest inquiries world gathered after unasked willing further ih =>
    rw [fetchMoments_of_given unasked willing]
    rcases gathered with stop | found
    · cases hgathered
    · cases hgathered
      exact (ih answers (fun _ hmem => supplied (List.mem_cons_of_mem _ hmem)) h live rfl).map _
  | declined unasked refusal =>
    cases hgathered
    rw [fetchMoments_of_declined unasked refusal]
    exact .of_raised rfl rfl rfl
  | stopped => cases hgathered
  | @refused supply rest key before answer after error asked unacceptable =>
    cases hgathered
    have hfirst := h _ List.mem_cons_self _ rfl live
    rw [fetchMoments_of_answer asked (answers _ List.mem_cons_self).eq_resolver, unacceptable]
    rcases accept_error unacceptable with rfl | ⟨rfl, value, rfl⟩
    · have hpassed : incidents (verdict (run :: runs) after supply key (.error error)) = [] := by
        simp [verdict, unacceptable, incidents]
      simpa only [incidents_append, hpassed, List.append_nil] using hfirst.error
    · have hraised : incidents (verdict (run :: runs) after supply key (.ok value)) =
          [⟨run :: runs, after, .raised (.mismatch key)⟩] := by
        simp [verdict, unacceptable, incidents]
      simp only [List.append_nil, incidents_append, hraised]
      exact .prepend hfirst (.of_raised rfl rfl rfl)
  | @found supply rest inquiries key before answer between argument gathered after asked acceptable
      further ih =>
    have hrest (inquiry : Inquiry) (hinquiry : inquiry ∈ inquiries) :=
      answers inquiry (List.mem_cons_of_mem _ hinquiry)
    have hadvances : between.Advances after := further.chain .refl .trans
      fun inquiry hinquiry => (hrest inquiry hinquiry).grows.toAdvances
    have hfirst := h _ List.mem_cons_self _ rfl (hadvances.live live)
    rcases gathered with stop | found
    · cases hgathered
    cases hgathered
    have hfurther := ih hrest (fun _ hmem => supplied (List.mem_cons_of_mem _ hmem))
      (fun inquiry hinquiry => h inquiry (List.mem_cons_of_mem _ hinquiry)) live rfl
    rw [fetchMoments_of_answer asked (answers _ List.mem_cons_self).eq_resolver, acceptable]
    simp only [incidents_append, ← List.append_assoc]
    refine .prepend ?_ (hfurther.map _)
    rcases accept_ok acceptable with ⟨value, rfl, -, rfl⟩ | ⟨rfl, hoptional, rfl⟩
    · have hgranted : incidents (verdict (run :: runs) between supply key (.ok value)) = [] := by
        simp [verdict, acceptable, incidents]
      rw [hgranted, List.append_nil]
      exact hfirst
    · -- The error of the answer is that the type is missing, and the parameter is optional.
      obtain ⟨earlier, missed, hmissed, hearlier, hfells⟩ := hfirst
      have habsorbed : incidents (verdict (run :: runs) between supply key
          (.error (.notFound key))) = [⟨run :: runs, between, .absorbed key⟩] := by
        simp [verdict, acceptable, incidents]
      obtain rfl : supply = .optional key := by
        cases supply with
        | optional other => rw [Option.some.inj asked]
        | context | required | nothing | refusing => cases hoptional
      obtain ⟨inner, hruns, hbetween, -⟩ := hfells.failed
      rw [hmissed, habsorbed, List.append_assoc]
      refine hearlier.append (.pair ⟨hfells.raised, rfl, ?_, inner, hruns, hbetween⟩ .nil)
      exact ⟨run, runs, rfl, supplied List.mem_cons_self⟩

theorem finish_fruitless {result : Except ResolutionError Yield} {error : ResolutionError}
    (h : (finish layer key source context result world).1 = .error error)
    (empty : world.memory.filled.find? (layer.scope.site key) = none) :
    (finish layer key source context result world).2.memory.filled.find? (layer.scope.site key) =
      none := by
  unfold finish at h ⊢
  rw [report_memory]
  exact outcome_fruitless h empty

/-- A run that comes to no value leaves the slot that was asked for as empty as it was, since it
holds its lock. -/
theorem Ends.fruitless {gathered : Except Stop (Except ResolutionError (List Argument))}
    {result : Except Stop Answer} (ends : Ends (Session.handler fuel) layer key source context world
      gathered result after) (lost : ∀ value, result ≠ .ok (.ok value))
    (locked : layer.scope.site key ∈ world.held)
    (empty : world.memory.filled.find? (layer.scope.site key) = none) :
    after.memory.filled.find? (layer.scope.site key) = none := by
  have hfinish (invocation : Except ResolutionError Yield) (between : World)
      (lost : ∀ value, Except.ok (finish layer key source context invocation between).1 ≠
        (.ok (.ok value) : Except Stop Answer))
      (empty : between.memory.filled.find? (layer.scope.site key) = none) :
      (finish layer key source context invocation between).2.memory.filled.find?
        (layer.scope.site key) = none := by
    cases hanswer : (finish layer key source context invocation between).1 with
    | ok value => exact absurd (congrArg _ hanswer) (lost value)
    | error error => exact finish_fruitless hanswer empty
  have hbody (arguments : List Argument) : (Engine.run (Session.handler fuel)
      (source.generator.body (world.nextRun layer.scope source) arguments)
      (world.enterBody layer.scope source arguments)).2.memory.filled.find?
        (layer.scope.site key) = none := by
    have hgrows := run_grows (Session.handler_grows fuel)
      (source.generator.body (world.nextRun layer.scope source) arguments)
      (world.enterBody layer.scope source arguments)
    exact (hgrows.locked _ locked).trans empty
  cases ends with
  | unsupplied => exact empty
  | refused => exact hfinish _ _ lost empty
  | @broken arguments stop last body =>
    have hlast := hbody arguments
    rwa [body] at hlast
  | @returned arguments yield last body =>
    refine hfinish _ _ lost ?_
    have hlast := hbody arguments
    rwa [body] at hlast

theorem Starts.pending {chain : Chain} {inquiries : List Inquiry}
    {gathered : Except Stop (Except ResolutionError (List Argument))}
    (starts : Starts layer key chain context world source inquiries gathered between)
    (answers : ∀ inquiry ∈ inquiries,
      Resolves fuel layer inquiry.key (layer.scope.frame key source :: chain) context
        inquiry.before inquiry.result inquiry.after) (hosts : world.Hosts layer) :
    layer.scope.site key ∈ between.held ∧
      between.memory.filled.find? (layer.scope.site key) = none := by
  obtain ⟨eager, cyclic, slot, -⟩ := starts.slot
  have hgrows : (world.start layer.scope key source chain).Grows between :=
    starts.gathers.chain .refl .trans fun inquiry hinquiry => (answers inquiry hinquiry).grows
  have hown : layer.scope.site key ∈ layer.scope.locks source :=
    Scope.mem_locks.mpr ⟨key, (hosts.1.sound layer hosts.2).mem_fedBy_of_slot slot, rfl⟩
  have hlocked : layer.scope.site key ∈ (world.start layer.scope key source chain).held :=
    List.mem_append_left _ hown
  exact ⟨hgrows.held ▸ hlocked, (hgrows.locked _ hlocked).trans starts.empty⟩

/-- A run that comes to no value leaves the slot empty that it was made for: its lock keeps out
everything that happens meanwhile. -/
theorem Starts.fruitless {chain : Chain} {inquiries : List Inquiry}
    {gathered : Except Stop (Except ResolutionError (List Argument))} {result : Except Stop Answer}
    (starts : Starts layer key chain context world source inquiries gathered between)
    (answers : ∀ inquiry ∈ inquiries,
      Resolves fuel layer inquiry.key (layer.scope.frame key source :: chain) context
        inquiry.before inquiry.result inquiry.after)
    (ends : Ends (Session.handler (fuel + 1)) layer key source context between gathered
      result after) (lost : ∀ value, result ≠ .ok (.ok value)) (hosts : world.Hosts layer) :
    after.memory.filled.find? (layer.scope.site key) = none := by
  obtain ⟨hlocked, hempty⟩ := starts.pending answers hosts
  exact ends.fruitless lost hlocked hempty

/-- A request that comes to no value leaves the slot empty that it is for. -/
theorem Resolves.fruitless {chain : Chain} {result : Except Stop Answer} {eager cyclic : Bool}
    (resolves : Resolves fuel layer key chain context world result after)
    (hosts : world.Hosts layer)
    (slot : layer.scope.slots.find? key = some (.generated source eager cyclic))
    (lost : ∀ value, result ≠ .ok (.ok value)) :
    after.memory.filled.find? (layer.scope.site key) = none := by
  cases resolves with
  | stored => exact absurd rfl (lost _)
  | exhausted slot' empty => exact empty
  | obstructed slot' empty => exact empty
  | blocked slot' empty => exact empty
  | run starts answers ends =>
    have hempty := starts.fruitless answers ends lost hosts
    exact hempty
  | bound noSlot => cases noSlot.symm.trans slot
  | unbacked noSlot => cases noSlot.symm.trans slot
  | unsourced noSlot => cases noSlot.symm.trans slot
  | cast noSlot => cases noSlot.symm.trans slot
  | imported unowned => cases (Scope.owns_eq_false_iff.mp unowned).1.symm.trans slot
  | missing unowned => cases (Scope.owns_eq_false_iff.mp unowned).1.symm.trans slot
  | unavailable unowned => cases (Scope.owns_eq_false_iff.mp unowned).1.symm.trans slot
  | delegated unowned => cases (Scope.owns_eq_false_iff.mp unowned).1.symm.trans slot

theorem outcome_of_live {error : ResolutionError}
    (live : context.isCancelled world.signals = false) :
    outcome layer key source context (.error error) world = (.error error, world) := by
  unfold outcome
  rw [live, if_neg Bool.false_ne_true]

theorem incidents_endMoment (run : Invocation) {result : Except ResolutionError Yield}
    (live : context.isCancelled world.signals = false) :
    incidents [endMoment run layer runs context result world] =
      match result, (outcome layer run.requested run.source context result world).1 with
      | .ok _, .error error =>
        [⟨run :: runs, (outcome layer run.requested run.source context result world).2,
          .raised error⟩]
      | _, _ => [] := by
  rw [endMoment, live]
  rcases outcome layer run.requested run.source context result world with ⟨answer, after⟩
  rcases result with error | yield
  · rfl
  · cases answer <;> rfl

/-- What comes up in a run once its arguments have come to something. -/
theorem Ends.accounts {perform : Command → Engine Reply} (run : Invocation)
    {collected : Except ResolutionError (List Argument)} {earlier : List Moment} {answer : Answer}
    (ends : Ends perform layer run.requested run.source context world (.ok collected) (.ok answer)
      after)
    (scope : run.scope = layer.scope) (gathered : Accounts (run :: runs) earlier world collected)
    (fruitless : ∀ error, answer = .error error → run.Fruitless after)
    (live : context.isCancelled after.signals = false) :
    Accounts runs (earlier ++ incidents (closingMoments perform layer run runs context
      (.ok collected) world)) after answer := by
  generalize hanswer : Except.ok answer = result at ends
  generalize hcollected : Except.ok collected = found at ends
  cases ends with
  | unsupplied => cases hanswer
  | @refused error =>
    cases hcollected
    rw [finish_signals] at live
    have hfinish : finish layer run.requested run.source context (.error error) world =
        (.error error, world.report layer.scope run.requested run.source (.error error)) := by
      rw [finish, outcome_of_live live]
    rw [hfinish] at hanswer fruitless
    cases hanswer
    obtain ⟨before, moment, rfl, hbefore, hfells⟩ := gathered
    rw [closingMoments, incidents_endMoment run live, List.append_nil, hfinish]
    exact ⟨before, moment, rfl, hbefore, hfells.fail (by rw [scope]) (fruitless _ rfl)⟩
  | broken => cases hanswer
  | @returned arguments yield last body =>
    cases hcollected
    rw [finish_signals] at live
    refine .prepend gathered ?_
    rw [closingMoments, body, incidents_append, incidents_passing, List.nil_append,
      incidents_endMoment run live]
    unfold finish at hanswer fruitless ⊢
    generalize outcome layer run.requested run.source context (.ok yield) (last.emit (.returned
      layer.scope.id run.source.place (world.nextRun layer.scope run.source) yield)) = ended
      at hanswer fruitless ⊢
    obtain ⟨answered, ending⟩ := ended
    cases hanswer
    cases answered with
    | ok value => exact .nil
    | error error =>
      have hfells : Moment.Fells ⟨run :: runs, ending, .raised error⟩ (run :: runs) error ending :=
        .here rfl rfl rfl
      exact ⟨[], _, rfl, .nil, hfells.fail (by rw [scope]) (fruitless _ rfl)⟩

/-- What comes up in a run. -/
theorem Starts.accounts {inquiries : List Inquiry}
    {gathered : Except Stop (Except ResolutionError (List Argument))} {answer : Answer}
    (starts : Starts layer key runs.chain context world source inquiries gathered between)
    (answers : ∀ inquiry ∈ inquiries,
      Resolves fuel layer inquiry.key (layer.scope.frame key source :: runs.chain) context
        inquiry.before inquiry.result inquiry.after)
    (ends : Ends (Session.handler (fuel + 1)) layer key source context between gathered
      (.ok answer) after) (hosts : world.Hosts layer)
    (h : ∀ inquiry ∈ inquiries, inquiry.before.Hosts layer → ∀ answer, inquiry.result = .ok answer →
      context.isCancelled inquiry.after.signals = false →
        Accounts (runAt layer key source runs world :: runs)
          (incidents (moments fuel layer inquiry.key (runAt layer key source runs world :: runs)
            context inquiry.before)) inquiry.after answer)
    (live : context.isCancelled after.signals = false) :
    Accounts runs (incidents (moments (fuel + 1) layer key runs context world))
      { after with held := world.held } answer := by
  let run := runAt layer key source runs world
  have hhosted := starts.hosted (fun _ => True) answers (fun _ _ _ _ => trivial) hosts trivial
  have hadvances : between.Advances after := (ends.grows (Session.handler_grows _)).1
  have hmoments := moments_of_run starts answers
  obtain ⟨collected, rfl⟩ := ends.supplied
  have hfruitless (error : ResolutionError) (herror : answer = .error error) :
      run.Fruitless after := by
    subst herror
    obtain ⟨eager, cyclic, slot, -⟩ := starts.slot
    exact ⟨⟨layer.outer, hadvances.built.mem hhosted.2.1.2⟩, ⟨eager, cyclic, slot⟩,
      starts.fruitless answers ends (fun value h => nomatch h) hosts⟩
  have hgathered := starts.gathers.accounts answers (List.Subset.refl _)
    (fun inquiry hinquiry => h inquiry hinquiry (hhosted.1 inquiry hinquiry).1)
    (hadvances.live live) rfl
  rw [hmoments, incidents_cons_of_passing rfl, incidents_cons_of_passing rfl, incidents_append]
  exact (ends.accounts run rfl hgathered hfruitless live).hold world.held

theorem castMoments_of_error {perform : Command → Engine Reply} {binding : Binding}
    {error : ResolutionError} :
    castMoments perform scope key binding runs world (.ok (.error error)) = [] :=
  rfl

theorem Binds.accounts {perform : Command → Engine Reply} {binding : Binding} {value : Value}
    {answer : Answer} (binds : Binds perform scope key binding value world (.ok answer) after) :
    Accounts runs
      (incidents (castMoments perform scope key binding runs world (.ok (.ok value)))) after
      answer := by
  rw [castMoments]
  generalize hresult : Except.ok answer = result at binds
  cases binds with
  | mistyped other =>
    cases hresult
    rw [if_neg other]
    exact .of_raised rfl rfl rfl
  | broken => cases hresult
  | bound typed cast =>
    cases hresult
    rw [if_pos typed, incidents_passing]
    exact .nil

/-- Every error that comes up while a request is answered under a live context is made do with but
the one that the request fails with, if it does. -/
theorem Resolves.accounts {chain : Chain} {result : Except Stop Answer} {answer : Answer}
    (resolves : Resolves fuel layer key chain context world result after)
    (hosts : world.Hosts layer) (hchain : chain = runs.chain) (hanswer : result = .ok answer)
    (live : context.isCancelled after.signals = false) :
    Accounts runs (incidents (moments fuel layer key runs context world)) after answer := by
  induction resolves generalizing runs answer with
  | stored slot present =>
    cases hanswer
    rw [moments_of_stored slot present]
    exact .nil
  | exhausted => cases hanswer
  | obstructed slot empty obstacle =>
    subst hchain
    cases hanswer
    rw [moments_of_obstacle slot empty obstacle]
    exact .of_raised rfl rfl rfl
  | blocked => cases hanswer
  | run starts answers ends ih =>
    subst hchain hanswer
    exact starts.accounts answers ends hosts (fun inquiry hinquiry hhosts answer hanswer live =>
      ih inquiry hinquiry hhosts rfl hanswer live) live
  | bound noSlot interface present =>
    cases hanswer
    rw [moments_of_bound noSlot interface present]
    exact .nil
  | unbacked noSlot interface unbound noSource =>
    cases hanswer
    rw [moments_of_unbacked noSlot interface unbound noSource]
    exact .of_raised rfl rfl rfl
  | unsourced noSlot interface unbound behind resolved lost ih =>
    subst hchain hanswer
    obtain ⟨error, rfl⟩ : ∃ error, answer = .error error := by
      cases answer with
      | error error => exact ⟨error, rfl⟩
      | ok value => exact absurd rfl (lost value)
    rw [moments_of_unbound noSlot interface unbound behind resolved,
      incidents_cons_of_passing rfl, castMoments_of_error, List.append_nil]
    exact ih hosts rfl rfl live
  | cast noSlot interface unbound behind resolved binds ih =>
    subst hchain hanswer
    rw [moments_of_unbound noSlot interface unbound behind resolved,
      incidents_cons_of_passing rfl, incidents_append]
    have hadvances := (binds.grows (Session.handler_grows _)).toAdvances
    have hsource := ih hosts rfl rfl (hadvances.live live)
    exact .prepend hsource binds.accounts
  | imported unowned present =>
    cases hanswer
    rw [moments_of_unowned unowned, present]
    exact .nil
  | missing unowned unknown =>
    cases hanswer
    rw [moments_of_unowned unowned, unknown]
    exact .of_raised rfl rfl rfl
  | unavailable unowned unknown resolved lost ih =>
    rw [moments_of_unowned unowned, unknown, incidents_cons_of_passing rfl]
    exact ih (hosts.delegate _ _ _).parent hchain hanswer live
  | @delegated fuel scope parent further key chain context world value between unowned unknown
      resolved ih =>
    cases hanswer
    rw [moments_of_unowned unowned, unknown, incidents_cons_of_passing rfl]
    have hadvances := (World.Grows.hoist between scope key value).toAdvances
    exact ih (hosts.delegate _ _ _).parent hchain rfl (hadvances.live live)

end Resolution

namespace Session

open Resolution

theorem resolveAs_whole {world after : World} (reachable : Reachable world) {layer : Layer}
    (known : layer ∈ world.built) {key : Key} {context : Context} {fuel : Nat}
    {result : Except Stop Answered}
    (h : layer.resolveAs (resolver fuel) key context world = (result, after)) :
    after.Valid ∧ after.Whole := by
  have invariant := World.Whole.invariant
  have hrequest : (layer.request (resolver fuel) key context world).2.Valid ∧
      (layer.request (resolver fuel) key context world).2.Whole :=
    invariant.request (fun less _ => invariant.handler less) key context known
      ⟨reachable.valid, reachable.settled⟩
  rw [Layer.request_world] at hrequest
  rw [Layer.resolveAs_eq rfl] at h
  obtain rfl := (Prod.mk.inj h).2
  exact hrequest

/-- Errors propagate unchanged. A request of silent code that does not panic is answered. Whatever
outside code does, the following holds of every request that is answered with its context alive.
Every error that comes up, but the one that it fails with, is that an optional parameter's own type
is missing, and that parameter makes do without it before another error comes up. If the request
fails, one more error comes up, and it is the one that is returned. All runs in progress at that
moment fail with it, from the innermost to the outermost, each reported once, and until the failure
of the request itself is reported, nothing else happens: no generator starts, no body runs, and no
slot is filled. The slots that were asked of these runs are empty in the end, and so are all their
slots, provided that bodies hand over a product for each of their outputs. -/
theorem errors_propagate {world : World} (reachable : Reachable world) {layer : Layer}
    (known : layer ∈ world.built) (key : Key) (context : Context) (fuel : Nat) :
    ((∀ scope ∈ layer.ancestry, scope.Silent) → layer.generatorCount < fuel →
      (∀ message, (layer.resolveAs (resolver fuel) key context world).1 ≠ .error (.panic message)) →
        ∃ answered after, layer.resolveAs (resolver fuel) key context world =
          (.ok answered, after)) ∧
    ∀ answered after, layer.resolveAs (resolver fuel) key context world = (.ok answered, after) →
      context.isCancelled after.signals = false →
        (∀ value, answered = .ok value →
          Absorbed (incidents (layer.moments fuel key context world))) ∧
        ∀ failure, answered = .error failure →
          ∃ earlier moment, incidents (layer.moments fuel key context world) = earlier ++ [moment] ∧
            Absorbed earlier ∧ moment.turn = .raised failure.error ∧
            (after = World.conclude
                { moment.world.fail failure.error moment.runs with held := world.held } layer key
                (.ok (.error failure.error)) ∨
              moment.runs = [] ∧ failure.error = .mismatch key ∧ after = moment.world) ∧
            ∀ run ∈ moment.runs,
              run.Fruitless after ∧ (after.Full → after.Vacant run.scope run.source) := by
  have hosts : (world.emit (.asked (layer.scope.site key))).Hosts layer :=
    ⟨reachable.valid.emit _, known⟩
  have hresolves := resolver_resolves fuel layer key [] context
    (world.emit (.asked (layer.scope.site key)))
  refine ⟨fun silent nesting calm => ?_, fun answered after hanswered live => ?_⟩
  · obtain ⟨answer, after, hanswer⟩ :=
      resolver_answers reachable known silent key context nesting calm
    exact ⟨_, _, Layer.resolveAs_eq hanswer⟩
  have hkept : after.Valid ∧ after.Whole := resolveAs_whole reachable known hanswered
  rcases hresult : resolver fuel layer key [] context
    (world.emit (.asked (layer.scope.site key))) with ⟨stop | answer, between⟩
  · rw [Layer.resolveAs_eq hresult] at hanswered
    cases (Prod.mk.inj hanswered).1
  rw [hresult] at hresolves
  rw [Layer.resolveAs_eq hresult] at hanswered
  obtain ⟨hreply, hafter⟩ := Prod.mk.inj hanswered
  obtain rfl := Except.ok.inj hreply
  subst hafter
  have hheld : between.held = world.held := hresolves.grows.held
  have hadvances := (World.Grows.conclude between layer key (.ok answer)).toAdvances
  have haccounts : Accounts [] _ between answer :=
    hresolves.accounts hosts rfl rfl (hadvances.live live)
  rw [Layer.moments, hresult]
  cases answer with
  | error error =>
    refine ⟨fun value h => (by cases h), fun failure h => ?_⟩
    obtain rfl := Except.error.inj h
    obtain ⟨earlier, moment, hincidents, hearlier, hfells⟩ := haccounts
    obtain ⟨inner, hruns, hbetween, hfruitless⟩ := hfells.failed
    rw [List.append_nil] at hruns
    subst hruns
    refine ⟨earlier, moment, ?_, hearlier, hfells.raised, .inl ?_, fun run hrun => ?_⟩
    · dsimp only
      rw [List.append_nil]
      exact hincidents
    · rw [Layer.failure_error, hbetween, hheld]
    · have hrun := (hfruitless run hrun).conclude layer key (.ok (.error error))
      exact ⟨hrun, fun full => hrun.vacant hkept.1 full (hkept.2 full)⟩
  | ok value =>
    by_cases typed : value.type = key
    · simp only [Layer.reply, if_pos typed, List.append_nil]
      exact ⟨fun _ _ => haccounts, fun failure h => by cases h⟩
    · simp only [Layer.reply, if_neg typed, incidents_append]
      refine ⟨fun other h => (by cases h), fun failure h => ?_⟩
      obtain rfl := Except.error.inj h
      exact ⟨_, _, rfl, haccounts, rfl, .inr ⟨rfl, rfl, rfl⟩, by simp⟩

def frailBase : Registered :=
  ⟨0, "a", "make_a", [], [⟨"A"⟩], fun _ _ => .done (.failed "boom")⟩

/-- A generator that depends on it, and one that asks for what nobody makes before it asks for an
interface of the former. -/
def frail : List Registered :=
  [⟨0, "b", "make_b", [.required ⟨"A"⟩], [⟨"B"⟩], fun _ _ => .done (.products [⟨⟨"B"⟩, "b"⟩])⟩,
    ⟨1, "c", "make_c", [.optional ⟨"M"⟩, .required ⟨"I"⟩], [⟨"C"⟩],
      fun _ _ => .done (.products [⟨⟨"C"⟩, "c"⟩])⟩]

def frailCast : Cast Command := ⟨"i", fun _ payload => .done payload⟩

def frailLayer : Layer :=
  { scope :=
      { id := 2, label := none, locked := false
        slots := ⟨[(⟨"B"⟩, .generated frail[0] false false),
          (⟨"C"⟩, .generated frail[1] false false)]⟩
        bindings := ⟨[(⟨"I"⟩, ⟨⟨"B"⟩, frailCast⟩)]⟩
        overridable := [], settings := {}, observers := [.recorder "log"] }
    outer := [
      { id := 1, label := none, locked := false
        slots := ⟨[(⟨"A"⟩, .generated frailBase false false)]⟩
        bindings := {}, overridable := [], settings := {}, observers := [.recorder "log"] }] }

def frailWorld : World :=
  (step 4 (step 4 {} (.build "base" none [.observe (.recorder "log"),
      .register (.generator frailBase.generator false)])).2
    (.build "app" none (.parent "base" :: .register (.interface ⟨"I"⟩ ⟨"B"⟩ frailCast) ::
      frail.map fun source => .register (.generator source.generator false)))).2

theorem frailLayer_known : frailLayer ∈ frailWorld.built := .head _

theorem errors_propagate_frail :
    Reachable frailWorld ∧ frailLayer ∈ frailWorld.built ∧
    ∃ failure after earlier moment,
      frailLayer.resolveAs (resolver 4) ⟨"C"⟩ {} frailWorld = (.ok (.error failure), after) ∧
      incidents (frailLayer.moments 4 ⟨"C"⟩ {} frailWorld) = earlier ++ [moment] ∧
      Absorbed earlier ∧
      earlier.map Moment.turn = [.raised (.notFound ⟨"M"⟩), .absorbed ⟨"M"⟩] ∧
      moment.turn = .raised failure.error ∧
      failure.error = .failed ⟨"A"⟩ frailBase.generator.signature "boom" ∧
      moment.runs.map Invocation.requested = [⟨"A"⟩, ⟨"B"⟩, ⟨"C"⟩] ∧
      ∀ run ∈ moment.runs, after.Vacant run.scope run.source := by
  have reachable : Reachable frailWorld := (Reachable.initial.step 4 _).step 4 _
  obtain ⟨after, hafter⟩ : ∃ after,
      after = (frailLayer.resolveAs (resolver 4) ⟨"C"⟩ {} frailWorld).2 := ⟨_, rfl⟩
  have hfailed : (frailLayer.resolveAs (resolver 4) ⟨"C"⟩ {} frailWorld).1 =
      .ok (.error ⟨.failed ⟨"A"⟩ frailBase.generator.signature "boom", none⟩) := by decide +kernel
  have live : Context.isCancelled after.signals {} = false := rfl
  have full : after.Full := by
    have hproducts : (after.trace.all fun
        | .returned _ _ _ (.products _) => false
        | _ => true) = true := by rw [hafter]; decide +kernel
    intro layer _ key source eager cyclic _ run products hreturned
    cases List.all_eq_true.mp hproducts _ hreturned
  obtain ⟨earlier, moment, hincidents, habsorbed, hraised, -, hruns⟩ :=
    ((errors_propagate reachable frailLayer_known ⟨"C"⟩ {} 4).2 _ after
      (Prod.ext hfailed hafter.symm) live).2 _ rfl
  have hsketch : (incidents (frailLayer.moments 4 ⟨"C"⟩ {} frailWorld)).map
      (fun moment => (moment.turn, moment.runs.map Invocation.requested)) =
        [(.raised (.notFound ⟨"M"⟩), [⟨"C"⟩]), (.absorbed ⟨"M"⟩, [⟨"C"⟩])] ++
          [(.raised (.failed ⟨"A"⟩ frailBase.generator.signature "boom"),
            [⟨"A"⟩, ⟨"B"⟩, ⟨"C"⟩])] := by decide +kernel
  rw [hincidents, List.map_append] at hsketch
  obtain ⟨hearlier, hlast⟩ := List.append_inj' hsketch rfl
  have hturns := congrArg (List.map Prod.fst) hearlier
  rw [List.map_map] at hturns
  refine ⟨reachable, frailLayer_known, _, after, earlier, moment, Prod.ext hfailed hafter.symm,
    hincidents, habsorbed, hturns, hraised, rfl, ?_, fun run hrun => (hruns run hrun).2 full⟩
  exact (Prod.mk.inj (List.cons.inj hlast).1).2

end Session

end LayerGraph
