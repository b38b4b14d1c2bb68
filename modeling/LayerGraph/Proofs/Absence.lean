import LayerGraph.Proofs.Provenance

/-! When an optional parameter is left without a value.

A run does without an optional type if the type is reported as missing. Such a report comes from a
layer that does not see the type. That is the layer of the run, unless a generator further out asked
for the type there on the way: without declaring that it requires it, or the layer would not have
been built. Any other failure ends the run before its body. -/

namespace LayerGraph

/-- An argument that is absent is one for an optional type, which nobody owns or to which some
generator is blind. -/
def Layer.Excuses (layer : Layer) (parameter : Parameter) (argument : Argument) : Prop :=
  argument = .absent → ∃ key, parameter.supply = .optional key ∧
    ((∀ scope ∈ layer.ancestry, scope.owns key = false) ∨ layer.Blind key)

def World.Excused (world : World) : Prop :=
  ∀ id place tag run arguments, .ran id place tag run arguments ∈ world.trace →
    ∃ layer ∈ world.built, layer.scope.id = id ∧ ∃ key source eager cyclic,
      layer.scope.slots.find? key = some (.generated source eager cyclic) ∧
      source.place = place ∧ List.Forall₂ layer.Excuses source.generator.parameters arguments

namespace Resolution

variable {layer : Layer} {key : Key} {chain : Chain} {context : Context} {world between : World}

/-- What is found missing that was asked for, nobody owns, or some generator is blind to it. -/
theorem Resolves.missing_excused {fuel : Nat} {result : Except Stop Answer}
    (resolves : Resolves fuel layer key chain context world result between)
    (founded : layer.Founded) (h : result = .ok (.error (.notFound key))) :
    (∀ scope ∈ layer.ancestry, scope.owns key = false) ∨ layer.Blind key := by
  rcases resolves.unowned_or_blind founded h with ⟨-, hunowned⟩ | hblind
  · refine .inl fun scope hscope => ?_
    exact Bool.eq_false_iff.mpr (List.find?_eq_none.mp hunowned scope hscope)
  · exact .inr hblind

theorem Gathers.excuses {supplies : List Supply} {inquiries : List Inquiry}
    {gathered : Except Stop (Except ResolutionError (List Argument))}
    (gathers : Gathers layer context supplies inquiries world gathered between)
    (missing : ∀ inquiry ∈ inquiries, inquiry.result = .ok (.error (.notFound inquiry.key)) →
      (∀ scope ∈ layer.ancestry, scope.owns inquiry.key = false) ∨ layer.Blind inquiry.key)
    {parameters : List Parameter} (hsupplies : parameters.map Parameter.supply = supplies)
    {arguments : List Argument} (h : gathered = .ok (.ok arguments)) :
    List.Forall₂ layer.Excuses parameters arguments := by
  induction gathers generalizing parameters arguments with
  | done =>
    obtain rfl := List.map_eq_nil_iff.mp hsupplies
    obtain rfl := Except.ok.inj (Except.ok.inj h)
    exact .nil
  | given unasked willing further ih =>
    obtain ⟨parameter, others, rfl, rfl, hothers⟩ := List.map_eq_cons_iff.mp hsupplies
    obtain ⟨rest, hrest, rfl⟩ := map_cons_eq_ok h
    refine .cons (fun habsent => ?_) (ih missing hothers hrest)
    cases hsupply : parameter.supply <;> simp [Resolution.given, hsupply] at habsent
  | declined unasked refusal => cases h
  | stopped asked => cases h
  | refused asked unacceptable => cases h
  | found asked acceptable further ih =>
    obtain ⟨parameter, others, rfl, rfl, hothers⟩ := List.map_eq_cons_iff.mp hsupplies
    obtain ⟨rest, hrest, rfl⟩ := map_cons_eq_ok h
    refine .cons (fun habsent => ?_)
      (ih (fun other hother => missing other (List.mem_cons_of_mem _ hother)) hothers hrest)
    rcases accept_ok acceptable with ⟨value, -, -, rfl⟩ | ⟨rfl, hoptional, -⟩
    · cases habsent
    · refine ⟨_, ?_, missing _ List.mem_cons_self rfl⟩
      cases hsupply : parameter.supply with
      | context | nothing | required | refusing => simp [hsupply, Supply.isOptional] at hoptional
      | optional type =>
        rw [hsupply] at asked
        exact congrArg Supply.optional (Option.some.inj asked)

theorem accept_failed {supply : Supply} {error : ResolutionError}
    (present : error ≠ .notFound key) : accept supply key (.error error) = .error error := by
  simp [accept, present]

/-- What fails to be found for a run, and is not reported as missing itself, is what the run fails to
be supplied with. -/
theorem Gathers.refused_of_failed {supplies : List Supply} {inquiries : List Inquiry}
    {gathered : Except Stop (Except ResolutionError (List Argument))}
    (gathers : Gathers layer context supplies inquiries world gathered between)
    {inquiry : Inquiry} (asked : inquiry ∈ inquiries) {error : ResolutionError}
    (failed : inquiry.result = .ok (.error error)) (present : error ≠ .notFound inquiry.key) :
    gathered = .ok (.error error) ∧ between = inquiry.after := by
  induction gathers with
  | done => cases asked
  | given unasked willing further ih =>
    obtain ⟨rfl, rfl⟩ := ih asked
    exact ⟨rfl, rfl⟩
  | declined => cases asked
  | stopped =>
    obtain rfl := List.mem_singleton.mp asked
    cases failed
  | refused _ unacceptable =>
    obtain rfl := List.mem_singleton.mp asked
    obtain rfl := Except.ok.inj failed
    rw [accept_failed present] at unacceptable
    exact ⟨by rw [Except.error.inj unacceptable], rfl⟩
  | found _ acceptable further ih =>
    rcases List.mem_cons.mp asked with rfl | hmem
    · obtain rfl := Except.ok.inj failed
      rw [accept_failed present] at acceptable
      cases acceptable
    · obtain ⟨rfl, rfl⟩ := ih hmem
      exact ⟨rfl, rfl⟩

theorem finish_refused {source : Registered} (error : ResolutionError) (world : World) :
    let reported := if context.isCancelled world.signals then .canceled key else error
    Except.ok (ε := Stop) (finish layer key source context (.error error) world).1 =
        .ok (.error reported) ∧
      (finish layer key source context (.error error) world).2 =
        world.report layer.scope key source (.error reported) := by
  unfold finish outcome
  split <;> exact ⟨rfl, rfl⟩

theorem Starts.excuses {fuel : Nat} {source : Registered} {inquiries : List Inquiry}
    {arguments : List Argument}
    (starts : Starts layer key chain context world source inquiries (.ok (.ok arguments)) between)
    (answers : ∀ inquiry ∈ inquiries,
      Resolves fuel layer inquiry.key (layer.scope.frame key source :: chain) context
        inquiry.before inquiry.result inquiry.after)
    (founded : layer.Founded) :
    List.Forall₂ layer.Excuses source.generator.parameters arguments :=
  starts.gathers.excuses
    (fun inquiry hinquiry h => (answers inquiry hinquiry).missing_excused founded h) rfl rfl

end Resolution

def Event.IsNoEntry : Event → Prop
  | .ran .. => False
  | _ => True

theorem Event.IsIdle.isNoEntry {event : Event} (h : event.IsIdle) : event.IsNoEntry := by
  cases event <;> trivial

namespace World.Excused

open Resolution

variable {world after : World} {layer : Layer} {key : Key} {source : Registered}
  {eager cyclic : Bool}

theorem initial : World.Excused {} := fun _ _ _ _ _ h => by cases h

theorem later (excused : world.Excused) (built : world.built <:+ after.built)
    (events : List Event) (trace : after.trace = events ++ world.trace)
    (plain : ∀ event ∈ events, event.IsNoEntry) : after.Excused := by
  intro id place tag run arguments h
  rw [trace] at h
  have hold := (List.mem_append.mp h).resolve_left fun hnew => plain _ hnew
  obtain ⟨layer, hlayer, hrest⟩ := excused id place tag run arguments hold
  exact ⟨layer, built.mem hlayer, hrest⟩

theorem lasts : World.Lasts Event.IsNoEntry World.Excused where
  logged _ := trivial
  later excused built _ _ _ events trace _ plain :=
    excused.later (built ▸ List.suffix_rfl) events trace plain

theorem enterBody (excused : world.Excused) (known : layer ∈ world.built)
    (slot : layer.scope.slots.find? key = some (.generated source eager cyclic))
    {arguments : List Argument}
    (excuses : List.Forall₂ layer.Excuses source.generator.parameters arguments) :
    (world.enterBody layer.scope source arguments).Excused := by
  intro id place tag run other h
  rcases List.mem_cons.mp h with hnew | hold
  · obtain ⟨rfl, rfl, -, -, rfl⟩ := Event.ran.inj hnew
    exact ⟨layer, known, rfl, key, source, eager, cyclic, slot, rfl, excuses⟩
  · exact excused id place tag run other hold

theorem hoist (excused : world.Excused) (scope : Scope) (key : Key) (value : Value) :
    (world.hoist scope key value).Excused := by
  unfold World.hoist
  split <;> exact excused

end World.Excused

structure World.Sincere (world : World) : Prop where
  accountable : world.Accountable
  excused : world.Excused

theorem World.Sincere.lasts : World.Lasts Event.IsIdle World.Sincere where
  logged _ := trivial
  later sincere built nextLayer memory imported events trace filled idle :=
    ⟨World.Accountable.lasts.later sincere.accountable built nextLayer memory imported events trace
        filled idle,
      sincere.excused.later (built ▸ List.suffix_rfl) events trace
        fun event hevent => (idle event hevent).isNoEntry⟩

namespace Resolution

open Engine (Keeps)

variable {fuel : Nat} {layer : Layer} {key : Key} {source : Registered} {chain : Chain}
  {context : Context} {world between after : World} {result : Except Stop Answer}

theorem Starts.sincere {inquiries : List Inquiry} {arguments : List Argument}
    (starts : Starts layer key chain context world source inquiries (.ok (.ok arguments)) between)
    (answers : ∀ inquiry ∈ inquiries,
      Resolves fuel layer inquiry.key (layer.scope.frame key source :: chain) context
        inquiry.before inquiry.result inquiry.after)
    (hosts : world.Hosts layer) (accountable : world.Accountable) (hhosts : between.Hosts layer)
    (sincere : between.Sincere) : (between.enterBody layer.scope source arguments).Sincere := by
  obtain ⟨eager, cyclic, slot, -⟩ := starts.slot
  exact ⟨sincere.accountable.enterBody hhosts slot fun plain =>
      starts.receives answers hosts accountable.faithful (accountable.closed hosts plain),
    sincere.excused.enterBody hhosts.2 slot (starts.excuses answers (accountable.founded hosts))⟩

theorem Ends.excused {gathered : Except Stop (Except ResolutionError (List Argument))}
    (keeps : ∀ {α : Type} (act : Act Command α),
      Keeps (fun world => world.Valid ∧ world.Sincere) (Engine.run (Session.handler fuel) act))
    (ends : Ends (Session.handler fuel) layer key source context world gathered result after)
    (hosts : world.Hosts layer) (excused : world.Excused)
    (enters : ∀ arguments, gathered = .ok (.ok arguments) →
      (world.enterBody layer.scope source arguments).Sincere) : after.Excused := by
  have lasts := World.Excused.lasts
  have hfinish {result : Except ResolutionError Yield} {between : World} (h : between.Excused) :
      (finish layer key source context result between).2.Excused :=
    lasts.finish h _ _ _ _ _ (fun _ _ => trivial) (fun _ _ => trivial) fun _ _ => trivial
  cases ends with
  | unsupplied => exact excused
  | refused => exact hfinish excused
  | @broken arguments stop _ body =>
    have hbody := keeps (source.generator.body (world.nextRun layer.scope source) arguments) _
      ⟨(hosts.enterBody arguments).1, enters arguments rfl⟩
    rw [body] at hbody
    exact hbody.2.excused
  | @returned arguments yield last body =>
    have hbody := keeps (source.generator.body (world.nextRun layer.scope source) arguments) _
      ⟨(hosts.enterBody arguments).1, enters arguments rfl⟩
    rw [body] at hbody
    exact hfinish (lasts.emit hbody.2.excused trivial)

theorem Resolves.sincere_of_keeps
    (keeps : ∀ less ≤ fuel, ∀ {α : Type} (act : Act Command α),
      Keeps (fun world => world.Valid ∧ world.Sincere) (Engine.run (Session.handler less) act))
    (resolves : Resolves fuel layer key chain context world result after)
    (hosts : world.Hosts layer) (sincere : world.Sincere) : after.Sincere := by
  refine resolves.lasting World.Sincere.lasts (fun _ _ _ => trivial) (fun _ _ => trivial)
    (fun _ _ _ _ => trivial) keeps ?_ ?_ (Nat.le_refl _) hosts sincere
  · intro less layer key chain world source inquiries gathered between result after hless starts
      answers ends hosts sincere hhosts hbetween
    have haccountable := (Resolves.run starts answers ends).accountable hosts sincere.accountable
    refine ⟨World.Accountable.lasts.hold haccountable after.held, ?_⟩
    refine ends.excused (keeps _ hless) hhosts hbetween.excused ?_
    rintro arguments rfl
    exact starts.sincere answers hosts sincere.accountable hhosts hbetween
  · intro less scope parent further key chain world value between unowned answer hosts sincere
      hbetween
    obtain ⟨hhosts, -, hcell⟩ := answer.delegated_cell unowned hosts sincere.accountable.faithful
    exact ⟨hbetween.accountable.hoist hhosts hcell, hbetween.excused.hoist scope key value⟩

end Resolution

theorem World.Sincere.invariant : Session.Invariant fun world => world.Valid ∧ world.Sincere := by
  refine lasts.invariant_of_resolves (fun _ hevent => hevent.isIdle) (fun _ => trivial)
    (fun _ _ => trivial) (fun _ _ => trivial) ?_ ?_
  · intro world layer builder valid sincere parent assembled
    exact ⟨sincere.accountable.enter valid parent assembled,
      sincere.excused.later (List.suffix_cons _ _) [] rfl (by simp)⟩
  · intro fuel keeps layer key context world result after resolves hosts sincere
    exact resolves.sincere_of_keeps keeps hosts sincere

theorem Resolution.Resolves.sincere {fuel : Nat} {layer : Layer} {key : Key} {chain : Chain}
    {context : Context} {world after : World} {result : Except Stop Answer}
    (resolves : Resolves fuel layer key chain context world result after)
    (hosts : world.Hosts layer) (sincere : world.Sincere) : after.Sincere :=
  resolves.sincere_of_keeps
    (fun less _ {_} => World.Sincere.lasts.outside (fun _ hevent => hevent.isIdle)
      (World.Sincere.invariant.handler less)) hosts sincere

namespace Session

open Resolution

theorem Arises.sincere {world : World} (arises : Arises world) : world.Valid ∧ world.Sincere :=
  arises.lasting World.Sincere.lasts ⟨.initial, .initial⟩ World.Sincere.invariant
    (fun resolves hosts sincere => resolves.sincere hosts sincere)
    fun starts answers hosts sincere hhosts hbetween =>
      starts.sincere answers hosts sincere.accountable hhosts hbetween

/-- Absent types are unowned, unless a generator is blind to them. At every moment, whatever
generators ask for and outside code does: if a body was entered without a value for an optional
type, then no layer in or around its own has a slot or an interface for the type, or else a generator
there asks for the type without declaring that it requires it, in a layer that does not see the type.
If there is no such generator, and what was asked for a run has an owner and fails for whatever
reason, then the run fails at once and by the same error, or by its own cancellation if its context is
over by then, and nothing happens but that this is told: the body is not entered. -/
theorem absent_types_are_unowned {world : World} (arises : Arises world) :
    (∀ id place tag run arguments, .ran id place tag run arguments ∈ world.trace →
      ∃ layer ∈ world.built, layer.scope.id = id ∧ ∃ key source eager cyclic,
        layer.scope.slots.find? key = some (.generated source eager cyclic) ∧
        source.place = place ∧ List.Forall₂ layer.Excuses source.generator.parameters arguments) ∧
    ∀ layer ∈ world.built, ∀ fuel key chain context source inquiries gathered between result after,
      Starts layer key chain context world source inquiries gathered between →
      (∀ inquiry ∈ inquiries,
        Resolves fuel layer inquiry.key (layer.scope.frame key source :: chain) context
          inquiry.before inquiry.result inquiry.after) →
      Ends (handler (fuel + 1)) layer key source context between gathered result after →
      ∀ inquiry ∈ inquiries, ∀ error, inquiry.result = .ok (.error error) →
        (∃ scope ∈ layer.ancestry, scope.owns inquiry.key = true) → ¬ layer.Blind inquiry.key →
          let reported :=
            if context.isCancelled inquiry.after.signals then .canceled key else error
          result = .ok (.error reported) ∧
            after = inquiry.after.report layer.scope key source (.error reported) := by
  obtain ⟨valid, sincere⟩ := arises.sincere
  refine ⟨sincere.excused, ?_⟩
  intro layer known fuel key chain context source inquiries gathered between result after starts
    answers ends inquiry hinquiry error hfailed owned sighted
  have founded := sincere.accountable.founded ⟨valid, known⟩
  have present : error ≠ .notFound inquiry.key := by
    rintro rfl
    rcases (answers inquiry hinquiry).missing_excused founded hfailed with hunowned | hblind
    · obtain ⟨scope, hscope, howns⟩ := owned
      rw [hunowned scope hscope] at howns
      cases howns
    · exact sighted hblind
  obtain ⟨rfl, rfl⟩ := starts.gathers.refused_of_failed hinquiry hfailed present
  cases ends with
  | refused => exact finish_refused error inquiry.after

/-- A generator that asks for a type as if it were required, but declares it as optional. -/
def shady : Registered :=
  ⟨0, "shady", "make_b", [.soft ⟨"A"⟩], [⟨"B"⟩], fun _ _ => .done (.products [⟨⟨"B"⟩, "b"⟩])⟩

/-- Further in there is a generator of that type, which needs the former, and one that can do without
the type. -/
def needy : Registered :=
  ⟨0, "needy", "make_a", [.required ⟨"B"⟩], [⟨"A"⟩], fun _ _ => .done (.products [⟨⟨"A"⟩, "a"⟩])⟩

def modest : Registered :=
  ⟨1, "modest", "make_c", [.optional ⟨"A"⟩], [⟨"C"⟩], fun _ _ => .done (.products [⟨⟨"C"⟩, "c"⟩])⟩

def shadyScope : Scope :=
  { id := 1, label := none, locked := false
    slots := ⟨[(⟨"B"⟩, .generated shady false false)]⟩
    bindings := {}, overridable := [], settings := {}, observers := [] }

def modestLayer : Layer :=
  { scope :=
      { id := 2, label := none, locked := false
        slots := ⟨[(⟨"A"⟩, .generated needy false false), (⟨"C"⟩, .generated modest false false)]⟩
        bindings := {}, overridable := [], settings := {}, observers := [] }
    outer := [shadyScope] }

def shadyWorld : World :=
  let base := (step 1 {} (.build "base" none [.register (.generator shady.generator false)])).2
  let app := (step 1 base (.build "app" (some "base") [.register (.generator needy.generator false),
    .register (.generator modest.generator false)])).2
  (step 4 app (.resolve "app" ⟨"C"⟩ {})).2

theorem shadyWorld_built : shadyWorld.built = [modestLayer, ⟨shadyScope, []⟩] :=
  (step_built (by decide +kernel)).trans rfl

theorem absent_types_are_unowned_blind :
    Arises shadyWorld ∧ modestLayer ∈ shadyWorld.built ∧
    .ran 2 1 "modest" 1 [.absent] ∈ shadyWorld.trace ∧ modestLayer.Blind ⟨"A"⟩ := by
  have arises : Arises shadyWorld := Reachable.arises (.step (.step (.step .initial _ _) _ _) _ _)
  have known : modestLayer ∈ shadyWorld.built := shadyWorld_built ▸ List.mem_cons_self
  have ran : .ran 2 1 "modest" 1 [.absent] ∈ shadyWorld.trace := by decide +kernel
  refine ⟨arises, known, ran, ?_⟩
  obtain ⟨layer, hlayer, hid, key, source, eager, cyclic, slot, hplace, hexcuses⟩ :=
    (absent_types_are_unowned arises).1 2 1 "modest" 1 [.absent] ran
  obtain rfl := arises.sincere.1.unique layer hlayer modestLayer known hid
  have hsource : source = modest := by
    have hmem := Table.mem_entries_of_find? slot
    simp only [modestLayer, List.mem_cons, List.not_mem_nil, or_false, Prod.mk.injEq,
      Backing.generated.injEq] at hmem
    rcases hmem with ⟨-, rfl, -⟩ | ⟨-, rfl, -⟩
    · cases hplace
    · rfl
  subst hsource
  obtain ⟨other, hother, hexcuse⟩ := (List.forall₂_cons.mp hexcuses).1 rfl
  obtain rfl := Supply.optional.inj hother
  refine hexcuse.resolve_left fun hunowned => ?_
  have howned := hunowned modestLayer.scope List.mem_cons_self
  cases howned

/-- The run went without its optional type, though its own layer has a slot for the type. -/
theorem owned_type_is_absent :
    modestLayer ∈ shadyWorld.built ∧
    modestLayer.scope.slots.find? ⟨"C"⟩ = some (.generated modest false false) ∧
    modest.generator.parameters = [.optional ⟨"A"⟩] ∧
    modestLayer.scope.owns ⟨"A"⟩ = true ∧
    .ran modestLayer.scope.id modest.place modest.generator.tag 1 [.absent] ∈ shadyWorld.trace := by
  refine ⟨shadyWorld_built ▸ List.mem_cons_self, rfl, rfl, rfl, ?_⟩
  decide +kernel

end Session

end LayerGraph
