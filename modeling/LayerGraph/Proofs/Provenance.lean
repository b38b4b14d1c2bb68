import LayerGraph.Proofs.Delegation

/-! What the values in slots were made from.

Before a body is entered, its arguments have been found: values that are in the cells of their
types, or the absence of types that nobody owns. Cells keep their values and scopes never change, so
later requests come to the same. Whatever a run has left in a slot was made from what every later request
for its parameters is answered with. -/

namespace LayerGraph

/-- Generators ask for what they declare: contexts, and types that are required or optional. -/
def Scope.Plain (scope : Scope) : Prop :=
  ∀ key source eager cyclic, scope.slots.find? key = some (.generated source eager cyclic) →
    ∀ parameter ∈ source.generator.parameters, parameter = .context ∨
      ∃ dependency, parameter = .required dependency ∨ parameter = .optional dependency

namespace Layer

def Plain (layer : Layer) : Prop := ∀ scope ∈ layer.ancestry, scope.Plain

def Provides (layer : Layer) : Prop :=
  ∀ key source eager cyclic, layer.scope.slots.find? key = some (.generated source eager cyclic) →
    ∀ required ∈ source.generator.declarations.filterMap Declaration.requiredKey?,
      (layer.owner? required).isSome

/-- In a layer and around it, slots and interfaces are sound, generators ask for what they declare,
and what they require has an owner. -/
structure Closed (layer : Layer) : Prop where
  sound : ∀ scope ∈ layer.ancestry, scope.Sound
  plain : layer.Plain
  provides : ∀ below scope outer, layer.ancestry = below ++ scope :: outer →
    Provides ⟨scope, outer⟩

/-- In a layer and around it, slots and interfaces are sound, and what generators declare as required
has an owner. -/
structure Founded (layer : Layer) : Prop where
  sound : ∀ scope ∈ layer.ancestry, scope.Sound
  provides : ∀ below scope outer, layer.ancestry = below ++ scope :: outer →
    Provides ⟨scope, outer⟩

theorem Closed.founded {layer : Layer} (closed : layer.Closed) : layer.Founded :=
  ⟨closed.sound, closed.provides⟩

theorem Founded.parent {scope parent : Scope} {further : List Scope}
    (founded : Founded ⟨scope, parent :: further⟩) : Founded ⟨parent, further⟩ where
  sound inner h := founded.sound inner (List.mem_cons_of_mem _ h)
  provides below inner outer h := founded.provides (scope :: below) inner outer (by
    rw [List.cons_append, ← h]
    rfl)

/-- A generator of this layer or of one around it asks for a type as for one that is required, though
it does not declare that and its own layer does not see the type. -/
def Blind (layer : Layer) (key : Key) : Prop :=
  ∃ below scope outer, layer.ancestry = below ++ scope :: outer ∧
    owner? ⟨scope, outer⟩ key = none ∧
    ∃ output source eager cyclic, scope.slots.find? output = some (.generated source eager cyclic) ∧
      .dependency key true ∉ source.generator.declarations ∧
      ∃ parameter ∈ source.generator.parameters, parameter.supply = .required key

theorem Blind.of_parent {scope parent : Scope} {further : List Scope} {key : Key}
    (blind : Blind ⟨parent, further⟩ key) : Blind ⟨scope, parent :: further⟩ key := by
  obtain ⟨below, inner, outer, hancestry, hrest⟩ := blind
  refine ⟨scope :: below, inner, outer, ?_, hrest⟩
  rw [List.cons_append, ← hancestry]
  rfl

theorem Plain.not_blind {layer : Layer} (plain : layer.Plain) (key : Key) : ¬ layer.Blind key := by
  rintro ⟨below, scope, outer, hancestry, -, output, source, eager, cyclic, slot, hundeclared,
    parameter, hparameter, hsupply⟩
  have hscope : scope ∈ layer.ancestry := by
    rw [hancestry]
    exact List.mem_append_right _ List.mem_cons_self
  rcases plain scope hscope output source eager cyclic slot parameter hparameter with
    rfl | ⟨dependency, rfl | rfl⟩
  · cases hsupply
  · obtain rfl := Supply.required.inj hsupply
    exact hundeclared (List.mem_map.mpr ⟨_, hparameter, rfl⟩)
  · cases hsupply

end Layer

namespace Resolution

theorem obstacle?_ne_notFound {layer : Layer} {key missing : Key} {source : Registered}
    {cyclic : Bool} {chain : Chain} {context : Context} {signals : Signals} :
    obstacle? layer key source cyclic chain context signals ≠ some (.notFound missing) := by
  unfold obstacle?
  dsimp only
  split_ifs <;> simp

theorem accept_ok {supply : Supply} {key : Key} {answer : Answer} {argument : Argument}
    (h : accept supply key answer = .ok argument) :
    (∃ value, answer = .ok value ∧ value.type = key ∧ argument = .value value) ∨
      (answer = .error (.notFound key) ∧ supply.isOptional = true ∧ argument = .absent) := by
  cases answer with
  | ok value =>
    by_cases htype : value.type = key
    · simp only [accept, typed, if_pos htype] at h
      exact .inl ⟨value, rfl, htype, (Except.ok.inj h).symm⟩
    · simp only [accept, typed, if_neg htype] at h
      cases h
  | error error =>
    by_cases hmissing : supply.isOptional = true ∧ error = .notFound key
    · simp only [accept, hmissing.1, hmissing.2, decide_true, Bool.and_true, if_true,
        Except.ok.injEq] at h
      exact .inr ⟨by rw [hmissing.2], hmissing.1, h.symm⟩
    · simp [accept, hmissing] at h

theorem accept_missing {supply : Supply} {key missing : Key} {answer : Answer}
    (h : accept supply key answer = .error (.notFound missing)) :
    answer = .error (.notFound missing) ∧ (supply.isOptional = true → missing ≠ key) := by
  cases answer with
  | ok value =>
    unfold accept typed at h
    by_cases htype : value.type = key
    · simp only [if_pos htype] at h
      cases h
    · simp only [if_neg htype] at h
      cases h
  | error error =>
    by_cases hmissing : supply.isOptional = true ∧ error = .notFound key
    · simp [accept, hmissing] at h
    · simp only [accept, Bool.and_eq_true, decide_eq_true_eq, if_neg hmissing,
        Except.error.injEq] at h
      subst h
      exact ⟨rfl, fun optional hkey => hmissing ⟨optional, by rw [hkey]⟩⟩

/-- An answer that makes no argument is an error that is passed on, or a value of another type. -/
theorem accept_error {supply : Supply} {key : Key} {answer : Answer} {error : ResolutionError}
    (h : accept supply key answer = .error error) :
    answer = .error error ∨ error = .mismatch key ∧ ∃ value, answer = .ok value := by
  cases answer with
  | ok value =>
    by_cases htype : value.type = key
    · simp only [accept, typed, if_pos htype] at h
      cases h
    · simp only [accept, typed, if_neg htype] at h
      exact .inr ⟨(Except.error.inj h).symm, value, rfl⟩
  | error other =>
    rw [accept] at h
    split at h
    · cases h
    · exact .inl (congrArg Except.error (Except.error.inj h))

theorem Gathers.failed {layer : Layer} {context : Context} {supplies : List Supply}
    {inquiries : List Inquiry} {world after : World} {error : ResolutionError}
    {gathered : Except Stop (Except ResolutionError (List Argument))}
    (gathers : Gathers layer context supplies inquiries world gathered after)
    (h : gathered = .ok (.error error)) :
    ∃ supply ∈ supplies, supply.refusal? = some error ∨
      ∃ inquiry ∈ inquiries, ∃ answer, supply.key? = some inquiry.key ∧
        inquiry.result = .ok answer ∧ accept supply inquiry.key answer = .error error := by
  have hpassed {gathered : Except Stop (Except ResolutionError (List Argument))}
      {argument : Argument} (h : gathered.map (Except.map (argument :: ·)) = .ok (.error error)) :
      gathered = .ok (.error error) := by
    rcases gathered with stop | (other | arguments)
    · cases h
    · exact h
    · cases h
  induction gathers with
  | done => cases h
  | given unasked willing further ih =>
    obtain ⟨supply, hsupply, hrest⟩ := ih (hpassed h)
    exact ⟨supply, List.mem_cons_of_mem _ hsupply, hrest⟩
  | declined unasked refusal =>
    obtain rfl := Except.error.inj (Except.ok.inj h)
    exact ⟨_, List.mem_cons_self, .inl refusal⟩
  | stopped asked => cases h
  | refused asked unacceptable =>
    obtain rfl := Except.error.inj (Except.ok.inj h)
    exact ⟨_, List.mem_cons_self, .inr ⟨_, List.mem_cons_self, _, asked, rfl, unacceptable⟩⟩
  | found asked acceptable further ih =>
    obtain ⟨supply, hsupply, hrest⟩ := ih (hpassed h)
    refine ⟨supply, List.mem_cons_of_mem _ hsupply, hrest.imp_right ?_⟩
    rintro ⟨inquiry, hinquiry, hanswer⟩
    exact ⟨inquiry, List.mem_cons_of_mem _ hinquiry, hanswer⟩

theorem Gathers.missing {layer : Layer} {context : Context} {supplies : List Supply}
    {inquiries : List Inquiry} {world after : World} {missing : Key}
    {gathered : Except Stop (Except ResolutionError (List Argument))}
    (gathers : Gathers layer context supplies inquiries world gathered after)
    (h : gathered = .ok (.error (.notFound missing))) :
    ∃ supply ∈ supplies, ∃ inquiry ∈ inquiries, supply.key? = some inquiry.key ∧
      inquiry.result = .ok (.error (.notFound missing)) ∧
      (supply.isOptional = true → missing ≠ inquiry.key) := by
  obtain ⟨supply, hsupply, refusal | ⟨inquiry, hinquiry, answer, asked, hanswer, unacceptable⟩⟩ :=
    gathers.failed h
  · obtain ⟨_, _, _, _, herror⟩ := Supply.refusal?_failed refusal
    cases herror
  · obtain ⟨rfl, hoptional⟩ := accept_missing unacceptable
    exact ⟨supply, hsupply, inquiry, hinquiry, asked, hanswer, hoptional⟩

inductive EndError (key : Key) (source : Registered) : ResolutionError → Prop
  | canceled : EndError key source (.canceled key)
  | failed (message : String) :
      EndError key source (.failed key source.generator.signature message)
  | nilResult (output : Key) : EndError key source (.nilResult output source.generator.signature)
  | mismatch : EndError key source (.mismatch key)

theorem Ends.failed {perform : Command → Engine Reply} {layer : Layer} {key : Key}
    {source : Registered} {context : Context} {world after : World} {error : ResolutionError}
    {gathered : Except Stop (Except ResolutionError (List Argument))} {result : Except Stop Answer}
    (ends : Ends perform layer key source context world gathered result after)
    (h : result = .ok (.error error)) :
    gathered = .ok (.error error) ∨ EndError key source error := by
  have hfinish (invocation : Except ResolutionError Yield) (between : World)
      (h : (finish layer key source context invocation between).1 = .error error) :
      invocation = .error error ∨ EndError key source error := by
    have h : (outcome layer key source context invocation between).1 = .error error := h
    have rule := outcome_rule layer key source context invocation between
    generalize outcome layer key source context invocation between = ended at rule h
    cases rule with
    | found => cases h
    | refused => exact .inl (congrArg Except.error (Except.error.inj h))
    | canceled => exact .inr (Except.error.inj h ▸ .canceled)
    | failed => exact .inr (Except.error.inj h ▸ .failed _)
    | nil => exact .inr (Except.error.inj h ▸ .nilResult _)
    | unfilled => exact .inr (Except.error.inj h ▸ .mismatch)
  cases ends with
  | unsupplied | broken => cases h
  | refused =>
    refine (hfinish _ _ (Except.ok.inj h)).imp_left fun herror => ?_
    rw [Except.error.inj herror]
  | returned => exact .inr ((hfinish _ _ (Except.ok.inj h)).resolve_left nofun)

/-- A type that is reported as missing is the one that was asked for, and nobody owns it; or else some
generator is blind to it. -/
theorem Resolves.unowned_or_blind {fuel : Nat} {layer : Layer} {key missing : Key} {chain : Chain}
    {context : Context} {world after : World} {result : Except Stop Answer}
    (resolves : Resolves fuel layer key chain context world result after) (founded : layer.Founded)
    (h : result = .ok (.error (.notFound missing))) :
    (missing = key ∧ layer.owner? key = none) ∨ layer.Blind missing := by
  induction resolves with
  | stored | exhausted | blocked | bound | imported | delegated => cases h
  | obstructed slot empty obstacle =>
    obtain rfl := Except.error.inj (Except.ok.inj h)
    exact (obstacle?_ne_notFound obstacle).elim
  | @run fuel scope outer key chain context world source inquiries gathered between result after
      starts answers ends ih =>
    subst h
    obtain ⟨supply, hsupply, inquiry, hinquiry, hasked, hanswer, hoptional⟩ :=
      starts.gathers.missing ((ends.failed rfl).resolve_right nofun)
    rcases ih inquiry hinquiry founded hanswer with ⟨rfl, hunowned⟩ | hblind
    · -- The generator asks for the type without leave to do without it.
      obtain ⟨eager, cyclic, slot, -⟩ := starts.slot
      obtain ⟨parameter, hparameter, rfl⟩ := List.mem_map.mp hsupply
      refine .inr ⟨[], scope, outer, rfl, hunowned, key, source, eager, cyclic, slot,
        fun hdeclared => ?_, parameter, hparameter, ?_⟩
      · have howned := founded.provides [] scope outer rfl _ _ _ _ slot inquiry.key
          (List.mem_filterMap.mpr ⟨_, hdeclared, rfl⟩)
        rw [hunowned] at howned
        cases howned
      · cases hasking : parameter.supply with
        | context | nothing | refusing => simp [hasking, Supply.key?] at hasked
        | required type =>
          rw [hasking] at hasked
          exact congrArg Supply.required (Option.some.inj hasked)
        | optional type => exact absurd rfl (hoptional (by rw [hasking]; rfl))
    · exact .inr hblind
  | @unbacked fuel scope outer key chain context world binding noSlot interface unbound noSource =>
    obtain ⟨backing, hbacking⟩ :=
      (founded.sound scope List.mem_cons_self).bound key binding interface
    cases noSource.symm.trans hbacking
  | @unsourced fuel scope outer key chain context world binding backing result after noSlot
      interface unbound behind answer lost ih =>
    rcases ih founded h with ⟨-, hunowned⟩ | hblind
    · cases hunowned.symm.trans (Layer.owner?_of_slot behind outer)
    · exact .inr hblind
  | cast noSlot interface unbound behind answer binds ih =>
    cases binds with
    | mistyped => cases h
    | broken => cases h
    | bound => cases h
  | @missing fuel scope key chain context world unowned unknown =>
    obtain rfl := ResolutionError.notFound.inj (Except.error.inj (Except.ok.inj h))
    exact .inl ⟨rfl, by simp [Layer.owner?, Layer.ancestry, unowned]⟩
  | unavailable unowned unknown answer lost ih =>
    rcases ih founded.parent h with ⟨rfl, hunowned⟩ | hblind
    · exact .inl ⟨rfl, (Layer.owner?_of_unowned unowned _).trans hunowned⟩
    · exact .inr hblind.of_parent

/-- Where generators ask for what they declare, a type that is reported as missing is the one that was
asked for, and nobody owns it. -/
theorem Resolves.unowned_of_missing {fuel : Nat} {layer : Layer} {key missing : Key} {chain : Chain}
    {context : Context} {world after : World} {result : Except Stop Answer}
    (resolves : Resolves fuel layer key chain context world result after) (closed : layer.Closed)
    (h : result = .ok (.error (.notFound missing))) :
    missing = key ∧ layer.owner? key = none :=
  (resolves.unowned_or_blind closed.founded h).resolve_right (closed.plain.not_blind missing)

end Resolution

/-- What a parameter is given: a context, a value that is found for its type, or nothing because no
scope owns the type. -/
inductive Layer.Receives (layer : Layer) (finds : Key → Value → Prop) : Parameter → Argument → Prop
  | context (standing : Standing) :
      Receives layer finds .context (.context layer.scope.id standing)
  | required {key value} (found : finds key value) :
      Receives layer finds (.required key) (.value value)
  | present {key value} (found : finds key value) :
      Receives layer finds (.optional key) (.value value)
  | absent {key} (unowned : ∀ scope ∈ layer.ancestry, scope.owns key = false) :
      Receives layer finds (.optional key) .absent

namespace Layer

variable {layer : Layer}

theorem Receives.mono {finds finds' : Key → Value → Prop}
    (h : ∀ key value, finds key value → finds' key value) {parameter : Parameter}
    {argument : Argument} (receives : layer.Receives finds parameter argument) :
    layer.Receives finds' parameter argument := by
  cases receives with
  | context standing => exact .context standing
  | required found => exact .required (h _ _ found)
  | present found => exact .present (h _ _ found)
  | absent unowned => exact .absent unowned

/-- The cell of a type holds a value, and this is of that type. -/
def Has (layer : Layer) (memory : Memory) (key : Key) (value : Value) : Prop :=
  value.type = key ∧ layer.cell? memory key = some value

end Layer

namespace Resolution

variable {layer : Layer} {context : Context} {world after : World}

theorem map_cons_eq_ok {gathered : Except Stop (Except ResolutionError (List Argument))}
    {argument : Argument} {arguments : List Argument}
    (h : gathered.map (Except.map (argument :: ·)) = .ok (.ok arguments)) :
    ∃ rest, gathered = .ok (.ok rest) ∧ argument :: rest = arguments := by
  rcases gathered with stop | (error | rest)
  · cases h
  · cases h
  · exact ⟨rest, rfl, Except.ok.inj (Except.ok.inj h)⟩

/-- Arguments that have been found are those that the parameters are to be given. -/
theorem Gathers.receives {supplies : List Supply} {inquiries : List Inquiry}
    {gathered : Except Stop (Except ResolutionError (List Argument))} {memory : Memory}
    (gathers : Gathers layer context supplies inquiries world gathered after)
    (found : ∀ inquiry ∈ inquiries, ∀ value, inquiry.result = .ok (.ok value) →
      layer.cell? memory inquiry.key = some value)
    (missing : ∀ inquiry ∈ inquiries, inquiry.result = .ok (.error (.notFound inquiry.key)) →
      layer.owner? inquiry.key = none)
    {parameters : List Parameter} (hsupplies : parameters.map Parameter.supply = supplies)
    (plain : ∀ parameter ∈ parameters, parameter = .context ∨
      ∃ dependency, parameter = .required dependency ∨ parameter = .optional dependency)
    {arguments : List Argument} (h : gathered = .ok (.ok arguments)) :
    List.Forall₂ (layer.Receives (layer.Has memory)) parameters arguments := by
  induction gathers generalizing parameters arguments with
  | done =>
    obtain rfl := List.map_eq_nil_iff.mp hsupplies
    obtain rfl := Except.ok.inj (Except.ok.inj h)
    exact .nil
  | given unasked willing further ih =>
    obtain ⟨parameter, others, rfl, rfl, hothers⟩ := List.map_eq_cons_iff.mp hsupplies
    obtain ⟨rest, hrest, rfl⟩ := map_cons_eq_ok h
    refine .cons ?_ (ih found missing hothers
      (fun other hother => plain other (List.mem_cons_of_mem _ hother)) hrest)
    rcases plain parameter List.mem_cons_self with rfl | ⟨dependency, rfl | rfl⟩
    · exact .context _
    · cases unasked
    · cases unasked
  | declined unasked refusal => cases h
  | stopped asked => cases h
  | refused asked unacceptable => cases h
  | @found supply rest inquiries key before answer between argument gathered after asked acceptable
      further ih =>
    obtain ⟨parameter, others, rfl, rfl, hothers⟩ := List.map_eq_cons_iff.mp hsupplies
    obtain ⟨rest, hrest, rfl⟩ := map_cons_eq_ok h
    refine .cons ?_ (ih (fun other hother => found other (List.mem_cons_of_mem _ hother))
      (fun other hother => missing other (List.mem_cons_of_mem _ hother)) hothers
      (fun other hother => plain other (List.mem_cons_of_mem _ hother)) hrest)
    have hfound := found _ List.mem_cons_self
    have hmissing := missing _ List.mem_cons_self
    rcases plain parameter List.mem_cons_self with rfl | ⟨dependency, rfl | rfl⟩
    · cases asked
    · obtain rfl := Option.some.inj asked
      rcases accept_ok acceptable with ⟨value, rfl, htype, rfl⟩ | ⟨-, hoptional, -⟩
      · exact .required ⟨htype, hfound value rfl⟩
      · cases hoptional
    · obtain rfl := Option.some.inj asked
      rcases accept_ok acceptable with ⟨value, rfl, htype, rfl⟩ | ⟨rfl, -, rfl⟩
      · exact .present ⟨htype, hfound value rfl⟩
      · refine .absent fun scope hscope => ?_
        have hunowned := List.find?_eq_none.mp (hmissing rfl) scope hscope
        exact Bool.eq_false_iff.mpr hunowned

/-- A body is entered with arguments that are in their cells, or of types that nobody owns. -/
theorem Starts.receives {fuel : Nat} {scope : Scope} {outer : List Scope} {key : Key}
    {chain : Chain} {source : Registered} {inquiries : List Inquiry} {arguments : List Argument}
    (starts : Starts ⟨scope, outer⟩ key chain context world source inquiries
      (.ok (.ok arguments)) after)
    (answers : ∀ inquiry ∈ inquiries,
      Resolves fuel ⟨scope, outer⟩ inquiry.key (scope.frame key source :: chain) context
        inquiry.before inquiry.result inquiry.after)
    (hosts : world.Hosts ⟨scope, outer⟩) (faithful : world.Faithful)
    (closed : Layer.Closed ⟨scope, outer⟩) :
    List.Forall₂ (Layer.Receives ⟨scope, outer⟩ (Layer.Has ⟨scope, outer⟩ after.memory))
      source.generator.parameters arguments := by
  obtain ⟨eager, cyclic, slot, -⟩ := starts.slot
  obtain ⟨hbefore, -⟩ := starts.hosted World.Faithful answers
    (fun inquiry hinquiry hhosts h => ((answers inquiry hinquiry).faithful hhosts h).1) hosts
    faithful
  have honward := starts.gathers.onward fun inquiry hinquiry => (answers inquiry hinquiry).grows
  refine starts.gathers.receives (fun inquiry hinquiry value hvalue => ?_)
    (fun inquiry hinquiry hmissing => ?_) rfl
    (closed.plain scope List.mem_cons_self _ _ _ _ slot) rfl
  · obtain ⟨hhosts, hfaithful⟩ := hbefore inquiry hinquiry
    have hcell := ((answers inquiry hinquiry).faithful hhosts hfaithful).2 value hvalue
    exact (honward inquiry hinquiry).memory.cell? hcell
  · exact ((answers inquiry hinquiry).unowned_of_missing closed hmissing).2

end Resolution

namespace Event

def IsArrival : Event → Prop
  | .filled .. | .dropped .. => True
  | _ => False

def IsIdle : Event → Prop
  | .ran .. | .filled .. => False
  | _ => True

theorem IsIncidental.isIdle {event : Event} (h : event.IsIncidental) : event.IsIdle := by
  cases event <;> trivial

end Event

theorem World.deliver_trace (world : World) (delivery : Site × Value) :
    ∃ event, event.IsArrival ∧ (world.deliver delivery).trace = event :: world.trace := by
  unfold deliver
  split
  · exact ⟨.dropped delivery.1 delivery.2, trivial, rfl⟩
  · exact ⟨.filled delivery.1 delivery.2, trivial, rfl⟩

/-- At this moment of a history, a value is a product of a run of which products are just coming to
their slots: its body was entered with these arguments, and has returned. -/
def Stems (layer : Layer) (source : Registered) (key : Key) (value : Value) (run : Nat)
    (arguments : List Argument) (now : List Event) : Prop :=
  ∃ arrivals products before,
    now = arrivals ++ .returned layer.scope.id source.place run (.products products) :: before ∧
    (∀ event ∈ arrivals, event.IsArrival) ∧
    (key, value) ∈ source.generator.outputs.zip products ∧
    .ran layer.scope.id source.place source.generator.tag run arguments ∈ before

/-- What runs have been given is what cells hold, and what slots hold is what runs have left. -/
structure World.Accountable (world : World) : Prop where
  faithful : world.Faithful
  provides : ∀ layer ∈ world.built, layer.Provides
  received : ∀ id place tag run arguments, .ran id place tag run arguments ∈ world.trace →
    ∃ layer ∈ world.built, layer.scope.id = id ∧ ∃ key source eager cyclic,
      layer.scope.slots.find? key = some (.generated source eager cyclic) ∧
      source.place = place ∧
      (layer.Plain → List.Forall₂ (layer.Receives (layer.Has world.memory))
        source.generator.parameters arguments)
  stored : ∀ site value,
    world.memory.filled.find? site = some value ↔ .filled site value ∈ world.trace
  stems : ∀ later site value now, world.trace = later ++ .filled site value :: now →
    ∃ layer ∈ world.built, layer.scope.id = site.layer ∧ ∃ source eager cyclic,
      layer.scope.slots.find? site.key = some (.generated source eager cyclic) ∧
      ∃ run arguments, Stems layer source site.key value run arguments now

namespace World.Accountable

open Resolution

variable {world after : World} {layer : Layer} {key : Key} {source : Registered}
  {eager cyclic : Bool}

theorem initial : World.Accountable {} := by
  refine ⟨fun layer h => ?_, fun layer h => ?_, fun id place tag run arguments h => ?_,
    fun site value => ?_, fun later site value now h => ?_⟩
  · cases h
  · cases h
  · cases h
  · constructor
    · intro h
      cases h
    · intro h
      cases h
  · have hnil : [] = later ++ .filled site value :: now := h
    simp at hnil

theorem founded (accountable : world.Accountable) (hosts : world.Hosts layer) : layer.Founded where
  sound := (hosts.1.proper hosts.2).sound
  provides _ _ _ h := accountable.provides _ (hosts.further h).2

theorem closed (accountable : world.Accountable) (hosts : world.Hosts layer)
    (plain : layer.Plain) : layer.Closed where
  sound := (accountable.founded hosts).sound
  plain := plain
  provides := (accountable.founded hosts).provides

theorem received_later (accountable : world.Accountable) (built : after.built = world.built)
    (memory : world.memory.Extends after.memory) {id place run : Nat} {tag : String}
    {arguments : List Argument} (h : .ran id place tag run arguments ∈ world.trace) :
    ∃ layer ∈ after.built, layer.scope.id = id ∧ ∃ key source eager cyclic,
      layer.scope.slots.find? key = some (.generated source eager cyclic) ∧
      source.place = place ∧
      (layer.Plain → List.Forall₂ (layer.Receives (layer.Has after.memory))
        source.generator.parameters arguments) := by
  obtain ⟨layer, hlayer, hid, key, source, eager, cyclic, slot, hplace, hreceived⟩ :=
    accountable.received id place tag run arguments h
  refine ⟨layer, built ▸ hlayer, hid, key, source, eager, cyclic, slot, hplace, fun plain => ?_⟩
  refine (hreceived plain).imp fun parameter argument receives => ?_
  exact receives.mono fun dependency value has => ⟨has.1, memory.cell? has.2⟩

theorem lasts : World.Lasts Event.IsIdle World.Accountable where
  logged _ := trivial
  later := by
    intro world after accountable built _ memory imported events trace filled idle
    have hold {event : Event} (h : event ∈ after.trace) (busy : ¬ event.IsIdle) :
        event ∈ world.trace := by
      rw [trace] at h
      exact (List.mem_append.mp h).resolve_left fun hnew => busy (idle _ hnew)
    refine ⟨accountable.faithful.of_same built memory imported, built ▸ accountable.provides, ?_,
      ?_, ?_⟩
    · exact fun id place tag run arguments h =>
        accountable.received_later built memory (hold h not_false)
    · intro site value
      constructor
      · intro h
        rw [trace]
        rcases filled site value h with hbefore | hnew
        · exact List.mem_append_right _ ((accountable.stored site value).mp hbefore)
        · exact List.mem_append_left _ hnew
      · exact fun h =>
          memory.filled _ _ ((accountable.stored site value).mpr (hold h not_false))
    · intro later site value now h
      rw [trace] at h
      rcases split_append h with ⟨between, rfl, -⟩ | ⟨between, -, hbetween⟩
      · exact (idle (.filled site value) (by simp)).elim
      · rw [built]
        exact accountable.stems between site value now hbetween

theorem enterBody (accountable : world.Accountable) (hosts : world.Hosts layer)
    (slot : layer.scope.slots.find? key = some (.generated source eager cyclic))
    {arguments : List Argument}
    (receives : layer.Plain → List.Forall₂ (layer.Receives (layer.Has world.memory))
      source.generator.parameters arguments) :
    (world.enterBody layer.scope source arguments).Accountable := by
  refine { accountable with
    received := fun id place tag run other h => ?_, stored := ?_, stems := ?_ }
  · rcases List.mem_cons.mp h with hnew | hold
    · obtain ⟨rfl, rfl, -, -, rfl⟩ := Event.ran.inj hnew
      exact ⟨layer, hosts.2, rfl, key, source, eager, cyclic, slot, rfl, receives⟩
    · exact accountable.received id place tag run other hold
  · intro site value
    refine (accountable.stored site value).trans ⟨List.mem_cons_of_mem _, fun h => ?_⟩
    rcases List.mem_cons.mp h with hnew | hold
    · cases hnew
    · exact hold
  · intro later site value now h
    rcases List.cons_eq_append_iff.mp h with ⟨rfl, hnow⟩ | ⟨between, rfl, hbetween⟩
    · cases hnow
    · exact accountable.stems between site value now hbetween

theorem deliver (accountable : world.Accountable) (hosts : world.Hosts layer)
    (slot : layer.scope.slots.find? key = some (.generated source eager cyclic)) {value : Value}
    {run : Nat} {arguments : List Argument}
    (stems : Stems layer source key value run arguments world.trace) :
    (world.deliver (layer.scope.site key, value)).Accountable := by
  have memory := (World.Advances.deliver world (layer.scope.site key, value)).memory
  cases hslot : world.memory.filled.find? (layer.scope.site key) with
  | some old =>
    have hdeliver : world.deliver (layer.scope.site key, value) =
        world.emit (.dropped (layer.scope.site key) value) :=
      if_pos (by simp [Table.contains, hslot])
    rw [hdeliver]
    exact lasts.emit accountable trivial
  | none =>
    obtain ⟨hdeliver, hfind⟩ := @deliver_of_empty world (layer.scope.site key, value) hslot
    have hbuilt : (world.deliver (layer.scope.site key, value)).built = world.built := by
      rw [hdeliver]
      rfl
    have htrace : (world.deliver (layer.scope.site key, value)).trace =
        .filled (layer.scope.site key) value :: world.trace := by
      rw [hdeliver]
      rfl
    have himported : (world.deliver (layer.scope.site key, value)).memory.imported =
        world.memory.imported := by
      rw [hdeliver]
      rfl
    refine ⟨accountable.faithful.of_same hbuilt memory himported, hbuilt ▸ accountable.provides, ?_,
      ?_, ?_⟩
    · intro id place tag other found h
      rw [htrace] at h
      rcases List.mem_cons.mp h with hnew | hold
      · cases hnew
      · exact accountable.received_later hbuilt memory hold
    · intro site found
      rw [hfind, htrace, List.mem_cons, ← accountable.stored, Event.filled.injEq]
      by_cases hsite : site = layer.scope.site key
      · rw [if_pos hsite, hsite, hslot]
        simp [eq_comm]
      · simp [hsite]
    · intro later site found now h
      rw [htrace] at h
      rw [hbuilt]
      rcases List.cons_eq_append_iff.mp h with ⟨rfl, hnow⟩ | ⟨between, rfl, hbetween⟩
      · obtain ⟨hevent, rfl⟩ := List.cons.inj hnow
        obtain ⟨rfl, rfl⟩ := Event.filled.inj hevent
        exact ⟨layer, hosts.2, rfl, source, eager, cyclic, slot, run, arguments, stems⟩
      · exact accountable.stems between site found now hbetween

theorem hoist (accountable : world.Accountable) (hosts : world.Hosts layer) {value : Value}
    (hcell : layer.cell? world.memory key = some value) :
    (world.hoist layer.scope key value).Accountable := by
  have hsame : (world.hoist layer.scope key value).built = world.built ∧
      (world.hoist layer.scope key value).trace = world.trace ∧
      (world.hoist layer.scope key value).memory.filled = world.memory.filled := by
    unfold World.hoist
    split <;> exact ⟨rfl, rfl, rfl⟩
  obtain ⟨hbuilt, htrace, hfilled⟩ := hsame
  refine ⟨accountable.faithful.hoist hosts hcell, hbuilt ▸ accountable.provides, ?_,
    hfilled ▸ htrace ▸ accountable.stored, hbuilt ▸ htrace ▸ accountable.stems⟩
  intro id place tag run arguments h
  rw [htrace] at h
  exact accountable.received_later hbuilt (World.Grows.hoist world layer.scope key value).memory h

theorem deliverAll (accountable : world.Accountable) (hosts : world.Hosts layer)
    (slot : layer.scope.slots.find? key = some (.generated source eager cyclic)) {run : Nat}
    {arguments : List Argument} {products : List Value} {before : List Event}
    (returned : world.trace =
      .returned layer.scope.id source.place run (.products products) :: before)
    (ran : .ran layer.scope.id source.place source.generator.tag run arguments ∈ before) :
    World.Accountable ((deliveries layer.scope source products).foldl World.deliver world) := by
  -- Meanwhile nothing but products has come after the return of the body.
  let Delivering (between : World) : Prop := between.Accountable ∧ between.Hosts layer ∧
    ∃ arrivals, between.trace = arrivals ++ world.trace ∧ ∀ event ∈ arrivals, event.IsArrival
  have hstep : ∀ delivery ∈ deliveries layer.scope source products, ∀ between,
      Delivering between → Delivering (between.deliver delivery) := by
    intro delivery hdelivery between h
    obtain ⟨haccountable, hhosts, arrivals, htrace, harrivals⟩ := h
    obtain ⟨site, value⟩ := delivery
    obtain ⟨output, hpair, hfed, rfl⟩ := mem_deliveries.mp hdelivery
    have hoccupied := (hosts.1.sound layer hosts.2).slot_of_mem_fedBy slot
      (List.mem_filter.mpr ⟨(List.of_mem_zip hpair).1, hfed⟩)
    have stems : Stems layer source output value run arguments between.trace :=
      ⟨arrivals, products, before, by rw [htrace, returned], harrivals, hpair, ran⟩
    obtain ⟨event, harrival, hevent⟩ := deliver_trace between (layer.scope.site output, value)
    refine ⟨haccountable.deliver hhosts hoccupied stems, hhosts.deliver hdelivery,
      event :: arrivals, by rw [hevent, htrace]; rfl, ?_⟩
    exact List.forall_mem_cons.mpr ⟨harrival, harrivals⟩
  exact (foldl_deliver_keeps Delivering hstep ⟨accountable, hosts, [], rfl, by simp⟩).1

theorem finish (accountable : world.Accountable) (hosts : world.Hosts layer)
    (slot : layer.scope.slots.find? key = some (.generated source eager cyclic))
    (context : Context) {result : Except ResolutionError Yield}
    (returned : ∀ products, result = .ok (.products products) → ∃ run arguments before,
      world.trace = .returned layer.scope.id source.place run (.products products) :: before ∧
      .ran layer.scope.id source.place source.generator.tag run arguments ∈ before) :
    (Resolution.finish layer key source context result world).2.Accountable := by
  have houtcome : (outcome layer key source context result world).2.Accountable := by
    rcases @outcome_world layer key source context result world with h | ⟨products, hproducts, h⟩
    · rwa [h]
    · obtain ⟨run, arguments, before, hreturned, hran⟩ := returned products hproducts
      rw [h]
      exact accountable.deliverAll hosts slot hreturned hran
  exact lasts.report houtcome _ _ _ _ fun _ _ => trivial

theorem enter (accountable : world.Accountable) (valid : world.Valid) {builder : Builder}
    (parent : ∀ parent, builder.parent = some parent → parent ∈ world.built)
    (assembled : builder.assemble world.memory world.nextLayer = .ok layer) :
    (world.enter layer).Accountable := by
  obtain ⟨-, -, -, -, -, -, houter, -⟩ := Builder.assemble_inv assembled
  refine ⟨accountable.faithful.enter valid assembled, fun other hother => ?_,
    fun id place tag run arguments h => ?_, accountable.stored, fun later site value now h => ?_⟩
  · rcases List.mem_cons.mp hother with rfl | hmem
    · intro key source eager cyclic slot required hrequired
      rcases Builder.assemble_provides assembled slot hrequired with howned | ⟨found, hfound, hcan⟩
      · have howner : other.owner? required = some other.scope := List.find?_cons_of_pos howned
        rw [howner]
        rfl
      · rw [Layer.canResolve_eq ⟨valid, parent found hfound⟩ accountable.faithful] at hcan
        have hancestry : other.ancestry = other.scope :: found.ancestry := by
          unfold Layer.ancestry
          rw [houter, Builder.outer, hfound]
          rfl
        unfold Layer.owner? at hcan ⊢
        rw [hancestry, List.find?_cons]
        split
        · rfl
        · exact hcan
    · exact accountable.provides other hmem
  · obtain ⟨other, hother, hrest⟩ := accountable.received id place tag run arguments h
    exact ⟨other, List.mem_cons_of_mem _ hother, hrest⟩
  · obtain ⟨other, hother, hrest⟩ := accountable.stems later site value now h
    exact ⟨other, List.mem_cons_of_mem _ hother, hrest⟩

end World.Accountable

namespace Resolution

open Engine (Keeps)

variable {fuel : Nat} {layer : Layer} {key : Key} {source : Registered} {chain : Chain}
  {context : Context} {world between after : World} {result : Except Stop Answer}

/-- However a run ends, what it has left stems from it. -/
theorem Ends.accountable {gathered : Except Stop (Except ResolutionError (List Argument))}
    {eager cyclic : Bool}
    (keeps : ∀ {α : Type} (act : Act Command α),
      Keeps (fun world => world.Valid ∧ world.Accountable)
        (Engine.run (Session.handler fuel) act))
    (ends : Ends (Session.handler fuel) layer key source context world gathered result after)
    (slot : layer.scope.slots.find? key = some (.generated source eager cyclic))
    (hosts : world.Hosts layer) (accountable : world.Accountable)
    (receives : ∀ arguments, gathered = .ok (.ok arguments) → layer.Plain →
      List.Forall₂ (layer.Receives (layer.Has world.memory)) source.generator.parameters
        arguments) : after.Accountable := by
  -- What the body leaves behind, if it is entered at all.
  have hbody (arguments : List Argument) (h : gathered = .ok (.ok arguments)) :
      let body := source.generator.body (world.nextRun layer.scope source) arguments
      let last := (Engine.run (Session.handler fuel) body
        (world.enterBody layer.scope source arguments)).2
      (last.Hosts layer ∧ last.Accountable) ∧
        .ran layer.scope.id source.place source.generator.tag
          (world.nextRun layer.scope source) arguments ∈ last.trace := by
    intro body last
    have hentered := accountable.enterBody hosts slot (receives arguments h)
    refine ⟨(keeps body).hosts layer _ ⟨hosts.enterBody arguments, hentered⟩, ?_⟩
    have hgrows := run_grows (Session.handler_grows fuel) body
      (world.enterBody layer.scope source arguments)
    exact hgrows.trace.mem List.mem_cons_self
  cases ends with
  | unsupplied => exact accountable
  | refused => exact accountable.finish hosts slot context (by simp)
  | @broken arguments stop _ body =>
    obtain ⟨⟨-, hafter⟩, -⟩ := hbody arguments rfl
    rwa [body] at hafter
  | @returned arguments yield last body =>
    obtain ⟨⟨hhosts, hafter⟩, hran⟩ := hbody arguments rfl
    rw [body] at hhosts hafter hran
    have idle : Event.IsIdle (.returned layer.scope.id source.place
      (world.nextRun layer.scope source) yield) := trivial
    have hreturned := World.Accountable.lasts.emit hafter idle
    refine hreturned.finish (hhosts.emit _) slot context fun products h => ?_
    obtain rfl := Except.ok.inj h
    exact ⟨_, arguments, last.trace, rfl, hran⟩

/-- What requests have left behind is accounted for if what the commands given meanwhile leave
is. -/
theorem Resolves.accountable_of_keeps
    (keeps : ∀ less ≤ fuel, ∀ {α : Type} (act : Act Command α),
      Keeps (fun world => world.Valid ∧ world.Accountable)
        (Engine.run (Session.handler less) act))
    (resolves : Resolves fuel layer key chain context world result after)
    (hosts : world.Hosts layer) (accountable : world.Accountable) : after.Accountable := by
  have lasts := World.Accountable.lasts
  refine resolves.lasting lasts (fun _ _ _ => trivial) (fun _ _ => trivial)
    (fun _ _ _ _ => trivial) keeps ?_ ?_ (Nat.le_refl _) hosts accountable
  · intro less layer key chain world source inquiries gathered between result after hless starts
      answers ends hosts accountable hhosts hbetween
    obtain ⟨eager, cyclic, slot, -⟩ := starts.slot
    refine ends.accountable (keeps _ hless) slot hhosts hbetween ?_
    rintro arguments rfl plain
    exact starts.receives answers hosts accountable.faithful (accountable.closed hosts plain)
  · intro less scope parent further key chain world value between unowned answer hosts accountable
      hbetween
    obtain ⟨hhosts, -, hcell⟩ := answer.delegated_cell unowned hosts accountable.faithful
    exact hbetween.hoist hhosts hcell

end Resolution

theorem World.Accountable.invariant :
    Session.Invariant fun world => world.Valid ∧ world.Accountable := by
  refine lasts.invariant_of_resolves (fun _ hevent => hevent.isIdle) (fun _ => trivial)
    (fun _ _ => trivial) (fun _ _ => trivial)
    (fun valid accountable parent assembled => accountable.enter valid parent assembled) ?_
  intro fuel keeps layer key context world result after resolves hosts accountable
  exact resolves.accountable_of_keeps keeps hosts accountable

theorem Resolution.Resolves.accountable {fuel : Nat} {layer : Layer} {key : Key} {chain : Chain}
    {context : Context} {world after : World} {result : Except Stop Answer}
    (resolves : Resolves fuel layer key chain context world result after)
    (hosts : world.Hosts layer) (accountable : world.Accountable) : after.Accountable :=
  resolves.accountable_of_keeps
    (fun less _ {_} => World.Accountable.lasts.outside (fun _ hevent => hevent.isIdle)
      (World.Accountable.invariant.handler less)) hosts accountable

namespace Session

open Resolution

/-- What lasts through all but writes and entries of bodies, and commands and requests keep, holds at
every moment, if it holds in the worlds in which bodies begin. -/
theorem Arises.lasting {holds : World → Prop} {world : World}
    (lasts : World.Lasts Event.IsIdle holds) (initial : holds {})
    (invariant : Invariant fun world => world.Valid ∧ holds world)
    (resolves : ∀ {fuel layer key chain context world result after},
      Resolves fuel layer key chain context world result after → world.Hosts layer →
        holds world → holds after)
    (enters : ∀ {fuel layer key chain context world source inquiries arguments between},
      Starts layer key chain context world source inquiries (.ok (.ok arguments)) between →
      (∀ inquiry ∈ inquiries,
        Resolves fuel layer inquiry.key (layer.scope.frame key source :: chain) context
          inquiry.before inquiry.result inquiry.after) →
      world.Hosts layer → holds world → between.Hosts layer → holds between →
        holds (between.enterBody layer.scope source arguments))
    (arises : Arises world) : world.Valid ∧ holds world := by
  have hstart {scope : Scope} {key : Key} {source : Registered} {chain : Chain} {world : World}
      (h : holds world) : holds (world.start scope key source chain) :=
    lasts.start (lasts.emit h trivial) fun _ => trivial
  induction arises with
  | initial => exact ⟨.initial, initial⟩
  | course arises course ih =>
    exact (invariant.course (fun less _ => invariant.handler less) course ih).1
  | ask arises known key ih => exact ⟨ih.1.emit _, lasts.emit ih.2 trivial⟩
  | delegate arises scope key parent ih =>
    exact ⟨ih.1.of_same rfl rfl rfl rfl, lasts.delegate ih.2 _ _ _ fun _ => trivial⟩
  | @inquiry fuel scope outer key chain context world source inquiries gathered between inquiry
      arises known starts answers asked ih =>
    obtain ⟨hbefore, -⟩ := starts.hosted holds answers
      (fun inquiry hinquiry => resolves (answers inquiry hinquiry)) ⟨ih.1, known⟩ (hstart ih.2)
    exact ⟨(hbefore inquiry asked).1.1, (hbefore inquiry asked).2⟩
  | @body fuel scope outer key chain context world source inquiries arguments between arises known
      starts answers ih =>
    obtain ⟨-, hhosts, hbetween⟩ := starts.hosted holds answers
      (fun inquiry hinquiry => resolves (answers inquiry hinquiry)) ⟨ih.1, known⟩ (hstart ih.2)
    exact ⟨(hhosts.enterBody arguments).1,
      enters starts answers ⟨ih.1, known⟩ ih.2 hhosts hbetween⟩
  | @cast fuel scope outer key chain context world binding value between arises known noSlot
      interface unbound answer ih =>
    have hosts : world.Hosts ⟨scope, outer⟩ := ⟨ih.1, known⟩
    exact ⟨((answer.hosts hosts hosts).enterCast _ _ _).1,
      lasts.enterCast (resolves answer hosts ih.2) fun _ => trivial⟩

theorem Arises.accountable {world : World} (arises : Arises world) :
    world.Valid ∧ world.Accountable := by
  refine arises.lasting World.Accountable.lasts .initial World.Accountable.invariant
    (fun resolves hosts accountable => resolves.accountable hosts accountable) ?_
  intro fuel layer key chain context world source inquiries arguments between starts answers hosts
    accountable hhosts hbetween
  obtain ⟨eager, cyclic, slot, -⟩ := starts.slot
  refine hbetween.enterBody hhosts slot fun plain => ?_
  exact starts.receives answers hosts accountable.faithful (accountable.closed hosts plain)

end Session

/-- Asked for a type under whatever context, a layer answers with a value at once, without a run and
without a cast. -/
def Layer.Finds (layer : Layer) (world : World) (key : Key) (value : Value) : Prop :=
  ∀ fuel context, ∃ (after : World) (quiet : List Event),
    layer.resolveAs (Session.resolver fuel) key context world = (.ok (.ok value), after) ∧
    after.trace = .granted (layer.scope.site key) value :: quiet ++
      .asked (layer.scope.site key) :: world.trace ∧
    ∀ event ∈ quiet, event.IsQuiet

theorem Layer.Has.finds {layer : Layer} {world : World} {key : Key} {value : Value}
    (has : layer.Has world.memory key value) (hosts : world.Hosts layer)
    (faithful : world.Faithful) : layer.Finds world key value := by
  intro fuel context
  have hhosts : (world.emit (.asked (layer.scope.site key))).Hosts layer := hosts.emit _
  have hresolves := Resolution.resolver_resolves fuel layer key [] context
    (world.emit (.asked (layer.scope.site key)))
  obtain ⟨hresult, -, -, -, quiet, htrace, hquiet⟩ := hresolves.quiet hhosts faithful has.2
  have hrequest := Layer.request_granted (Prod.ext hresult rfl)
  refine ⟨_, quiet, Layer.resolveAs_apply hrequest fun found hfound => ?_, ?_, hquiet⟩
  · obtain rfl := Except.ok.inj hfound
    exact has.1
  · exact congrArg (Event.granted (layer.scope.site key) value :: ·) htrace

namespace Session

/-- Values are made of values that stay. Let generators ask for what they declare: contexts, and
types that are required or optional; bodies and casts may do anything and give commands, and the
moment may be any. A slot that is filled has a product of a run of its generator. For each
type that a run was given a value of, requests are answered with this value at once and under any
context; and a type that a run was not given has no owner. -/
theorem stored_values_have_their_sources {world : World} (arises : Arises world)
    (plain : ∀ layer ∈ world.built, layer.scope.Plain) :
    ∀ layer ∈ world.built, ∀ key source eager cyclic,
      layer.scope.slots.find? key = some (.generated source eager cyclic) →
      (∀ value, world.memory.filled.find? (layer.scope.site key) = some value →
        ∃ later now run arguments,
          world.trace = later ++ .filled (layer.scope.site key) value :: now ∧
          Stems layer source key value run arguments now ∧
          List.Forall₂ (layer.Receives (layer.Finds world)) source.generator.parameters
            arguments) ∧
      ∀ tag run arguments,
        .ran layer.scope.id source.place tag run arguments ∈ world.trace →
          List.Forall₂ (layer.Receives (layer.Finds world)) source.generator.parameters
            arguments := by
  obtain ⟨valid, accountable⟩ := arises.accountable
  intro layer hlayer key source eager cyclic slot
  have hosts : world.Hosts layer := ⟨valid, hlayer⟩
  have hplain : layer.Plain := by
    intro scope hscope
    obtain ⟨outer, hbuilt⟩ := valid.built_of_mem_ancestry hlayer hscope
    exact plain _ hbuilt
  have hreceived : ∀ tag run arguments,
      .ran layer.scope.id source.place tag run arguments ∈ world.trace →
        List.Forall₂ (layer.Receives (layer.Finds world)) source.generator.parameters
          arguments := by
    intro tag run arguments hran
    obtain ⟨other, hother, hid, found, source', early, flagged, hslot, hplace, hreceived⟩ :=
      accountable.received _ _ _ _ _ hran
    obtain rfl := valid.unique other hother layer hlayer hid
    obtain ⟨rfl, -, -⟩ := (valid.sound other hother).placed _ _ _ _ _ _ _ _ hslot slot hplace
    refine (hreceived hplain).imp fun parameter argument receives => ?_
    exact receives.mono fun dependency value has => has.finds hosts accountable.faithful
  refine ⟨fun value hfilled => ?_, hreceived⟩
  obtain ⟨later, now, htrace⟩ := List.append_of_mem ((accountable.stored _ value).mp hfilled)
  obtain ⟨other, hother, hid, source', early, flagged, hslot, run, arguments, stems⟩ :=
    accountable.stems later _ value now htrace
  obtain rfl := valid.unique other hother layer hlayer hid
  obtain ⟨rfl, -, -⟩ := Backing.generated.inj (Option.some.inj (slot.symm.trans hslot))
  refine ⟨later, now, run, arguments, htrace, stems, ?_⟩
  obtain ⟨arrivals, products, before, hnow, -, -, hran⟩ := stems
  have hknown : .ran other.scope.id source.place source.generator.tag run arguments ∈
      world.trace := by
    rw [htrace, hnow]
    simp [hran]
  exact hreceived _ run arguments hknown

/-- A generator, and one that needs its value and asks for it once more itself. -/
def seed : Registered :=
  ⟨0, "seed", "make_a", [], [⟨"A"⟩], fun _ _ => .done (.products [⟨⟨"A"⟩, "a"⟩])⟩

def blend : Registered :=
  ⟨1, "blend", "make_b", [.required ⟨"A"⟩, .optional ⟨"C"⟩, .context], [⟨"B"⟩], fun _ _ =>
    .perform (.resolve "app" ⟨"A"⟩ {}) fun _ => .done (.products [⟨⟨"B"⟩, "b"⟩])⟩

def blendingScope : Scope :=
  { id := 1, label := none, locked := false
    slots := ⟨[(⟨"A"⟩, .generated seed false false), (⟨"B"⟩, .generated blend false false)]⟩
    bindings := {}, overridable := [], settings := {}, observers := [] }

theorem blendingScope_plain : blendingScope.Plain := by
  intro key source eager cyclic slot parameter hparameter
  have hmem := Table.mem_entries_of_find? slot
  simp only [blendingScope, List.mem_cons, List.not_mem_nil, or_false, Prod.mk.injEq,
    Backing.generated.injEq] at hmem
  rcases hmem with ⟨-, rfl, -⟩ | ⟨-, rfl, -⟩
  · cases hparameter
  · simp only [blend, List.mem_cons, List.not_mem_nil, or_false] at hparameter
    rcases hparameter with rfl | rfl | rfl
    · exact .inr ⟨_, .inl rfl⟩
    · exact .inr ⟨_, .inr rfl⟩
    · exact .inl rfl

def blendingWorld : World :=
  (step 3 {} (.build "app" none [.register (.generator seed.generator false),
    .register (.generator blend.generator false)])).2

def blendedWorld : World := (step 3 blendingWorld (.resolve "app" ⟨"B"⟩ {})).2

theorem stored_values_have_their_sources_blended :
    Arises blendedWorld ∧ (∀ layer ∈ blendedWorld.built, layer.scope.Plain) ∧
    blendedWorld.memory.filled.find? ⟨1, ⟨"B"⟩⟩ = some ⟨⟨"B"⟩, "b"⟩ ∧
    (∃ later now run arguments,
      blendedWorld.trace = later ++ .filled ⟨1, ⟨"B"⟩⟩ ⟨⟨"B"⟩, "b"⟩ :: now ∧
      Stems ⟨blendingScope, []⟩ blend ⟨"B"⟩ ⟨⟨"B"⟩, "b"⟩ run arguments now) ∧
    List.Forall₂
      (Layer.Receives ⟨blendingScope, []⟩ (Layer.Finds ⟨blendingScope, []⟩ blendedWorld))
      [.required ⟨"A"⟩, .optional ⟨"C"⟩, .context]
      [.value ⟨⟨"A"⟩, "a"⟩, .absent, .context 1 ⟨false, false, none⟩] := by
  have arises : Arises blendedWorld := Reachable.arises (.step (.step .initial _ _) _ _)
  have hbuilt : blendedWorld.built = [⟨blendingScope, []⟩] :=
    (step_built (by decide +kernel)).trans rfl
  have plain : ∀ layer ∈ blendedWorld.built, layer.scope.Plain := by
    rw [hbuilt]
    exact List.forall_mem_singleton.mpr blendingScope_plain
  have hlayer : ⟨blendingScope, []⟩ ∈ blendedWorld.built := hbuilt ▸ List.mem_singleton_self _
  have hfilled : blendedWorld.memory.filled.find? ⟨1, ⟨"B"⟩⟩ = some ⟨⟨"B"⟩, "b"⟩ := by
    decide +kernel
  obtain ⟨hsources, hreceived⟩ :=
    stored_values_have_their_sources arises plain _ hlayer ⟨"B"⟩ blend false false rfl
  obtain ⟨later, now, run, arguments, htrace, stems, -⟩ := hsources _ hfilled
  refine ⟨arises, plain, hfilled, ⟨later, now, run, arguments, htrace, stems⟩, ?_⟩
  exact hreceived "blend" 1 _ (by decide +kernel)

end Session

end LayerGraph
