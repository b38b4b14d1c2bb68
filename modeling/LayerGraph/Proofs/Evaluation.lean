import LayerGraph.Proofs.Cycles

/-! What a type comes to in a layer if nothing is remembered.

Evaluation answers a request as the engine does, but it knows no memory, no chain, no locks, no limits
and no contexts: what is behind a type is worked out anew every time. It is cut off at a depth, and
what it comes to at some depth it comes to at every greater one. -/

namespace LayerGraph

/-- What code yields that neither gives commands nor panics. -/
def Act.outcome? {κ α : Type} : Act κ α → Option α
  | .done result => some result
  | .panic _ | .perform _ _ => none
  | .cancel _ next | .elapse _ next | .noteThread next => next.outcome?

/-- What a generator gives a type, going by what its body yields. -/
def Registered.product (source : Registered) (key : Key) : Yield → Answer
  | .failed message => .error (.failed key source.generator.signature message)
  | .nil output => .error (.nilResult output source.generator.signature)
  | .products values =>
    match values[source.generator.outputs.idxOf key]? with
    | some value => .ok value
    | none => .error (.mismatch key)

def Binding.convert (binding : Binding) (key : Key) : Answer → Option Answer
  | .error error => some (.error error)
  | .ok value =>
    if value.type = binding.source then
      (binding.cast.apply 1 value.payload).outcome?.map fun payload => .ok ⟨key, payload⟩
    else some (.error (.mismatch key))

namespace Evaluation

abbrev Producer := Layer → Key → Registered → Option Answer

def fromSlot (produce : Producer) (layer : Layer) (key : Key) : Backing → Option Answer
  | .value value => some (.ok value)
  | .generated source _ cyclic =>
    if cyclic then some (.error (.cyclic key (layer.scope.cyclePath key source)))
    else produce layer key source

def fromBinding (produce : Producer) (layer : Layer) (key : Key) (binding : Binding) :
    Option Answer :=
  match layer.scope.slots.find? binding.source with
  | some backing => (fromSlot produce layer binding.source backing).bind (binding.convert key)
  | none => some (.error (.notFound binding.source))

/-- What a type comes to by the nearest scope that has a slot for it, or else an interface. -/
def search (produce : Producer) (key : Key) : Scope → List Scope → Option Answer
  | scope, outer =>
    match scope.slots.find? key with
    | some backing => fromSlot produce ⟨scope, outer⟩ key backing
    | none =>
      match scope.bindings.find? key with
      | some binding => fromBinding produce ⟨scope, outer⟩ key binding
      | none =>
        match outer with
        | [] => some (.error (.notFound key))
        | parent :: further => search produce key parent further

def gather (evaluate : Key → Option Answer) :
    List Supply → Option (Except ResolutionError (List Argument))
  | [] => some (.ok [])
  | supply :: rest =>
    supply.key?.bind fun key => (evaluate key).bind fun answer =>
      match Resolution.accept supply key answer with
      | .error error => some (.error error)
      | .ok argument => (gather evaluate rest).map (Except.map (argument :: ·))

def produce (evaluate : Layer → Key → Option Answer) : Producer :=
  fun layer key source =>
    (gather (evaluate layer) (source.generator.parameters.map Parameter.supply)).bind fun
      | .error error => some (.error error)
      | .ok arguments => (source.generator.body 1 arguments).outcome?.map (source.product key)

end Evaluation

/-- What a type comes to in a layer, with so many generators below one another at most. -/
def Layer.evaluate : Nat → Layer → Key → Option Answer
  | 0, _, _ => none
  | depth + 1, layer, key =>
    Evaluation.search (Evaluation.produce (evaluate depth)) key layer.scope layer.outer

def Layer.Evaluates (layer : Layer) (key : Key) (answer : Answer) : Prop :=
  ∃ depth, layer.evaluate depth key = some answer

namespace Evaluation

section

variable {first second : Producer}

theorem fromSlot_mono
    (h : ∀ layer key source answer, first layer key source = some answer →
      second layer key source = some answer) {layer : Layer} {key : Key} {backing : Backing}
    {answer : Answer} (hfirst : fromSlot first layer key backing = some answer) :
    fromSlot second layer key backing = some answer := by
  cases backing with
  | value value => exact hfirst
  | generated source eager cyclic =>
    cases cyclic with
    | true => exact hfirst
    | false => exact h _ _ _ _ hfirst

theorem fromBinding_mono
    (h : ∀ layer key source answer, first layer key source = some answer →
      second layer key source = some answer) {layer : Layer} {key : Key} {binding : Binding}
    {answer : Answer} (hfirst : fromBinding first layer key binding = some answer) :
    fromBinding second layer key binding = some answer := by
  unfold fromBinding at hfirst ⊢
  split at hfirst
  · obtain ⟨found, hfound, hconvert⟩ := Option.bind_eq_some_iff.mp hfirst
    exact Option.bind_eq_some_iff.mpr ⟨found, fromSlot_mono h hfound, hconvert⟩
  · exact hfirst

theorem search_mono
    (h : ∀ layer key source answer, first layer key source = some answer →
      second layer key source = some answer) {key : Key} {scope : Scope} {outer : List Scope}
    {answer : Answer} (hfirst : search first key scope outer = some answer) :
    search second key scope outer = some answer := by
  induction outer generalizing scope with
  | nil =>
    rw [search] at hfirst ⊢
    split at hfirst
    · exact fromSlot_mono h hfirst
    · split at hfirst
      · exact fromBinding_mono h hfirst
      · exact hfirst
  | cons parent further ih =>
    rw [search] at hfirst ⊢
    split at hfirst
    · exact fromSlot_mono h hfirst
    · split at hfirst
      · exact fromBinding_mono h hfirst
      · exact ih hfirst

end

theorem gather_mono {first second : Key → Option Answer}
    (h : ∀ key answer, first key = some answer → second key = some answer)
    {supplies : List Supply} {gathered : Except ResolutionError (List Argument)}
    (hfirst : gather first supplies = some gathered) : gather second supplies = some gathered := by
  induction supplies generalizing gathered with
  | nil => exact hfirst
  | cons supply rest ih =>
    rw [gather] at hfirst ⊢
    obtain ⟨key, hkey, hfirst⟩ := Option.bind_eq_some_iff.mp hfirst
    obtain ⟨answer, hanswer, hfirst⟩ := Option.bind_eq_some_iff.mp hfirst
    refine Option.bind_eq_some_iff.mpr ⟨key, hkey, ?_⟩
    refine Option.bind_eq_some_iff.mpr ⟨answer, h key answer hanswer, ?_⟩
    split at hfirst
    · exact hfirst
    · obtain ⟨collected, hcollected, heq⟩ := Option.map_eq_some_iff.mp hfirst
      exact Option.map_eq_some_iff.mpr ⟨collected, ih hcollected, heq⟩

theorem produce_mono {first second : Layer → Key → Option Answer}
    (h : ∀ layer key answer, first layer key = some answer → second layer key = some answer)
    (layer : Layer) (key : Key) (source : Registered) (answer : Answer)
    (hfirst : produce first layer key source = some answer) :
    produce second layer key source = some answer := by
  obtain ⟨gathered, hgathered, hanswer⟩ := Option.bind_eq_some_iff.mp hfirst
  exact Option.bind_eq_some_iff.mpr ⟨gathered, gather_mono (h layer) hgathered, hanswer⟩

end Evaluation

namespace Layer

open Evaluation

theorem evaluate_succ {depth : Nat} {layer : Layer} {key : Key} {answer : Answer}
    (h : layer.evaluate depth key = some answer) :
    layer.evaluate (depth + 1) key = some answer := by
  induction depth generalizing layer key answer with
  | zero => cases h
  | succ depth ih => exact search_mono (produce_mono fun _ _ _ => ih) h

/-- What a type comes to at some depth it comes to at every greater one. -/
theorem evaluate_mono {depth more : Nat} (le : depth ≤ more) {layer : Layer} {key : Key}
    {answer : Answer} (h : layer.evaluate depth key = some answer) :
    layer.evaluate more key = some answer := by
  induction le with
  | refl => exact h
  | step le ih => exact evaluate_succ ih

def Collects (layer : Layer) (supplies : List Supply)
    (gathered : Except ResolutionError (List Argument)) : Prop :=
  ∃ depth, gather (layer.evaluate depth) supplies = some gathered

namespace Collects

variable {layer : Layer} {supply : Supply} {rest : List Supply} {key : Key} {answer : Answer}

theorem nil (layer : Layer) : layer.Collects [] (.ok []) := ⟨0, rfl⟩

theorem refused {error : ResolutionError} (asked : supply.key? = some key)
    (answers : layer.Evaluates key answer)
    (unacceptable : Resolution.accept supply key answer = .error error) :
    layer.Collects (supply :: rest) (.error error) := by
  obtain ⟨depth, hanswer⟩ := answers
  refine ⟨depth, ?_⟩
  rw [gather, asked, Option.bind_some, hanswer, Option.bind_some, unacceptable]

theorem found {argument : Argument} {gathered : Except ResolutionError (List Argument)}
    (asked : supply.key? = some key) (answers : layer.Evaluates key answer)
    (acceptable : Resolution.accept supply key answer = .ok argument)
    (further : layer.Collects rest gathered) :
    layer.Collects (supply :: rest) (gathered.map (argument :: ·)) := by
  obtain ⟨depth, hanswer⟩ := answers
  obtain ⟨depth', hgathered⟩ := further
  refine ⟨max depth depth', ?_⟩
  have hanswer := evaluate_mono (Nat.le_max_left depth depth') hanswer
  have hgathered := gather_mono
    (fun key answer h => evaluate_mono (Nat.le_max_right depth depth') h) hgathered
  rw [gather, asked, Option.bind_some, hanswer, Option.bind_some, acceptable]
  exact Option.map_eq_some_iff.mpr ⟨gathered, hgathered, rfl⟩

end Collects

namespace Evaluates

variable {scope parent : Scope} {outer further : List Scope} {key : Key} {source : Registered}
  {eager : Bool} {binding : Binding} {backing : Backing} {answer : Answer}

theorem of_slot (slot : scope.slots.find? key = some backing)
    (h : ∃ depth, fromSlot (produce (evaluate depth)) ⟨scope, outer⟩ key backing = some answer) :
    Evaluates ⟨scope, outer⟩ key answer := by
  obtain ⟨depth, h⟩ := h
  refine ⟨depth + 1, ?_⟩
  unfold evaluate search
  simp only [slot]
  exact h

theorem of_value {value : Value} (slot : scope.slots.find? key = some (.value value)) :
    Evaluates ⟨scope, outer⟩ key (.ok value) :=
  of_slot slot ⟨0, rfl⟩

theorem of_cyclic (slot : scope.slots.find? key = some (.generated source eager true)) :
    Evaluates ⟨scope, outer⟩ key (.error (.cyclic key (scope.cyclePath key source))) :=
  of_slot slot ⟨0, rfl⟩

theorem of_unsupplied (slot : scope.slots.find? key = some (.generated source eager false))
    {error : ResolutionError}
    (collects : Layer.Collects ⟨scope, outer⟩ (source.generator.parameters.map Parameter.supply)
      (.error error)) : Evaluates ⟨scope, outer⟩ key (.error error) := by
  obtain ⟨depth, h⟩ := collects
  exact of_slot slot ⟨depth, Option.bind_eq_some_iff.mpr ⟨_, h, rfl⟩⟩

theorem of_returned (slot : scope.slots.find? key = some (.generated source eager false))
    {arguments : List Argument} {yield : Yield}
    (collects : Layer.Collects ⟨scope, outer⟩ (source.generator.parameters.map Parameter.supply)
      (.ok arguments)) (outcome : (source.generator.body 1 arguments).outcome? = some yield) :
    Evaluates ⟨scope, outer⟩ key (source.product key yield) := by
  obtain ⟨depth, h⟩ := collects
  refine of_slot slot ⟨depth, Option.bind_eq_some_iff.mpr ⟨_, h, ?_⟩⟩
  exact Option.map_eq_some_iff.mpr ⟨yield, outcome, rfl⟩

theorem of_source (noSlot : scope.slots.find? key = none)
    (interface : scope.bindings.find? key = some binding)
    (behind : scope.slots.find? binding.source = some backing)
    (answers : Evaluates ⟨scope, outer⟩ binding.source answer) {converted : Answer}
    (converts : binding.convert key answer = some converted) :
    Evaluates ⟨scope, outer⟩ key converted := by
  obtain ⟨depth, h⟩ := answers
  refine ⟨depth, ?_⟩
  cases depth with
  | zero => cases h
  | succ depth =>
    unfold evaluate search at h ⊢
    simp only [behind] at h
    simp only [noSlot, interface, fromBinding, behind]
    exact Option.bind_eq_some_iff.mpr ⟨answer, h, converts⟩

theorem of_unbacked (noSlot : scope.slots.find? key = none)
    (interface : scope.bindings.find? key = some binding)
    (noSource : scope.slots.find? binding.source = none) :
    Evaluates ⟨scope, outer⟩ key (.error (.notFound binding.source)) := by
  refine ⟨1, ?_⟩
  unfold evaluate search
  simp only [noSlot, interface, fromBinding, noSource]

theorem of_missing (unowned : scope.owns key = false) :
    Evaluates ⟨scope, []⟩ key (.error (.notFound key)) := by
  obtain ⟨noSlot, noBinding⟩ := Scope.owns_eq_false_iff.mp unowned
  refine ⟨1, ?_⟩
  unfold evaluate search
  simp only [noSlot, noBinding]

theorem of_parent (unowned : scope.owns key = false)
    (answers : Evaluates ⟨parent, further⟩ key answer) :
    Evaluates ⟨scope, parent :: further⟩ key answer := by
  obtain ⟨noSlot, noBinding⟩ := Scope.owns_eq_false_iff.mp unowned
  obtain ⟨depth, h⟩ := answers
  refine ⟨depth, ?_⟩
  cases depth with
  | zero => cases h
  | succ depth =>
    unfold evaluate at h ⊢
    rw [search]
    simp only [noSlot, noBinding]
    exact h

/-- A type comes to one answer. -/
theorem unique {layer : Layer} {other : Answer} (first : layer.Evaluates key answer)
    (second : layer.Evaluates key other) : answer = other := by
  obtain ⟨depth, hfirst⟩ := first
  obtain ⟨depth', hsecond⟩ := second
  have hfirst := evaluate_mono (Nat.le_max_left depth depth') hfirst
  have hsecond := evaluate_mono (Nat.le_max_right depth depth') hsecond
  exact Option.some.inj (hfirst.symm.trans hsecond)

end Evaluates

end Layer

namespace Act

variable {α : Type} {act : Act Command α} {result : α}

theorem Silent.of_outcome? (h : act.outcome? = some result) : act.Silent := by
  induction act with
  | done | panic => trivial
  | cancel name next ih => exact ih h
  | elapse time next ih => exact ih h
  | noteThread next ih => exact ih h
  | perform command next ih => cases h

/-- Code that neither gives commands nor panics yields its outcome in every world. -/
theorem run_of_outcome? (h : act.outcome? = some result) (perform : Command → Engine Reply)
    (world : World) : (Engine.run perform act world).1 = .ok result := by
  induction act generalizing world with
  | done found =>
    obtain rfl := Option.some.inj h
    rfl
  | panic message => cases h
  | cancel name next ih => exact ih h _
  | elapse time next ih => exact ih h _
  | noteThread next ih => exact ih h _
  | perform command next ih => cases h

end Act

/-- Generators ask only for values, required or optional. Bodies and casts neither give commands nor
panic. What a body yields depends on its arguments alone, and its products are of the types of the
outputs, one for each. -/
structure Scope.Steady (scope : Scope) : Prop where
  parameters : ∀ key source eager cyclic,
    scope.slots.find? key = some (.generated source eager cyclic) →
      ∀ parameter ∈ source.generator.parameters, ∃ dependency,
        parameter = .required dependency ∨ parameter = .optional dependency
  bodies : ∀ key source eager cyclic,
    scope.slots.find? key = some (.generated source eager cyclic) → ∀ arguments, ∃ yield,
      (∀ run, (source.generator.body run arguments).outcome? = some yield) ∧
        ∀ products, yield = .products products →
          products.map Value.type = source.generator.outputs
  casts : ∀ key binding, scope.bindings.find? key = some binding → ∀ call payload, ∃ result,
    (binding.cast.apply call payload).outcome? = some result

namespace Scope.Steady

variable {scope : Scope} {key : Key} {source : Registered} {eager cyclic : Bool}

theorem asks (steady : scope.Steady)
    (slot : scope.slots.find? key = some (.generated source eager cyclic)) {parameter : Parameter}
    (hparameter : parameter ∈ source.generator.parameters) : ∃ dependency,
      parameter.supply.key? = some dependency ∧ parameter.declared.key? = some dependency := by
  obtain ⟨dependency, rfl | rfl⟩ := steady.parameters _ _ _ _ slot parameter hparameter
  · exact ⟨dependency, rfl, rfl⟩
  · exact ⟨dependency, rfl, rfl⟩

theorem declares (steady : scope.Steady) : scope.Declares := by
  intro key source eager cyclic slot parameter hparameter dependency hasked
  obtain ⟨other, hsupply, hdeclared⟩ := steady.asks slot hparameter
  obtain rfl := Option.some.inj (hasked.symm.trans hsupply)
  refine List.mem_filterMap.mpr ⟨parameter.declared, ?_, hdeclared⟩
  exact List.mem_map.mpr ⟨parameter, hparameter, rfl⟩

/-- A body that is run comes to its end, with the same in every run for the same arguments. -/
theorem body_returns (steady : scope.Steady)
    (slot : scope.slots.find? key = some (.generated source eager cyclic))
    {perform : Command → Engine Reply} {run : Nat} {arguments : List Argument}
    {world after : World} {result : Except Stop Yield}
    (body : Engine.run perform (source.generator.body run arguments) world = (result, after)) :
    ∃ yield, result = .ok yield ∧
      (∀ run, (source.generator.body run arguments).outcome? = some yield) ∧
      ∀ products, yield = .products products →
        products.map Value.type = source.generator.outputs := by
  obtain ⟨yield, houtcome, hproducts⟩ := steady.bodies _ _ _ _ slot arguments
  have hresult := Act.run_of_outcome? (houtcome run) perform world
  rw [body] at hresult
  exact ⟨yield, hresult, houtcome, hproducts⟩

theorem cast_returns (steady : scope.Steady) {binding : Binding}
    (interface : scope.bindings.find? key = some binding) {perform : Command → Engine Reply}
    {call : Nat} {payload : String} {world after : World} {result : Except Stop String}
    (cast : Engine.run perform (binding.cast.apply call payload) world = (result, after)) :
    ∃ found, result = .ok found ∧ (binding.cast.apply call payload).outcome? = some found := by
  obtain ⟨found, houtcome⟩ := steady.casts key binding interface call payload
  have hresult := Act.run_of_outcome? houtcome perform world
  rw [cast] at hresult
  exact ⟨found, hresult, houtcome⟩

theorem product_typed (steady : scope.Steady)
    (slot : scope.slots.find? key = some (.generated source eager cyclic))
    {arguments : List Argument} {yield : Yield}
    (outcome : (source.generator.body 1 arguments).outcome? = some yield) {value : Value}
    (h : source.product key yield = .ok value) : value.type = key := by
  obtain ⟨found, hfound, hproducts⟩ := steady.bodies _ _ _ _ slot arguments
  obtain rfl := Option.some.inj ((hfound 1).symm.trans outcome)
  cases found with
  | failed message => cases h
  | nil output => cases h
  | products values =>
    have htypes := hproducts values rfl
    unfold Registered.product at h
    dsimp only at h
    split at h
    · next product hproduct =>
      obtain rfl := Except.ok.inj h
      have htype : (values.map Value.type)[source.generator.outputs.idxOf key]? =
          some product.type := by rw [List.getElem?_map, hproduct]; rfl
      rw [htypes] at htype
      obtain ⟨hlt, hkey⟩ := List.getElem?_eq_some_iff.mp htype
      exact hkey.symm.trans (List.getElem_idxOf hlt)
    · cases h

end Scope.Steady

def Layer.Steady (layer : Layer) : Prop := ∀ scope ∈ layer.ancestry, scope.Steady

theorem Layer.Steady.parent {scope parent : Scope} {further : List Scope}
    (steady : Layer.Steady ⟨scope, parent :: further⟩) : Layer.Steady ⟨parent, further⟩ :=
  fun other hother => steady other (List.mem_cons_of_mem _ hother)

namespace Evaluation

variable {evaluate : Layer → Key → Option Answer} {scope : Scope} {outer : List Scope} {key : Key}
  {value : Value}

theorem fromSlot_typed (sound : scope.Sound) (steady : scope.Steady) {backing : Backing}
    (slot : scope.slots.find? key = some backing)
    (h : fromSlot (produce evaluate) ⟨scope, outer⟩ key backing = some (.ok value)) :
    value.type = key := by
  match backing with
  | .value found =>
    obtain rfl := Except.ok.inj (Option.some.inj h)
    exact sound.typed key found slot
  | .generated source eager true => cases Option.some.inj h
  | .generated source eager false =>
    obtain ⟨gathered, -, hproduct⟩ := Option.bind_eq_some_iff.mp h
    cases gathered with
    | error error => cases Option.some.inj hproduct
    | ok arguments =>
      obtain ⟨yield, houtcome, hvalue⟩ := Option.map_eq_some_iff.mp hproduct
      exact steady.product_typed slot houtcome hvalue

theorem fromBinding_typed {binding : Binding}
    (h : fromBinding (produce evaluate) ⟨scope, outer⟩ key binding = some (.ok value)) :
    value.type = key := by
  unfold fromBinding at h
  split at h
  · obtain ⟨answer, -, hconvert⟩ := Option.bind_eq_some_iff.mp h
    unfold Binding.convert at hconvert
    split at hconvert
    · cases Option.some.inj hconvert
    · split at hconvert
      · obtain ⟨payload, -, hvalue⟩ := Option.map_eq_some_iff.mp hconvert
        rw [← Except.ok.inj hvalue]
      · cases Option.some.inj hconvert
  · cases Option.some.inj h

theorem search_typed (sound : ∀ other ∈ scope :: outer, other.Sound)
    (steady : ∀ other ∈ scope :: outer, other.Steady)
    (h : search (produce evaluate) key scope outer = some (.ok value)) : value.type = key := by
  induction outer generalizing scope with
  | nil =>
    rw [search] at h
    split at h
    · next slot =>
      exact fromSlot_typed (sound _ List.mem_cons_self) (steady _ List.mem_cons_self) slot h
    · split at h
      · exact fromBinding_typed h
      · cases Option.some.inj h
  | cons parent further ih =>
    rw [search] at h
    split at h
    · next slot =>
      exact fromSlot_typed (sound _ List.mem_cons_self) (steady _ List.mem_cons_self) slot h
    · split at h
      · exact fromBinding_typed h
      · exact ih (fun other hother => sound other (List.mem_cons_of_mem _ hother))
          (fun other hother => steady other (List.mem_cons_of_mem _ hother)) h

end Evaluation

theorem Layer.Evaluates.typed {layer : Layer} {key : Key} {value : Value}
    (answers : layer.Evaluates key (.ok value)) (sound : ∀ scope ∈ layer.ancestry, scope.Sound)
    (steady : layer.Steady) : value.type = key := by
  obtain ⟨depth, h⟩ := answers
  cases depth with
  | zero => cases h
  | succ depth => exact Evaluation.search_typed sound steady h

end LayerGraph
