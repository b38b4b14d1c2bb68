import LayerGraph.Proofs.Provenance

/-! What is checked when a layer is built is what its requests rely on.

A builder looks at its entries and at the layers around before there is a layer; a request looks at
slots, interfaces, imports and parents. The two agree: what a builder finds missing nobody provides,
and what it finds provided is found by every request. -/

namespace LayerGraph

namespace Entry

def registers (key : Key) : Entry Command → Bool
  | .value type _ => type == key
  | .generator maker _ => maker.outputs.contains key
  | .absent _ | .interface .. => false

def declares (key : Key) : Entry Command → Bool
  | .interface type _ _ => type == key
  | _ => false

def sources (place : Nat) : Entry Command → List Registered
  | .generator maker _ => [⟨place, maker⟩]
  | _ => []

def backing? (place : Nat) (key : Key) : Entry Command → Option Backing
  | .value type payload => if type = key then some (.value ⟨type, payload⟩) else none
  | .generator maker eager =>
    if key ∈ maker.outputs then some (.generated ⟨place, maker⟩ eager false) else none
  | .absent _ | .interface .. => none

theorem isSome_backing? (place : Nat) (key : Key) (entry : Entry Command) :
    (entry.backing? place key).isSome = entry.registers key := by
  cases entry with
  | value type payload => by_cases h : type = key <;> simp [backing?, registers, h]
  | generator maker eager => by_cases h : key ∈ maker.outputs <;> simp [backing?, registers, h]
  | absent type => rfl
  | interface type source cast => rfl

theorem backing?_any_isFedBy {place other : Nat} (hplace : other ≠ place) (key : Key)
    (entry : Entry Command) : (entry.backing? place key).any (Backing.isFedBy other) = false := by
  cases entry with
  | value type payload => by_cases h : type = key <;> simp [backing?, Backing.isFedBy, h]
  | generator maker eager =>
    by_cases h : key ∈ maker.outputs <;> simp [backing?, Backing.isFedBy, h, hplace.symm]
  | absent type => rfl
  | interface type source cast => rfl

end Entry

namespace Generator

/-- Whether one of a generator's outputs is left to it by the entries that come later. -/
def lasts (generator : Generator Command) (later : List (Entry Command)) : Bool :=
  generator.outputs.any fun output => !later.any (Entry.registers output)

def requirements (generator : Generator Command) : List (Key × Generator Command) :=
  (generator.declarations.filterMap Declaration.requiredKey?).map (·, generator)

end Generator

/-- What entries require: of each generator that is left with an output, in the order in which the
generators were registered. -/
def requirements : List (Entry Command) → List (Key × Generator Command)
  | [] => []
  | .generator maker _ :: later =>
    (if maker.lasts later then maker.requirements else []) ++ requirements later
  | _ :: later => requirements later

namespace Builder

/-- Whether some entry, or some layer around, has a slot or an interface for a type. -/
def provides (builder : Builder) (key : Key) : Bool :=
  builder.entries.any (Entry.registers key) || builder.entries.any (Entry.declares key) ||
    builder.outer.any (·.owns key)

variable {builder : Builder} {ledger after final : Ledger} {entry : Entry Command}
  {entries : List (Entry Command)}

structure Enters (ledger : Ledger) (entry : Entry Command) (after : Ledger) : Prop where
  slots : ∀ key, after.slots.find? key =
    (entry.backing? ledger.generators.length key).or (ledger.slots.find? key)
  generators : after.generators = ledger.generators ++ entry.sources ledger.generators.length
  interfaces : ∀ key, after.interfaces.any (·.interface == key) =
    (ledger.interfaces.any (·.interface == key) || entry.declares key)

theorem enter_enters (h : builder.enter ledger entry = .ok after) : Enters ledger entry after := by
  cases entry with
  | value type payload =>
    rw [enter] at h
    obtain ⟨slots, hslots, hafter⟩ := bind_eq_ok_inv h
    obtain rfl := Except.ok.inj hafter
    obtain rfl := occupy_ok hslots
    refine ⟨fun key => ?_, (List.append_nil _).symm, fun key => (Bool.or_false _).symm⟩
    rw [Table.find?_set, Entry.backing?]
    by_cases hkey : type = key
    · rw [if_pos hkey.symm, if_pos hkey, Option.some_or]
    · rw [if_neg (Ne.symm hkey), if_neg hkey, Option.none_or]
  | absent type =>
    rw [enter] at h
    split at h
    · obtain rfl := Except.ok.inj h
      exact ⟨fun key => rfl, (List.append_nil _).symm, fun key => (Bool.or_false _).symm⟩
    · cases h
  | generator maker eager =>
    rw [enter] at h
    obtain ⟨_, -, h⟩ := bind_eq_ok_inv h
    obtain ⟨slots, hslots, hafter⟩ := bind_eq_ok_inv h
    obtain rfl := Except.ok.inj hafter
    refine ⟨fun key => ?_, rfl, fun key => (Bool.or_false _).symm⟩
    rw [find?_occupyAll hslots key, Entry.backing?]
    split <;> rfl
  | interface type source cast =>
    rw [enter] at h
    obtain rfl := Except.ok.inj h
    exact ⟨fun key => rfl, (List.append_nil _).symm, fun key => by simp [Entry.declares]⟩

namespace Enters

theorem fed (enters : Enters ledger entry after) {place : Nat}
    (earlier : place < ledger.generators.length) (key : Key) :
    (after.slots.find? key).any (Backing.isFedBy place) =
      ((ledger.slots.find? key).any (Backing.isFedBy place) && !entry.registers key) := by
  have hother := Entry.backing?_any_isFedBy (Nat.ne_of_lt earlier) key entry
  rw [enters.slots, ← Entry.isSome_backing? ledger.generators.length]
  revert hother
  cases entry.backing? ledger.generators.length key with
  | none => simp
  | some backing => simp

end Enters

/-- A slot is fed by an earlier generator at the end if it was before, unless it is registered
again on the way. -/
theorem scan_fed (h : builder.scan ledger entries = (final, none)) {place : Nat}
    (earlier : place < ledger.generators.length) (key : Key) :
    (final.slots.find? key).any (Backing.isFedBy place) =
      ((ledger.slots.find? key).any (Backing.isFedBy place) &&
        !entries.any (Entry.registers key)) := by
  induction entries generalizing ledger with
  | nil =>
    obtain ⟨rfl, -⟩ := Prod.mk.inj h
    simp
  | cons entry rest ih =>
    rw [scan] at h
    split at h
    · next between hentry =>
      have enters := enter_enters hentry
      have hbetween : place < between.generators.length := by
        rw [enters.generators, List.length_append]
        omega
      rw [ih h hbetween, enters.fed earlier, List.any_cons, Bool.not_or, Bool.and_assoc]
    · cases h

theorem scan_contains (h : builder.scan ledger entries = (final, none)) (key : Key) :
    final.slots.contains key =
      (ledger.slots.contains key || entries.any (Entry.registers key)) := by
  induction entries generalizing ledger with
  | nil =>
    obtain ⟨rfl, -⟩ := Prod.mk.inj h
    simp
  | cons entry rest ih =>
    rw [scan] at h
    split at h
    · next between hentry =>
      have hentry : between.slots.contains key =
          (ledger.slots.contains key || entry.registers key) := by
        unfold Table.contains
        rw [(enter_enters hentry).slots, Option.isSome_or, Entry.isSome_backing?, Bool.or_comm]
      rw [ih h, hentry, List.any_cons, Bool.or_assoc]
    · cases h

theorem scan_interfaces (h : builder.scan ledger entries = (final, none)) (key : Key) :
    final.interfaces.any (·.interface == key) =
      (ledger.interfaces.any (·.interface == key) || entries.any (Entry.declares key)) := by
  induction entries generalizing ledger with
  | nil =>
    obtain ⟨rfl, -⟩ := Prod.mk.inj h
    simp
  | cons entry rest ih =>
    rw [scan] at h
    split at h
    · next between hentry =>
      rw [ih h, (enter_enters hentry).interfaces, List.any_cons, Bool.or_assoc]
    · cases h

/-- The generators that come with the entries and feed a slot at the end are those that are left with
an output. -/
theorem scan_requirements (h : builder.scan ledger entries = (final, none)) :
    ∃ added, final.generators = ledger.generators ++ added ∧
      (feeding final.slots added).flatMap (·.generator.requirements) = requirements entries := by
  induction entries generalizing ledger with
  | nil =>
    obtain ⟨rfl, -⟩ := Prod.mk.inj h
    exact ⟨[], (List.append_nil _).symm, rfl⟩
  | cons entry rest ih =>
    rw [scan] at h
    split at h
    · next between hentry =>
      have enters := enter_enters hentry
      obtain ⟨added, hfinal, hadded⟩ := ih h
      refine ⟨entry.sources ledger.generators.length ++ added, ?_, ?_⟩
      · rw [hfinal, enters.generators, List.append_assoc]
      · cases entry with
        | generator maker eager =>
          have hplace : ledger.generators.length < between.generators.length := by
            rw [enters.generators, List.length_append]
            exact Nat.lt_succ_self _
          have hfeeds : (maker.outputs.any fun output =>
              (final.slots.find? output).any (Backing.isFedBy ledger.generators.length)) =
              maker.lasts rest := by
            rw [Bool.eq_iff_iff, Generator.lasts, List.any_eq_true, List.any_eq_true]
            refine exists_congr fun output => and_congr_right fun houtput => ?_
            rw [scan_fed h hplace, enters.slots, Entry.backing?, if_pos houtput, Option.some_or]
            simp [Backing.isFedBy]
          rw [requirements, ← hadded, ← hfeeds]
          change (feeding final.slots (⟨ledger.generators.length, maker⟩ :: added)).flatMap _ = _
          rw [feeding, List.filter_cons]
          dsimp only
          split <;> rfl
        | value type payload => exact hadded
        | absent type => exact hadded
        | interface type source cast => exact hadded
    · cases h

theorem bindAll_contains {slots : Table Key Backing} {interfaces : List Declared}
    {bindings last : Table Key Binding}
    (h : interfaces.foldlM (builder.bindInterface slots) bindings = .ok last) (key : Key) :
    last.contains key = (bindings.contains key || interfaces.any (·.interface == key)) := by
  induction interfaces generalizing bindings with
  | nil =>
    obtain rfl := Except.ok.inj h
    simp
  | cons declared rest ih =>
    rw [List.foldlM_cons] at h
    obtain ⟨between, hfirst, hrest⟩ := bind_eq_ok_inv h
    obtain ⟨-, hbetween⟩ := bindInterface_ok hfirst
    have hcontains : between.contains key =
        (bindings.contains key || declared.interface == key) := by
      unfold Table.contains
      rw [hbetween, Table.find?_set]
      by_cases hkey : key = declared.interface
      · simp [hkey]
      · simp [hkey, Ne.symm hkey]
    rw [ih hrest, hcontains, List.any_cons, Bool.or_assoc]

theorem findSome?_flatMap {α β γ : Type} (parts : α → List β) (find : β → Option γ)
    (items : List α) :
    (items.flatMap parts).findSome? find = items.findSome? fun item => (parts item).findSome? find := by
  induction items with
  | nil => rfl
  | cons item rest ih =>
    rw [List.flatMap_cons, List.findSome?_append, ih, List.findSome?_cons]
    cases (parts item).findSome? find <;> rfl

theorem any_canResolve {world : World} (faithful : world.Faithful) (valid : world.Valid)
    (parent : ∀ parent, builder.parent = some parent → parent ∈ world.built) (key : Key) :
    builder.parent.any (·.canResolve world.memory key) = builder.outer.any (·.owns key) := by
  unfold outer
  cases hparent : builder.parent with
  | none => rfl
  | some layer =>
    rw [Option.any_some, Layer.canResolve_eq ⟨valid, parent layer hparent⟩ faithful,
      Layer.owner?, List.isSome_find?]

/-- The check of the parameters goes through what the entries require, in order, up to the first
type that neither an entry nor the parent provides. -/
theorem unresolvable?_eq_findSome? (memory : Memory) (hledger : builder.ledger = (ledger, none))
    {bindings : Table Key Binding}
    (hbindings : ledger.interfaces.foldlM (builder.bindInterface ledger.slots) {} = .ok bindings) :
    builder.unresolvable? memory ledger.slots bindings
        (feeding ledger.slots ledger.generators) =
      (requirements builder.entries).findSome? fun (key, generator) =>
        if builder.entries.any (Entry.registers key) || builder.entries.any (Entry.declares key) ||
            builder.parent.any (·.canResolve memory key) then none
        else some (.unresolvableParameter key generator.signature) := by
  obtain ⟨added, hadded, hrequirements⟩ := scan_requirements hledger
  rw [List.nil_append] at hadded
  have hprovided (key : Key) : (ledger.slots.contains key || bindings.contains key) =
      (builder.entries.any (Entry.registers key) ||
        builder.entries.any (Entry.declares key)) := by
    rw [bindAll_contains hbindings, scan_contains hledger, scan_interfaces hledger]
    rfl
  rw [unresolvable?, hadded, ← hrequirements, findSome?_flatMap]
  refine congrArg (List.findSome? · _) (funext fun source => ?_)
  rw [Generator.requirements, List.findSome?_map]
  refine congrArg (List.findSome? · _) (funext fun key => ?_)
  rw [hprovided]
  rfl

theorem unresolvable?_eq {world : World} (faithful : world.Faithful) (valid : world.Valid)
    (parent : ∀ parent, builder.parent = some parent → parent ∈ world.built)
    (hledger : builder.ledger = (ledger, none)) {bindings : Table Key Binding}
    (hbindings : ledger.interfaces.foldlM (builder.bindInterface ledger.slots) {} = .ok bindings) :
    builder.unresolvable? world.memory ledger.slots bindings
        (feeding ledger.slots ledger.generators) =
      (requirements builder.entries).findSome? fun (key, generator) =>
        if builder.provides key then none
        else some (.unresolvableParameter key generator.signature) := by
  rw [unresolvable?_eq_findSome? world.memory hledger hbindings]
  simp only [any_canResolve faithful valid parent]
  rfl

section

variable {parameter : Key} {signature : String}

theorem occupy_ne_unresolvable {slots : Table Key Backing} {key : Key} {backing : Backing} :
    builder.occupy slots key backing ≠ .error (.unresolvableParameter parameter signature) := by
  intro h
  unfold occupy mayReplace at h
  split at h
  · split at h
    · cases h
    · split at h <;> cases h
  · cases h

theorem check_ne_unresolvable {generator : Generator Command} :
    generator.check ≠ .error (.unresolvableParameter parameter signature) := by
  intro h
  unfold Generator.check at h
  split at h
  · cases h
  · split at h
    · cases h
    · split at h <;> cases h

theorem enter_ne_unresolvable :
    builder.enter ledger entry ≠ .error (.unresolvableParameter parameter signature) := by
  intro h
  cases entry with
  | value type payload =>
    rcases bind_eq_error_inv h with hslots | ⟨slots, -, hafter⟩
    · exact occupy_ne_unresolvable hslots
    · cases hafter
  | absent type =>
    rw [enter] at h
    split at h <;> cases h
  | generator maker eager =>
    rcases bind_eq_error_inv h with hcheck | ⟨_, -, h⟩
    · exact check_ne_unresolvable hcheck
    · rcases bind_eq_error_inv h with hslots | ⟨slots, -, hafter⟩
      · obtain ⟨slots, output, houtput⟩ := foldlM_error_inv hslots
        exact occupy_ne_unresolvable houtput
      · cases hafter
  | interface type source cast => cases h

theorem bindInterface_ne_unresolvable {slots : Table Key Backing}
    {bindings : Table Key Binding} {declared : Declared} :
    builder.bindInterface slots bindings declared ≠
      .error (.unresolvableParameter parameter signature) := by
  intro h
  unfold bindInterface at h
  split at h
  · cases h
  · split at h
    · split at h <;> cases h
    · cases h

theorem scan_ne_unresolvable (h : builder.scan ledger entries =
    (final, some (.unresolvableParameter parameter signature))) : False := by
  induction entries generalizing ledger with
  | nil => cases h
  | cons entry rest ih =>
    rw [scan] at h
    split at h
    · exact ih h
    · next error hentry =>
      obtain ⟨-, herror⟩ := Prod.mk.inj h
      rw [Option.some.inj herror] at hentry
      exact enter_ne_unresolvable hentry

/-- What a builder reports as unresolvable is the first type that is required and not provided. -/
theorem assemble_unresolvable {world : World} (faithful : world.Faithful) (valid : world.Valid)
    (parent : ∀ parent, builder.parent = some parent → parent ∈ world.built) {id : Nat}
    (h : builder.assemble world.memory id = .error (.unresolvableParameter parameter signature)) :
    ∃ earlier generator later,
      requirements builder.entries = earlier ++ (parameter, generator) :: later ∧
      signature = generator.signature ∧ builder.provides parameter = false ∧
      ∀ requirement ∈ earlier, builder.provides requirement.1 = true := by
  rcases assemble_eq_error_iff.mp h with
    hoffence | ⟨ledger, hledger, hbindings | ⟨bindings, hbindings, hunresolvable⟩⟩
  · rcases hledger : builder.ledger with ⟨ledger, offence⟩
    rw [hledger] at hoffence
    subst hoffence
    exact (scan_ne_unresolvable hledger).elim
  · obtain ⟨bindings, declared, hdeclared⟩ := foldlM_error_inv hbindings
    exact (bindInterface_ne_unresolvable hdeclared).elim
  · rw [unresolvable?_eq faithful valid parent hledger hbindings] at hunresolvable
    obtain ⟨earlier, ⟨key, generator⟩, later, hrequirements, hfound, hearlier⟩ :=
      List.findSome?_eq_some_iff.mp hunresolvable
    dsimp only at hfound
    split at hfound
    · cases hfound
    · next missing =>
      obtain ⟨rfl, rfl⟩ := BuildError.unresolvableParameter.inj (Option.some.inj hfound)
      refine ⟨earlier, generator, later, hrequirements, rfl, Bool.eq_false_iff.mpr missing,
        fun requirement hrequirement => ?_⟩
      have hprovided := hearlier requirement hrequirement
      dsimp only at hprovided
      split at hprovided
      · next provided => exact provided
      · cases hprovided

end

theorem assemble_requirements {world : World} (faithful : world.Faithful) (valid : world.Valid)
    (parent : ∀ parent, builder.parent = some parent → parent ∈ world.built) {id : Nat}
    {layer : Layer} (h : builder.assemble world.memory id = .ok layer) :
    ∀ requirement ∈ requirements builder.entries, builder.provides requirement.1 = true := by
  obtain ⟨ledger, bindings, hledger, hbindings, hresolvable, rfl⟩ := assemble_eq_ok_iff.mp h
  rw [unresolvable?_eq faithful valid parent hledger hbindings] at hresolvable
  intro requirement hrequirement
  have hprovided := List.findSome?_eq_none_iff.mp hresolvable requirement hrequirement
  dsimp only at hprovided
  split at hprovided
  · next provided => exact provided
  · cases hprovided

end Builder

theorem Layer.resolveAs_missing {resolve : Resolver} {layer : Layer} {key missing : Key}
    {context : Context} {world : World} :
    (∃ snapshot, (layer.resolveAs resolve key context world).1 =
        .ok (.error ⟨.notFound missing, snapshot⟩)) ↔
      (resolve layer key [] context (world.emit (.asked (layer.scope.site key)))).1 =
        .ok (.error (.notFound missing)) := by
  rcases hresolve : resolve layer key [] context (world.emit (.asked (layer.scope.site key))) with
    ⟨result, after⟩
  rw [Layer.resolveAs_eq hresolve]
  rcases result with stop | (error | value)
  · constructor
    · rintro ⟨snapshot, h⟩
      cases h
    · intro h
      cases h
  · constructor
    · rintro ⟨snapshot, h⟩
      obtain ⟨rfl, -⟩ := Failure.mk.inj (Except.error.inj (Except.ok.inj h))
      rfl
    · intro h
      obtain rfl := Except.error.inj (Except.ok.inj h)
      exact ⟨_, rfl⟩
  · constructor
    · rintro ⟨snapshot, h⟩
      by_cases htype : value.type = key <;> simp [Except.map, Layer.reply, htype] at h
    · intro h
      cases h

theorem Layer.owner?_eq_none_iff {layer : Layer} {key : Key} :
    layer.owner? key = none ↔ ∀ scope ∈ layer.ancestry, scope.owns key = false := by
  rw [Layer.owner?, List.find?_eq_none]
  simp only [Bool.not_eq_true]

namespace Resolution

/-- No run is refused because a type is missing. The types that nobody owns are those of optional
parameters. -/
theorem Starts.missing {fuel : Nat} {scope : Scope} {outer : List Scope} {key : Key}
    {chain : Chain} {context : Context} {world between : World} {source : Registered}
    {inquiries : List Inquiry} {gathered : Except Stop (Except ResolutionError (List Argument))}
    (starts : Starts ⟨scope, outer⟩ key chain context world source inquiries gathered between)
    (answers : ∀ inquiry ∈ inquiries,
      Resolves fuel ⟨scope, outer⟩ inquiry.key (scope.frame key source :: chain) context
        inquiry.before inquiry.result inquiry.after)
    (closed : Layer.Closed ⟨scope, outer⟩) :
    (∀ missing, gathered ≠ .ok (.error (.notFound missing))) ∧
    ∀ inquiry ∈ inquiries, ∀ missing, inquiry.result = .ok (.error (.notFound missing)) →
      missing = inquiry.key ∧ Layer.owner? ⟨scope, outer⟩ missing = none ∧
      .optional missing ∈ source.generator.parameters ∧
      .required missing ∉ source.generator.parameters := by
  obtain ⟨eager, cyclic, slot, -⟩ := starts.slot
  have hplain := closed.plain scope List.mem_cons_self _ _ _ _ slot
  have hrequired (dependency : Key) (h : .required dependency ∈ source.generator.parameters) :
      Layer.owner? ⟨scope, outer⟩ dependency ≠ none := by
    have hdeclared : .dependency dependency true ∈ source.generator.declarations :=
      List.mem_map.mpr ⟨_, h, rfl⟩
    have howned := closed.provides [] scope outer rfl _ _ _ _ slot dependency
      (List.mem_filterMap.mpr ⟨_, hdeclared, rfl⟩)
    exact Option.isSome_iff_ne_none.mp howned
  have hunowned (inquiry : Inquiry) (hinquiry : inquiry ∈ inquiries) (missing : Key)
      (h : inquiry.result = .ok (.error (.notFound missing))) :
      missing = inquiry.key ∧ Layer.owner? ⟨scope, outer⟩ missing = none := by
    obtain ⟨rfl, hnone⟩ := (answers inquiry hinquiry).unowned_of_missing closed h
    exact ⟨rfl, hnone⟩
  constructor
  · intro missing hgathered
    obtain ⟨supply, hsupply, inquiry, hinquiry, hasked, hanswer, hoptional⟩ :=
      starts.gathers.missing hgathered
    obtain ⟨rfl, hnone⟩ := hunowned inquiry hinquiry missing hanswer
    obtain ⟨parameter, hparameter, rfl⟩ := List.mem_map.mp hsupply
    rcases hplain parameter hparameter with rfl | ⟨dependency, rfl | rfl⟩
    · cases hasked
    · obtain rfl := Option.some.inj hasked
      exact hrequired _ hparameter hnone
    · exact hoptional rfl rfl
  · intro inquiry hinquiry missing hanswer
    obtain ⟨rfl, hnone⟩ := hunowned inquiry hinquiry missing hanswer
    refine ⟨rfl, hnone, ?_, fun h => hrequired _ h hnone⟩
    obtain ⟨supply, hsupply, hasked⟩ := starts.gathers.asked inquiry hinquiry
    obtain ⟨parameter, hparameter, rfl⟩ := List.mem_map.mp hsupply
    rcases hplain parameter hparameter with rfl | ⟨dependency, rfl | rfl⟩
    · cases hasked
    · obtain rfl := Option.some.inj hasked
      exact absurd hnone (hrequired _ hparameter)
    · obtain rfl := Option.some.inj hasked
      exact hparameter

end Resolution

namespace Session

open Resolution

/-- What is checked when a layer is built is what its requests rely on. A layer is only built if all
that the entries require is provided, by themselves or by the layers around; and a build that is
refused for a type and a generator names the first requirement that nobody provides. At every moment
and in every layer, what the generators behind slots require has an owner. So let generators ask for
what they declare. Then a request fails for a missing type only if it is for that type, and exactly
if no layer around owns it; and no run is refused because a type is missing, but what nobody owns is
an optional parameter that is left out. -/
theorem requirements_are_met {world : World} (arises : Arises world) :
    (∀ builder : Builder, (∀ parent, builder.parent = some parent → parent ∈ world.built) →
      ∀ fuel,
        (∀ layer after, builder.build (resolver fuel) world = (.ok (.ok layer), after) →
          layer ∈ after.built ∧ layer.Provides ∧
          ∀ requirement ∈ requirements builder.entries, builder.provides requirement.1 = true) ∧
        ∀ parameter signature after, builder.build (resolver fuel) world =
            (.ok (.error (.unresolvableParameter parameter signature)), after) →
          ∃ earlier generator later,
            requirements builder.entries = earlier ++ (parameter, generator) :: later ∧
            signature = generator.signature ∧ builder.provides parameter = false ∧
            ∀ requirement ∈ earlier, builder.provides requirement.1 = true) ∧
    (∀ layer ∈ world.built, layer.Provides ∧ ∀ key,
      layer.canResolve world.memory key = true ↔ ∃ owner, layer.owner? key = some owner) ∧
    ((∀ layer ∈ world.built, layer.scope.Plain) →
      (∀ layer ∈ world.built, ∀ fuel key context,
        (∀ missing snapshot, (layer.resolveAs (resolver fuel) key context world).1 =
          .ok (.error ⟨.notFound missing, snapshot⟩) → missing = key) ∧
        ((∃ missing snapshot, (layer.resolveAs (resolver fuel) key context world).1 =
            .ok (.error ⟨.notFound missing, snapshot⟩)) ↔
          ∀ scope ∈ layer.ancestry, scope.owns key = false)) ∧
      ∀ scope outer, ⟨scope, outer⟩ ∈ world.built →
        ∀ fuel key chain context source inquiries gathered between,
          Starts ⟨scope, outer⟩ key chain context world source inquiries gathered between →
          (∀ inquiry ∈ inquiries,
            Resolves fuel ⟨scope, outer⟩ inquiry.key (scope.frame key source :: chain) context
              inquiry.before inquiry.result inquiry.after) →
          (∀ missing, gathered ≠ .ok (.error (.notFound missing))) ∧
          ∀ inquiry ∈ inquiries, ∀ missing, inquiry.result = .ok (.error (.notFound missing)) →
            missing = inquiry.key ∧ Layer.owner? ⟨scope, outer⟩ missing = none ∧
            .optional missing ∈ source.generator.parameters ∧
            .required missing ∉ source.generator.parameters) := by
  obtain ⟨valid, accountable⟩ := arises.accountable
  refine ⟨fun builder parent fuel => ⟨fun layer after h => ?_, fun parameter signature after h => ?_⟩,
    fun layer known => ⟨accountable.provides layer known, fun key => ?_⟩, fun plain => ?_⟩
  · cases assembled : builder.assemble world.memory world.nextLayer with
    | error error =>
      rw [build_of_refused assembled] at h
      cases h
    | ok built =>
      have hbuilt := commission_built fuel builder built world
      rw [build_of_assembled assembled, Engine.bind_apply] at h
      rcases hlast : builder.commission (resolver fuel) built world with ⟨stop | _, last⟩
      · rw [hlast] at h
        cases h
      · rw [hlast] at h hbuilt
        obtain ⟨hlayer, rfl⟩ := Prod.mk.inj h
        obtain rfl := Except.ok.inj (Except.ok.inj hlayer)
        have entered := accountable.enter valid parent assembled
        exact ⟨hbuilt, entered.provides built List.mem_cons_self,
          Builder.assemble_requirements accountable.faithful valid parent assembled⟩
  · cases assembled : builder.assemble world.memory world.nextLayer with
    | error error =>
      rw [build_of_refused assembled] at h
      obtain rfl := Except.error.inj (Except.ok.inj (Prod.mk.inj h).1)
      exact Builder.assemble_unresolvable accountable.faithful valid parent assembled
    | ok built =>
      rw [build_of_assembled assembled, Engine.bind_apply] at h
      rcases hlast : builder.commission (resolver fuel) built world with ⟨stop | _, last⟩
      · rw [hlast] at h
        cases h
      · rw [hlast] at h
        cases h
  · rw [Layer.canResolve_eq ⟨valid, known⟩ accountable.faithful, Option.isSome_iff_exists]
  have closed {layer : Layer} (known : layer ∈ world.built) : layer.Closed := by
    refine accountable.closed ⟨valid, known⟩ fun scope hscope => ?_
    obtain ⟨outer, houter⟩ := valid.built_of_mem_ancestry known hscope
    exact plain _ houter
  refine ⟨fun layer known fuel key context => ?_,
    fun scope outer known fuel key chain context source inquiries gathered between starts answers =>
      starts.missing answers (closed known)⟩
  have resolves := resolver_resolves fuel layer key [] context
    (world.emit (.asked (layer.scope.site key)))
  have hmissing (missing : Key) (h : ∃ snapshot,
      (layer.resolveAs (resolver fuel) key context world).1 =
        .ok (.error ⟨.notFound missing, snapshot⟩)) : missing = key ∧ layer.owner? key = none :=
    resolves.unowned_of_missing (closed known) (Layer.resolveAs_missing.mp h)
  refine ⟨fun missing snapshot h => (hmissing missing ⟨snapshot, h⟩).1, ?_⟩
  rw [← Layer.owner?_eq_none_iff]
  constructor
  · rintro ⟨missing, h⟩
    exact (hmissing missing h).2
  · intro hnone
    have hosts : (world.emit (.asked (layer.scope.site key))).Hosts layer :=
      World.Hosts.emit ⟨valid, known⟩ _
    have hanswer : ∃ after, resolver fuel layer key [] context
        (world.emit (.asked (layer.scope.site key))) = (.ok (.error (.notFound key)), after) ∧
          (world.emit (.asked (layer.scope.site key))).Routes after :=
      resolver_of_ownerless hosts accountable.faithful hnone
    obtain ⟨after, hanswer, -⟩ := hanswer
    exact ⟨key, Layer.resolveAs_missing.mpr (congrArg Prod.fst hanswer)⟩

def frugal : Registered :=
  ⟨0, "frugal", "make_c", [.required ⟨"A"⟩, .optional ⟨"B"⟩], [⟨"C"⟩],
    fun _ _ => .done (.products [⟨⟨"C"⟩, "c"⟩])⟩

def frugalLayer : Layer :=
  { scope :=
      { id := 2, label := none, locked := false, slots := ⟨[(⟨"C"⟩, .generated frugal false false)]⟩
        bindings := {}, overridable := [], settings := {}, observers := [] }
    outer :=
      [{ id := 1, label := none, locked := false, slots := ⟨[(⟨"A"⟩, .value ⟨⟨"A"⟩, "a"⟩)]⟩
         bindings := {}, overridable := [], settings := {}, observers := [] }] }

def frugalWorld : World :=
  (step 2 (step 2 {} (.build "base" none [.register (.value ⟨"A"⟩ "a")])).2
    (.build "app" (some "base") [.register (.generator frugal.generator false)])).2

theorem frugalWorld_built :
    frugalWorld.built = [frugalLayer, ⟨frugalLayer.outer.head (by decide), []⟩] := rfl

def wanting : Generator Command :=
  ⟨"wanting", "make_d", [.required ⟨"A"⟩, .optional ⟨"B"⟩, .required ⟨"Z"⟩], [⟨"D"⟩, ⟨"E"⟩],
    fun _ _ => .done (.products [⟨⟨"D"⟩, "d"⟩, ⟨⟨"E"⟩, "e"⟩])⟩

/-- Its first generator is replaced before anybody asks what it requires. -/
def wantingBuilder : Builder :=
  { parent := some frugalLayer, allowOverride := true
    entries :=
      [.generator ⟨"lost", "make_e", [.required ⟨"Y"⟩], [⟨"E"⟩], fun _ _ => .panic "lost"⟩ false,
        .generator wanting false, .value ⟨"E"⟩ "e"] }

theorem requirements_are_met_frugal :
    Arises frugalWorld ∧ (∀ layer ∈ frugalWorld.built, layer.scope.Plain) ∧
    (∃ earlier generator later,
      requirements wantingBuilder.entries = earlier ++ (⟨"Z"⟩, generator) :: later ∧
      wanting.signature = generator.signature ∧ wantingBuilder.provides ⟨"Z"⟩ = false ∧
      ∀ requirement ∈ earlier, wantingBuilder.provides requirement.1 = true) ∧
    ∀ fuel key context, (∃ missing snapshot,
        (frugalLayer.resolveAs (resolver fuel) key context frugalWorld).1 =
          .ok (.error ⟨.notFound missing, snapshot⟩)) ↔
      ∀ scope ∈ frugalLayer.ancestry, scope.owns key = false := by
  have arises : Arises frugalWorld := Reachable.arises (.step (.step .initial _ _) _ _)
  have known : frugalLayer ∈ frugalWorld.built := by
    rw [frugalWorld_built]
    exact List.mem_cons_self
  have plain : ∀ layer ∈ frugalWorld.built, layer.scope.Plain := by
    intro layer hlayer key source eager cyclic slot parameter hparameter
    have hmem := Table.mem_entries_of_find? slot
    rw [frugalWorld_built] at hlayer
    simp only [List.mem_cons, List.not_mem_nil, or_false] at hlayer
    rcases hlayer with rfl | rfl
    · simp only [frugalLayer, List.mem_cons, List.not_mem_nil, or_false, Prod.mk.injEq,
        Backing.generated.injEq] at hmem
      obtain ⟨-, rfl, -⟩ := hmem
      simp only [frugal, List.mem_cons, List.not_mem_nil, or_false] at hparameter
      rcases hparameter with rfl | rfl
      · exact .inr ⟨_, .inl rfl⟩
      · exact .inr ⟨_, .inr rfl⟩
    · simp [frugalLayer] at hmem
  obtain ⟨hbuild, -, hplain⟩ := requirements_are_met arises
  have refused : wantingBuilder.assemble frugalWorld.memory frugalWorld.nextLayer =
      .error (.unresolvableParameter ⟨"Z"⟩ wanting.signature) := rfl
  refine ⟨arises, plain, ?_, fun fuel key context => ?_⟩
  · have parent : ∀ parent, wantingBuilder.parent = some parent → parent ∈ frugalWorld.built := by
      intro parent h
      exact Option.some.inj h ▸ known
    exact (hbuild wantingBuilder parent 2).2 _ _ _ (build_of_refused refused)
  · exact ((hplain plain).1 frugalLayer known fuel key context).2

end Session

end LayerGraph
