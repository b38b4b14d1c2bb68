import LayerGraph.Proofs.Shuffling

/-! What a lock forbids.

Under a lock a type that has a slot already may be registered again only if some layer around marks
it. Nothing else asks for locks and marks. So a builder that registers no unmarked type twice comes
to what it would come to without the lock, however often it declares an interface. -/

namespace LayerGraph

def Scope.unlocked (scope : Scope) : Scope := { scope with locked := false }

def Layer.unlocked (layer : Layer) : Layer :=
  ⟨layer.scope.unlocked, layer.outer.map Scope.unlocked⟩

theorem Layer.canResolve_unlocked (layer : Layer) (memory : Memory) (key : Key) :
    layer.unlocked.canResolve memory key = layer.canResolve memory key := by
  have hancestry : layer.unlocked.ancestry = layer.ancestry.map Scope.unlocked := rfl
  rw [canResolve, canResolve, hancestry, List.any_map]
  rfl

namespace Builder

/-- The types that entries register a slot for, as often as they do. -/
def registrations (builder : Builder) : List Key := builder.entries.flatMap Entry.keys

def declarations (builder : Builder) : List Key :=
  (builder.entries.filterMap Entry.declared?).map Declared.interface

/-- The same builder with no layer around it locked. -/
def unlocked (builder : Builder) : Builder :=
  { builder with parent := builder.parent.map Layer.unlocked }

variable {builder builder' : Builder} {ledger after final : Ledger} {entry : Entry Command}
  {entries : List (Entry Command)}

theorem outer_unlocked (builder : Builder) :
    builder.unlocked.outer = builder.outer.map Scope.unlocked := by
  unfold outer unlocked
  cases builder.parent <;> rfl

theorem underLock_iff :
    builder.underLock = true ↔ ∃ scope ∈ builder.outer, scope.locked = true :=
  List.any_eq_true

theorem markedAbove_iff {key : Key} :
    builder.markedAbove key = true ↔ ∃ scope ∈ builder.outer, key ∈ scope.overridable := by
  simp [markedAbove]

/-- Under a lock a type may be registered again exactly if overriding is on and some layer around
marks the type. -/
theorem mayReplace_eq_ok_iff (lock : builder.underLock = true) {key : Key} :
    builder.mayReplace key = .ok () ↔
      builder.allowOverride = true ∧ builder.markedAbove key = true := by
  unfold mayReplace
  rw [lock]
  cases builder.allowOverride <;> cases builder.markedAbove key <;> simp

theorem occupyAll_permits {slots last : Table Key Backing} {outputs : List Key} {backing : Backing}
    (h : outputs.foldlM (fun slots output => builder.occupy slots output backing) slots = .ok last)
    {key : Key} (output : key ∈ outputs) (registered : slots.contains key = true) :
    builder.mayReplace key = .ok () := by
  induction outputs generalizing slots with
  | nil => cases output
  | cons head rest ih =>
    rw [List.foldlM_cons] at h
    obtain ⟨between, hfirst, hrest⟩ := bind_eq_ok_inv h
    rcases List.mem_cons.mp output with rfl | hmem
    · unfold occupy at hfirst
      rw [if_pos registered] at hfirst
      obtain ⟨_, hreplace, -⟩ := bind_eq_ok_inv hfirst
      exact hreplace
    · obtain rfl := occupy_ok hfirst
      refine ih hrest hmem ?_
      rw [Table.contains, Table.find?_set]
      split
      · rfl
      · exact registered

theorem enter_permits (h : builder.enter ledger entry = .ok after) {key : Key}
    (registers : key ∈ entry.keys) (registered : ledger.slots.contains key = true) :
    builder.mayReplace key = .ok () := by
  cases entry with
  | value type payload =>
    obtain ⟨slots, hslots, -⟩ := bind_eq_ok_inv h
    have hall : [type].foldlM (fun slots output => builder.occupy slots output
        (.value ⟨type, payload⟩)) ledger.slots = .ok slots := by
      rw [List.foldlM_cons, hslots]
      rfl
    exact occupyAll_permits hall registers registered
  | absent type => cases registers
  | generator maker eager =>
    obtain ⟨_, -, h⟩ := bind_eq_ok_inv h
    obtain ⟨slots, hslots, -⟩ := bind_eq_ok_inv h
    exact occupyAll_permits hslots registers registered
  | interface type source cast => cases registers

theorem enter_nodup (h : builder.enter ledger entry = .ok after) : entry.keys.Nodup := by
  cases entry with
  | value type payload => exact List.nodup_singleton type
  | absent type => exact List.nodup_nil
  | generator maker eager =>
    obtain ⟨_, hcheck, -⟩ := bind_eq_ok_inv h
    exact nodup_of_check hcheck
  | interface type source cast => exact List.nodup_nil

theorem enter_contains (h : builder.enter ledger entry = .ok after) (key : Key) :
    after.slots.contains key = true ↔ key ∈ entry.keys ∨ ledger.slots.contains key = true := by
  rw [Table.contains, (enter_enters h).slots, Option.isSome_or, Entry.isSome_backing?,
    Bool.or_eq_true, Entry.registers_iff, Table.contains]

def Recurs (ledger : Ledger) (entries : List (Entry Command)) (key : Key) : Prop :=
  ledger.slots.contains key = true ∧ key ∈ entries.flatMap Entry.keys ∨
    1 < (entries.flatMap Entry.keys).count key

theorem Recurs.next (h : builder.enter ledger entry = .ok after) {key : Key} :
    Recurs ledger (entry :: entries) key ↔
      key ∈ entry.keys ∧ ledger.slots.contains key = true ∨ Recurs after entries key := by
  have hcount : entry.keys.count key ≤ 1 := List.nodup_iff_count_le_one.mp (enter_nodup h) key
  have hpositive : 0 < entry.keys.count key ↔ key ∈ entry.keys := List.count_pos_iff
  have hlater : 0 < (entries.flatMap Entry.keys).count key ↔ key ∈ entries.flatMap Entry.keys :=
    List.count_pos_iff
  unfold Recurs
  rw [List.flatMap_cons, List.count_append, List.mem_append, enter_contains h, ← hpositive,
    ← hlater]
  generalize ledger.slots.contains key = registered
  cases registered
  · simp only [Bool.false_eq_true, or_false, false_and, and_false, false_or]
    omega
  · simp only [or_true, true_and, and_true]
    omega

/-- If no entry is refused, types that come again are those that may. -/
theorem scan_permits (h : builder.scan ledger entries = (final, none)) {key : Key}
    (recurs : Recurs ledger entries key) : builder.mayReplace key = .ok () := by
  induction entries generalizing ledger with
  | nil => simp [Recurs] at recurs
  | cons entry rest ih =>
    rw [scan] at h
    split at h
    · next between hentry =>
      rcases (Recurs.next hentry).mp recurs with ⟨hkey, hregistered⟩ | hlater
      · exact enter_permits hentry hkey hregistered
      · exact ih h hlater
    · cases h

section

variable (permitNil : builder'.permitNil = builder.permitNil)
include permitNil

theorem enter_congr (agree : ∀ key ∈ entry.keys, ledger.slots.contains key = true →
      builder'.mayReplace key = builder.mayReplace key) :
    builder'.enter ledger entry = builder.enter ledger entry := by
  have hoccupy {slots : Table Key Backing} {key : Key} (backing : Backing)
      (h : slots.contains key = true → builder'.mayReplace key = builder.mayReplace key) :
      builder'.occupy slots key backing = builder.occupy slots key backing := by
    unfold occupy
    split
    · next registered => rw [h registered]
    · rfl
  -- A type that comes twice among the outputs has been found by then.
  have hoccupyAll {outputs : List Key} (distinct : outputs.Nodup) (backing : Backing)
      {slots : Table Key Backing} (h : ∀ key ∈ outputs, slots.contains key = true →
        builder'.mayReplace key = builder.mayReplace key) :
      outputs.foldlM (fun slots output => builder'.occupy slots output backing) slots =
        outputs.foldlM (fun slots output => builder.occupy slots output backing) slots := by
    induction outputs generalizing slots with
    | nil => rfl
    | cons output rest ih =>
      obtain ⟨hfresh, distinct⟩ := List.nodup_cons.mp distinct
      rw [List.foldlM_cons, List.foldlM_cons, hoccupy backing (h output List.mem_cons_self)]
      cases hfirst : builder.occupy slots output backing with
      | error error => rfl
      | ok between =>
        obtain rfl := occupy_ok hfirst
        refine ih distinct fun key hkey registered => h key (List.mem_cons_of_mem _ hkey) ?_
        have hne : key ≠ output := fun heq => hfresh (heq ▸ hkey)
        rwa [Table.contains, Table.find?_set_of_ne slots backing hne] at registered
  cases entry with
  | value type payload =>
    rw [enter, enter, hoccupy _ (agree type (List.mem_singleton_self type))]
  | absent type => rw [enter, enter, permitNil]
  | generator maker eager =>
    rw [enter, enter]
    cases hcheck : maker.check with
    | error error => rfl
    | ok =>
      change (maker.outputs.foldlM (fun slots output => builder'.occupy slots output _) _ >>= _) =
        (maker.outputs.foldlM (fun slots output => builder.occupy slots output _) _ >>= _)
      rw [hoccupyAll (nodup_of_check hcheck) _ agree]
  | interface type source cast => rfl

theorem scan_congr (agree : ∀ key, Recurs ledger entries key →
      builder'.mayReplace key = builder.mayReplace key) :
    builder'.scan ledger entries = builder.scan ledger entries := by
  induction entries generalizing ledger with
  | nil => rfl
  | cons entry rest ih =>
    have hentry : builder'.enter ledger entry = builder.enter ledger entry := by
      refine enter_congr permitNil fun key hkey registered => agree key (.inl ⟨registered, ?_⟩)
      rw [List.flatMap_cons]
      exact List.mem_append_left _ hkey
    rw [scan, scan, hentry]
    cases hbetween : builder.enter ledger entry with
    | error error => rfl
    | ok between => exact ih fun key recurs => agree key ((Recurs.next hbetween).mpr (.inr recurs))

end

theorem ledger_permits (h : builder.ledger.2 = none) {key : Key}
    (twice : 1 < builder.registrations.count key) : builder.mayReplace key = .ok () :=
  scan_permits (Prod.ext rfl h : builder.scan {} builder.entries = (_, none)) (.inr twice)

/-- A builder that registers only marked types more than once reads its entries as it would without
a lock. -/
theorem ledger_unlocked (marked : ∀ key, 1 < builder.registrations.count key →
      builder.markedAbove key = true) : builder.unlocked.ledger = builder.ledger := by
  have hunlocked : builder.unlocked.underLock = false := by
    rw [underLock, outer_unlocked, List.any_map]
    exact List.any_eq_false.mpr fun scope hscope => Bool.false_ne_true
  refine scan_congr rfl fun key recurs => ?_
  have htwice : 1 < builder.registrations.count key := by
    rcases recurs with ⟨registered, -⟩ | twice
    · cases registered
    · exact twice
  unfold mayReplace
  rw [hunlocked, marked key htwice, Bool.false_and, Bool.not_true, Bool.and_false]
  rfl

theorem assemble_unlocked (marked : ∀ key, 1 < builder.registrations.count key →
      builder.markedAbove key = true) (memory : Memory) (id : Nat) :
    builder.unlocked.assemble memory id =
      (builder.assemble memory id).map fun layer => ⟨layer.scope, builder.unlocked.outer⟩ := by
  have hparent (key : Key) : builder.unlocked.parent.any (·.canResolve memory key) =
      builder.parent.any (·.canResolve memory key) := by
    unfold unlocked
    cases builder.parent with
    | none => rfl
    | some parent => exact parent.canResolve_unlocked memory key
  have hsettings : builder.unlocked.parent.map (·.scope.settings) =
      builder.parent.map (·.scope.settings) := by
    unfold unlocked
    cases builder.parent <;> rfl
  have hobservers : builder.unlocked.parent.map (·.scope.observers) =
      builder.parent.map (·.scope.observers) := by
    unfold unlocked
    cases builder.parent <;> rfl
  refine assemble_map (fun ledger => ledger) (ledger_unlocked marked) (fun ledger => rfl)
    (fun ledger bindings => ?_) fun ledger bindings => ?_
  · unfold unresolvable?
    simp only [hparent]
  · unfold complete
    rw [hsettings, hobservers]
    rfl

theorem assemble_declares {memory : Memory} {id : Nat} {layer : Layer}
    (h : builder.assemble memory id = .ok layer) (strict : builder.allowOverride = false) :
    builder.declarations.Nodup := by
  obtain ⟨ledger, bindings, hledger, hbindings, -, -⟩ := assemble_eq_ok_iff.mp h
  have hempty : (Table.keys ({} : Table Key Binding)).Nodup := List.nodup_nil
  obtain ⟨-, hnodup, -⟩ := (strict_bindAll_iff strict hempty).mp hbindings
  rw [ledger_interfaces hledger] at hnodup
  exact hnodup

end Builder

namespace Session

/-- Locks guard slots, and nothing else. A builder under a lock that registers a type for a slot more
than once is refused, whatever memory it meets, unless overriding is on and some layer around marks
the type; its own marks do not count. If it puts a layer together, each type that it registered more
than once is marked, and overriding is on if it declared an interface more than once. That is all: a
builder that registers only marked types more than once puts together the same scope as without any
lock, or meets with the same offence, however often it declares an interface and whether this is
marked or not. -/
theorem locks_guard_slots (builder : Builder) (lock : ∃ scope ∈ builder.outer, scope.locked = true) :
    (∀ key, 1 < builder.registrations.count key →
      (builder.allowOverride = false ∨ ∀ scope ∈ builder.outer, key ∉ scope.overridable) →
        ∃ error, builder.FirstOffence error ∧
          (∀ memory id, builder.assemble memory id = .error error) ∧
          ∀ resolve world, (builder.build resolve world).1 = .ok (.error error)) ∧
    (∀ memory id layer, builder.assemble memory id = .ok layer →
      (∀ key, 1 < builder.registrations.count key →
        ∃ scope ∈ builder.outer, key ∈ scope.overridable) ∧
      ∀ interface, 1 < builder.declarations.count interface → builder.allowOverride = true) ∧
    ((∀ key, 1 < builder.registrations.count key →
        ∃ scope ∈ builder.outer, key ∈ scope.overridable) →
      ∀ memory id, builder.unlocked.assemble memory id =
        (builder.assemble memory id).map fun layer => ⟨layer.scope, builder.unlocked.outer⟩) := by
  have hlock := Builder.underLock_iff.mpr lock
  refine ⟨fun key twice barred => ?_, fun memory id layer assembled => ⟨fun key twice => ?_,
    fun interface twice => ?_⟩, fun marked memory id => ?_⟩
  · cases hledger : builder.ledger.2 with
    | none =>
      obtain ⟨hallow, hmarked⟩ :=
        (Builder.mayReplace_eq_ok_iff hlock).mp (Builder.ledger_permits hledger twice)
      obtain ⟨scope, hscope, hkey⟩ := Builder.markedAbove_iff.mp hmarked
      rcases barred with hoff | hunmarked
      · rw [hallow] at hoff
        cases hoff
      · exact absurd hkey (hunmarked scope hscope)
    | some error =>
      have hrefused (memory : Memory) (id : Nat) : builder.assemble memory id = .error error :=
        Builder.assemble_eq_error_iff.mpr (.inl hledger)
      refine ⟨error, Builder.ledger_eq_some_iff.mp hledger, hrefused, fun resolve world => ?_⟩
      rw [build_of_refused (hrefused _ _)]
  · obtain ⟨ledger, bindings, hledger, -⟩ := Builder.assemble_eq_ok_iff.mp assembled
    have hpermits := Builder.ledger_permits (congrArg Prod.snd hledger) twice
    exact Builder.markedAbove_iff.mp ((Builder.mayReplace_eq_ok_iff hlock).mp hpermits).2
  · by_contra hoff
    have hnodup := Builder.assemble_declares assembled (Bool.eq_false_iff.mpr hoff)
    have honce := List.nodup_iff_count_le_one.mp hnodup interface
    omega
  · exact Builder.assemble_unlocked
      (fun key twice => Builder.markedAbove_iff.mpr (marked key twice)) memory id

def lockedWorld : World := (step 1 {} (.build "base" none [.lock, .overridable ⟨"A"⟩])).2

def lockedBuilder (entries : List (Entry Command)) : Builder :=
  .ofDirectives lockedWorld.layers (some "base") (.allowOverride true :: entries.map .register)

def twofold (key : Key) : List (Entry Command) :=
  [.value ⟨"A"⟩ "a", .value ⟨"B"⟩ "b", .value key "again",
    .interface ⟨"I"⟩ ⟨"A"⟩ ⟨"first", fun _ payload => .done payload⟩,
    .interface ⟨"I"⟩ ⟨"B"⟩ ⟨"second", fun _ payload => .done payload⟩]

theorem locks_guard_slots_twofold :
    (∃ scope ∈ (lockedBuilder (twofold ⟨"B"⟩)).outer, scope.locked = true) ∧
    (∃ error, ∀ resolve world,
      ((lockedBuilder (twofold ⟨"B"⟩)).build resolve world).1 = .ok (.error error)) ∧
    ∀ memory id, (lockedBuilder (twofold ⟨"A"⟩)).unlocked.assemble memory id =
      ((lockedBuilder (twofold ⟨"A"⟩)).assemble memory id).map fun layer =>
        ⟨layer.scope, (lockedBuilder (twofold ⟨"A"⟩)).unlocked.outer⟩ := by
  have hlock (key : Key) : ∃ scope ∈ (lockedBuilder (twofold key)).outer, scope.locked = true := by
    have houter : ((lockedBuilder []).outer.any Scope.locked) = true := by decide +kernel
    exact List.any_eq_true.mp houter
  have hunmarked : ∀ scope ∈ (lockedBuilder (twofold ⟨"B"⟩)).outer, ⟨"B"⟩ ∉ scope.overridable := by
    decide +kernel
  have hmarked : ∃ scope ∈ (lockedBuilder (twofold ⟨"A"⟩)).outer, ⟨"A"⟩ ∈ scope.overridable := by
    decide +kernel
  have hregistrations : (lockedBuilder (twofold ⟨"A"⟩)).registrations = [⟨"A"⟩, ⟨"B"⟩, ⟨"A"⟩] := by
    decide +kernel
  obtain ⟨error, -, -, hrefused⟩ := (locks_guard_slots _ (hlock ⟨"B"⟩)).1 ⟨"B"⟩ (by decide +kernel)
    (.inr hunmarked)
  refine ⟨hlock _, ⟨error, hrefused⟩, (locks_guard_slots _ (hlock ⟨"A"⟩)).2.2 fun key twice => ?_⟩
  by_cases hkey : key = ⟨"A"⟩
  · rwa [hkey]
  · rw [hregistrations] at twice
    by_cases hother : key = ⟨"B"⟩
    · rw [hother] at twice
      exact absurd twice (by decide)
    · have hnone : key ∉ [⟨"A"⟩, ⟨"B"⟩, (⟨"A"⟩ : Key)] := by simp [hkey, hother]
      rw [List.count_eq_zero_of_not_mem hnone] at twice
      cases twice

/-- The lock does not keep an unmarked interface from being declared again: the later declaration
counts. -/
theorem redeclared_interface_escapes_the_lock :
    let builder := lockedBuilder (twofold ⟨"A"⟩)
    (∃ scope ∈ builder.outer, scope.locked = true) ∧
    (∀ scope ∈ builder.outer, ⟨"I"⟩ ∉ scope.overridable) ∧
    1 < builder.declarations.count ⟨"I"⟩ ∧
    ∃ layer, builder.assemble lockedWorld.memory lockedWorld.nextLayer = .ok layer ∧
      (layer.scope.bindings.find? ⟨"I"⟩).map Binding.source = some ⟨"B"⟩ := by
  refine ⟨by decide +kernel, by decide +kernel, by decide +kernel, ?_⟩
  have hbinding : ((lockedBuilder (twofold ⟨"A"⟩)).assemble lockedWorld.memory
      lockedWorld.nextLayer).toOption.map
        (fun layer => (layer.scope.bindings.find? ⟨"I"⟩).map Binding.source) =
          some (some ⟨"B"⟩) := by
    decide +kernel
  cases assembled : (lockedBuilder (twofold ⟨"A"⟩)).assemble lockedWorld.memory
      lockedWorld.nextLayer with
  | error error =>
    rw [assembled] at hbinding
    cases hbinding
  | ok layer =>
    rw [assembled] at hbinding
    exact ⟨layer, rfl, Option.some.inj hbinding⟩

end Session

end LayerGraph
