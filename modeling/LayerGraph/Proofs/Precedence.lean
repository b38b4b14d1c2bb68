import LayerGraph.Proofs.Validation

/-! Which entries count.

A builder fails by the first of its entries that offends. If none does, the last entry for a type
says what is behind its slot, and a generator that is left without a slot has no part in the layer. -/

namespace LayerGraph

open Relation

namespace Entry

def keys : Entry Command → List Key
  | .value key _ => [key]
  | .generator maker _ => maker.outputs
  | .absent _ | .interface .. => []

def declared? : Entry Command → Option Declared
  | .interface type source cast => some ⟨type, source, cast⟩
  | .value .. | .absent _ | .generator .. => none

def isGenerator : Entry Command → Bool
  | .generator .. => true
  | _ => false

theorem registers_iff {key : Key} {entry : Entry Command} :
    entry.registers key = true ↔ key ∈ entry.keys := by
  cases entry with
  | value type payload => rw [keys, List.mem_singleton, registers, beq_iff_eq, eq_comm]
  | generator maker eager => exact List.contains_iff_mem
  | absent type | interface type source cast => simp [keys, registers]

theorem any_registers_iff {key : Key} {entries : List (Entry Command)} :
    entries.any (registers key) = true ↔ ∃ entry ∈ entries, key ∈ entry.keys := by
  simp only [List.any_eq_true, registers_iff]

theorem length_sources (place : Nat) (entry : Entry Command) :
    (entry.sources place).length = if entry.isGenerator then 1 else 0 := by
  cases entry <;> rfl

end Entry

inductive Generator.Flaw (generator : Generator Command) : BuildError → Prop
  | fruitless (none : generator.outputs = []) : generator.Flaw (.noOutputs generator.signature)
  | contexts (some : generator.outputs ≠ [])
      (several : 1 < (generator.declarations.filter Declaration.isContext).length) :
      generator.Flaw
        (.invalidGenerator generator.signature "more than one CallContext parameter")
  | repeated (single : (generator.declarations.filter Declaration.isContext).length ≤ 1)
      (twice : ¬ generator.outputs.Nodup) :
      generator.Flaw (.invalidGenerator generator.signature "the same type is produced twice")

theorem Generator.check_eq_error_iff {generator : Generator Command} {error : BuildError} :
    generator.check = .error error ↔ generator.Flaw error := by
  unfold check
  constructor
  · intro h
    split at h
    · next none =>
      obtain rfl := Except.error.inj h
      exact .fruitless (List.isEmpty_iff.mp none)
    · next some =>
      split at h
      · next several =>
        obtain rfl := Except.error.inj h
        exact .contexts (fun none => some (List.isEmpty_iff.mpr none)) several
      · next single =>
        split at h
        · cases h
        · next twice =>
          obtain rfl := Except.error.inj h
          exact .repeated (Nat.le_of_not_lt single) twice
  · intro h
    cases h with
    | fruitless none => simp [none]
    | contexts some several => simp [some, several]
    | repeated single twice =>
      have some : generator.outputs ≠ [] := fun none => twice (none ▸ List.nodup_nil)
      simp [some, Nat.not_lt.mpr single, twice]

theorem Ledger.Sound.empty : Ledger.Sound {} := ⟨nofun, nofun, nofun, nofun⟩

namespace Builder

/-- Why a type that has a slot already may not be registered again. The marks that count are those
of the layers around. -/
inductive Bars (builder : Builder) (key : Key) : BuildError → Prop
  | strict (off : builder.allowOverride = false) : builder.Bars key (.duplicateSlot key)
  | locked (on : builder.allowOverride = true) (lock : ∃ scope ∈ builder.outer, scope.locked = true)
      (unmarked : ∀ scope ∈ builder.outer, key ∉ scope.overridable) :
      builder.Bars key (.lockedOverride key)

/-- What an entry does wrong that comes after these others. The outputs of a generator are gone
through in order. -/
inductive Offends (builder : Builder) (before : List (Entry Command)) :
    Entry Command → BuildError → Prop
  | absent {key} (forbidden : builder.permitNil = false) :
      builder.Offends before (.absent key) (.nilValue key)
  | flawed {maker eager error} (flaw : maker.Flaw error) :
      builder.Offends before (.generator maker eager) error
  | barred {entry key error passed rest}
      (flawless : ∀ maker eager, entry = .generator maker eager → ∀ error, ¬ maker.Flaw error)
      (keys : entry.keys = passed ++ key :: rest)
      (free : ∀ other ∈ passed, (∃ earlier ∈ before, other ∈ earlier.keys) →
        ∀ error, ¬ builder.Bars other error)
      (registered : ∃ earlier ∈ before, key ∈ earlier.keys) (bars : builder.Bars key error) :
      builder.Offends before entry error

def Passes (builder : Builder) (entries : List (Entry Command)) : Prop :=
  ∀ before entry after, entries = before ++ entry :: after →
    ∀ error, ¬ builder.Offends before entry error

def FirstOffence (builder : Builder) (error : BuildError) : Prop :=
  ∃ before entry after, builder.entries = before ++ entry :: after ∧ builder.Passes before ∧
    builder.Offends before entry error

variable {builder : Builder}

theorem mayReplace_eq_error_iff {key : Key} {error : BuildError} :
    builder.mayReplace key = .error error ↔ builder.Bars key error := by
  have hlock : builder.underLock = true ↔ ∃ scope ∈ builder.outer, scope.locked = true :=
    List.any_eq_true
  have hmarked : builder.markedAbove key = false ↔
      ∀ scope ∈ builder.outer, key ∉ scope.overridable := by
    simp [markedAbove]
  unfold mayReplace
  constructor
  · intro h
    split at h
    · next off =>
      obtain rfl := Except.error.inj h
      exact .strict (by simpa using off)
    · next on =>
      split at h
      · next restricted =>
        obtain rfl := Except.error.inj h
        simp only [Bool.and_eq_true, Bool.not_eq_true'] at restricted
        exact .locked (by simpa using on) (hlock.mp restricted.1) (hmarked.mp restricted.2)
      · cases h
  · intro h
    cases h with
    | strict off => simp [off]
    | locked on lock unmarked => simp [on, hlock.mpr lock, hmarked.mpr unmarked]

theorem occupy_eq_error_iff {slots : Table Key Backing} {key : Key} {backing : Backing}
    {error : BuildError} :
    builder.occupy slots key backing = .error error ↔
      slots.contains key = true ∧ builder.Bars key error := by
  unfold occupy
  split
  · next h =>
    rw [← mayReplace_eq_error_iff, and_iff_right h]
    exact bind_ok_eq_error_iff
  · next h =>
    constructor
    · intro hok
      cases hok
    · rintro ⟨hcontains, -⟩
      exact absurd hcontains h

theorem occupyAll_eq_error_iff {slots : Table Key Backing} {outputs : List Key} {backing : Backing}
    {error : BuildError} (distinct : outputs.Nodup) :
    outputs.foldlM (fun slots output => builder.occupy slots output backing) slots =
        .error error ↔
      ∃ passed key rest, outputs = passed ++ key :: rest ∧
        (∀ other ∈ passed, slots.contains other = true → ∀ error, ¬ builder.Bars other error) ∧
        slots.contains key = true ∧ builder.Bars key error := by
  induction outputs generalizing slots with
  | nil => simp [pure, Except.pure]
  | cons output outputs ih =>
    obtain ⟨hfresh, distinct⟩ := List.nodup_cons.mp distinct
    rw [List.foldlM_cons]
    cases hfirst : builder.occupy slots output backing with
    | error first =>
      obtain ⟨hcontains, hbars⟩ := occupy_eq_error_iff.mp hfirst
      have hbarred (error : BuildError) : builder.Bars output error ↔ first = error := by
        rw [← mayReplace_eq_error_iff] at hbars ⊢
        rw [hbars, Except.error.injEq]
      change Except.error first = Except.error error ↔ _
      rw [Except.error.injEq]
      constructor
      · rintro rfl
        exact ⟨[], output, outputs, rfl, by simp, hcontains, hbars⟩
      · rintro ⟨passed, key, rest, houtputs, hfree, -, hkey⟩
        cases passed with
        | nil =>
          obtain ⟨rfl, -⟩ := List.cons.inj houtputs
          exact (hbarred error).mp hkey
        | cons head passed =>
          obtain ⟨rfl, -⟩ := List.cons.inj houtputs
          exact absurd hbars (hfree output List.mem_cons_self hcontains first)
    | ok between =>
      obtain rfl := occupy_ok hfirst
      have hfree : slots.contains output = true → ∀ error, ¬ builder.Bars output error := by
        intro hcontains error hbars
        rw [occupy_eq_error_iff.mpr ⟨hcontains, hbars⟩] at hfirst
        cases hfirst
      have hcontains {key : Key} (hkey : key ∈ outputs) :
          (slots.set output backing).contains key = slots.contains key := by
        have hne : key ≠ output := fun h => hfresh (h ▸ hkey)
        rw [Table.contains, Table.find?_set_of_ne slots backing hne, Table.contains]
      change outputs.foldlM _ (slots.set output backing) = _ ↔ _
      rw [ih distinct]
      constructor
      · rintro ⟨passed, key, rest, rfl, hpassed, hkey, hbars⟩
        refine ⟨output :: passed, key, rest, rfl, ?_, ?_, hbars⟩
        · intro other hother hregistered
          rcases List.mem_cons.mp hother with rfl | hmem
          · exact hfree hregistered
          · exact hpassed other hmem (by rw [hcontains (by simp [hmem]), hregistered])
        · rwa [hcontains (by simp)] at hkey
      · rintro ⟨passed, key, rest, houtputs, hpassed, hkey, hbars⟩
        cases passed with
        | nil =>
          obtain ⟨rfl, -⟩ := List.cons.inj houtputs
          exact absurd hbars (hfree hkey error)
        | cons head passed =>
          obtain ⟨rfl, rfl⟩ := List.cons.inj houtputs
          refine ⟨passed, key, rest, rfl, ?_, ?_, hbars⟩
          · intro other hmem hregistered
            rw [hcontains (by simp [hmem])] at hregistered
            exact hpassed other (List.mem_cons_of_mem _ hmem) hregistered
          · rwa [hcontains (by simp)]

section

variable {ledger after final : Ledger} {entry : Entry Command}
  {before entries later : List (Entry Command)}

theorem enter_value_eq_error_iff {type : Key} {payload : String} {error : BuildError} :
    builder.enter ledger (.value type payload) = .error error ↔
      builder.occupy ledger.slots type (.value ⟨type, payload⟩) = .error error := by
  rw [enter]
  exact bind_ok_eq_error_iff

theorem enter_generator_eq_error_iff {maker : Generator Command} {eager : Bool} {error : BuildError}
    (checked : maker.check = .ok ()) :
    builder.enter ledger (.generator maker eager) = .error error ↔
      maker.outputs.foldlM (fun slots output => builder.occupy slots output
        (.generated ⟨ledger.generators.length, maker⟩ eager false)) ledger.slots = .error error := by
  rw [enter, checked]
  exact bind_ok_eq_error_iff

theorem enter_eq_error_iff {error : BuildError}
    (registered : ∀ key, ledger.slots.contains key = before.any (Entry.registers key)) :
    builder.enter ledger entry = .error error ↔ builder.Offends before entry error := by
  have hregistered (key : Key) :
      ledger.slots.contains key = true ↔ ∃ earlier ∈ before, key ∈ earlier.keys := by
    rw [registered, Entry.any_registers_iff]
  cases entry with
  | value type payload =>
    rw [enter_value_eq_error_iff, occupy_eq_error_iff, hregistered]
    constructor
    · rintro ⟨hearlier, hbars⟩
      have keys : Entry.keys (.value type payload) = [] ++ type :: [] := rfl
      refine .barred (fun _ _ h => ?_) keys (fun _ h => ?_) hearlier hbars
      · cases h
      · cases h
    · intro h
      cases h with
      | @barred _ key _ passed rest _ keys _ hearlier hbars =>
        obtain ⟨rfl, rfl⟩ : type = key ∧ passed = [] := by
          cases passed with
          | nil => exact ⟨(List.cons.inj keys).1, rfl⟩
          | cons head passed => simp [Entry.keys] at keys
        exact ⟨hearlier, hbars⟩
  | absent type =>
    rw [enter]
    constructor
    · intro h
      split at h
      · cases h
      · next forbidden =>
        obtain rfl := Except.error.inj h
        exact .absent (Bool.eq_false_iff.mpr forbidden)
    · intro h
      cases h with
      | absent forbidden => simp [forbidden]
      | @barred _ key _ passed rest _ keys => simp [Entry.keys] at keys
  | generator maker eager =>
    cases hcheck : maker.check with
    | error flaw =>
      have hflaw := Generator.check_eq_error_iff.mp hcheck
      rw [enter, hcheck]
      simp only [bind, Except.bind, Except.error.injEq]
      constructor
      · rintro rfl
        exact .flawed hflaw
      · intro h
        cases h with
        | flawed other =>
          exact Except.error.inj (hcheck.symm.trans (Generator.check_eq_error_iff.mpr other))
        | barred flawless => exact absurd hflaw (flawless maker eager rfl flaw)
    | ok =>
      have flawless (error : BuildError) : ¬ maker.Flaw error := by
        rw [← Generator.check_eq_error_iff, hcheck]
        intro h
        cases h
      rw [enter_generator_eq_error_iff hcheck, occupyAll_eq_error_iff (nodup_of_check hcheck)]
      simp only [hregistered]
      constructor
      · rintro ⟨passed, key, rest, houtputs, hfree, hearlier, hbars⟩
        refine .barred ?_ houtputs hfree hearlier hbars
        rintro _ _ ⟨⟩
        exact flawless
      · intro h
        cases h with
        | flawed flaw => exact absurd flaw (flawless error)
        | barred _ keys hfree hearlier hbars => exact ⟨_, _, _, keys, hfree, hearlier, hbars⟩
  | interface type source cast =>
    rw [enter]
    constructor
    · intro h
      cases h
    · intro h
      cases h with
      | @barred _ key _ passed rest _ keys => simp [Entry.keys] at keys

theorem enter_registered
    (registered : ∀ key, ledger.slots.contains key = before.any (Entry.registers key))
    (h : builder.enter ledger entry = .ok after) (key : Key) :
    after.slots.contains key = (before ++ [entry]).any (Entry.registers key) := by
  rw [List.any_append, ← registered, List.any_cons, List.any_nil, Bool.or_false, Table.contains,
    (enter_enters h).slots, Option.isSome_or, Entry.isSome_backing?, Bool.or_comm, Table.contains]

theorem Passes.nil : builder.Passes [] := by
  intro before entry after h
  simp at h

theorem passes_append_singleton :
    builder.Passes (before ++ [entry]) ↔
      builder.Passes before ∧ ∀ error, ¬ builder.Offends before entry error := by
  constructor
  · intro h
    refine ⟨fun earlier other after hbefore => ?_, h before entry [] rfl⟩
    exact h earlier other (after ++ [entry]) (by rw [hbefore]; simp)
  · rintro ⟨hbefore, hentry⟩ earlier other after h
    rcases List.eq_nil_or_concat after with rfl | ⟨after, last, rfl⟩
    · obtain ⟨rfl, hlast⟩ := List.append_inj' h rfl
      obtain ⟨rfl, -⟩ := List.cons.inj hlast
      exact hentry
    · have hsplit : before ++ [entry] = (earlier ++ other :: after) ++ [last] := by
        simpa using h
      exact hbefore earlier other after (List.append_inj' hsplit rfl).1

/-- Only one entry is the first that offends. -/
theorem Passes.eq_of_offends {before' rest rest' : List (Entry Command)} {entry' : Entry Command}
    {error error' : BuildError} (passes : builder.Passes before) (passes' : builder.Passes before')
    (h : before ++ entry :: rest = before' ++ entry' :: rest')
    (offends : builder.Offends before entry error)
    (offends' : builder.Offends before' entry' error') : before = before' ∧ entry = entry' := by
  rcases List.append_eq_append_iff.mp h with ⟨between, rfl, hbetween⟩ | ⟨between, rfl, hbetween⟩
  · cases between with
    | nil => exact ⟨(List.append_nil _).symm, (List.cons.inj hbetween).1⟩
    | cons head between =>
      obtain ⟨rfl, rfl⟩ := List.cons.inj hbetween
      exact absurd offends (passes' before entry between rfl error)
  · cases between with
    | nil => exact ⟨List.append_nil _, (List.cons.inj hbetween).1.symm⟩
    | cons head between =>
      obtain ⟨rfl, rfl⟩ := List.cons.inj hbetween
      exact absurd offends' (passes before' entry' between rfl error')

theorem scan_eq_some_iff {error : BuildError} (passes : builder.Passes before)
    (registered : ∀ key, ledger.slots.contains key = before.any (Entry.registers key)) :
    (builder.scan ledger entries).2 = some error ↔
      ∃ earlier entry after, before ++ entries = earlier ++ entry :: after ∧
        builder.Passes earlier ∧ builder.Offends earlier entry error := by
  induction entries generalizing ledger before with
  | nil =>
    constructor
    · intro h
      cases h
    · rintro ⟨earlier, entry, after, h, -, hoffends⟩
      rw [List.append_nil] at h
      exact absurd hoffends (passes earlier entry after h error)
  | cons entry rest ih =>
    rw [scan]
    cases hentry : builder.enter ledger entry with
    | ok between =>
      have hfine (error : BuildError) : ¬ builder.Offends before entry error := by
        rw [← enter_eq_error_iff registered, hentry]
        intro h
        cases h
      have hnext := ih (passes_append_singleton.mpr ⟨passes, hfine⟩)
        (enter_registered registered hentry)
      rwa [List.append_assoc] at hnext
    | error first =>
      have hoffends := (enter_eq_error_iff registered).mp hentry
      simp only [Option.some.injEq]
      constructor
      · rintro rfl
        exact ⟨before, entry, rest, rfl, passes, hoffends⟩
      · rintro ⟨earlier, other, after, h, hpasses, hother⟩
        obtain ⟨rfl, rfl⟩ := passes.eq_of_offends hpasses h hoffends hother
        have hsame := (enter_eq_error_iff registered).mpr hother
        exact Except.error.inj (hentry.symm.trans hsame)

theorem ledger_eq_some_iff {error : BuildError} :
    builder.ledger.2 = some error ↔ builder.FirstOffence error :=
  scan_eq_some_iff Passes.nil fun _ => rfl

theorem scan_append_inv (h : builder.scan ledger (before ++ later) = (final, none)) :
    ∃ between, builder.scan ledger before = (between, none) ∧
      builder.scan between later = (final, none) ∧
      between.generators.length = ledger.generators.length + before.countP Entry.isGenerator := by
  induction before generalizing ledger with
  | nil => exact ⟨ledger, rfl, h, rfl⟩
  | cons entry rest ih =>
    rw [List.cons_append, scan] at h
    split at h
    · next next hentry =>
      obtain ⟨between, hbefore, hlater, hlength⟩ := ih h
      refine ⟨between, ?_, hlater, ?_⟩
      · rw [scan, hentry]
        exact hbefore
      · rw [hlength, (enter_enters hentry).generators, List.length_append, Entry.length_sources,
          List.countP_cons]
        omega
    · cases h

theorem scan_find?_of_unregistered (h : builder.scan ledger entries = (final, none)) {key : Key}
    (unregistered : entries.any (Entry.registers key) = false) :
    final.slots.find? key = ledger.slots.find? key := by
  induction entries generalizing ledger with
  | nil =>
    obtain ⟨rfl, -⟩ := Prod.mk.inj h
    rfl
  | cons entry rest ih =>
    rw [scan] at h
    split at h
    · next between hentry =>
      obtain ⟨hhead, hrest⟩ := Bool.or_eq_false_iff.mp unregistered
      have hnone : entry.backing? ledger.generators.length key = none := by
        rw [← Option.isSome_eq_false_iff.trans Option.isNone_iff_eq_none, Entry.isSome_backing?, hhead]
      rw [ih h hrest, (enter_enters hentry).slots, hnone, Option.none_or]
    · cases h

/-- The slots come in the order in which their types were first registered. -/
theorem scan_keys (h : builder.scan ledger entries = (final, none)) {mentioned : List Key}
    (keys : ledger.slots.keys = mentioned.eraseDups) :
    final.slots.keys = (mentioned ++ entries.flatMap Entry.keys).eraseDups := by
  have hset {slots : Table Key Backing} {mentioned : List Key}
      (keys : slots.keys = mentioned.eraseDups) (key : Key) (backing : Backing) :
      (slots.set key backing).keys = (mentioned ++ [key]).eraseDups := by
    rw [List.eraseDups_append]
    cases hfind : slots.find? key with
    | none =>
      have hnew : key ∉ mentioned := by
        rw [← List.mem_eraseDups, ← keys, Table.mem_keys_iff, hfind]
        nofun
      rw [Table.keys_set_of_none _ hfind, keys]
      simp [List.removeAll, hnew, List.eraseDups_cons]
    | some previous =>
      have hold : key ∈ mentioned := by
        rw [← List.mem_eraseDups, ← keys, Table.mem_keys_iff]
        exact ⟨previous, hfind⟩
      rw [Table.keys_set_of_some _ hfind, keys]
      simp [List.removeAll, hold]
  have hsetAll {backing : Backing} {outputs : List Key} {slots between : Table Key Backing}
      {mentioned : List Key} (keys : slots.keys = mentioned.eraseDups)
      (h : outputs.foldlM (fun slots output => builder.occupy slots output backing) slots =
        .ok between) : between.keys = (mentioned ++ outputs).eraseDups := by
    induction outputs generalizing slots mentioned with
    | nil =>
      obtain rfl := Except.ok.inj h
      rw [keys, List.append_nil]
    | cons output rest ih =>
      rw [List.foldlM_cons] at h
      obtain ⟨next, hfirst, hrest⟩ := bind_eq_ok_inv h
      obtain rfl := occupy_ok hfirst
      rw [ih (hset keys output backing) hrest, List.append_assoc, List.singleton_append]
  induction entries generalizing ledger mentioned with
  | nil =>
    obtain ⟨rfl, -⟩ := Prod.mk.inj h
    simpa using keys
  | cons entry rest ih =>
    rw [scan] at h
    split at h
    · next between hentry =>
      have hbetween : between.slots.keys = (mentioned ++ entry.keys).eraseDups := by
        cases entry with
        | value type payload =>
          obtain ⟨slots, hslots, hafter⟩ := bind_eq_ok_inv hentry
          obtain rfl := Except.ok.inj hafter
          obtain rfl := occupy_ok hslots
          exact hset keys type _
        | absent type =>
          rw [enter] at hentry
          split at hentry
          · obtain rfl := Except.ok.inj hentry
            simpa [Entry.keys] using keys
          · cases hentry
        | generator maker eager =>
          obtain ⟨_, -, hentry⟩ := bind_eq_ok_inv hentry
          obtain ⟨slots, hslots, hafter⟩ := bind_eq_ok_inv hentry
          obtain rfl := Except.ok.inj hafter
          exact hsetAll keys hslots
        | interface type source cast =>
          obtain rfl := Except.ok.inj hentry
          simpa [Entry.keys] using keys
      rw [ih h hbetween, List.flatMap_cons, List.append_assoc]
    · cases h

theorem mem_requirements {key : Key} {maker : Generator Command} :
    (key, maker) ∈ requirements entries ↔ ∃ before eager after,
      entries = before ++ .generator maker eager :: after ∧
        (∃ output ∈ maker.outputs, ∀ later ∈ after, output ∉ later.keys) ∧
        key ∈ maker.declarations.filterMap Declaration.requiredKey? := by
  have hlasts (maker : Generator Command) (after : List (Entry Command)) :
      maker.lasts after = true ↔ ∃ output ∈ maker.outputs, ∀ later ∈ after, output ∉ later.keys := by
    simp only [Generator.lasts, List.any_eq_true, Bool.not_eq_true', List.any_eq_false,
      Entry.registers_iff]
  induction entries with
  | nil =>
    constructor
    · intro h
      cases h
    · rintro ⟨before, eager, after, h, -⟩
      simp at h
  | cons entry rest ih =>
    -- An entry other than this one comes with the same split of the rest.
    have hrest : (key, maker) ∈ requirements rest ↔ ∃ before eager after,
        entry :: rest = (entry :: before) ++ .generator maker eager :: after ∧
          (∃ output ∈ maker.outputs, ∀ later ∈ after, output ∉ later.keys) ∧
          key ∈ maker.declarations.filterMap Declaration.requiredKey? := by
      simp only [ih, List.cons_append, List.cons.injEq, true_and]
    have hother (h : ∀ eager, entry ≠ .generator maker eager) :
        (key, maker) ∈ requirements rest ↔ ∃ before eager after,
          entry :: rest = before ++ .generator maker eager :: after ∧
            (∃ output ∈ maker.outputs, ∀ later ∈ after, output ∉ later.keys) ∧
            key ∈ maker.declarations.filterMap Declaration.requiredKey? := by
      rw [hrest]
      constructor
      · rintro ⟨before, hbefore⟩
        exact ⟨entry :: before, hbefore⟩
      · rintro ⟨before, eager, after, hsplit, hmore⟩
        cases before with
        | nil => exact absurd (List.cons.inj hsplit).1 (h eager)
        | cons head before =>
          obtain ⟨rfl, -⟩ := List.cons.inj hsplit
          exact ⟨before, eager, after, hsplit, hmore⟩
    cases entry with
    | value type payload =>
      refine hother fun _ h => ?_
      cases h
    | absent type =>
      refine hother fun _ h => ?_
      cases h
    | interface type source cast =>
      refine hother fun _ h => ?_
      cases h
    | generator other early =>
      rw [requirements, List.mem_append, hrest]
      constructor
      · rintro (hhere | ⟨before, hbefore⟩)
        · split at hhere
          · next lasts =>
            obtain ⟨required, hrequired, hpair⟩ := List.mem_map.mp hhere
            obtain ⟨rfl, rfl⟩ := Prod.mk.inj hpair
            exact ⟨[], early, rest, rfl, (hlasts other rest).mp lasts, hrequired⟩
          · cases hhere
        · exact ⟨_, hbefore⟩
      · rintro ⟨before, eager, after, hsplit, hlast, hrequired⟩
        cases before with
        | nil =>
          obtain ⟨hhead, rfl⟩ := List.cons.inj hsplit
          obtain ⟨rfl, rfl⟩ := Entry.generator.inj hhead
          rw [if_pos ((hlasts _ _).mpr hlast)]
          exact .inl (List.mem_map.mpr ⟨key, hrequired, rfl⟩)
        | cons head before =>
          obtain ⟨rfl, -⟩ := List.cons.inj hsplit
          exact .inr ⟨before, eager, after, hsplit, hlast, hrequired⟩

theorem scan_declared {final : Ledger} (h : builder.scan ledger entries = (final, none)) :
    final.interfaces = ledger.interfaces ++ entries.filterMap Entry.declared? := by
  have henter {ledger after : Ledger} {entry : Entry Command}
      (h : builder.enter ledger entry = .ok after) :
      after.interfaces = ledger.interfaces ++ [entry].filterMap Entry.declared? := by
    cases entry with
    | value type payload =>
      obtain ⟨slots, -, hafter⟩ := bind_eq_ok_inv h
      obtain rfl := Except.ok.inj hafter
      exact (List.append_nil _).symm
    | absent type =>
      rw [enter] at h
      split at h
      · obtain rfl := Except.ok.inj h
        exact (List.append_nil _).symm
      · cases h
    | generator maker eager =>
      obtain ⟨_, -, h⟩ := bind_eq_ok_inv h
      obtain ⟨slots, -, hafter⟩ := bind_eq_ok_inv h
      obtain rfl := Except.ok.inj hafter
      exact (List.append_nil _).symm
    | interface type source cast =>
      obtain rfl := Except.ok.inj h
      rfl
  induction entries generalizing ledger with
  | nil =>
    obtain ⟨rfl, -⟩ := Prod.mk.inj h
    exact (List.append_nil _).symm
  | cons entry rest ih =>
    rw [scan] at h
    split at h
    · next between hentry =>
      rw [ih h, henter hentry, List.append_assoc, ← List.filterMap_append, List.singleton_append]
    · cases h

theorem ledger_interfaces (hledger : builder.ledger = (ledger, none)) :
    ledger.interfaces = builder.entries.filterMap Entry.declared? :=
  (scan_declared hledger).trans (List.nil_append _)

end

/-- The slots of a scope are as the last entry for each type has them, and come in the order in
which their types were first registered. The products of a generator go to slots by position; one
that is left without a slot is behind none. -/
structure Describes (builder : Builder) (scope : Scope) : Prop where
  keys : scope.slots.keys = (builder.entries.flatMap Entry.keys).eraseDups
  value : ∀ before key payload after,
    builder.entries = before ++ .value key payload :: after → (∀ later ∈ after, key ∉ later.keys) →
      scope.slots.find? key = some (.value ⟨key, payload⟩)
  generated : ∀ before maker eager after (index : Nat) key,
    builder.entries = before ++ .generator maker eager :: after →
    maker.outputs[index]? = some key → (∀ later ∈ after, key ∉ later.keys) →
      let source : Registered := ⟨before.countP Entry.isGenerator, maker⟩
      ∃ cyclic, scope.slots.find? key = some (.generated source eager cyclic) ∧
        (cyclic = true ↔ TransGen scope.DependsOn source.place source.place) ∧
        ∀ products value, (scope.site key, value) ∈ Resolution.deliveries scope source products ↔
          products[index]? = some value
  replaced : ∀ before maker eager after,
    builder.entries = before ++ .generator maker eager :: after →
    (∀ output ∈ maker.outputs, ∃ later ∈ after, output ∈ later.keys) →
      ∀ key source early cyclic, scope.slots.find? key = some (.generated source early cyclic) →
        source.place ≠ before.countP Entry.isGenerator

theorem assemble_slots {memory : Memory} {id : Nat} {layer : Layer}
    (h : builder.assemble memory id = .ok layer) :
    ∃ ledger places, builder.ledger = (ledger, none) ∧ layer.scope.slots =
      ⟨ledger.slots.entries.map fun (key, backing) => (key, markCyclic places backing)⟩ := by
  obtain ⟨ledger, bindings, hledger, -, -, rfl⟩ := assemble_eq_ok_iff.mp h
  exact ⟨ledger, _, hledger, rfl⟩

theorem ledger_find? {ledger : Ledger} {before after : List (Entry Command)} {entry : Entry Command}
    (hledger : builder.ledger = (ledger, none)) (split : builder.entries = before ++ entry :: after)
    {key : Key} (registers : key ∈ entry.keys) (last : ∀ later ∈ after, key ∉ later.keys) :
    ledger.slots.find? key = entry.backing? (before.countP Entry.isGenerator) key := by
  rw [Builder.ledger, split] at hledger
  obtain ⟨between, -, hscan, hlength⟩ := scan_append_inv hledger
  have hplace : between.generators.length = before.countP Entry.isGenerator := by
    rw [hlength]
    exact Nat.zero_add _
  have hlast : after.any (Entry.registers key) = false := by
    rw [← Bool.not_eq_true, Entry.any_registers_iff]
    rintro ⟨later, hlater, hkey⟩
    exact last later hlater hkey
  have hsome : (entry.backing? (before.countP Entry.isGenerator) key).isSome = true := by
    rw [Entry.isSome_backing?, Entry.registers_iff]
    exact registers
  rw [scan] at hscan
  split at hscan
  · next next hentry =>
    rw [scan_find?_of_unregistered hscan hlast, (enter_enters hentry).slots, hplace,
      Option.or_of_isSome hsome]
  · cases hscan

theorem ledger_replaced {ledger : Ledger} {before after : List (Entry Command)}
    {maker : Generator Command} {eager : Bool} (hledger : builder.ledger = (ledger, none))
    (split : builder.entries = before ++ .generator maker eager :: after)
    (replaced : ∀ output ∈ maker.outputs, ∃ later ∈ after, output ∈ later.keys) (key : Key) :
    (ledger.slots.find? key).any (Backing.isFedBy (before.countP Entry.isGenerator)) = false := by
  rw [Builder.ledger, split] at hledger
  obtain ⟨between, hbefore, hscan, hlength⟩ := scan_append_inv hledger
  have hplace : between.generators.length = before.countP Entry.isGenerator := by
    rw [hlength]
    exact Nat.zero_add _
  have sound : between.Sound := scan_sound hbefore .empty
  rw [scan] at hscan
  split at hscan
  · next next hentry =>
    have enters := enter_enters hentry
    have hlt : before.countP Entry.isGenerator < next.generators.length := by
      rw [enters.generators, List.length_append, hplace]
      exact Nat.lt_succ_self _
    rw [scan_fed hscan hlt, enters.slots, hplace]
    by_cases hkey : key ∈ maker.outputs
    · rw [Entry.any_registers_iff.mpr (replaced key hkey), Bool.not_true, Bool.and_false]
    · rw [Entry.backing?, if_neg hkey, Option.none_or, Bool.and_eq_false_iff]
      refine .inl (Bool.eq_false_iff.mpr fun hfed => ?_)
      obtain ⟨source, early, cyclic, hslot, hsource⟩ := Resolution.any_isFedBy.mp hfed
      exact Nat.ne_of_lt (sound.place_lt (sound.listed _ _ _ _ hslot).1) (hsource.trans hplace.symm)
  · cases hscan

/-- A layer that a builder puts together is described by its entries. -/
theorem assemble_describes {memory : Memory} {id : Nat} {layer : Layer}
    (h : builder.assemble memory id = .ok layer) : builder.Describes layer.scope := by
  obtain ⟨ledger, places, hledger, hslots⟩ := assemble_slots h
  have sound := assemble_sound h
  have hfind (key : Key) :
      layer.scope.slots.find? key = (ledger.slots.find? key).map (markCyclic places) := by
    rw [hslots]
    exact Table.find?_map _ _ _
  have hgenerated {before after : List (Entry Command)} {maker : Generator Command} {eager : Bool}
      (split : builder.entries = before ++ .generator maker eager :: after) {key : Key}
      (output : key ∈ maker.outputs) (last : ∀ later ∈ after, key ∉ later.keys) :
      ∃ cyclic, layer.scope.slots.find? key =
        some (.generated ⟨before.countP Entry.isGenerator, maker⟩ eager cyclic) := by
    rw [hfind, ledger_find? hledger split output last, Entry.backing?, if_pos output]
    exact ⟨_, rfl⟩
  refine ⟨?_, ?_, ?_, ?_⟩
  · have hkeys : ledger.slots.keys = ([] ++ builder.entries.flatMap Entry.keys).eraseDups :=
      scan_keys hledger rfl
    rw [List.nil_append] at hkeys
    rw [← hkeys, hslots, Table.keys, List.map_map]
    rfl
  · intro before key payload after split last
    rw [hfind, ledger_find? hledger split List.mem_cons_self last, Entry.backing?, if_pos rfl]
    rfl
  · intro before maker eager after index key split output last source
    obtain ⟨cyclic, slot⟩ := hgenerated split (List.mem_of_getElem? output) last
    refine ⟨cyclic, slot, sound.flagged _ _ _ _ slot, fun products value => ?_⟩
    have distinct : maker.outputs.Nodup := sound.distinct _ _ _ _ slot
    rw [Resolution.mem_deliveries]
    constructor
    · rintro ⟨other, hpair, -, hsite⟩
      obtain rfl : key = other := (Site.mk.inj hsite).2
      obtain ⟨position, hposition⟩ := List.mem_iff_getElem?.mp hpair
      obtain ⟨houtput, hproduct⟩ := List.getElem?_zip_eq_some.mp hposition
      have hlt := (List.getElem?_eq_some_iff.mp output).1
      rwa [(List.getElem?_inj hlt distinct).mp (output.trans houtput.symm)]
    · intro hproduct
      exact ⟨key, List.mem_of_getElem? (List.getElem?_zip_eq_some.mpr ⟨output, hproduct⟩),
        Resolution.any_isFedBy.mpr ⟨_, _, _, slot, rfl⟩, rfl⟩
  · intro before maker eager after split replaced key source early cyclic slot hplace
    have hfed : (layer.scope.slots.find? key).any
        (Backing.isFedBy (before.countP Entry.isGenerator)) = true :=
      Resolution.any_isFedBy.mpr ⟨_, _, _, slot, hplace⟩
    have hnone := ledger_replaced hledger split replaced key
    rw [hfind] at hfed
    cases hbacking : ledger.slots.find? key with
    | none =>
      rw [hbacking] at hfed
      cases hfed
    | some backing =>
      rw [hbacking] at hfed hnone
      cases backing with
      | value value => cases hfed
      | generated other early flag => exact Bool.false_ne_true (hnone.symm.trans hfed)

theorem Describes.idle {layer : Layer} (describes : builder.Describes layer.scope) {world : World}
    (valid : world.Valid) (accountable : world.Accountable) (known : layer ∈ world.built)
    {before after : List (Entry Command)} {maker : Generator Command} {eager : Bool}
    (split : builder.entries = before ++ .generator maker eager :: after)
    (replaced : ∀ output ∈ maker.outputs, ∃ later ∈ after, output ∈ later.keys) (tag : String)
    (run : Nat) (arguments : List Argument) :
    .ran layer.scope.id (before.countP Entry.isGenerator) tag run arguments ∉ world.trace := by
  intro hran
  obtain ⟨other, hother, hid, key, source, early, cyclic, slot, hplace, -⟩ :=
    accountable.received _ _ tag run arguments hran
  obtain rfl := valid.unique other hother layer known hid
  exact describes.replaced before maker eager after split replaced key source early cyclic slot hplace

/-- What is wrong with an interface that is declared after these others: its source has no slot, or,
unless registrations may be overridden, there is another one for the same type among them. -/
inductive Misfits (builder : Builder) (before : List Declared) (declared : Declared) :
    BuildError → Prop
  | unbacked (unregistered : builder.entries.any (Entry.registers declared.source) = false) :
      builder.Misfits before declared (.missingImplementation declared.interface declared.source)
  | ambiguous {previous}
      (backed : builder.entries.any (Entry.registers declared.source) = true)
      (off : builder.allowOverride = false)
      (latest : before.reverse.find? (·.interface == declared.interface) = some previous) :
      builder.Misfits before declared
        (.ambiguousInterface declared.interface previous.source declared.source)

/-- Among interfaces that are declared after these others, the first that does not fit in does so by
this error. -/
inductive FirstMisfit (builder : Builder) : List Declared → List Declared → BuildError → Prop
  | here {before declared rest error} (misfits : builder.Misfits before declared error) :
      builder.FirstMisfit before (declared :: rest) error
  | later {before declared rest error} (fits : ∀ error, ¬ builder.Misfits before declared error)
      (further : builder.FirstMisfit (before ++ [declared]) rest error) :
      builder.FirstMisfit before (declared :: rest) error

theorem bindInterface_eq_error_iff {slots : Table Key Backing} {bindings : Table Key Binding}
    {before : List Declared} {declared : Declared} {error : BuildError}
    (registered : ∀ key, slots.contains key = builder.entries.any (Entry.registers key))
    (latest : ∀ interface, bindings.find? interface =
      (before.reverse.find? (·.interface == interface)).map fun last => ⟨last.source, last.cast⟩) :
    builder.bindInterface slots bindings declared = .error error ↔
      builder.Misfits before declared error := by
  unfold bindInterface
  rw [registered, latest]
  constructor
  · intro h
    split at h
    · next unbacked =>
      obtain rfl := Except.error.inj h
      exact .unbacked (by simpa using unbacked)
    · next backed =>
      split at h
      · next previous hprevious =>
        obtain ⟨last, hlast, rfl⟩ := Option.map_eq_some_iff.mp hprevious
        split at h
        · cases h
        · next off =>
          obtain rfl := Except.error.inj h
          exact .ambiguous (by simpa using backed) (by simpa using off) hlast
      · cases h
  · rintro (unregistered | ⟨backed, off, hlast⟩)
    · rw [unregistered]
      rfl
    · rw [backed, hlast, off]
      rfl

/-- The binding of interfaces ends with the first that does not fit in. -/
theorem bindAll_eq_error_iff {slots : Table Key Backing} {bindings : Table Key Binding}
    {before interfaces : List Declared} {error : BuildError}
    (registered : ∀ key, slots.contains key = builder.entries.any (Entry.registers key))
    (latest : ∀ interface, bindings.find? interface =
      (before.reverse.find? (·.interface == interface)).map fun last => ⟨last.source, last.cast⟩) :
    interfaces.foldlM (builder.bindInterface slots) bindings = .error error ↔
      builder.FirstMisfit before interfaces error := by
  induction interfaces generalizing bindings before with
  | nil => exact ⟨nofun, nofun⟩
  | cons declared rest ih =>
    have hstep {error : BuildError} :
        builder.bindInterface slots bindings declared = .error error ↔
          builder.Misfits before declared error :=
      bindInterface_eq_error_iff registered latest
    rw [List.foldlM_cons]
    cases hbind : builder.bindInterface slots bindings declared with
    | error first =>
      have hfirst := hstep.mp hbind
      constructor
      · intro h
        obtain rfl := Except.error.inj h
        exact .here hfirst
      · rintro (misfits | ⟨fits, -⟩)
        · exact hbind.symm.trans (hstep.mpr misfits)
        · exact absurd hfirst (fits first)
    | ok between =>
      have fits (error : BuildError) : ¬ builder.Misfits before declared error := by
        rw [← hstep, hbind]
        nofun
      have hbetween (interface : Key) : between.find? interface =
          ((before ++ [declared]).reverse.find? (·.interface == interface)).map
            fun last => ⟨last.source, last.cast⟩ := by
        rw [(bindInterface_ok hbind).2, Table.find?_set, latest, List.reverse_append]
        by_cases hsame : interface = declared.interface
        · simp [hsame]
        · simp [hsame, Ne.symm hsame]
      refine (ih hbetween).trans ⟨.later fits, ?_⟩
      rintro (misfits | ⟨-, further⟩)
      · exact absurd misfits (fits _)
      · exact further

section

variable {memory : Memory} {id : Nat}

theorem bindings_eq_error_iff {ledger : Ledger} {error : BuildError}
    (hledger : builder.ledger = (ledger, none)) :
    ledger.interfaces.foldlM (builder.bindInterface ledger.slots) {} = .error error ↔
      builder.FirstMisfit [] (builder.entries.filterMap Entry.declared?) error := by
  rw [ledger_interfaces hledger]
  exact bindAll_eq_error_iff (fun key => (scan_contains hledger key).trans (Bool.false_or _))
    fun _ => rfl

/-- If no entry offends, a builder can only fail by an interface that does not fit in, or by what a
generator requires that is left with a slot. -/
theorem assemble_refused {error : BuildError} (passes : ∀ error, ¬ builder.FirstOffence error)
    (h : builder.assemble memory id = .error error) :
    builder.FirstMisfit [] (builder.entries.filterMap Entry.declared?) error ∨
    ∃ key maker, (key, maker) ∈ requirements builder.entries ∧
      error = .unresolvableParameter key maker.signature := by
  rcases assemble_eq_error_iff.mp h with
    hoffence | ⟨ledger, hledger, hbindings | ⟨bindings, hbindings, hfound⟩⟩
  · exact absurd (ledger_eq_some_iff.mp hoffence) (passes error)
  · exact .inl ((bindings_eq_error_iff hledger).mp hbindings)
  · rw [unresolvable?_eq_findSome? memory hledger hbindings] at hfound
    obtain ⟨⟨key, maker⟩, hrequired, hfound⟩ := List.exists_of_findSome?_eq_some hfound
    dsimp only at hfound
    split at hfound
    · cases hfound
    · exact .inr ⟨key, maker, hrequired, (Option.some.inj hfound).symm⟩

/-- If no entry offends, a builder puts a layer together if all interfaces fit in and all that the
generators left with a slot require is there. -/
theorem assemble_succeeds_iff (passes : ∀ error, ¬ builder.FirstOffence error) :
    (∃ layer, builder.assemble memory id = .ok layer) ↔
      (∀ error, ¬ builder.FirstMisfit [] (builder.entries.filterMap Entry.declared?) error) ∧
      ∀ key maker, (key, maker) ∈ requirements builder.entries →
        builder.entries.any (Entry.registers key) || builder.entries.any (Entry.declares key) ||
          builder.parent.any (·.canResolve memory key) := by
  obtain ⟨ledger, hledger⟩ : ∃ ledger, builder.ledger = (ledger, none) := by
    rcases hledger : builder.ledger with ⟨ledger, _ | error⟩
    · exact ⟨ledger, rfl⟩
    · exact absurd (ledger_eq_some_iff.mp (by rw [hledger])) (passes error)
  constructor
  · rintro ⟨layer, assembled⟩
    obtain ⟨other, bindings, hother, hbindings, hresolvable, -⟩ := assemble_eq_ok_iff.mp assembled
    refine ⟨fun error misfit => ?_, fun key maker required => ?_⟩
    · cases hbindings.symm.trans ((bindings_eq_error_iff hother).mpr misfit)
    · rw [unresolvable?_eq_findSome? memory hother hbindings] at hresolvable
      have hprovided := List.findSome?_eq_none_iff.mp hresolvable _ required
      dsimp only at hprovided
      split at hprovided
      · next provided => exact provided
      · cases hprovided
  · rintro ⟨fits, provided⟩
    cases hbindings : ledger.interfaces.foldlM (builder.bindInterface ledger.slots) {} with
    | error error => exact absurd ((bindings_eq_error_iff hledger).mp hbindings) (fits error)
    | ok bindings =>
      refine ⟨_, assemble_eq_ok_iff.mpr ⟨ledger, bindings, hledger, hbindings, ?_, rfl⟩⟩
      rw [unresolvable?_eq_findSome? memory hledger hbindings, List.findSome?_eq_none_iff]
      rintro ⟨key, maker⟩ required
      exact if_pos (provided key maker required)

end

end Builder

namespace Session

/-- Among the entries of a builder the first that offends counts, and otherwise the last for each
type. A builder with an entry that offends fails by the first of them, whatever else there is. One
without fails neither by its entries nor by what a generator requires that is left without a slot. It
puts a layer together if all interfaces fit in that its entries declare, and if all that is required
by a generator left with a slot is registered, declared, or seen by its parent. The layer has a slot
for each type registered, in the order of first registration, and behind it is what the last entry for
the type registered. A generator whose outputs were all registered again is behind no slot, and never
runs. -/
theorem first_offence_or_last_entries_count (builder : Builder) :
    (∀ error, builder.FirstOffence error →
      (∀ memory id, builder.assemble memory id = .error error) ∧
      ∀ resolve world, (builder.build resolve world).1 = .ok (.error error)) ∧
    ((∀ error, ¬ builder.FirstOffence error) →
      (∀ memory id error, builder.assemble memory id = .error error →
        builder.FirstMisfit [] (builder.entries.filterMap Entry.declared?) error ∨
        ∃ before maker eager after key,
          builder.entries = before ++ .generator maker eager :: after ∧
          (∃ output ∈ maker.outputs, ∀ later ∈ after, output ∉ later.keys) ∧
          key ∈ maker.declarations.filterMap Declaration.requiredKey? ∧
          error = .unresolvableParameter key maker.signature) ∧
      (∀ memory id, (∃ layer, builder.assemble memory id = .ok layer) ↔
        (∀ error, ¬ builder.FirstMisfit [] (builder.entries.filterMap Entry.declared?) error) ∧
        ∀ before maker eager after key,
          builder.entries = before ++ .generator maker eager :: after →
          (∃ output ∈ maker.outputs, ∀ later ∈ after, output ∉ later.keys) →
          key ∈ maker.declarations.filterMap Declaration.requiredKey? →
            builder.entries.any (Entry.registers key) || builder.entries.any (Entry.declares key) ||
              builder.parent.any (·.canResolve memory key)) ∧
      ∀ memory id layer, builder.assemble memory id = .ok layer →
        builder.Describes layer.scope ∧
        ∀ world, Arises world → layer ∈ world.built → ∀ before maker eager after,
          builder.entries = before ++ .generator maker eager :: after →
          (∀ output ∈ maker.outputs, ∃ later ∈ after, output ∈ later.keys) →
            ∀ tag run arguments, .ran layer.scope.id (before.countP Entry.isGenerator) tag run
              arguments ∉ world.trace) := by
  constructor
  · intro error offence
    have hledger := Builder.ledger_eq_some_iff.mpr offence
    have hrefused (memory : Memory) (id : Nat) : builder.assemble memory id = .error error := by
      unfold Builder.assemble
      split
      · next ledger found hfound =>
        rw [hfound] at hledger
        rw [Option.some.inj hledger]
      · next ledger hfound =>
        rw [hfound] at hledger
        cases hledger
    exact ⟨hrefused, fun resolve world => by rw [build_of_refused (hrefused _ _)]⟩
  · intro passes
    refine ⟨fun memory id error h => ?_, fun memory id => ?_, fun memory id layer assembled => ?_⟩
    · rcases Builder.assemble_refused passes h with h | ⟨key, maker, hrequired, rfl⟩
      · exact .inl h
      · obtain ⟨before, eager, after, hsplit, hlast, hkey⟩ := Builder.mem_requirements.mp hrequired
        exact .inr ⟨before, maker, eager, after, key, hsplit, hlast, hkey, rfl⟩
    · rw [Builder.assemble_succeeds_iff passes]
      refine and_congr_right fun _ => ⟨fun h before maker eager after key split last required => ?_,
        fun h key maker hrequired => ?_⟩
      · exact h key maker
          (Builder.mem_requirements.mpr ⟨before, eager, after, split, last, required⟩)
      · obtain ⟨before, eager, after, split, last, required⟩ :=
          Builder.mem_requirements.mp hrequired
        exact h before maker eager after key split last required
    · have describes := Builder.assemble_describes assembled
      refine ⟨describes, fun world arises known before maker eager after split replaced => ?_⟩
      obtain ⟨valid, accountable⟩ := arises.accountable
      exact describes.idle valid accountable known split replaced

/-- A generator of two types, each of which is registered again by a later entry. -/
def contested : Builder :=
  let pair : Generator Command :=
    ⟨"pair", "make_pair", [.required ⟨"Z"⟩], [⟨"A"⟩, ⟨"B"⟩], fun _ _ => .panic "lost"⟩
  let single : Generator Command :=
    ⟨"single", "make_a", [], [⟨"A"⟩], fun _ _ => .done (.products [⟨⟨"A"⟩, "a"⟩])⟩
  { allowOverride := true
    entries := [.generator pair true, .value ⟨"B"⟩ "b", .generator single false] }

theorem first_offence_or_last_entries_count_contested :
    (∀ resolve world, (Builder.build resolve { contested with allowOverride := false } world).1 =
      .ok (.error (.duplicateSlot ⟨"B"⟩))) ∧
    (∀ memory id, ∃ layer, contested.assemble memory id = .ok layer) ∧
    ∀ memory id layer, contested.assemble memory id = .ok layer →
      layer.scope.slots.keys = [⟨"A"⟩, ⟨"B"⟩] ∧
      layer.scope.slots.find? ⟨"B"⟩ = some (.value ⟨⟨"B"⟩, "b"⟩) ∧
      ∀ world, Arises world → layer ∈ world.built → ∀ tag run arguments,
        .ran layer.scope.id 0 tag run arguments ∉ world.trace := by
  have offence : Builder.FirstOffence { contested with allowOverride := false }
      (.duplicateSlot ⟨"B"⟩) := Builder.ledger_eq_some_iff.mp rfl
  have passes (error : BuildError) : ¬ contested.FirstOffence error :=
    fun h => nomatch Builder.ledger_eq_some_iff.mpr h
  obtain ⟨-, succeeds, holds⟩ := (first_offence_or_last_entries_count contested).2 passes
  refine ⟨((first_offence_or_last_entries_count _).1 _ offence).2, fun memory id => ?_,
    fun memory id layer assembled => ?_⟩
  · refine (succeeds memory id).mpr ⟨fun error => nofun, ?_⟩
    intro before maker eager after key split last required
    have hrequired : (key, maker) ∈ requirements contested.entries :=
      Builder.mem_requirements.mpr ⟨before, eager, after, split, last, required⟩
    cases hrequired
  obtain ⟨describes, idle⟩ := holds memory id layer assembled
  have hkeys : (contested.entries.flatMap Entry.keys).eraseDups = [⟨"A"⟩, ⟨"B"⟩] := by decide
  refine ⟨describes.keys.trans hkeys, ?_, fun world arises known => ?_⟩
  · refine describes.value [_] ⟨"B"⟩ "b" [_] rfl fun later hlater => ?_
    obtain rfl := List.mem_singleton.mp hlater
    decide
  · refine idle world arises known [] _ true _ rfl fun output houtput => ?_
    rcases List.mem_cons.mp houtput with rfl | houtput
    · exact ⟨_, List.mem_cons_of_mem _ List.mem_cons_self, List.mem_cons_self⟩
    · obtain rfl := List.mem_singleton.mp houtput
      exact ⟨_, List.mem_cons_self, List.mem_cons_self⟩

end Session

end LayerGraph
