import LayerGraph.Proofs.Precedence
import LayerGraph.Proofs.Reordering
import Mathlib.Data.List.Induction

/-! Builders whose entries come in different orders.

A strict builder lets no type be registered twice. So it does not matter which entry comes first:
what is wrong with some entry is wrong with it anywhere, and what an entry registers is there in the
end. Builders of the same entries are refused together, or put together layers that answer alike. -/

namespace LayerGraph

theorem nodup_eraseDups {α : Type} [DecidableEq α] (items : List α) : items.eraseDups.Nodup := by
  match items with
  | [] => exact List.nodup_nil
  | a :: rest =>
    have hlength : (rest.filter fun b => !b == a).length < rest.length + 1 :=
      Nat.lt_succ_of_le (List.length_filter_le _ rest)
    rw [List.eraseDups_cons, List.nodup_cons, List.mem_eraseDups, List.mem_filter]
    exact ⟨by simp, nodup_eraseDups _⟩
termination_by items.length

namespace Table

variable {κ α : Type} [DecidableEq κ]

theorem nodup_keys_set {table : Table κ α} (distinct : table.keys.Nodup) (key : κ) (value : α) :
    (table.set key value).keys.Nodup := by
  cases hfind : table.find? key with
  | none =>
    have hnew : key ∉ table.keys := by
      rw [mem_keys_iff, hfind]
      nofun
    rw [keys_set_of_none value hfind, List.nodup_append]
    refine ⟨distinct, List.nodup_singleton key, fun other hother added hadded heq => hnew ?_⟩
    rwa [← List.mem_singleton.mp hadded, ← heq]
  | some previous => rwa [keys_set_of_some value hfind]

theorem find?_eq_of_perm {table table' : Table κ α} (perm : table'.entries.Perm table.entries)
    (distinct : table.keys.Nodup) (key : κ) : table'.find? key = table.find? key := by
  have hkeys : table'.keys.Perm table.keys := perm.map _
  cases hfind : table.find? key with
  | some a =>
    have hmem := perm.mem_iff.mpr (mem_entries_of_find? hfind)
    exact find?_of_mem_entries (hkeys.nodup_iff.mpr distinct) hmem
  | none =>
    rw [Option.eq_none_iff_forall_ne_some]
    intro a ha
    obtain ⟨found, hfound⟩ := mem_keys_iff.mp (hkeys.mem_iff.mp (mem_keys_iff.mpr ⟨a, ha⟩))
    rw [hfind] at hfound
    cases hfound

end Table

def Entry.Admissible (permitNil : Bool) : Entry Command → Prop
  | .absent _ => permitNil = true
  | .generator maker _ => ∀ error, ¬ maker.Flaw error
  | .value .. | .interface .. => True

theorem Entry.Admissible.nodup {permitNil : Bool} {entry : Entry Command}
    (admissible : entry.Admissible permitNil) : entry.keys.Nodup := by
  cases entry with
  | value key payload => exact List.nodup_singleton key
  | generator maker eager =>
    cases hcheck : maker.check with
    | error error => exact absurd (Generator.check_eq_error_iff.mp hcheck) (admissible error)
    | ok passed => exact Builder.nodup_of_check hcheck
  | absent key => exact List.nodup_nil
  | interface type source cast => exact List.nodup_nil

namespace Builder

variable {builder builder' : Builder} {before entries : List (Entry Command)}
  {entry : Entry Command}

theorem not_offends_iff (strict : builder.allowOverride = false) :
    (∀ error, ¬ builder.Offends before entry error) ↔
      entry.Admissible builder.permitNil ∧
        ∀ earlier ∈ before, ∀ key ∈ earlier.keys, key ∉ entry.keys := by
  constructor
  · intro h
    have hadmissible : entry.Admissible builder.permitNil := by
      cases entry with
      | value key payload => trivial
      | absent key =>
        by_contra hforbidden
        exact h _ (.absent (Bool.eq_false_iff.mpr hforbidden))
      | generator maker eager => exact fun error flaw => h error (.flawed flaw)
      | interface type source cast => trivial
    refine ⟨hadmissible, fun earlier hearlier key hkey hagain => ?_⟩
    -- The first type that is registered again is the one that the entry is refused for.
    cases hfirst : entry.keys.find? fun key => before.any (Entry.registers key) with
    | none =>
      have hnone := List.find?_eq_none.mp hfirst key hagain
      exact hnone (Entry.any_registers_iff.mpr ⟨earlier, hearlier, hkey⟩)
    | some first =>
      obtain ⟨hregistered, passed, rest, hkeys, hfree⟩ := List.find?_eq_some_iff_append.mp hfirst
      refine h _ (.barred (fun maker eager heq error flaw => ?_) hkeys
        (fun other hother again => ?_) (Entry.any_registers_iff.mp hregistered) (.strict strict))
      · rw [heq] at hadmissible
        exact hadmissible error flaw
      · have hunregistered := hfree other hother
        rw [Entry.any_registers_iff.mpr again] at hunregistered
        cases hunregistered
  · rintro ⟨hadmissible, hfree⟩ error offends
    cases offends with
    | absent forbidden => exact Bool.false_ne_true (forbidden.symm.trans hadmissible)
    | flawed flaw => exact hadmissible _ flaw
    | barred flawless keys free registered bars =>
      obtain ⟨earlier, hearlier, hkey⟩ := registered
      refine hfree earlier hearlier _ hkey ?_
      rw [keys]
      exact List.mem_append_right _ List.mem_cons_self

/-- Whether the entries of a strict builder pass does not depend on their order. -/
theorem strict_passes_iff (strict : builder.allowOverride = false) :
    builder.Passes entries ↔
      (∀ entry ∈ entries, entry.Admissible builder.permitNil) ∧
        (entries.flatMap Entry.keys).Nodup := by
  induction entries using List.reverseRecOn with
  | nil => simp [Passes.nil]
  | append_singleton entries entry ih =>
    rw [passes_append_singleton, ih, not_offends_iff strict, List.forall_mem_append,
      List.forall_mem_singleton, List.flatMap_append, List.flatMap_singleton, List.nodup_append]
    constructor
    · rintro ⟨⟨hadmissible, hnodup⟩, hentry, hfree⟩
      refine ⟨⟨hadmissible, hentry⟩, hnodup, hentry.nodup, fun key hkey other hother heq => ?_⟩
      obtain ⟨earlier, hearlier, hmem⟩ := List.mem_flatMap.mp hkey
      exact hfree earlier hearlier key hmem (heq ▸ hother)
    · rintro ⟨⟨hadmissible, hentry⟩, hnodup, -, hfree⟩
      refine ⟨⟨hadmissible, hnodup⟩, hentry, fun earlier hearlier key hkey hagain => ?_⟩
      exact hfree key (List.mem_flatMap.mpr ⟨earlier, hearlier, hkey⟩) key hagain rfl

/-- The same entries in another order, at most one for each type, and the rest the same. -/
structure Shuffles (builder builder' : Builder) : Prop where
  entries : builder'.entries.Perm builder.entries
  rest : builder' = { builder with entries := builder'.entries }
  strict : builder.allowOverride = false

theorem Shuffles.symm (shuffles : builder.Shuffles builder') : builder'.Shuffles builder where
  entries := shuffles.entries.symm
  rest := by
    rw [shuffles.rest]
  strict := by
    rw [shuffles.rest]
    exact shuffles.strict

theorem ledger_eq_none_iff : builder.ledger.2 = none ↔ builder.Passes builder.entries := by
  constructor
  · intro h
    have hprefix (before after : List (Entry Command))
        (hsplit : builder.entries = before ++ after) : builder.Passes before := by
      induction before using List.reverseRecOn generalizing after with
      | nil => exact .nil
      | append_singleton before entry ih =>
        rw [List.append_assoc, List.singleton_append] at hsplit
        have hpasses := ih (entry :: after) hsplit
        refine passes_append_singleton.mpr ⟨hpasses, fun error offends => ?_⟩
        have hsome := ledger_eq_some_iff.mpr ⟨before, entry, after, hsplit, hpasses, offends⟩
        rw [h] at hsome
        cases hsome
    exact hprefix builder.entries [] (List.append_nil _).symm
  · intro h
    rw [Option.eq_none_iff_forall_ne_some]
    intro error herror
    obtain ⟨before, entry, after, hsplit, -, offends⟩ := ledger_eq_some_iff.mp herror
    exact h before entry after hsplit error offends

theorem strict_ledger_iff (strict : builder.allowOverride = false) :
    (∃ ledger, builder.ledger = (ledger, none)) ↔
      (∀ entry ∈ builder.entries, entry.Admissible builder.permitNil) ∧
        (builder.entries.flatMap Entry.keys).Nodup := by
  rw [← strict_passes_iff strict, ← ledger_eq_none_iff]
  constructor
  · rintro ⟨ledger, h⟩
    rw [h]
  · exact fun h => ⟨builder.ledger.1, Prod.ext rfl h⟩

theorem Shuffles.ledger (shuffles : builder.Shuffles builder') {ledger : Ledger}
    (h : builder.ledger = (ledger, none)) : ∃ ledger', builder'.ledger = (ledger', none) := by
  obtain ⟨hadmissible, hnodup⟩ := (strict_ledger_iff shuffles.strict).mp ⟨ledger, h⟩
  refine (strict_ledger_iff shuffles.symm.strict).mpr ⟨fun entry hentry => ?_, ?_⟩
  · rw [shuffles.rest]
    exact hadmissible entry (shuffles.entries.mem_iff.mp hentry)
  · exact (shuffles.entries.flatMap_right Entry.keys).nodup_iff.mpr hnodup

section

variable {ledger ledger' : Ledger}

theorem strict_find? (strict : builder.allowOverride = false)
    (hledger : builder.ledger = (ledger, none)) (h : entry ∈ builder.entries) :
    ∃ place, ∀ key ∈ entry.keys, ledger.slots.find? key = entry.backing? place key := by
  obtain ⟨before, after, hsplit⟩ := List.append_of_mem h
  obtain ⟨-, hnodup⟩ := (strict_ledger_iff strict).mp ⟨ledger, hledger⟩
  refine ⟨_, fun key hkey => ledger_find? hledger hsplit hkey fun later hlater hagain => ?_⟩
  rw [hsplit, List.flatMap_append, List.flatMap_cons, List.nodup_append] at hnodup
  obtain ⟨-, hafter, -⟩ := hnodup
  obtain ⟨-, -, hdistinct⟩ := List.nodup_append.mp hafter
  exact hdistinct key hkey key (List.mem_flatMap.mpr ⟨later, hlater, hagain⟩) rfl

theorem find?_cases (hledger : builder.ledger = (ledger, none)) (key : Key) :
    (ledger.slots.find? key = none ∧ ∀ entry ∈ builder.entries, key ∉ entry.keys) ∨
      ∃ entry ∈ builder.entries, key ∈ entry.keys := by
  have hcontains := scan_contains hledger key
  rw [Table.contains, Table.contains, Table.find?_empty, Option.isSome_none, Bool.false_or]
    at hcontains
  cases hregistered : builder.entries.any (Entry.registers key) with
  | true => exact .inr (Entry.any_registers_iff.mp hregistered)
  | false =>
    rw [hregistered, Option.isSome_eq_false_iff, Option.isNone_iff_eq_none] at hcontains
    refine .inl ⟨hcontains, fun entry hentry hkey => ?_⟩
    rw [Entry.any_registers_iff.mpr ⟨entry, hentry, hkey⟩] at hregistered
    cases hregistered

/-- The slots read from shuffled entries have the same behind each type. -/
theorem Shuffles.backings (shuffles : builder.Shuffles builder')
    (hledger : builder.ledger = (ledger, none)) (hledger' : builder'.ledger = (ledger', none))
    (key : Key) :
    (ledger.slots.find? key = none ∧ ledger'.slots.find? key = none) ∨
    (∃ value, ledger.slots.find? key = some (.value value) ∧
      ledger'.slots.find? key = some (.value value)) ∨
    ∃ maker eager place place', .generator maker eager ∈ builder.entries ∧ key ∈ maker.outputs ∧
      ledger.slots.find? key = some (.generated ⟨place, maker⟩ eager false) ∧
      ledger'.slots.find? key = some (.generated ⟨place', maker⟩ eager false) := by
  rcases find?_cases hledger key with ⟨hnone, hfree⟩ | ⟨entry, hentry, hkey⟩
  · rcases find?_cases hledger' key with ⟨hnone', -⟩ | ⟨entry, hentry, hkey⟩
    · exact .inl ⟨hnone, hnone'⟩
    · exact absurd hkey (hfree entry (shuffles.entries.mem_iff.mp hentry))
  · obtain ⟨place, hplace⟩ := strict_find? shuffles.strict hledger hentry
    obtain ⟨place', hplace'⟩ := strict_find? shuffles.symm.strict hledger'
      (shuffles.entries.mem_iff.mpr hentry)
    have hfind := hplace key hkey
    have hfind' := hplace' key hkey
    cases entry with
    | value type payload =>
      obtain rfl := List.mem_singleton.mp hkey
      simp only [Entry.backing?, if_true] at hfind hfind'
      exact .inr (.inl ⟨_, hfind, hfind'⟩)
    | generator maker eager =>
      have hkey : key ∈ maker.outputs := hkey
      simp only [Entry.backing?, if_pos hkey] at hfind hfind'
      exact .inr (.inr ⟨maker, eager, place, place', hentry, hkey, hfind, hfind'⟩)
    | absent type => cases hkey
    | interface type source cast => cases hkey

theorem Shuffles.same_place (shuffles : builder.Shuffles builder')
    (hledger : builder.ledger = (ledger, none)) (hledger' : builder'.ledger = (ledger', none))
    {first first' second second' : Registered}
    (counterparts : Counterparts ledger.slots ledger'.slots first first')
    (others : Counterparts ledger.slots ledger'.slots second second')
    (h : first.place = second.place) : first'.place = second'.place := by
  obtain ⟨key, eager, eager', cyclic, cyclic', slot, slot'⟩ := counterparts
  obtain ⟨other, early, early', flag, flag', hslot, hslot'⟩ := others
  have hsound := ledger_sound hledger
  obtain ⟨hlisted, hkey, -, -⟩ := hsound.listed _ _ _ _ slot
  obtain ⟨hlisted', hother, -, -⟩ := hsound.listed _ _ _ _ hslot
  obtain rfl := same_of_place hsound hlisted hlisted' h
  rcases shuffles.backings hledger hledger' key with
    ⟨hnone, -⟩ | ⟨value, hvalue, -⟩ | ⟨maker, eager, place, place', hentry, -, hfind, hfind'⟩
  · rw [slot] at hnone
    cases hnone
  · rw [slot] at hvalue
    cases hvalue
  · rw [slot] at hfind
    cases hfind
    obtain ⟨common, hcommon⟩ := strict_find? shuffles.symm.strict hledger'
      (shuffles.entries.mem_iff.mpr hentry)
    have hfirst := hcommon key hkey
    have hsecond := hcommon other hother
    have hmem : key ∈ maker.outputs := hkey
    have hmem' : other ∈ maker.outputs := hother
    simp only [Entry.backing?, if_pos hmem] at hfirst
    simp only [Entry.backing?, if_pos hmem'] at hsecond
    rw [slot'] at hfirst
    rw [hslot'] at hsecond
    cases hfirst
    cases hsecond
    rfl

theorem Shuffles.eager (shuffles : builder.Shuffles builder')
    (hledger : builder.ledger = (ledger, none)) (hledger' : builder'.ledger = (ledger', none))
    {key : Key} {source source' : Registered} {eager eager' cyclic cyclic' : Bool}
    (slot : ledger.slots.find? key = some (.generated source eager cyclic))
    (slot' : ledger'.slots.find? key = some (.generated source' eager' cyclic')) :
    eager' = eager := by
  rcases shuffles.backings hledger hledger' key with
    ⟨h, -⟩ | ⟨value, h, -⟩ | ⟨maker, early, place, place', -, -, h, h'⟩
  · rw [slot] at h
    cases h
  · rw [slot] at h
    cases h
  · rw [slot] at h
    rw [slot'] at h'
    cases h
    cases h'
    rfl

/-- The slots read from shuffled entries mirror each other. -/
theorem Shuffles.mirror (shuffles : builder.Shuffles builder')
    (hledger : builder.ledger = (ledger, none)) (hledger' : builder'.ledger = (ledger', none)) :
    SlotsMirror ledger.slots ledger'.slots where
  backings key := by
    rcases shuffles.backings hledger hledger' key with
      ⟨slot, slot'⟩ | ⟨value, slot, slot'⟩ | ⟨maker, eager, place, place', -, -, slot, slot'⟩
    · rw [slot, slot']
      exact .none
    · rw [slot, slot']
      exact .some (.value value)
    · rw [slot, slot']
      exact .some (.generated maker place place' eager eager false false)
  places first second :=
    ⟨shuffles.symm.same_place hledger' hledger first.symm second.symm,
      shuffles.same_place hledger hledger' first second⟩

theorem ledger_keys (hledger : builder.ledger = (ledger, none)) :
    ledger.slots.keys = (builder.entries.flatMap Entry.keys).eraseDups := by
  have hempty : Table.keys ({} : Table Key Backing) = ([] : List Key).eraseDups := rfl
  exact scan_keys hledger hempty

theorem Shuffles.keys (shuffles : builder.Shuffles builder')
    (hledger : builder.ledger = (ledger, none)) (hledger' : builder'.ledger = (ledger', none)) :
    ledger'.slots.keys.Perm ledger.slots.keys := by
  rw [ledger_keys hledger, ledger_keys hledger',
    List.perm_ext_iff_of_nodup (nodup_eraseDups _) (nodup_eraseDups _)]
  intro key
  rw [List.mem_eraseDups, List.mem_eraseDups]
  exact (shuffles.entries.flatMap_right Entry.keys).mem_iff

theorem strict_bindAll_iff (strict : builder.allowOverride = false) {slots : Table Key Backing}
    {interfaces : List Declared} {bindings last : Table Key Binding}
    (distinct : bindings.keys.Nodup) :
    interfaces.foldlM (builder.bindInterface slots) bindings = .ok last ↔
      (∀ declared ∈ interfaces, slots.contains declared.source = true) ∧
      (bindings.keys ++ interfaces.map Declared.interface).Nodup ∧
      last = ⟨bindings.entries ++ interfaces.map fun declared =>
        (declared.interface, ⟨declared.source, declared.cast⟩)⟩ := by
  induction interfaces generalizing bindings with
  | nil =>
    simp only [List.foldlM_nil, List.map_nil, List.append_nil]
    constructor
    · rintro ⟨⟩
      exact ⟨List.forall_mem_nil _, distinct, rfl⟩
    · rintro ⟨-, -, rfl⟩
      rfl
  | cons declared rest ih =>
    have hstep : (declared :: rest).foldlM (builder.bindInterface slots) bindings =
      builder.bindInterface slots bindings declared >>= fun between =>
        rest.foldlM (builder.bindInterface slots) between := List.foldlM_cons
    rw [hstep, List.forall_mem_cons, List.map_cons, List.map_cons]
    unfold bindInterface
    cases hcontains : slots.contains declared.source with
    | false =>
      constructor
      · intro hok
        cases hok
      · intro h
        exact absurd h.1.1 Bool.false_ne_true
    | true =>
      cases hfind : bindings.find? declared.interface with
      | some previous =>
        have hmem : declared.interface ∈ bindings.keys := Table.mem_keys_iff.mpr ⟨previous, hfind⟩
        simp only [strict]
        constructor
        · intro hok
          cases hok
        · rintro ⟨-, hnodup, -⟩
          exact absurd rfl ((List.nodup_append.mp hnodup).2.2 _ hmem _ List.mem_cons_self)
      | none =>
        let between := bindings.set declared.interface ⟨declared.source, declared.cast⟩
        have hentries : between.entries = bindings.entries ++
          [(declared.interface, ⟨declared.source, declared.cast⟩)] :=
          Table.replace_of_lookup_none hfind
        have hkeys : between.keys = bindings.keys ++ [declared.interface] :=
          Table.keys_set_of_none _ hfind
        have hrest := ih (Table.nodup_keys_set distinct declared.interface
          ⟨declared.source, declared.cast⟩)
        change rest.foldlM (builder.bindInterface slots) between = .ok last ↔ _
        change rest.foldlM (builder.bindInterface slots) between = .ok last ↔ _ at hrest
        rw [hrest]
        change _ ∧ (between.keys ++ _).Nodup ∧ last = ⟨between.entries ++ _⟩ ↔ _
        rw [hentries, hkeys, List.append_assoc, List.append_assoc]
        rw [and_iff_right rfl]
        exact Iff.rfl

theorem Shuffles.bindings (shuffles : builder.Shuffles builder')
    (hledger : builder.ledger = (ledger, none)) (hledger' : builder'.ledger = (ledger', none))
    {bindings : Table Key Binding}
    (hbindings : ledger.interfaces.foldlM (builder.bindInterface ledger.slots) {} = .ok bindings) :
    ∃ bindings', ledger'.interfaces.foldlM (builder'.bindInterface ledger'.slots) {} =
        .ok bindings' ∧ bindings'.entries.Perm bindings.entries ∧ bindings.keys.Nodup := by
  have hperm : ledger'.interfaces.Perm ledger.interfaces := by
    rw [ledger_interfaces hledger, ledger_interfaces hledger']
    exact shuffles.entries.filterMap _
  have hempty : (Table.keys ({} : Table Key Binding)).Nodup := List.nodup_nil
  obtain ⟨hsources, hnodup, rfl⟩ := (strict_bindAll_iff shuffles.strict hempty).mp hbindings
  have hkeys : ((ledger.interfaces.map fun declared =>
      (declared.interface, (⟨declared.source, declared.cast⟩ : Binding))).map (·.1)).Nodup := by
    rw [List.map_map]
    exact hnodup
  refine ⟨_, (strict_bindAll_iff shuffles.symm.strict hempty).mpr ⟨?_, ?_, rfl⟩, hperm.map _, hkeys⟩
  · intro declared hdeclared
    have hsource := hsources declared (hperm.mem_iff.mp hdeclared)
    unfold Table.contains at hsource ⊢
    rcases (shuffles.mirror hledger hledger').backing_cases declared.source with
      ⟨slot, -⟩ | ⟨backing, backing', -, slot', -⟩
    · rw [slot] at hsource
      cases hsource
    · rw [slot']
      rfl
  · exact (hperm.map Declared.interface).nodup_iff.mpr hnodup

theorem unresolvable?_eq_none_iff (sound : ledger.Sound) {memory : Memory}
    {bindings : Table Key Binding} :
    builder.unresolvable? memory ledger.slots bindings (feeding ledger.slots ledger.generators) =
        none ↔
      ∀ key source eager, ledger.slots.find? key = some (.generated source eager false) →
        ∀ required ∈ source.generator.declarations.filterMap Declaration.requiredKey?,
          (ledger.slots.contains required || bindings.contains required ||
            builder.parent.any (·.canResolve memory required)) = true := by
  unfold unresolvable?
  simp only [List.findSome?_eq_none_iff, mem_feeding sound]
  constructor
  · intro h key source eager slot required hrequired
    have hprovided := h source ⟨key, eager, slot⟩ required hrequired
    by_contra hmissing
    rw [if_neg hmissing] at hprovided
    cases hprovided
  · rintro h source ⟨key, eager, slot⟩ required hrequired
    rw [if_pos (h key source eager slot required hrequired)]

theorem Shuffles.unresolvable? (shuffles : builder.Shuffles builder')
    (hledger : builder.ledger = (ledger, none)) (hledger' : builder'.ledger = (ledger', none))
    {bindings bindings' : Table Key Binding}
    (hbindings : ∀ key, bindings'.find? key = bindings.find? key) {memory : Memory}
    (h : builder.unresolvable? memory ledger.slots bindings
      (feeding ledger.slots ledger.generators) = none) :
    builder'.unresolvable? memory ledger'.slots bindings'
      (feeding ledger'.slots ledger'.generators) = none := by
  have hmirror := shuffles.mirror hledger hledger'
  have hcontains (key : Key) : ledger'.slots.contains key = ledger.slots.contains key := by
    unfold Table.contains
    rcases hmirror.backing_cases key with ⟨slot, slot'⟩ | ⟨backing, backing', slot, slot', -⟩
    · rw [slot, slot']
    · rw [slot, slot']
      rfl
  have hbound (key : Key) : bindings'.contains key = bindings.contains key :=
    congrArg Option.isSome (hbindings key)
  have hprovided := (unresolvable?_eq_none_iff (ledger_sound hledger)).mp h
  refine (unresolvable?_eq_none_iff (ledger_sound hledger')).mpr ?_
  intro key source eager slot required hrequired
  rcases shuffles.backings hledger hledger' key with
    ⟨-, hslot⟩ | ⟨value, -, hslot⟩ | ⟨maker, early, place, place', -, -, hslot, hslot'⟩
  · rw [slot] at hslot
    cases hslot
  · rw [slot] at hslot
    cases hslot
  · rw [slot] at hslot'
    cases hslot'
    rw [hcontains, hbound, shuffles.rest]
    exact hprovided key _ _ hslot required hrequired

end

theorem complete_slots (builder : Builder) (id : Nat) (ledger : Ledger)
    (bindings : Table Key Binding) (key : Key) :
    (builder.complete id ledger bindings).scope.slots.find? key =
      (ledger.slots.find? key).map (markCyclic
        (cyclicPlaces ledger.slots bindings (feeding ledger.slots ledger.generators))) :=
  Table.find?_map _ _ _

theorem complete_keys (builder : Builder) (id : Nat) (ledger : Ledger)
    (bindings : Table Key Binding) :
    (builder.complete id ledger bindings).scope.slots.keys = ledger.slots.keys := by
  unfold complete Table.keys
  dsimp only
  rw [List.map_map]
  rfl

theorem generated_of_marked {backing? : Option Backing} {places : List Nat} {source : Registered}
    {eager cyclic : Bool}
    (h : backing?.map (markCyclic places) = some (.generated source eager cyclic)) :
    ∃ flag, backing? = some (.generated source eager flag) := by
  obtain ⟨backing, rfl, hbacking⟩ := Option.map_eq_some_iff.mp h
  cases backing with
  | value value => cases hbacking
  | generated found early flag =>
    cases hbacking
    exact ⟨flag, rfl⟩

theorem marked_mirror {slots slots' marked marked' : Table Key Backing} {places places' : List Nat}
    (mirror : SlotsMirror slots slots')
    (marks : ∀ key, marked.find? key = (slots.find? key).map (markCyclic places))
    (marks' : ∀ key, marked'.find? key = (slots'.find? key).map (markCyclic places')) :
    SlotsMirror marked marked' := by
  have hcounterparts {source source' : Registered}
      (h : Counterparts marked marked' source source') :
      Counterparts slots slots' source source' := by
    obtain ⟨key, eager, eager', cyclic, cyclic', slot, slot'⟩ := h
    rw [marks] at slot
    rw [marks'] at slot'
    obtain ⟨flag, hslot⟩ := generated_of_marked slot
    obtain ⟨flag', hslot'⟩ := generated_of_marked slot'
    exact ⟨key, eager, eager', flag, flag', hslot, hslot'⟩
  refine ⟨fun key => ?_, fun first second => ?_⟩
  · rw [marks, marks']
    rcases mirror.backing_cases key with ⟨slot, slot'⟩ | ⟨backing, backing', slot, slot', hmirrors⟩
    · rw [slot, slot']
      exact .none
    · rw [slot, slot']
      cases hmirrors with
      | value value => exact .some (.value value)
      | generated => exact .some (.generated _ _ _ _ _ _ _)
  · exact mirror.places (hcounterparts first) (hcounterparts second)

/-- A layer that a strict builder puts together comes, but for the order of its registrations, of
the entries in any order. -/
theorem Shuffles.assemble (shuffles : builder.Shuffles builder') {memory : Memory} {id : Nat}
    {layer : Layer} (h : builder.assemble memory id = .ok layer) :
    ∃ layer', builder'.assemble memory id = .ok layer' ∧ layer.scope.Reorders layer'.scope ∧
      layer'.outer = layer.outer := by
  have hsound := assemble_sound h
  obtain ⟨ledger, bindings, hledger, hbindings, hresolvable, rfl⟩ := assemble_eq_ok_iff.mp h
  obtain ⟨ledger', hledger'⟩ := shuffles.ledger hledger
  obtain ⟨bindings', hbindings', hperm, hdistinct⟩ := shuffles.bindings hledger hledger' hbindings
  have hfind := Table.find?_eq_of_perm hperm hdistinct
  have hassembled' : builder'.assemble memory id = .ok (builder'.complete id ledger' bindings') :=
    assemble_eq_ok_iff.mpr ⟨ledger', bindings', hledger', hbindings',
      shuffles.unresolvable? hledger hledger' hfind hresolvable, rfl⟩
  have hmarks := builder.complete_slots id ledger bindings
  have hmarks' := builder'.complete_slots id ledger' bindings'
  have hkeys := shuffles.keys hledger hledger'
  have hresembles : (builder.complete id ledger bindings).scope.Resembles
      (builder'.complete id ledger' bindings').scope :=
    ⟨marked_mirror (shuffles.mirror hledger hledger') hmarks hmarks', hfind⟩
  have hsize : bindings'.size = bindings.size := hperm.length_eq
  have hslots : (builder'.complete id ledger' bindings').scope.slots.keys.Perm
      (builder.complete id ledger bindings).scope.slots.keys := by
    rwa [complete_keys, complete_keys]
  have hsettings := congrArg (fun builder : Builder =>
    (builder.settings <|> builder.parent.map (·.scope.settings)).getD {}) shuffles.rest
  have hobservers := congrArg (fun builder : Builder =>
    (builder.parent.map (·.scope.observers)).getD [] ++ builder.observers) shuffles.rest
  have houter : builder'.outer = builder.outer := (congrArg Builder.outer shuffles.rest :)
  refine ⟨_, hassembled', ?_, houter⟩
  exact
    { hresembles with
      id := rfl
      settings := hsettings
      observers := hobservers
      size := by
        have hlength := hslots.length_eq
        unfold Table.keys at hlength
        rw [List.length_map, List.length_map] at hlength
        exact congrArg₂ (· + ·) hlength hsize
      cyclic := hresembles.cyclic_eq hsound (assemble_sound hassembled')
      label := (congrArg Builder.label shuffles.rest :)
      locked := (congrArg Builder.locked shuffles.rest :)
      overridable := (congrArg Builder.overridable shuffles.rest :)
      eager := by
        intro key source source' eager eager' cyclic cyclic' slot slot'
        rw [hmarks] at slot
        rw [hmarks'] at slot'
        obtain ⟨flag, hslot⟩ := generated_of_marked slot
        obtain ⟨flag', hslot'⟩ := generated_of_marked slot'
        exact shuffles.eager hledger hledger' hslot hslot'
      keys := hslots
      interfaces := hperm.map _
      distinct := by
        rw [complete_keys, ledger_keys hledger]
        exact nodup_eraseDups _
      distinctInterfaces := hdistinct }

theorem strict_eagerKeys (strict : builder.allowOverride = false) {memory : Memory} {id : Nat}
    {layer : Layer} (h : builder.assemble memory id = .ok layer)
    (patient : ∀ maker, .generator maker true ∉ builder.entries) : layer.eagerKeys = [] := by
  obtain ⟨ledger, bindings, hledger, -, -, rfl⟩ := assemble_eq_ok_iff.mp h
  have hdistinct : (builder.complete id ledger bindings).scope.slots.keys.Nodup := by
    rw [complete_keys, ledger_keys hledger]
    exact nodup_eraseDups _
  unfold Layer.eagerKeys
  rw [List.map_eq_nil_iff, List.filter_eq_nil_iff]
  rintro ⟨key, backing⟩ hmem heager
  have hslot := Table.find?_of_mem_entries hdistinct hmem
  cases backing with
  | value value => cases heager
  | generated source eager cyclic =>
    rw [complete_slots] at hslot
    obtain ⟨flag, hslot⟩ := generated_of_marked hslot
    have hself : builder.Shuffles builder := ⟨.refl _, rfl, strict⟩
    rcases hself.backings hledger hledger key with
      ⟨hnone, -⟩ | ⟨value, hvalue, -⟩ | ⟨maker, early, place, place', hentry, -, hfind, -⟩
    · rw [hslot] at hnone
      cases hnone
    · rw [hslot] at hvalue
      cases hvalue
    · rw [hslot] at hfind
      cases hfind
      have heager : eager = true := heager
      exact patient maker (heager ▸ hentry)

end Builder

end LayerGraph
