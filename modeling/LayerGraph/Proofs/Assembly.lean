import LayerGraph.Builder
import LayerGraph.Proofs.Components

/-! What is true of every scope that a builder puts together. -/

namespace LayerGraph

open Relation

namespace Scope

/-- The generator behind a type in this scope, through an interface if need be. -/
def producer? (scope : Scope) (key : Key) : Option Registered :=
  (scope.behind? key).bind Backing.source?

theorem dependencies_eq (scope : Scope) (key : Key) :
    scope.dependencies key = (scope.producer? key).elim [] fun producer =>
      (producer.generator.declarations.filterMap Declaration.key?).filter fun dependency =>
        (scope.producer? dependency).isSome := by
  unfold dependencies producer?
  cases (scope.behind? key).bind Backing.source? <;> rfl

/-- The generator at the one place declares a dependency that the one at the other place is behind. -/
def DependsOn (scope : Scope) (place next : Nat) : Prop :=
  ∃ key source eager cyclic, scope.slots.find? key = some (.generated source eager cyclic) ∧
    source.place = place ∧
    ∃ dependency ∈ source.generator.declarations.filterMap Declaration.key?,
      ∃ other, scope.producer? dependency = some other ∧ other.place = next

/-- What a scope needs for its slots, interfaces and flags to mean what they say. -/
structure Sound (scope : Scope) : Prop where
  produced : ∀ key source eager cyclic,
    scope.slots.find? key = some (.generated source eager cyclic) → key ∈ source.generator.outputs
  distinct : ∀ key source eager cyclic,
    scope.slots.find? key = some (.generated source eager cyclic) → source.generator.outputs.Nodup
  placed : ∀ key source eager cyclic other source' eager' cyclic',
    scope.slots.find? key = some (.generated source eager cyclic) →
    scope.slots.find? other = some (.generated source' eager' cyclic') →
    source.place = source'.place → source = source' ∧ eager = eager' ∧ cyclic = cyclic'
  flagged : ∀ key source eager cyclic,
    scope.slots.find? key = some (.generated source eager cyclic) →
      (cyclic = true ↔ TransGen scope.DependsOn source.place source.place)
  typed : ∀ key value, scope.slots.find? key = some (.value value) → value.type = key
  bound : ∀ key binding, scope.bindings.find? key = some binding →
    ∃ backing, scope.slots.find? binding.source = some backing

end Scope

structure Ledger.Sound (ledger : Ledger) : Prop where
  places : ∀ (index : Nat) source, ledger.generators[index]? = some source → source.place = index
  listed : ∀ key source eager cyclic,
    ledger.slots.find? key = some (.generated source eager cyclic) →
      source ∈ ledger.generators ∧ key ∈ source.generator.outputs ∧
        source.generator.outputs.Nodup ∧ cyclic = false
  shared : ∀ key source eager cyclic other source' eager' cyclic',
    ledger.slots.find? key = some (.generated source eager cyclic) →
    ledger.slots.find? other = some (.generated source' eager' cyclic') →
    source.place = source'.place → eager = eager'
  typed : ∀ key value, ledger.slots.find? key = some (.value value) → value.type = key

namespace Ledger.Sound

variable {ledger : Ledger}

theorem setValue (sound : ledger.Sound) (key : Key) (payload : String) :
    Ledger.Sound { ledger with slots := ledger.slots.set key (.value ⟨key, payload⟩) } := by
  have hold {other : Key} {source : Registered} {eager cyclic : Bool}
      (h : (ledger.slots.set key (.value ⟨key, payload⟩)).find? other =
        some (.generated source eager cyclic)) :
      ledger.slots.find? other = some (.generated source eager cyclic) := by
    rw [Table.find?_set] at h
    split at h
    · cases h
    · exact h
  refine ⟨sound.places, fun other source eager cyclic h => sound.listed _ _ _ _ (hold h), ?_, ?_⟩
  · intro first source eager cyclic second source' eager' cyclic' h h' hplace
    exact sound.shared _ _ _ _ _ _ _ _ (hold h) (hold h') hplace
  · intro other value h
    rw [Table.find?_set] at h
    split at h
    · next heq =>
      obtain rfl := heq
      cases h
      rfl
    · exact sound.typed other value h

theorem place_lt (sound : ledger.Sound) {source : Registered} (h : source ∈ ledger.generators) :
    source.place < ledger.generators.length := by
  obtain ⟨index, hindex⟩ := List.mem_iff_getElem?.mp h
  rw [sound.places index source hindex]
  exact (List.getElem?_eq_some_iff.mp hindex).1

theorem addGenerator (sound : ledger.Sound) {generator : Generator Command} {eager : Bool}
    {slots : Table Key Backing} (distinct : generator.outputs.Nodup)
    (hfind : ∀ key, slots.find? key = ledger.slots.find? key ∨ key ∈ generator.outputs ∧
      slots.find? key = some (.generated ⟨ledger.generators.length, generator⟩ eager false)) :
    Ledger.Sound
      { ledger with
        slots
        generators := ledger.generators ++ [⟨ledger.generators.length, generator⟩] } := by
  -- A generated slot is as before or one of the new generator's outputs.
  have hcases {key : Key} {source : Registered} {early cyclic : Bool}
      (h : slots.find? key = some (.generated source early cyclic)) :
      ledger.slots.find? key = some (.generated source early cyclic) ∨
        key ∈ generator.outputs ∧ source = ⟨ledger.generators.length, generator⟩ ∧
          early = eager ∧ cyclic = false := by
    rcases hfind key with hsame | ⟨houtput, hnew⟩
    · exact .inl (hsame ▸ h)
    · rw [hnew] at h
      cases h
      exact .inr ⟨houtput, rfl, rfl, rfl⟩
  have hplace {key : Key} {source : Registered} {early cyclic : Bool}
      (h : ledger.slots.find? key = some (.generated source early cyclic)) :
      source.place ≠ ledger.generators.length :=
    Nat.ne_of_lt (sound.place_lt (sound.listed _ _ _ _ h).1)
  refine ⟨?_, ?_, ?_, ?_⟩
  · intro index source hindex
    change (ledger.generators ++ [_])[index]? = some source at hindex
    rcases Nat.lt_or_ge index ledger.generators.length with hlt | hge
    · rw [List.getElem?_append_left hlt] at hindex
      exact sound.places index source hindex
    · rw [List.getElem?_append_right hge] at hindex
      obtain ⟨hzero, rfl⟩ := List.getElem?_eq_some_iff.mp hindex
      have hone : index - ledger.generators.length < 1 := hzero
      simp only [List.getElem_singleton]
      omega
  · intro key source early cyclic h
    rcases hcases h with hold | ⟨houtput, rfl, rfl, rfl⟩
    · obtain ⟨hmem, hrest⟩ := sound.listed _ _ _ _ hold
      exact ⟨List.mem_append_left _ hmem, hrest⟩
    · exact ⟨List.mem_append_right _ List.mem_cons_self, houtput, distinct, rfl⟩
  · intro first source early cyclic second source' early' cyclic' h h' hsame
    rcases hcases h with hold | ⟨-, rfl, rfl, -⟩
    · rcases hcases h' with hold' | ⟨-, rfl, rfl, -⟩
      · exact sound.shared _ _ _ _ _ _ _ _ hold hold' hsame
      · exact absurd hsame (hplace hold)
    · rcases hcases h' with hold' | ⟨-, rfl, rfl, -⟩
      · exact absurd hsame.symm (hplace hold')
      · rfl
  · intro key value h
    rcases hfind key with hsame | ⟨-, hnew⟩
    · exact sound.typed key value (hsame ▸ h)
    · rw [hnew] at h
      cases h

end Ledger.Sound

section

variable {ε α β : Type}

theorem bind_eq_ok_inv {first : Except ε α} {next : α → Except ε β} {b : β}
    (h : first >>= next = .ok b) : ∃ a, first = .ok a ∧ next a = .ok b := by
  cases first with
  | error error => cases h
  | ok a => exact ⟨a, rfl, h⟩

theorem bind_eq_error_inv {first : Except ε α} {next : α → Except ε β} {error : ε}
    (h : first >>= next = .error error) :
    first = .error error ∨ ∃ a, first = .ok a ∧ next a = .error error := by
  cases first with
  | error other => exact .inl (congrArg Except.error (Except.error.inj h))
  | ok a => exact .inr ⟨a, rfl, h⟩

theorem bind_ok_eq_error_iff {first : Except ε α} {change : α → β} {error : ε} :
    (first >>= fun a => .ok (change a)) = .error error ↔ first = .error error := by
  cases first with
  | error other => simp only [bind, Except.bind, Except.error.injEq]
  | ok a => exact ⟨nofun, nofun⟩

theorem foldlM_error_inv {step : β → α → Except ε β} {items : List α} {start : β} {error : ε}
    (h : items.foldlM step start = .error error) :
    ∃ before item, step before item = .error error := by
  induction items generalizing start with
  | nil => cases h
  | cons item rest ih =>
    rw [List.foldlM_cons] at h
    rcases bind_eq_error_inv h with hfirst | ⟨between, -, hrest⟩
    · exact ⟨start, item, hfirst⟩
    · exact ih hrest

theorem foldlM_ok (holds : β → Prop) {step : β → α → Except ε β} {items : List α}
    (hstep : ∀ item ∈ items, ∀ before after, step before item = .ok after → holds before →
      holds after)
    {start final : β} (h : items.foldlM step start = .ok final) (hstart : holds start) :
    holds final := by
  induction items generalizing start with
  | nil =>
    obtain rfl := Except.ok.inj h
    exact hstart
  | cons item rest ih =>
    rw [List.foldlM_cons] at h
    obtain ⟨between, hfirst, hrest⟩ := bind_eq_ok_inv h
    refine ih (fun other hother => hstep other (List.mem_cons_of_mem _ hother)) hrest ?_
    exact hstep item List.mem_cons_self start between hfirst hstart

end

namespace Builder

variable {builder : Builder}

theorem occupy_ok {slots after : Table Key Backing} {key : Key} {backing : Backing}
    (h : builder.occupy slots key backing = .ok after) : after = slots.set key backing := by
  unfold occupy at h
  split at h
  · obtain ⟨_, _, hafter⟩ := bind_eq_ok_inv h
    exact (Except.ok.inj hafter).symm
  · exact (Except.ok.inj h).symm

theorem find?_occupyAll {slots after : Table Key Backing} {outputs : List Key} {backing : Backing}
    (h : outputs.foldlM (fun slots output => builder.occupy slots output backing) slots =
      .ok after) (key : Key) :
    after.find? key = if key ∈ outputs then some backing else slots.find? key := by
  induction outputs generalizing slots with
  | nil =>
    obtain rfl := Except.ok.inj h
    simp
  | cons output rest ih =>
    rw [List.foldlM_cons] at h
    obtain ⟨between, hfirst, hrest⟩ := bind_eq_ok_inv h
    rw [ih hrest, occupy_ok hfirst, Table.find?_set]
    by_cases hkey : key = output <;> by_cases hmem : key ∈ rest <;> simp [hkey, hmem]

theorem nodup_of_check {generator : Generator Command} (h : generator.check = .ok ()) :
    generator.outputs.Nodup := by
  unfold Generator.check at h
  split at h
  · cases h
  · split at h
    · cases h
    · split at h
      · next hnodup => exact hnodup
      · cases h

theorem enter_sound {ledger after : Ledger} {entry : Entry Command}
    (h : builder.enter ledger entry = .ok after) (sound : ledger.Sound) : after.Sound := by
  cases entry with
  | value key payload =>
    rw [enter] at h
    obtain ⟨slots, hslots, hafter⟩ := bind_eq_ok_inv h
    obtain rfl := Except.ok.inj hafter
    obtain rfl := occupy_ok hslots
    exact sound.setValue key payload
  | absent key =>
    rw [enter] at h
    split at h
    · obtain rfl := Except.ok.inj h
      exact ⟨sound.places, sound.listed, sound.shared, sound.typed⟩
    · cases h
  | generator generator eager =>
    rw [enter] at h
    obtain ⟨_, hcheck, h⟩ := bind_eq_ok_inv h
    obtain ⟨slots, hslots, hafter⟩ := bind_eq_ok_inv h
    obtain rfl := Except.ok.inj hafter
    have hfind (key : Key) : slots.find? key = ledger.slots.find? key ∨
        key ∈ generator.outputs ∧ slots.find? key =
          some (.generated ⟨ledger.generators.length, generator⟩ eager false) := by
      rw [find?_occupyAll hslots]
      split
      · next hmem => exact .inr ⟨hmem, rfl⟩
      · exact .inl rfl
    exact sound.addGenerator (nodup_of_check hcheck) hfind
  | interface interface source cast =>
    rw [enter] at h
    obtain rfl := Except.ok.inj h
    exact ⟨sound.places, sound.listed, sound.shared, sound.typed⟩

theorem scan_sound {ledger after : Ledger} {entries : List (Entry Command)}
    (h : builder.scan ledger entries = (after, none)) (sound : ledger.Sound) : after.Sound := by
  induction entries generalizing ledger with
  | nil =>
    obtain ⟨rfl, -⟩ := Prod.mk.inj h
    exact sound
  | cons entry rest ih =>
    rw [scan] at h
    split at h
    · next between hentry => exact ih h (enter_sound hentry sound)
    · cases h

theorem ledger_sound {ledger : Ledger} (h : builder.ledger = (ledger, none)) : ledger.Sound := by
  refine scan_sound h ⟨?_, ?_, ?_, ?_⟩
  · intro index source hindex
    cases hindex
  all_goals
    intros
    contradiction

theorem bindInterface_ok {slots : Table Key Backing} {bindings after : Table Key Binding}
    {declared : Declared} (h : builder.bindInterface slots bindings declared = .ok after) :
    slots.contains declared.source = true ∧
      after = bindings.set declared.interface ⟨declared.source, declared.cast⟩ := by
  unfold bindInterface at h
  split at h
  · cases h
  · next hsource =>
    refine ⟨by simpa using hsource, ?_⟩
    split at h
    · split at h
      · exact (Except.ok.inj h).symm
      · cases h
    · exact (Except.ok.inj h).symm

theorem bindInterface_bound {slots : Table Key Backing} {bindings after : Table Key Binding}
    {declared : Declared} (h : builder.bindInterface slots bindings declared = .ok after)
    (bound : ∀ key binding, bindings.find? key = some binding →
      ∃ backing, slots.find? binding.source = some backing) :
    ∀ key binding, after.find? key = some binding →
      ∃ backing, slots.find? binding.source = some backing := by
  obtain ⟨hsource, rfl⟩ := bindInterface_ok h
  intro key binding hbinding
  rw [Table.find?_set] at hbinding
  split at hbinding
  · obtain rfl := Option.some.inj hbinding
    exact Option.isSome_iff_exists.mp hsource
  · exact bound key binding hbinding

def behind? (slots : Table Key Backing) (bindings : Table Key Binding) (key : Key) :
    Option Registered :=
  match slots.find? key with
  | some backing => backing.source?
  | none => (bindings.find? key).bind fun binding => (slots.find? binding.source).bind Backing.source?

theorem producer?_eq (slots : Table Key Backing) (bindings : Table Key Binding)
    (generators : List Registered) (key : Key) :
    producer? slots bindings generators key =
      (behind? slots bindings key).bind fun source =>
        generators.findIdx? (·.place == source.place) := by
  unfold producer? behind?
  cases hslot : slots.find? key with
  | some backing =>
    simp only [Table.contains, hslot, Option.isSome_some, if_true]
    change ((slots.find? key).bind fun backing => backing.source?.bind _) = _
    rw [hslot]
    rfl
  | none =>
    simp only [Table.contains, hslot, Option.isSome_none, Bool.false_eq_true, if_false]
    cases hbinding : bindings.find? key with
    | none => rfl
    | some binding =>
      change ((slots.find? binding.source).bind fun backing => backing.source?.bind _) =
        ((slots.find? binding.source).bind Backing.source?).bind _
      rw [Option.bind_assoc]

section

variable {ledger : Ledger} {bindings : Table Key Binding} {scope : Scope} {places : List Nat}

def successors (slots : Table Key Backing) (bindings : Table Key Binding)
    (generators : List Registered) (index : Nat) : List Nat :=
  match generators[index]? with
  | none => []
  | some source =>
    (source.generator.declarations.filterMap Declaration.key?).filterMap
      (producer? slots bindings generators)

theorem mem_cyclicPlaces {slots : Table Key Backing} {generators : List Registered} {place : Nat} :
    place ∈ cyclicPlaces slots bindings generators ↔
      ∃ index source, generators[index]? = some source ∧ source.place = place ∧
        TransGen (Graph.Edge (successors slots bindings generators)) index index := by
  have hbounded : ∀ node < generators.length,
      ∀ next ∈ successors slots bindings generators node, next < generators.length := by
    intro node _ next hnext
    unfold successors at hnext
    split at hnext
    · cases hnext
    · obtain ⟨key, -, hkey⟩ := List.mem_filterMap.mp hnext
      rw [producer?_eq] at hkey
      obtain ⟨source, -, hindex⟩ := Option.bind_eq_some_iff.mp hkey
      exact (List.findIdx?_eq_some_iff_findIdx_eq.mp hindex).1
  change place ∈ ((generators.zip (Graph.cyclicNodes generators.length
    (successors slots bindings generators))).filter (·.2)).map (·.1.place) ↔ _
  constructor
  · intro h
    obtain ⟨⟨source, flag⟩, hpair, rfl⟩ := List.mem_map.mp h
    obtain ⟨hmem, hflag⟩ := List.mem_filter.mp hpair
    obtain ⟨index, hindex⟩ := List.mem_iff_getElem?.mp hmem
    obtain ⟨hsource, hmark⟩ := List.getElem?_zip_eq_some.mp hindex
    have hflag : flag = true := hflag
    rw [hflag] at hmark
    exact ⟨index, source, hsource, rfl, ((Graph.cyclicNodes_getElem? hbounded index).mp hmark).2⟩
  · intro h
    obtain ⟨index, source, hsource, rfl, hcycle⟩ := h
    have hlt := (List.getElem?_eq_some_iff.mp hsource).1
    have hmark := (Graph.cyclicNodes_getElem? hbounded index).mpr ⟨hlt, hcycle⟩
    refine List.mem_map.mpr ⟨(source, true), List.mem_filter.mpr ⟨?_, rfl⟩, rfl⟩
    exact List.mem_iff_getElem?.mpr ⟨index, List.getElem?_zip_eq_some.mpr ⟨hsource, hmark⟩⟩

theorem same_of_place (sound : ledger.Sound) {first second : Registered}
    (hfirst : first ∈ ledger.generators) (hsecond : second ∈ ledger.generators)
    (h : first.place = second.place) : first = second := by
  obtain ⟨index, hindex⟩ := List.mem_iff_getElem?.mp hfirst
  obtain ⟨index', hindex'⟩ := List.mem_iff_getElem?.mp hsecond
  have hsame : index = index' := by
    rw [← sound.places _ _ hindex, ← sound.places _ _ hindex', h]
  subst hsame
  rw [hindex] at hindex'
  exact Option.some.inj hindex'

theorem generators_nodup (sound : ledger.Sound) : ledger.generators.Nodup := by
  refine List.nodup_iff_injective_getElem.mpr fun first second h => ?_
  have hfirst := sound.places first ledger.generators[first] (List.getElem?_eq_getElem first.isLt)
  have hsecond := sound.places second ledger.generators[second]
    (List.getElem?_eq_getElem second.isLt)
  have h : ledger.generators[(first : Nat)] = ledger.generators[(second : Nat)] := h
  exact Fin.ext (hfirst.symm.trans ((congrArg Registered.place h).trans hsecond))

theorem mem_feeding (sound : ledger.Sound) {source : Registered} :
    source ∈ feeding ledger.slots ledger.generators ↔
      ∃ key eager, ledger.slots.find? key = some (.generated source eager false) := by
  constructor
  · intro h
    obtain ⟨hmem, hfeeds⟩ := List.mem_filter.mp h
    obtain ⟨key, -, hfed⟩ := List.any_eq_true.mp hfeeds
    cases hslot : ledger.slots.find? key with
    | none => simp [hslot] at hfed
    | some backing =>
      rw [hslot] at hfed
      cases backing with
      | value value => cases hfed
      | generated other eager cyclic =>
        have hplace : other.place = source.place := beq_iff_eq.mp hfed
        obtain ⟨hother, -, -, rfl⟩ := sound.listed _ _ _ _ hslot
        obtain rfl := same_of_place sound hother hmem hplace
        exact ⟨key, eager, hslot⟩
  · intro h
    obtain ⟨key, eager, hslot⟩ := h
    obtain ⟨hmem, houtput, -⟩ := sound.listed _ _ _ _ hslot
    refine List.mem_filter.mpr ⟨hmem, List.any_eq_true.mpr ⟨key, houtput, ?_⟩⟩
    rw [hslot]
    exact beq_iff_eq.mpr rfl

theorem mem_feeding_of_behind (sound : ledger.Sound) {key : Key} {source : Registered}
    (h : behind? ledger.slots bindings key = some source) :
    source ∈ feeding ledger.slots ledger.generators := by
  have hslot {key : Key} {backing : Backing} (hfind : ledger.slots.find? key = some backing)
      (hsource : backing.source? = some source) :
      source ∈ feeding ledger.slots ledger.generators := by
    cases backing with
    | value value => cases hsource
    | generated other eager cyclic =>
      obtain rfl := Option.some.inj hsource
      obtain ⟨-, -, -, rfl⟩ := sound.listed _ _ _ _ hfind
      exact (mem_feeding sound).mpr ⟨key, eager, hfind⟩
  unfold behind? at h
  split at h
  · next backing hfind => exact hslot hfind h
  · obtain ⟨binding, -, hbinding⟩ := Option.bind_eq_some_iff.mp h
    obtain ⟨backing, hfind, hsource⟩ := Option.bind_eq_some_iff.mp hbinding
    exact hslot hfind hsource

/-- Edges lead from generators to the generators behind their declared dependencies. -/
theorem edge_iff (sound : ledger.Sound) {index next : Nat} :
    Graph.Edge (successors ledger.slots bindings (feeding ledger.slots ledger.generators))
        index next ↔
      ∃ source other, (feeding ledger.slots ledger.generators)[index]? = some source ∧
        (feeding ledger.slots ledger.generators)[next]? = some other ∧
        ∃ dependency ∈ source.generator.declarations.filterMap Declaration.key?,
          behind? ledger.slots bindings dependency = some other := by
  have hindex {other : Registered} (hmem : other ∈ feeding ledger.slots ledger.generators) :
      (feeding ledger.slots ledger.generators).findIdx? (·.place == other.place) = some next ↔
        (feeding ledger.slots ledger.generators)[next]? = some other := by
    have hnodup : (feeding ledger.slots ledger.generators).Nodup :=
      (generators_nodup sound).filter _
    have hfound (position : Nat) (h : (feeding ledger.slots ledger.generators).findIdx?
        (·.place == other.place) = some position) :
        (feeding ledger.slots ledger.generators)[position]? = some other := by
      obtain ⟨hlt, hplace, -⟩ := List.findIdx?_eq_some_iff_getElem.mp h
      have hsame := same_of_place sound (List.mem_of_mem_filter (List.getElem_mem hlt))
        (List.mem_of_mem_filter hmem) (beq_iff_eq.mp hplace)
      rw [List.getElem?_eq_getElem hlt, hsame]
    refine ⟨hfound next, fun h => ?_⟩
    have hsome : ((feeding ledger.slots ledger.generators).findIdx?
        (·.place == other.place)).isSome := by
      rw [List.findIdx?_isSome]
      exact List.any_eq_true.mpr ⟨other, hmem, beq_iff_eq.mpr rfl⟩
    obtain ⟨position, hposition⟩ := Option.isSome_iff_exists.mp hsome
    have hat := hfound position hposition
    have hlt := (List.getElem?_eq_some_iff.mp h).1
    rw [hposition, (List.getElem?_inj hlt hnodup).mp (h.trans hat.symm)]
  change next ∈ successors _ _ _ index ↔ _
  unfold successors
  cases hsource : (feeding ledger.slots ledger.generators)[index]? with
  | none => simp
  | some source =>
    rw [List.mem_filterMap]
    constructor
    · intro h
      obtain ⟨dependency, hdependency, h⟩ := h
      rw [producer?_eq] at h
      obtain ⟨other, hother, hnext⟩ := Option.bind_eq_some_iff.mp h
      have hmem := mem_feeding_of_behind sound hother
      exact ⟨source, other, rfl, (hindex hmem).mp hnext, dependency, hdependency, hother⟩
    · intro h
      obtain ⟨_, other, ⟨⟩, hnext, dependency, hdependency, hother⟩ := h
      refine ⟨dependency, hdependency, ?_⟩
      rw [producer?_eq, hother]
      exact (hindex (mem_feeding_of_behind sound hother)).mpr hnext

structure Marks (ledger : Ledger) (bindings : Table Key Binding) (places : List Nat)
    (scope : Scope) : Prop where
  slots : ∀ key, scope.slots.find? key = (ledger.slots.find? key).map (markCyclic places)
  bindings : scope.bindings = bindings

theorem Marks.generated (marks : Marks ledger bindings places scope) {key : Key}
    {source : Registered} {eager cyclic : Bool} :
    scope.slots.find? key = some (.generated source eager cyclic) ↔
      (∃ flag, ledger.slots.find? key = some (.generated source eager flag)) ∧
        cyclic = places.contains source.place := by
  rw [marks.slots]
  cases ledger.slots.find? key with
  | none => simp
  | some backing =>
    cases backing with
    | value value => simp [markCyclic]
    | generated other early flag =>
      simp only [Option.map_some, markCyclic, Option.some.injEq, Backing.generated.injEq]
      constructor
      · intro h
        obtain ⟨rfl, rfl, rfl⟩ := h
        exact ⟨⟨flag, rfl, rfl, rfl⟩, rfl⟩
      · intro h
        obtain ⟨⟨_, rfl, rfl, -⟩, rfl⟩ := h
        exact ⟨rfl, rfl, rfl⟩

theorem Marks.producer? (marks : Marks ledger bindings places scope) (key : Key) :
    scope.producer? key = behind? ledger.slots bindings key := by
  have hsource (backing : Backing) : (markCyclic places backing).source? = backing.source? := by
    cases backing <;> rfl
  unfold Scope.producer? Scope.behind? behind?
  rw [marks.slots, marks.bindings]
  cases ledger.slots.find? key with
  | some backing => exact hsource backing
  | none =>
    cases bindings.find? key with
    | none => rfl
    | some binding =>
      simp only [Option.map_none, Option.bind_some]
      rw [marks.slots]
      cases ledger.slots.find? binding.source with
      | none => rfl
      | some backing => exact hsource backing

theorem Marks.dependsOn_iff (marks : Marks ledger bindings places scope) (sound : ledger.Sound)
    {place next : Nat} :
    scope.DependsOn place next ↔
      ∃ index position source other,
        (feeding ledger.slots ledger.generators)[index]? = some source ∧ source.place = place ∧
        (feeding ledger.slots ledger.generators)[position]? = some other ∧ other.place = next ∧
        Graph.Edge (successors ledger.slots bindings (feeding ledger.slots ledger.generators))
          index position := by
  constructor
  · intro h
    obtain ⟨key, source, eager, cyclic, hslot, rfl, dependency, hdependency, other, hother, rfl⟩ := h
    obtain ⟨⟨flag, hledger⟩, -⟩ := marks.generated.mp hslot
    obtain ⟨-, -, -, rfl⟩ := sound.listed _ _ _ _ hledger
    rw [marks.producer?] at hother
    obtain ⟨index, hindex⟩ := List.mem_iff_getElem?.mp ((mem_feeding sound).mpr ⟨_, _, hledger⟩)
    obtain ⟨position, hposition⟩ := List.mem_iff_getElem?.mp (mem_feeding_of_behind sound hother)
    exact ⟨index, position, source, other, hindex, rfl, hposition, rfl,
      (edge_iff sound).mpr ⟨source, other, hindex, hposition, dependency, hdependency, hother⟩⟩
  · intro h
    obtain ⟨index, position, source, other, hindex, rfl, hposition, rfl, hedge⟩ := h
    obtain ⟨_, _, hindex', hposition', dependency, hdependency, hother⟩ := (edge_iff sound).mp hedge
    obtain rfl := Option.some.inj (hindex.symm.trans hindex')
    obtain rfl := Option.some.inj (hposition.symm.trans hposition')
    obtain ⟨key, eager, hslot⟩ := (mem_feeding sound).mp (List.mem_of_getElem? hindex)
    exact ⟨key, source, eager, _, marks.generated.mpr ⟨⟨false, hslot⟩, rfl⟩, rfl, dependency,
      hdependency, other, (marks.producer? dependency).trans hother, rfl⟩

/-- A generator depends on itself in the scope exactly when its index lies on a cycle. -/
theorem Marks.transGen_iff (marks : Marks ledger bindings places scope) (sound : ledger.Sound)
    {index : Nat} {source : Registered}
    (hindex : (feeding ledger.slots ledger.generators)[index]? = some source) :
    TransGen scope.DependsOn source.place source.place ↔
      TransGen (Graph.Edge (successors ledger.slots bindings
        (feeding ledger.slots ledger.generators))) index index := by
  have hinj {index position : Nat} {source other : Registered}
      (hindex : (feeding ledger.slots ledger.generators)[index]? = some source)
      (hposition : (feeding ledger.slots ledger.generators)[position]? = some other)
      (hplace : source.place = other.place) : index = position := by
    have hmem := List.mem_of_mem_filter (List.mem_of_getElem? hindex)
    have hmem' := List.mem_of_mem_filter (List.mem_of_getElem? hposition)
    obtain rfl := same_of_place sound hmem hmem' hplace
    exact (List.getElem?_inj (List.getElem?_eq_some_iff.mp hindex).1
      ((generators_nodup sound).filter _)).mp (hindex.trans hposition.symm)
  constructor
  · intro h
    have hpath : ∀ place, TransGen scope.DependsOn source.place place →
        ∃ position other, (feeding ledger.slots ledger.generators)[position]? = some other ∧
          other.place = place ∧ TransGen (Graph.Edge (successors ledger.slots bindings
            (feeding ledger.slots ledger.generators))) index position := by
      intro place hplace
      induction hplace with
      | single hstep =>
        obtain ⟨first, position, _, other, hfirst, hsame, hposition, rfl, hedge⟩ :=
          (marks.dependsOn_iff sound).mp hstep
        obtain rfl := hinj hfirst hindex hsame
        exact ⟨position, other, hposition, rfl, .single hedge⟩
      | tail _ hstep ih =>
        obtain ⟨middle, between, hmiddle, rfl, hpath⟩ := ih
        obtain ⟨first, position, _, other, hfirst, hsame, hposition, rfl, hedge⟩ :=
          (marks.dependsOn_iff sound).mp hstep
        obtain rfl := hinj hfirst hmiddle hsame
        exact ⟨position, other, hposition, rfl, hpath.tail hedge⟩
    obtain ⟨position, other, hposition, hplace, hcycle⟩ := hpath source.place h
    obtain rfl := hinj hposition hindex hplace
    exact hcycle
  · intro h
    have hpath : ∀ position,
        TransGen (Graph.Edge (successors ledger.slots bindings
          (feeding ledger.slots ledger.generators))) index position →
        ∃ other, (feeding ledger.slots ledger.generators)[position]? = some other ∧
          TransGen scope.DependsOn source.place other.place := by
      intro position hposition
      induction hposition with
      | single hedge =>
        obtain ⟨_, other, hfirst, hother, _⟩ := (edge_iff sound).mp hedge
        refine ⟨other, hother, .single ((marks.dependsOn_iff sound).mpr ?_)⟩
        exact ⟨index, _, source, other, hindex, rfl, hother, rfl, hedge⟩
      | tail _ hedge ih =>
        obtain ⟨middle, hmiddle, hpath⟩ := ih
        obtain ⟨_, other, hfirst, hother, _⟩ := (edge_iff sound).mp hedge
        refine ⟨other, hother, hpath.tail ((marks.dependsOn_iff sound).mpr ?_)⟩
        exact ⟨_, _, middle, other, hmiddle, rfl, hother, rfl, hedge⟩
    obtain ⟨other, hother, hcycle⟩ := hpath index h
    obtain rfl := Option.some.inj (hindex.symm.trans hother)
    exact hcycle

end

def complete (builder : Builder) (id : Nat) (ledger : Ledger) (bindings : Table Key Binding) :
    Layer :=
  let places := cyclicPlaces ledger.slots bindings (feeding ledger.slots ledger.generators)
  { scope := {
      id
      label := builder.label
      locked := builder.locked
      slots := ⟨ledger.slots.entries.map fun (key, backing) => (key, markCyclic places backing)⟩
      bindings
      overridable := builder.overridable
      settings := (builder.settings <|> builder.parent.map (·.scope.settings)).getD {}
      observers := (builder.parent.map (·.scope.observers)).getD [] ++ builder.observers }
    outer := builder.outer }

/-- A builder reads its entries, binds its interfaces, and looks for what is required. -/
theorem assemble_eq (builder : Builder) (memory : Memory) (id : Nat) :
    builder.assemble memory id =
      match builder.ledger with
      | (_, some error) => .error error
      | (ledger, none) =>
        match ledger.interfaces.foldlM (builder.bindInterface ledger.slots) {} with
        | .error error => .error error
        | .ok bindings =>
          match builder.unresolvable? memory ledger.slots bindings
            (feeding ledger.slots ledger.generators) with
          | some error => .error error
          | none => .ok (builder.complete id ledger bindings) := by
  unfold assemble
  rcases builder.ledger with ⟨ledger, _ | error⟩
  · dsimp only
    cases ledger.interfaces.foldlM (builder.bindInterface ledger.slots) {} <;> rfl
  · rfl

theorem assemble_eq_ok_iff {memory : Memory} {id : Nat} {layer : Layer} :
    builder.assemble memory id = .ok layer ↔
      ∃ ledger bindings, builder.ledger = (ledger, none) ∧
        ledger.interfaces.foldlM (builder.bindInterface ledger.slots) {} = .ok bindings ∧
        builder.unresolvable? memory ledger.slots bindings
          (feeding ledger.slots ledger.generators) = none ∧
        layer = builder.complete id ledger bindings := by
  rw [assemble_eq]
  constructor
  · intro h
    split at h
    · cases h
    · next ledger hledger =>
      split at h
      · cases h
      · next bindings hbindings =>
        split at h
        · cases h
        · next hresolvable => exact ⟨ledger, bindings, hledger, hbindings, hresolvable,
            (Except.ok.inj h).symm⟩
  · rintro ⟨ledger, bindings, hledger, hbindings, hresolvable, rfl⟩
    rw [hledger]
    dsimp only
    rw [hbindings]
    dsimp only
    rw [hresolvable]

theorem assemble_eq_error_iff {memory : Memory} {id : Nat} {error : BuildError} :
    builder.assemble memory id = .error error ↔
      builder.ledger.2 = some error ∨
      ∃ ledger, builder.ledger = (ledger, none) ∧
        (ledger.interfaces.foldlM (builder.bindInterface ledger.slots) {} = .error error ∨
          ∃ bindings,
            ledger.interfaces.foldlM (builder.bindInterface ledger.slots) {} = .ok bindings ∧
            builder.unresolvable? memory ledger.slots bindings
              (feeding ledger.slots ledger.generators) = some error) := by
  rw [assemble_eq]
  rcases builder.ledger with ⟨ledger, _ | offence⟩
  · dsimp only
    cases hbindings : ledger.interfaces.foldlM (builder.bindInterface ledger.slots) {} with
    | error offence => simp [hbindings]
    | ok bindings =>
      cases hunresolvable : builder.unresolvable? memory ledger.slots bindings
        (feeding ledger.slots ledger.generators) <;> simp [hbindings, hunresolvable]
  · simp

/-- Of builders that read, bind and require alike, one puts together what is made of the layer of the
other, or both meet with the same offence. -/
theorem assemble_map {builder' : Builder} {memory memory' : Memory} {id : Nat}
    {remake : Layer → Layer} (reread : Ledger → Ledger)
    (reads : builder'.ledger = (reread builder.ledger.1, builder.ledger.2))
    (binds : ∀ ledger,
      (reread ledger).interfaces.foldlM (builder'.bindInterface (reread ledger).slots) {} =
        ledger.interfaces.foldlM (builder.bindInterface ledger.slots) {})
    (requires : ∀ ledger bindings,
      builder'.unresolvable? memory' (reread ledger).slots bindings
          (feeding (reread ledger).slots (reread ledger).generators) =
        builder.unresolvable? memory ledger.slots bindings
          (feeding ledger.slots ledger.generators))
    (completes : ∀ ledger bindings,
      builder'.complete id (reread ledger) bindings =
        remake (builder.complete id ledger bindings)) :
    builder'.assemble memory' id = (builder.assemble memory id).map remake := by
  rw [assemble_eq, assemble_eq, reads]
  rcases builder.ledger with ⟨ledger, _ | error⟩
  · dsimp only
    rw [binds]
    cases ledger.interfaces.foldlM (builder.bindInterface ledger.slots) {} with
    | error error => rfl
    | ok bindings =>
      dsimp only
      rw [requires, completes]
      split <;> rfl
  · rfl

/-- What an assembled layer is made of. -/
theorem assemble_inv {memory : Memory} {id : Nat} {layer : Layer}
    (h : builder.assemble memory id = .ok layer) :
    ∃ ledger bindings, ledger.Sound ∧
      Marks ledger bindings
        (cyclicPlaces ledger.slots bindings (feeding ledger.slots ledger.generators)) layer.scope ∧
      (∀ key binding, bindings.find? key = some binding →
        ∃ backing, ledger.slots.find? binding.source = some backing) ∧
      layer.scope.id = id ∧ layer.outer = builder.outer ∧
      builder.unresolvable? memory ledger.slots bindings
        (feeding ledger.slots ledger.generators) = none := by
  obtain ⟨ledger, bindings, hledger, hbindings, hresolvable, rfl⟩ := assemble_eq_ok_iff.mp h
  refine ⟨ledger, bindings, ledger_sound hledger, ⟨fun key => Table.find?_map _ _ _, rfl⟩, ?_,
    rfl, rfl, hresolvable⟩
  refine foldlM_ok (fun bindings : Table Key Binding => ∀ key binding,
    bindings.find? key = some binding → ∃ backing,
      ledger.slots.find? binding.source = some backing) ?_ hbindings ?_
  · exact fun declared _ before after hstep => bindInterface_bound hstep
  · intro key binding h
    cases h

/-- What a generator of an assembled layer requires, the layer owns or its parent can resolve. -/
theorem assemble_provides {memory : Memory} {id : Nat} {layer : Layer}
    (h : builder.assemble memory id = .ok layer) {key required : Key} {source : Registered}
    {eager cyclic : Bool}
    (slot : layer.scope.slots.find? key = some (.generated source eager cyclic))
    (hrequired : required ∈ source.generator.declarations.filterMap Declaration.requiredKey?) :
    layer.scope.owns required = true ∨
      ∃ parent, builder.parent = some parent ∧ parent.canResolve memory required = true := by
  obtain ⟨ledger, bindings, sound, marks, -, -, -, hresolvable⟩ := assemble_inv h
  obtain ⟨⟨flag, hledger⟩, -⟩ := marks.generated.mp slot
  obtain ⟨-, -, -, rfl⟩ := sound.listed _ _ _ _ hledger
  have hfeeding := (mem_feeding sound).mpr ⟨key, eager, hledger⟩
  have hprovided := List.findSome?_eq_none_iff.mp
    (List.findSome?_eq_none_iff.mp hresolvable source hfeeding) required hrequired
  have howned : layer.scope.owns required =
      (ledger.slots.contains required || bindings.contains required) := by
    unfold Scope.owns Table.contains
    rw [marks.slots, marks.bindings, Option.isSome_map]
  rw [howned]
  split at hprovided
  · next h =>
    rcases Bool.or_eq_true_iff.mp h with hhere | houter
    · exact .inl hhere
    · exact .inr ((Option.any_eq_true _ _).mp houter)
  · cases hprovided

/-- Every layer that a builder puts together has a sound scope. -/
theorem assemble_sound {memory : Memory} {id : Nat} {layer : Layer}
    (h : builder.assemble memory id = .ok layer) : layer.scope.Sound := by
  obtain ⟨ledger, bindings, sound, marks, hbound, -⟩ := assemble_inv h
  refine ⟨?_, ?_, ?_, ?_, ?_, ?_⟩
  · intro key source eager cyclic hslot
    obtain ⟨⟨flag, hledger⟩, -⟩ := marks.generated.mp hslot
    exact (sound.listed _ _ _ _ hledger).2.1
  · intro key source eager cyclic hslot
    obtain ⟨⟨flag, hledger⟩, -⟩ := marks.generated.mp hslot
    exact (sound.listed _ _ _ _ hledger).2.2.1
  · intro key source eager cyclic other source' eager' cyclic' hslot hslot' hplace
    obtain ⟨⟨flag, hledger⟩, hflag⟩ := marks.generated.mp hslot
    obtain ⟨⟨flag', hledger'⟩, hflag'⟩ := marks.generated.mp hslot'
    have hsame := same_of_place sound (sound.listed _ _ _ _ hledger).1
      (sound.listed _ _ _ _ hledger').1 hplace
    refine ⟨hsame, sound.shared _ _ _ _ _ _ _ _ hledger hledger' hplace, ?_⟩
    rw [hflag, hflag', hplace]
  · intro key source eager cyclic hslot
    obtain ⟨⟨flag, hledger⟩, hflag⟩ := marks.generated.mp hslot
    obtain ⟨-, -, -, rfl⟩ := sound.listed _ _ _ _ hledger
    obtain ⟨index, hindex⟩ := List.mem_iff_getElem?.mp ((mem_feeding sound).mpr ⟨_, _, hledger⟩)
    rw [hflag, List.contains_iff_mem, mem_cyclicPlaces, marks.transGen_iff sound hindex]
    constructor
    · intro h
      obtain ⟨position, other, hposition, hplace, hcycle⟩ := h
      rw [← marks.transGen_iff sound hposition, hplace] at hcycle
      exact (marks.transGen_iff sound hindex).mp hcycle
    · exact fun hcycle => ⟨index, source, hindex, rfl, hcycle⟩
  · intro key value hslot
    rw [marks.slots] at hslot
    obtain ⟨backing, hledger, hvalue⟩ := Option.map_eq_some_iff.mp hslot
    cases backing with
    | value other =>
      obtain rfl := Backing.value.inj hvalue
      exact sound.typed key other hledger
    | generated source eager cyclic => cases hvalue
  · intro key binding hbinding
    rw [marks.bindings] at hbinding
    obtain ⟨backing, hbacking⟩ := hbound key binding hbinding
    exact ⟨_, by rw [marks.slots, hbacking]; rfl⟩

end Builder

end LayerGraph
