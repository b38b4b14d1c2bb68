import LayerGraph.Proofs.Progress

/-! What a request comes to and leaves behind, going by what was remembered at first.

Whoever asks under a context without a token or a deadline gets an answer that depends on nothing but
the memory at first, if all outside code behaves the same on each run. `Comes` derives that answer,
or the panic, together with the values left behind: every type that is asked for on the way is
worked out anew unless it was remembered at first. -/

namespace LayerGraph

/-- Where a memory keeps a value: in a slot, for an interface, or as imported. -/
inductive Shelf where
  | filled
  | bound
  | imported

structure Keepsake where
  shelf : Shelf
  site : Site
  value : Value

namespace Memory

def shelf (memory : Memory) : Shelf → Table Site Value
  | .filled => memory.filled
  | .bound => memory.bound
  | .imported => memory.imported

def keep (memory : Memory) (keepsake : Keepsake) : Memory :=
  match keepsake.shelf with
  | .filled => memory.fill keepsake.site keepsake.value
  | .bound => memory.bind keepsake.site keepsake.value
  | .imported => memory.importValue keepsake.site keepsake.value

def keepAll (memory : Memory) (keepsakes : List Keepsake) : Memory := keepsakes.foldl keep memory

def Covers (memory : Memory) (keepsakes : List Keepsake) : Prop :=
  ∀ keepsake ∈ keepsakes, ∃ value, (memory.shelf keepsake.shelf).find? keepsake.site = some value

theorem Extends.shelf {before after : Memory} (extends_ : before.Extends after) (shelf : Shelf) :
    (before.shelf shelf).Extends (after.shelf shelf) := by
  cases shelf with
  | filled => exact extends_.filled
  | bound => exact extends_.bound
  | imported => exact extends_.imported

theorem Extends.keep (memory : Memory) (keepsake : Keepsake) :
    memory.Extends (memory.keep keepsake) := by
  obtain ⟨shelf, site, value⟩ := keepsake
  cases shelf with
  | filled => exact ⟨.add _ _ _, .refl _, .refl _⟩
  | bound => exact ⟨.refl _, .add _ _ _, .refl _⟩
  | imported => exact ⟨.refl _, .refl _, .add _ _ _⟩

theorem Extends.keepAll (memory : Memory) (keepsakes : List Keepsake) :
    memory.Extends (memory.keepAll keepsakes) := by
  induction keepsakes generalizing memory with
  | nil => exact .refl memory
  | cons keepsake rest ih => exact (Extends.keep memory keepsake).trans (ih _)

theorem keepAll_append (memory : Memory) (keepsakes more : List Keepsake) :
    memory.keepAll (keepsakes ++ more) = (memory.keepAll keepsakes).keepAll more :=
  List.foldl_append

theorem Covers.append {memory : Memory} {keepsakes more : List Keepsake}
    (covers : memory.Covers keepsakes) (covers' : memory.Covers more) :
    memory.Covers (keepsakes ++ more) := by
  intro keepsake hkeepsake
  rcases List.mem_append.mp hkeepsake with h | h
  · exact covers keepsake h
  · exact covers' keepsake h

theorem Covers.extend {before after : Memory} {keepsakes : List Keepsake}
    (covers : before.Covers keepsakes) (extends_ : before.Extends after) :
    after.Covers keepsakes := by
  intro keepsake hkeepsake
  obtain ⟨value, hvalue⟩ := covers keepsake hkeepsake
  exact ⟨value, extends_.shelf _ _ _ hvalue⟩

theorem find?_keep (memory : Memory) (keepsake : Keepsake) {shelf : Shelf} {site : Site}
    {value : Value} (h : ((memory.keep keepsake).shelf shelf).find? site = some value) :
    (memory.shelf shelf).find? site = some value ∨
      (memory.shelf shelf).find? site = none ∧ keepsake = ⟨shelf, site, value⟩ := by
  have hadd {table : Table Site Value} {place : Site} {added : Value}
      (h : (table.add place added).find? site = some value) :
      table.find? site = some value ∨
        table.find? site = none ∧ place = site ∧ added = value := by
    rw [Table.find?_add] at h
    split at h
    · next hsame =>
      subst hsame
      cases hfound : table.find? site with
      | none =>
        rw [hfound] at h
        exact .inr ⟨rfl, rfl, Option.some.inj h⟩
      | some found =>
        rw [hfound] at h
        exact .inl h
    · exact .inl h
  obtain ⟨kind, place, added⟩ := keepsake
  cases kind <;> cases shelf
  case filled.filled | bound.bound | imported.imported =>
    rcases hadd h with hfound | ⟨hnone, rfl, rfl⟩
    · exact .inl hfound
    · exact .inr ⟨hnone, rfl⟩
  all_goals exact .inl h

theorem find?_keepAll (memory : Memory) {keepsakes : List Keepsake} {shelf : Shelf} {site : Site}
    {value : Value} (h : ((memory.keepAll keepsakes).shelf shelf).find? site = some value) :
    (memory.shelf shelf).find? site = some value ∨
      (memory.shelf shelf).find? site = none ∧ ⟨shelf, site, value⟩ ∈ keepsakes := by
  induction keepsakes generalizing memory with
  | nil => exact .inl h
  | cons keepsake rest ih =>
    rcases ih (memory.keep keepsake) h with hfirst | ⟨hnone, hmem⟩
    · rcases memory.find?_keep keepsake hfirst with hfound | ⟨hnone, rfl⟩
      · exact .inl hfound
      · exact .inr ⟨hnone, List.mem_cons_self⟩
    · cases hfound : (memory.shelf shelf).find? site with
      | none => exact .inr ⟨rfl, List.mem_cons_of_mem _ hmem⟩
      | some found =>
        have hkept := (Extends.keep memory keepsake).shelf shelf site found hfound
        rw [hnone] at hkept
        cases hkept

theorem covers_keep (memory : Memory) (keepsake : Keepsake) :
    ∃ value, ((memory.keep keepsake).shelf keepsake.shelf).find? keepsake.site = some value := by
  have hadd (table : Table Site Value) (site : Site) (value : Value) :
      ∃ found, (table.add site value).find? site = some found :=
    ⟨_, by rw [Table.find?_add, if_pos rfl]⟩
  obtain ⟨shelf, site, value⟩ := keepsake
  cases shelf <;> exact hadd _ site value

theorem covers_keepAll (memory : Memory) (keepsakes : List Keepsake) :
    (memory.keepAll keepsakes).Covers keepsakes := by
  induction keepsakes generalizing memory with
  | nil => exact fun _ h => nomatch h
  | cons keepsake rest ih =>
    intro other hother
    rcases List.mem_cons.mp hother with rfl | hmem
    · obtain ⟨value, hvalue⟩ := memory.covers_keep other
      exact ⟨value, (Extends.keepAll _ rest).shelf _ _ _ hvalue⟩
    · exact ih _ other hmem

theorem Covers.keepAll {memory : Memory} {keepsakes : List Keepsake}
    (covers : memory.Covers keepsakes) : memory.keepAll keepsakes = memory := by
  have hadd {table : Table Site Value} {site : Site} {value : Value}
      (h : ∃ found, table.find? site = some found) : table.add site value = table := by
    obtain ⟨found, hfound⟩ := h
    unfold Table.add Table.contains
    rw [hfound]
    rfl
  induction keepsakes with
  | nil => rfl
  | cons keepsake rest ih =>
    have hkept : memory.keep keepsake = memory := by
      have hpresent := covers keepsake List.mem_cons_self
      obtain ⟨shelf, site, value⟩ := keepsake
      cases shelf with
      | filled => exact congrArg (fun filled => { memory with filled }) (hadd hpresent)
      | bound => exact congrArg (fun bound => { memory with bound }) (hadd hpresent)
      | imported => exact congrArg (fun imported => { memory with imported }) (hadd hpresent)
    change (memory.keep keepsake).keepAll rest = memory
    rw [hkept]
    exact ih fun other hother => covers other (List.mem_cons_of_mem _ hother)

end Memory

/-- How code ends that gives no commands: with a result, or with the message of a panic. -/
def Act.ending? {κ α : Type} : Act κ α → Option (Except String α)
  | .done result => some (.ok result)
  | .panic message => some (.error message)
  | .perform _ _ => none
  | .cancel _ next | .elapse _ next | .noteThread next => next.ending?

/-- Code that gives no commands ends so in every world, and leaves memory and locks alone. -/
theorem Act.run_of_ending? {α : Type} {act : Act Command α} {ending : Except String α}
    (h : act.ending? = some ending) (perform : Command → Engine Reply) (world : World) :
    (Engine.run perform act world).1 = ending.mapError Stop.panic ∧
      (Engine.run perform act world).2.memory = world.memory ∧
      (Engine.run perform act world).2.held = world.held := by
  induction act generalizing world with
  | done result =>
    obtain rfl := Option.some.inj h
    exact ⟨rfl, rfl, rfl⟩
  | panic message =>
    obtain rfl := Option.some.inj h
    exact ⟨rfl, rfl, rfl⟩
  | cancel token next ih =>
    rw [Engine.run, Engine.modify_bind_apply]
    refine ⟨(ih h _).1, (ih h _).2.1.trans ?_, (ih h _).2.2.trans ?_⟩ <;> split <;> rfl
  | elapse time next ih => exact ih h (world.elapse time)
  | noteThread next ih => exact ih h (world.emit (.thread world.thread))
  | perform command next => cases h

/-- Bodies and casts give no commands, and end in the same way on each run. -/
structure Scope.Constant (scope : Scope) : Prop where
  bodies : ∀ key source eager cyclic,
    scope.slots.find? key = some (.generated source eager cyclic) → ∀ arguments, ∃ ending,
      ∀ run, (source.generator.body run arguments).ending? = some ending
  casts : ∀ key binding, scope.bindings.find? key = some binding → ∀ payload, ∃ ending,
    ∀ call, (binding.cast.apply call payload).ending? = some ending

def Scope.souvenirs (scope : Scope) (key : Key) : Except Stop Answer → List Keepsake
  | .ok (.ok value) =>
    if scope.settings.hoist then [⟨.imported, scope.site key, value⟩] else []
  | _ => []

namespace Registered

def harvest (source : Registered) (scope : Scope) (key : Key) :
    Except String Yield → Except Stop Answer × List Keepsake
  | .error message => (.error (.panic message), [])
  | .ok (.failed message) => (.ok (.error (.failed key source.generator.signature message)), [])
  | .ok (.nil output) => (.ok (.error (.nilResult output source.generator.signature)), [])
  | .ok (.products values) =>
    let deliveries := Resolution.deliveries scope source values
    (.ok (((Table.lookup (scope.site key) deliveries).map .ok).getD (.error (.mismatch key))),
      deliveries.map fun delivery => ⟨.filled, delivery.1, delivery.2⟩)

def conclude? (source : Registered) (scope : Scope) (key : Key) :
    Except Stop (Except ResolutionError (List Argument)) →
      Option (Except Stop Answer × List Keepsake)
  | .error stop => some (.error stop, [])
  | .ok (.error error) => some (.ok (.error error), [])
  | .ok (.ok arguments) =>
    (source.generator.body 1 arguments).ending?.map (source.harvest scope key)

end Registered

def Binding.conclude? (binding : Binding) (scope : Scope) (key : Key) :
    Except Stop Answer → Option (Except Stop Answer × List Keepsake)
  | .ok (.ok value) =>
    if value.type = binding.source then
      (binding.cast.apply 1 value.payload).ending?.map fun
        | .error message => (.error (.panic message), [])
        | .ok payload =>
          (.ok (.ok ⟨key, payload⟩), [⟨.bound, scope.site key, ⟨key, payload⟩⟩])
    else some (.ok (.error (.mismatch key)), [])
  | lost => some (lost, [])

structure Finding where
  key : Key
  result : Except Stop Answer
  kept : List Keepsake

def Finding.argument (finding : Finding) (supply : Supply) :
    Except Stop (Except ResolutionError Argument) :=
  finding.result.map (Resolution.accept supply finding.key)

/-- What the arguments of a run come to, from left to right up to the first that is not found. -/
inductive Finds (layer : Layer) :
    List Supply → List Finding → Except Stop (Except ResolutionError (List Argument)) → Prop
  | done : Finds layer [] [] (.ok (.ok []))
  | given {supply rest findings gathered} (unasked : supply.key? = none)
      (willing : supply.refusal? = none) (further : Finds layer rest findings gathered) :
      Finds layer (supply :: rest) findings
        (gathered.map (Except.map
          (Resolution.given layer (Context.background.standing {}) supply :: ·)))
  | declined {supply rest error} (unasked : supply.key? = none)
      (refusal : supply.refusal? = some error) :
      Finds layer (supply :: rest) [] (.ok (.error error))
  | lost {supply rest finding} (asked : supply.key? = some finding.key)
      (lost : ∀ argument, finding.argument supply ≠ .ok (.ok argument)) :
      Finds layer (supply :: rest) [finding]
        ((finding.argument supply).map (Except.map fun _ => []))
  | found {supply rest finding findings argument gathered}
      (asked : supply.key? = some finding.key)
      (found : finding.argument supply = .ok (.ok argument))
      (further : Finds layer rest findings gathered) :
      Finds layer (supply :: rest) (finding :: findings)
        (gathered.map (Except.map (argument :: ·)))

/-- What a type comes to in a layer for a request that nothing ends, and what that leaves behind,
going by what is remembered at first. -/
inductive Comes (base : Memory) : Layer → Key → Except Stop Answer → List Keepsake → Prop
  | stored {scope outer key backing value} (slot : scope.slots.find? key = some backing)
      (present : base.stored? (scope.site key) backing = some value) :
      Comes base ⟨scope, outer⟩ key (.ok (.ok value)) []
  | cyclic {scope outer key source eager}
      (slot : scope.slots.find? key = some (.generated source eager true))
      (empty : base.filled.find? (scope.site key) = none) :
      Comes base ⟨scope, outer⟩ key (.ok (.error (.cyclic key (scope.cyclePath key source)))) []
  | run {scope outer key source eager findings gathered result kept}
      (slot : scope.slots.find? key = some (.generated source eager false))
      (empty : base.filled.find? (scope.site key) = none)
      (finds : Finds ⟨scope, outer⟩ (source.generator.parameters.map Parameter.supply) findings
        gathered)
      (answers : ∀ finding ∈ findings,
        Comes base ⟨scope, outer⟩ finding.key finding.result finding.kept)
      (concludes : source.conclude? scope key gathered = some (result, kept)) :
      Comes base ⟨scope, outer⟩ key result (findings.flatMap Finding.kept ++ kept)
  | bound {scope outer key binding value} (noSlot : scope.slots.find? key = none)
      (interface : scope.bindings.find? key = some binding)
      (present : base.bound.find? (scope.site key) = some value) :
      Comes base ⟨scope, outer⟩ key (.ok (.ok value)) []
  | unbacked {scope outer key binding} (noSlot : scope.slots.find? key = none)
      (interface : scope.bindings.find? key = some binding)
      (unbound : base.bound.find? (scope.site key) = none)
      (noSource : scope.slots.find? binding.source = none) :
      Comes base ⟨scope, outer⟩ key (.ok (.error (.notFound binding.source))) []
  | cast {scope outer key binding backing found kept result more}
      (noSlot : scope.slots.find? key = none)
      (interface : scope.bindings.find? key = some binding)
      (unbound : base.bound.find? (scope.site key) = none)
      (behind : scope.slots.find? binding.source = some backing)
      (source : Comes base ⟨scope, outer⟩ binding.source found kept)
      (concludes : binding.conclude? scope key found = some (result, more)) :
      Comes base ⟨scope, outer⟩ key result (kept ++ more)
  | imported {scope outer key value} (noSlot : scope.slots.find? key = none)
      (noInterface : scope.bindings.find? key = none)
      (present : base.imported.find? (scope.site key) = some value) :
      Comes base ⟨scope, outer⟩ key (.ok (.ok value)) []
  | missing {scope key} (noSlot : scope.slots.find? key = none)
      (noInterface : scope.bindings.find? key = none)
      (unknown : base.imported.find? (scope.site key) = none) :
      Comes base ⟨scope, []⟩ key (.ok (.error (.notFound key))) []
  | outward {scope parent further key result kept} (noSlot : scope.slots.find? key = none)
      (noInterface : scope.bindings.find? key = none)
      (unknown : base.imported.find? (scope.site key) = none)
      (answer : Comes base ⟨parent, further⟩ key result kept) :
      Comes base ⟨scope, parent :: further⟩ key result (kept ++ scope.souvenirs key result)

theorem Finds.unique {layer : Layer} {supplies : List Supply} {findings findings' : List Finding}
    {gathered gathered' : Except Stop (Except ResolutionError (List Argument))}
    (finds : Finds layer supplies findings gathered)
    (finds' : Finds layer supplies findings' gathered')
    (same : ∀ finding ∈ findings, ∀ finding' ∈ findings', finding.key = finding'.key →
      finding = finding') : findings = findings' ∧ gathered = gathered' := by
  induction finds generalizing findings' gathered' with
  | done =>
    cases finds'
    exact ⟨rfl, rfl⟩
  | given unasked willing further ih =>
    cases finds' with
    | given unasked' willing' further' =>
      obtain ⟨rfl, rfl⟩ := ih further' same
      exact ⟨rfl, rfl⟩
    | declined unasked' refusal' => cases willing.symm.trans refusal'
    | lost asked' => cases unasked.symm.trans asked'
    | found asked' => cases unasked.symm.trans asked'
  | declined unasked refusal =>
    cases finds' with
    | given unasked' willing' => cases willing'.symm.trans refusal
    | declined unasked' refusal' =>
      obtain rfl := Option.some.inj (refusal.symm.trans refusal')
      exact ⟨rfl, rfl⟩
    | lost asked' => cases unasked.symm.trans asked'
    | found asked' => cases unasked.symm.trans asked'
  | lost asked lost =>
    cases finds' with
    | given unasked' => cases unasked'.symm.trans asked
    | declined unasked' => cases unasked'.symm.trans asked
    | lost asked' =>
      have hkey := Option.some.inj (asked.symm.trans asked')
      obtain rfl := same _ List.mem_cons_self _ List.mem_cons_self hkey
      exact ⟨rfl, rfl⟩
    | found asked' found' =>
      have hkey := Option.some.inj (asked.symm.trans asked')
      obtain rfl := same _ List.mem_cons_self _ List.mem_cons_self hkey
      exact absurd found' (lost _)
  | found asked found further ih =>
    cases finds' with
    | given unasked' => cases unasked'.symm.trans asked
    | declined unasked' => cases unasked'.symm.trans asked
    | lost asked' lost' =>
      have hkey := Option.some.inj (asked.symm.trans asked')
      obtain rfl := same _ List.mem_cons_self _ List.mem_cons_self hkey
      exact absurd found (lost' _)
    | found asked' found' further' =>
      have hkey := Option.some.inj (asked.symm.trans asked')
      obtain rfl := same _ List.mem_cons_self _ List.mem_cons_self hkey
      obtain rfl := Except.ok.inj (Except.ok.inj (found.symm.trans found'))
      obtain ⟨rfl, rfl⟩ := ih further' fun finding hfinding finding' hfinding' =>
        same finding (List.mem_cons_of_mem _ hfinding) finding' (List.mem_cons_of_mem _ hfinding')
      exact ⟨rfl, rfl⟩

/-- A type comes to one thing, and one thing is left behind. -/
theorem Comes.unique {base : Memory} {layer : Layer} {key : Key}
    {result result' : Except Stop Answer} {kept kept' : List Keepsake}
    (comes : Comes base layer key result kept) (comes' : Comes base layer key result' kept') :
    result = result' ∧ kept = kept' := by
  induction comes generalizing result' kept' with
  | stored slot present =>
    cases comes' with
    | stored slot' present' => simp_all
    | cyclic slot' empty' =>
      obtain rfl := Option.some.inj (slot.symm.trans slot')
      cases present.symm.trans empty'
    | run slot' empty' =>
      obtain rfl := Option.some.inj (slot.symm.trans slot')
      cases present.symm.trans empty'
    | _ => simp_all
  | cyclic slot empty =>
    cases comes' with
    | stored slot' present' =>
      obtain rfl := Option.some.inj (slot.symm.trans slot')
      cases present'.symm.trans empty
    | cyclic slot' empty' => simp_all
    | _ => simp_all
  | run slot empty finds answers concludes ih =>
    cases comes' with
    | stored slot' present' =>
      obtain rfl := Option.some.inj (slot.symm.trans slot')
      cases present'.symm.trans empty
    | run slot' empty' finds' answers' concludes' =>
      obtain ⟨rfl, -⟩ := Backing.generated.inj (Option.some.inj (slot.symm.trans slot'))
      obtain ⟨rfl, rfl⟩ := finds.unique finds' fun finding hfinding finding' hfinding' hkey => by
        obtain ⟨key, result, kept⟩ := finding
        obtain ⟨key', result', kept'⟩ := finding'
        obtain rfl : key = key' := hkey
        obtain ⟨hresult, hkept⟩ := @ih _ hfinding result' kept' (answers' _ hfinding')
        exact congrArg₂ (Finding.mk key) hresult hkept
      simp_all
    | _ => simp_all
  | bound noSlot interface present =>
    cases comes' <;> simp_all
  | unbacked noSlot interface unbound noSource =>
    cases comes' <;> simp_all
  | cast noSlot interface unbound behind source concludes ih =>
    cases comes' with
    | cast noSlot' interface' unbound' behind' source' concludes' =>
      obtain rfl := Option.some.inj (interface.symm.trans interface')
      obtain ⟨rfl, rfl⟩ := ih source'
      simp_all
    | _ => simp_all
  | imported noSlot noInterface present =>
    cases comes' <;> simp_all
  | missing noSlot noInterface unknown =>
    cases comes' <;> simp_all
  | outward noSlot noInterface unknown answer ih =>
    cases comes' with
    | outward noSlot' noInterface' unknown' answer' =>
      obtain ⟨rfl, rfl⟩ := ih answer'
      exact ⟨rfl, rfl⟩
    | _ => simp_all

end LayerGraph
