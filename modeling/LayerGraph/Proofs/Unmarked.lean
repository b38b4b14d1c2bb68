import LayerGraph.Proofs.Mirroring
import LayerGraph.Proofs.Unhoisted

/-! Layers without eager marks.

A builder whose entries have no eager marks puts together the same layer without them. To a request
the two are the same: whether a slot is eager is looked at when its layer is built, and never
again. -/

namespace LayerGraph

def Backing.unmarked : Backing → Backing
  | .value stored => .value stored
  | .generated source _ cyclic => .generated source false cyclic

def unmarkAll (slots : Table Key Backing) : Table Key Backing :=
  ⟨slots.entries.map fun (key, backing) => (key, backing.unmarked)⟩

def Scope.unmarked (scope : Scope) : Scope := { scope with slots := unmarkAll scope.slots }

def Layer.unmarked (layer : Layer) : Layer := { layer with scope := layer.scope.unmarked }

def Ledger.unmarked (ledger : Ledger) : Ledger := { ledger with slots := unmarkAll ledger.slots }

def Entry.unmarked : Entry Command → Entry Command
  | .generator maker _ => .generator maker false
  | .value key payload => .value key payload
  | .absent key => .absent key
  | .interface key source cast => .interface key source cast

def Directive.unmarked : Directive Command → Directive Command
  | .register entry => .register entry.unmarked
  | directive => directive

def Builder.unmarked (builder : Builder) : Builder :=
  { builder with entries := builder.entries.map Entry.unmarked }

theorem find?_unmarkAll (slots : Table Key Backing) (key : Key) :
    (unmarkAll slots).find? key = (slots.find? key).map Backing.unmarked :=
  Table.find?_map _ _ _

theorem contains_unmarkAll (slots : Table Key Backing) (key : Key) :
    (unmarkAll slots).contains key = slots.contains key := by
  unfold Table.contains
  rw [find?_unmarkAll, Option.isSome_map]

theorem Backing.source?_unmarked (backing : Backing) : backing.unmarked.source? = backing.source? := by
  cases backing <;> rfl

theorem Backing.isFedBy_unmarked (backing : Backing) (place : Nat) :
    backing.unmarked.isFedBy place = backing.isFedBy place := by
  cases backing <;> rfl

theorem Builder.markCyclic_unmarked (places : List Nat) (backing : Backing) :
    markCyclic places backing.unmarked = (markCyclic places backing).unmarked := by
  cases backing <;> rfl

theorem Layer.eagerKeys_unmarked (layer : Layer) : layer.unmarked.eagerKeys = [] := by
  refine List.map_eq_nil_iff.mpr (List.filter_eq_nil_iff.mpr fun entry hentry => ?_)
  obtain ⟨⟨key, backing⟩, -, rfl⟩ := List.mem_map.mp hentry
  cases backing <;> exact Bool.false_ne_true

theorem Backing.unmarked_unmarked (backing : Backing) :
    backing.unmarked.unmarked = backing.unmarked := by
  cases backing <;> rfl

theorem Backing.mirrors_of_unmarked_eq {backing backing' : Backing}
    (same : backing'.unmarked = backing.unmarked) : backing.Mirrors backing' := by
  cases backing with
  | value stored =>
    cases backing' with
    | value stored' =>
      obtain rfl := Backing.value.inj same
      exact .value stored'
    | generated source' eager' cyclic' => cases same
  | generated source eager cyclic =>
    cases backing' with
    | value stored' => cases same
    | generated source' eager' cyclic' =>
      obtain ⟨rfl, -, rfl⟩ := Backing.generated.inj same
      exact .generated source'.generator source'.place source'.place eager eager' cyclic' cyclic'

namespace Scope

variable {scope scope' : Scope}

theorem mirrors_of_unmarked_eq
    (slots : ∀ key, (scope'.slots.find? key).map Backing.unmarked =
      (scope.slots.find? key).map Backing.unmarked)
    (bindings : scope'.bindings = scope.bindings) (id : scope'.id = scope.id)
    (settings : scope'.settings = scope.settings) (observers : scope'.observers = scope.observers)
    (size : scope'.slots.size = scope.slots.size) : scope.Mirrors scope' := by
  have hslot {key : Key} {source source' : Registered} {eager eager' cyclic cyclic' : Bool}
      (slot : scope.slots.find? key = some (.generated source eager cyclic))
      (slot' : scope'.slots.find? key = some (.generated source' eager' cyclic')) :
      source' = source ∧ cyclic' = cyclic := by
    have hsame := slots key
    rw [slot, slot'] at hsame
    obtain ⟨hsource, -, hcyclic⟩ := Backing.generated.inj (Option.some.inj hsame)
    exact ⟨hsource, hcyclic⟩
  have hsource {source source' : Registered}
      (counterparts : Counterparts scope.slots scope'.slots source source') :
      source' = source := by
    obtain ⟨key, eager, eager', cyclic, cyclic', slot, slot'⟩ := counterparts
    exact (hslot slot slot').1
  refine ⟨⟨⟨fun key => ?_, fun first second => ?_⟩, fun key => ?_⟩, id, settings, observers, ?_,
    fun slot slot' => (hslot slot slot').2⟩
  · have hsame := slots key
    revert hsame
    generalize scope.slots.find? key = backing?, scope'.slots.find? key = backing?'
    intro hsame
    rcases backing? with _ | backing <;> rcases backing?' with _ | backing'
    · exact .none
    · cases hsame
    · cases hsame
    · exact .some (Backing.mirrors_of_unmarked_eq (Option.some.inj hsame))
  · rw [hsource first, hsource second]
  · rw [bindings]
  · rw [size, bindings]

theorem mirrors_unmarked (scope : Scope) : scope.Mirrors scope.unmarked := by
  refine mirrors_of_unmarked_eq (fun key => ?_) rfl rfl rfl rfl (List.length_map _)
  change ((unmarkAll scope.slots).find? key).map Backing.unmarked = _
  rw [find?_unmarkAll, Option.map_map]
  exact congrArg (Option.map · _) (funext Backing.unmarked_unmarked)

end Scope

theorem Layer.unmarked_unmarked (layer : Layer) : layer.unmarked.unmarked = layer.unmarked := by
  have hslots : unmarkAll (unmarkAll layer.scope.slots) = unmarkAll layer.scope.slots := by
    refine congrArg Table.mk ?_
    change (layer.scope.slots.entries.map _).map _ = _
    rw [List.map_map]
    exact List.map_congr_left fun entry _ =>
      congrArg (Prod.mk entry.1) entry.2.unmarked_unmarked
  exact congrArg (fun slots => { layer with scope := { layer.scope with slots } }) hslots

namespace Builder

variable {builder : Builder}

theorem occupy_unmarked (slots : Table Key Backing) (key : Key) (backing : Backing) :
    builder.unmarked.occupy (unmarkAll slots) key backing.unmarked =
      (builder.occupy slots key backing).map unmarkAll := by
  have hset : (unmarkAll slots).set key backing.unmarked = unmarkAll (slots.set key backing) :=
    (Table.set_map Backing.unmarked slots key backing).symm
  unfold occupy
  rw [contains_unmarkAll, hset]
  split
  · change (builder.mayReplace key >>= _) = Except.map _ (builder.mayReplace key >>= _)
    cases builder.mayReplace key <;> rfl
  · rfl

theorem occupyAll_unmarked (outputs : List Key) (slots : Table Key Backing) (backing : Backing) :
    outputs.foldlM
        (fun slots output => builder.unmarked.occupy slots output backing.unmarked)
        (unmarkAll slots) =
      (outputs.foldlM (fun slots output => builder.occupy slots output backing) slots).map
        unmarkAll := by
  induction outputs generalizing slots with
  | nil => rfl
  | cons output rest ih =>
    rw [List.foldlM_cons, List.foldlM_cons, occupy_unmarked]
    cases builder.occupy slots output backing with
    | error error => rfl
    | ok after => exact ih after

theorem enter_unmarked (ledger : Ledger) (entry : Entry Command) :
    builder.unmarked.enter ledger.unmarked entry.unmarked =
      (builder.enter ledger entry).map Ledger.unmarked := by
  cases entry with
  | value key payload =>
    change (builder.unmarked.occupy (unmarkAll ledger.slots) key
        (Backing.unmarked (.value ⟨key, payload⟩)) >>= _) =
      Except.map _ (builder.occupy ledger.slots key (.value ⟨key, payload⟩) >>= _)
    rw [occupy_unmarked]
    cases builder.occupy ledger.slots key (.value ⟨key, payload⟩) <;> rfl
  | absent key =>
    unfold enter Entry.unmarked
    change (if builder.permitNil then _ else _) = _
    dsimp only
    split <;> rfl
  | generator maker eager =>
    change (maker.check >>= fun _ => maker.outputs.foldlM (fun slots output =>
        builder.unmarked.occupy slots output
          (Backing.unmarked (.generated ⟨ledger.generators.length, maker⟩ eager false)))
        (unmarkAll ledger.slots) >>= _) =
      Except.map _ (maker.check >>= fun _ => maker.outputs.foldlM (fun slots output =>
        builder.occupy slots output (.generated ⟨ledger.generators.length, maker⟩ eager false))
        ledger.slots >>= _)
    cases maker.check with
    | error error => rfl
    | ok _ =>
      change (List.foldlM _ _ _ >>= _) = Except.map _ (List.foldlM _ _ _ >>= _)
      rw [occupyAll_unmarked]
      cases maker.outputs.foldlM (fun slots output =>
        builder.occupy slots output (.generated ⟨ledger.generators.length, maker⟩ eager false))
        ledger.slots <;> rfl
  | interface interface source cast => rfl

theorem scan_unmarked (ledger : Ledger) (entries : List (Entry Command)) :
    builder.unmarked.scan ledger.unmarked (entries.map Entry.unmarked) =
      ((builder.scan ledger entries).1.unmarked, (builder.scan ledger entries).2) := by
  induction entries generalizing ledger with
  | nil => rfl
  | cons entry rest ih =>
    rw [List.map_cons, scan, scan, enter_unmarked]
    cases builder.enter ledger entry with
    | error error => rfl
    | ok after => exact ih after

theorem ledger_unmarked (builder : Builder) :
    builder.unmarked.ledger = (builder.ledger.1.unmarked, builder.ledger.2) :=
  scan_unmarked {} builder.entries

theorem skipped_unmarked (builder : Builder) : builder.unmarked.skipped = builder.skipped := by
  unfold skipped
  rw [ledger_unmarked]
  rfl

theorem bindInterface_unmarked (slots : Table Key Backing) :
    builder.unmarked.bindInterface (unmarkAll slots) = builder.bindInterface slots := by
  funext bindings declared
  unfold bindInterface
  rw [contains_unmarkAll]
  rfl

theorem feeding_unmarked (slots : Table Key Backing) (generators : List Registered) :
    feeding (unmarkAll slots) generators = feeding slots generators := by
  unfold feeding
  simp only [find?_unmarkAll, Option.any_map, Backing.isFedBy_unmarked]

theorem cyclicPlaces_unmarked (slots : Table Key Backing) (bindings : Table Key Binding)
    (generators : List Registered) :
    cyclicPlaces (unmarkAll slots) bindings generators = cyclicPlaces slots bindings generators := by
  have hsource (slot : Key) : ((unmarkAll slots).find? slot).bind Backing.source? =
      (slots.find? slot).bind Backing.source? := by
    rw [find?_unmarkAll]
    cases slots.find? slot with
    | none => rfl
    | some backing => exact backing.source?_unmarked
  have hproducer (slots : Table Key Backing) (key : Key) :
      producer? slots bindings generators key =
        (if slots.contains key then some key
          else (bindings.find? key).map Binding.source).bind fun slot =>
            ((slots.find? slot).bind Backing.source?).bind fun source =>
              generators.findIdx? (·.place == source.place) := by
    unfold producer?
    split <;> simp only [Option.bind_eq_bind, Option.bind_assoc]
  have hsame : producer? (unmarkAll slots) bindings generators =
      producer? slots bindings generators := by
    funext key
    simp only [hproducer, hsource, contains_unmarkAll]
  unfold cyclicPlaces
  rw [hsame]

theorem assemble_unmarked (builder : Builder) (memory : Memory) (id : Nat) :
    builder.unmarked.assemble memory id = (builder.assemble memory id).map Layer.unmarked := by
  refine assemble_map _ builder.ledger_unmarked (fun ledger => ?_) (fun ledger bindings => ?_)
    fun ledger bindings => ?_
  · exact congrArg (fun bind => ledger.interfaces.foldlM bind {})
      (builder.bindInterface_unmarked ledger.slots)
  · change builder.unmarked.unresolvable? memory (unmarkAll ledger.slots) bindings
      (feeding (unmarkAll ledger.slots) ledger.generators) = _
    rw [feeding_unmarked]
    unfold unresolvable?
    simp only [contains_unmarkAll]
    rfl
  · have hslots : (⟨(unmarkAll ledger.slots).entries.map fun (key, backing) =>
        (key, markCyclic (cyclicPlaces (unmarkAll ledger.slots) bindings
          (feeding (unmarkAll ledger.slots) ledger.generators)) backing)⟩ : Table Key Backing) =
        unmarkAll (builder.complete id ledger bindings).scope.slots := by
      rw [feeding_unmarked, cyclicPlaces_unmarked]
      refine congrArg Table.mk ?_
      change (ledger.slots.entries.map _).map _ = (ledger.slots.entries.map _).map _
      rw [List.map_map, List.map_map]
      exact List.map_congr_left fun entry _ =>
        congrArg (Prod.mk entry.1) (markCyclic_unmarked _ entry.2)
    let layer := builder.complete id ledger bindings
    exact congrArg (fun slots => { layer with scope := { layer.scope with slots } }) hslots

theorem ofDirectives_unmarked (layers : Table String Layer) (base : Option String)
    (directives : List (Directive Command)) :
    Builder.ofDirectives layers base (directives.map Directive.unmarked) =
      (Builder.ofDirectives layers base directives).unmarked := by
  have happly (builder : Builder) (directive : Directive Command) :
      builder.unmarked.apply layers directive.unmarked =
        (builder.apply layers directive).unmarked := by
    cases directive with
    | register entry =>
      change Builder.register _ _ = Builder.unmarked (Builder.register _ _)
      unfold Builder.register Builder.unmarked
      simp
    | parent name =>
      change Builder.apply layers _ (.parent name) = _
      unfold Builder.apply
      dsimp only
      split <;> rfl
    | _ => rfl
  have hfold (builder : Builder) :
      (directives.map Directive.unmarked).foldl (Builder.apply layers) builder.unmarked =
        (directives.foldl (Builder.apply layers) builder).unmarked := by
    induction directives generalizing builder with
    | nil => rfl
    | cons directive rest ih =>
      rw [List.map_cons, List.foldl_cons, List.foldl_cons, happly]
      exact ih _
  exact hfold { parent := base.bind layers.find? }

end Builder

end LayerGraph
