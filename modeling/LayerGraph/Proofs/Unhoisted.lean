import LayerGraph.Proofs.Delegation

/-! Layers, listings and worlds without what hoisting leaves in them.

Nothing that a request comes to depends on that: it is answered the same in the world without, and
the world that it leaves behind there is again the one without. -/

namespace LayerGraph

namespace Table

variable {κ α β : Type} [DecidableEq κ]

theorem set_map (f : α → β) (table : Table κ α) (key : κ) (value : α) :
    (⟨(table.set key value).entries.map fun (key, a) => (key, f a)⟩ : Table κ β) =
      Table.set ⟨table.entries.map fun (key, a) => (key, f a)⟩ key (f value) := by
  obtain ⟨entries⟩ := table
  refine congrArg Table.mk ?_
  change (replace key value entries).map _ = replace key (f value) (entries.map _)
  induction entries with
  | nil => rfl
  | cons head rest ih =>
    obtain ⟨k, a⟩ := head
    by_cases hk : k = key
    · simp [replace, hk]
    · simp [replace, hk, ih]

theorem erase_map (f : α → β) (table : Table κ α) (key : κ) :
    (⟨(table.erase key).entries.map fun (key, a) => (key, f a)⟩ : Table κ β) =
      Table.erase ⟨table.entries.map fun (key, a) => (key, f a)⟩ key := by
  refine congrArg Table.mk ?_
  change (table.entries.filter _).map _ = (table.entries.map _).filter _
  rw [List.filter_map]
  rfl

end Table

def Scope.unhoisted : Scope → Scope := Scope.hoisting fun _ => false

def Layer.unhoisted : Layer → Layer := Layer.hoisting fun _ => false

namespace Layer

theorem unhoisted_unhoisted (layer : Layer) : layer.unhoisted.unhoisted = layer.unhoisted := by
  have hscope : Scope.hoisting (fun _ => false) ∘ Scope.hoisting (fun _ => false) =
    Scope.hoisting fun _ => false := rfl
  unfold unhoisted hoisting
  rw [List.map_map, hscope]
  rfl

theorem ancestry_unhoisted (layer : Layer) :
    layer.unhoisted.ancestry = layer.ancestry.map Scope.unhoisted :=
  rfl

theorem parentId?_unhoisted (layer : Layer) : layer.unhoisted.parentId? = layer.parentId? := by
  obtain ⟨scope, outer⟩ := layer
  cases outer <;> rfl

/-- A type has the same owner whatever is hoisted. -/
theorem owner?_unhoisted (layer : Layer) (key : Key) :
    layer.unhoisted.owner? key = (layer.owner? key).map Scope.unhoisted := by
  unfold owner?
  rw [ancestry_unhoisted, List.find?_map]
  rfl

theorem cell?_unhoisted (layer : Layer) (key : Key) {memory memory' : Memory}
    (filled : memory'.filled = memory.filled) (bound : memory'.bound = memory.bound) :
    layer.unhoisted.cell? memory' key = layer.cell? memory key := by
  have hstored (site : Site) (backing : Backing) :
      memory'.stored? site backing = memory.stored? site backing := by
    cases backing with
    | value value => rfl
    | generated source eager cyclic => exact congrArg (·.find? site) filled
  have hscope (scope : Scope) : scope.unhoisted.cell? memory' key = scope.cell? memory key := by
    change scope.cell? memory' key = scope.cell? memory key
    unfold Scope.cell?
    rw [bound]
    split
    · exact hstored _ _
    · rfl
  unfold cell?
  rw [owner?_unhoisted]
  cases layer.owner? key with
  | none => rfl
  | some scope => exact hscope scope

theorem canResolve_of_unimported (layer : Layer) {memory : Memory} (imported : memory.imported = {})
    (key : Key) : layer.canResolve memory key = (layer.owner? key).isSome := by
  have hknows : (fun scope : Scope => scope.knows memory key) = fun scope => scope.owns key := by
    funext scope
    unfold Scope.knows
    rw [imported]
    exact Bool.or_false _
  unfold canResolve owner?
  rw [hknows, Bool.eq_iff_iff, List.any_eq_true, List.find?_isSome]

end Layer

def Memory.unhoisted (memory : Memory) : Memory := { memory with imported := {} }

/-- Two lists that are put together to the same, and of which some test tells the parts apart, are
the same part by part. -/
theorem append_inj_of_test {α : Type} {first second first' second' : List α} {test : α → Bool}
    (h : first ++ second = first' ++ second') (hfirst : ∀ a ∈ first, test a = false)
    (hfirst' : ∀ a ∈ first', test a = false) (hsecond : ∀ a ∈ second, test a = true)
    (hsecond' : ∀ a ∈ second', test a = true) : first = first' ∧ second = second' := by
  have hpart {first second : List α} (hfirst : ∀ a ∈ first, test a = false)
      (hsecond : ∀ a ∈ second, test a = true) : (first ++ second).filter test = second := by
    have hnone : first.filter test = [] :=
      List.filter_eq_nil_iff.mpr fun a ha => by simp [hfirst a ha]
    rw [List.filter_append, hnone, List.filter_eq_self.mpr hsecond, List.nil_append]
  have hsame : second = second' := by
    rw [← hpart hfirst hsecond, h, hpart hfirst' hsecond']
  subst hsame
  exact ⟨List.append_cancel_right h, rfl⟩

theorem filter_mergeSort {α : Type} {le : α → α → Bool}
    (trans : ∀ a b c, le a b = true → le b c = true → le a c = true)
    (total : ∀ a b, (le a b || le b a) = true) (p : α → Bool) (items : List α) :
    (items.mergeSort le).filter p = (items.filter p).mergeSort le := by
  have habove {a : α} {items before after : List α}
      (h : (a :: items).mergeSort le = before ++ a :: after) : ∀ b ∈ after, le a b = true := by
    have hpairwise := List.pairwise_mergeSort trans total (a :: items)
    rw [h] at hpairwise
    exact (List.pairwise_cons.mp (List.pairwise_append.mp hpairwise).2.1).1
  induction items with
  | nil => simp
  | cons a rest ih =>
    obtain ⟨before, after, hsorted, hrest, hbefore⟩ := List.mergeSort_cons trans total a rest
    rw [hsorted, List.filter_append, List.filter_cons]
    rw [hrest, List.filter_append] at ih
    cases hp : p a with
    | false => simpa [hp] using ih
    | true =>
      obtain ⟨first, last, hsorted', hrest', hfirst⟩ :=
        List.mergeSort_cons trans total a (rest.filter p)
      -- The item comes right before the first one that it is not above.
      obtain ⟨rfl, rfl⟩ := append_inj_of_test (ih.trans hrest')
        (fun b hb => by simpa using hbefore b (List.mem_of_mem_filter hb))
        (fun b hb => by simpa using hfirst b hb)
        (fun b hb => habove hsorted b (List.mem_of_mem_filter hb)) (habove hsorted')
      rw [List.filter_cons_of_pos hp, hsorted']
      rfl

namespace SlotRow

theorem le_trans (a b c : SlotRow) (hab : a.le b = true) (hbc : b.le c = true) :
    a.le c = true := by
  unfold le at *
  split at hab
  · next hname =>
    rw [hname]
    split at hbc
    · next hname' =>
      rw [if_pos hname']
      simp only [decide_eq_true_eq] at *
      exact Nat.le_trans hab hbc
    · next hname' => rwa [if_neg hname']
  · next hname =>
    split at hbc
    · next hname' => rwa [← hname', if_neg hname]
    · next hname' =>
      simp only [decide_eq_true_eq] at *
      split
      · next hsame =>
        rw [hsame] at hab
        exact absurd (String.le_antisymm hbc hab) hname'
      · simpa using String.le_trans hab hbc

theorem le_total (a b : SlotRow) : (a.le b || b.le a) = true := by
  unfold le
  by_cases hname : a.typeName = b.typeName
  · simpa [hname] using Nat.le_total _ _
  · simpa [hname, Ne.symm hname] using String.le_total _ _

end SlotRow

def LayerDump.unhoisted (layer : LayerDump) : LayerDump :=
  { layer with slots := layer.slots.filter (·.status ≠ .imported) }

def Dump.unhoisted (dump : Dump) : Dump := ⟨dump.layers.map LayerDump.unhoisted⟩

namespace Scope

theorem slotStatus_ne_imported (scope : Scope) (memory : Memory) (key : Key) (backing : Backing) :
    scope.slotStatus memory key backing ≠ .imported := by
  unfold slotStatus
  split
  · simp
  · split <;> simp

theorem status?_unhoisted (scope : Scope) (memory : Memory) (key : Key) :
    (scope.status? memory key).filter (· ≠ .imported) =
      scope.unhoisted.status? memory.unhoisted key := by
  have hslot (key : Key) (backing : Backing) :
      (some (scope.slotStatus memory key backing)).filter (· ≠ .imported) =
        some (scope.slotStatus memory key backing) := by
    simp [Option.filter, scope.slotStatus_ne_imported memory key backing]
  have hsame (key : Key) (backing : Backing) :
      scope.unhoisted.slotStatus memory.unhoisted key backing =
        scope.slotStatus memory key backing := rfl
  have hslots : scope.unhoisted.slots = scope.slots := rfl
  have hbindings : scope.unhoisted.bindings = scope.bindings := rfl
  unfold status?
  rw [hslots, hbindings]
  cases scope.slots.find? key with
  | some backing => exact hslot key backing
  | none =>
    cases scope.bindings.find? key with
    | some binding =>
      dsimp only
      cases scope.slots.find? binding.source with
      | none => rfl
      | some backing => exact hslot binding.source backing
    | none =>
      dsimp only
      split <;> rfl

theorem dump_unhoisted (scope : Scope) (memory : Memory) :
    (scope.dump memory).unhoisted = scope.unhoisted.dump memory.unhoisted := by
  have hslots {rows : List SlotRow} (h : ∀ row ∈ rows, row.status ≠ .imported) :
      rows.filter (·.status ≠ .imported) = rows :=
    List.filter_eq_self.mpr fun row hrow => by simpa using h row hrow
  have himports {rows : List SlotRow} (h : ∀ row ∈ rows, row.status = .imported) :
      rows.filter (·.status ≠ .imported) = [] :=
    List.filter_eq_nil_iff.mpr fun row hrow => by simpa using h row hrow
  unfold dump LayerDump.sort LayerDump.unhoisted
  dsimp only
  rw [filter_mergeSort SlotRow.le_trans SlotRow.le_total, List.filter_append, hslots, himports,
    List.append_nil]
  · exact congrArg (fun rows => LayerDump.mk _ _ _ (rows.mergeSort SlotRow.le) _)
      (List.append_nil _).symm
  · intro row hrow
    obtain ⟨key, -, rfl⟩ := List.mem_map.mp hrow
    rfl
  · intro row hrow
    obtain ⟨⟨key, backing⟩, -, rfl⟩ := List.mem_map.mp hrow
    exact scope.slotStatus_ne_imported memory key backing

end Scope

theorem Layer.dump_unhoisted (layer : Layer) (memory : Memory) :
    (layer.dump memory).unhoisted = layer.unhoisted.dump memory.unhoisted := by
  unfold dump Dump.unhoisted
  rw [Layer.ancestry_unhoisted, List.map_map, List.map_map]
  exact congrArg Dump.mk (List.map_congr_left fun scope _ => scope.dump_unhoisted memory)

def Profile.unhoisted (profile : Profile) : Profile :=
  { profile with settings := { profile.settings with hoist := false } }

theorem Layer.profile_unhoisted (layer : Layer) :
    layer.profile.unhoisted = layer.unhoisted.profile := by
  obtain ⟨scope, outer⟩ := layer
  have hancestry : (Layer.unhoisted ⟨scope, outer⟩).ancestry.map Scope.id =
      (Layer.ancestry ⟨scope, outer⟩).map Scope.id := by
    rw [Layer.ancestry_unhoisted, List.map_map]
    rfl
  have hdebug : (Layer.unhoisted ⟨scope, outer⟩).debug = Layer.debug ⟨scope, outer⟩ := by
    unfold Layer.debug
    rw [Layer.parentId?_unhoisted]
    rfl
  unfold Layer.profile Profile.unhoisted
  rw [hancestry, hdebug, Layer.parentId?_unhoisted]
  rfl

namespace Builder

variable {builder : Builder}

def effective (builder : Builder) : Settings :=
  (builder.settings <|> builder.parent.map (·.scope.settings)).getD {}

/-- The builder of the same layer where nothing is hoisted. -/
def unhoisted (builder : Builder) : Builder :=
  { builder with
    parent := builder.parent.map Layer.unhoisted
    settings := some { builder.effective with hoist := false } }

theorem outer_unhoisted (builder : Builder) :
    builder.unhoisted.outer = builder.outer.map Scope.unhoisted := by
  have hparent : builder.unhoisted.parent = builder.parent.map Layer.unhoisted := rfl
  unfold outer
  rw [hparent]
  cases builder.parent <;> rfl

theorem mayReplace_unhoisted (builder : Builder) :
    builder.unhoisted.mayReplace = builder.mayReplace := by
  have hlock : builder.unhoisted.underLock = builder.underLock := by
    unfold underLock
    rw [outer_unhoisted, List.any_map]
    rfl
  have hmarked (key : Key) : builder.unhoisted.markedAbove key = builder.markedAbove key := by
    unfold markedAbove
    rw [outer_unhoisted, List.any_map]
    rfl
  funext key
  unfold mayReplace
  rw [hlock, hmarked]
  rfl

theorem enter_unhoisted (builder : Builder) : builder.unhoisted.enter = builder.enter := by
  have hoccupy : builder.unhoisted.occupy = builder.occupy := by
    funext slots key backing
    unfold occupy
    rw [mayReplace_unhoisted]
  funext ledger entry
  unfold enter
  rw [hoccupy]
  rfl

theorem ledger_unhoisted (builder : Builder) : builder.unhoisted.ledger = builder.ledger := by
  have hscan (ledger : Ledger) (entries : List (Entry Command)) :
      builder.unhoisted.scan ledger entries = builder.scan ledger entries := by
    induction entries generalizing ledger with
    | nil => rfl
    | cons entry rest ih =>
      unfold scan
      rw [enter_unhoisted]
      split
      · exact ih _
      · rfl
  exact hscan {} builder.entries

/-- A builder puts the same layer together whatever is hoisted, as long as the parent can resolve
the same types. -/
theorem assemble_unhoisted {memory memory' : Memory}
    (h : ∀ parent, builder.parent = some parent → ∀ key,
      parent.unhoisted.canResolve memory' key = parent.canResolve memory key) (id : Nat) :
    builder.unhoisted.assemble memory' id = (builder.assemble memory id).map Layer.unhoisted := by
  have hparent (key : Key) : builder.unhoisted.parent.any (·.canResolve memory' key) =
      builder.parent.any (·.canResolve memory key) := by
    change (builder.parent.map Layer.unhoisted).any _ = _
    cases hparent : builder.parent with
    | none => rfl
    | some parent => exact h parent hparent key
  have hobservers : builder.unhoisted.parent.map (·.scope.observers) =
      builder.parent.map (·.scope.observers) := by
    change (builder.parent.map Layer.unhoisted).map _ = _
    rw [Option.map_map]
    rfl
  refine assemble_map (fun ledger => ledger) builder.ledger_unhoisted (fun ledger => rfl)
    (fun ledger bindings => ?_) fun ledger bindings => ?_
  · unfold unresolvable?
    simp only [hparent]
  · unfold complete
    rw [hobservers, outer_unhoisted]
    rfl

end Builder

namespace World

/-- The world without imports, in which no layer hoists and no way of a request has been told. -/
def unhoisted (world : World) : World :=
  { world with
    layers := ⟨world.layers.entries.map fun (name, layer) => (name, layer.unhoisted)⟩
    built := world.built.map Layer.unhoisted
    memory := world.memory.unhoisted
    trace := world.deeds }

/-- The worlds differ in nothing but what layers hoist, and in what hoisting leaves. -/
structure Alike (world other : World) : Prop where
  unhoisted : world.unhoisted = other.unhoisted

theorem alike_unhoisted (world : World) : world.Alike world.unhoisted := by
  have hlayer (layer : Layer) : layer.unhoisted = layer.unhoisted.unhoisted :=
    layer.unhoisted_unhoisted.symm
  have hlayers : (world.layers.entries.map fun (name, layer) => (name, layer.unhoisted)) =
      (world.layers.entries.map fun (name, layer) => (name, layer.unhoisted)).map
        fun (name, layer) => (name, layer.unhoisted) := by
    rw [List.map_map]
    exact List.map_congr_left fun entry _ => congrArg (Prod.mk entry.1) (hlayer entry.2)
  have hbuilt : world.built.map Layer.unhoisted =
      (world.built.map Layer.unhoisted).map Layer.unhoisted := by
    rw [List.map_map]
    exact List.map_congr_left fun layer _ => hlayer layer
  have htrace : world.deeds = world.deeds.filter fun event => !event.isRouting := by
    unfold deeds
    rw [List.filter_filter]
    simp only [Bool.and_self]
  refine ⟨?_⟩
  unfold unhoisted
  rw [World.mk.injEq]
  exact ⟨congrArg Table.mk hlayers, hbuilt, rfl, rfl, rfl, rfl, rfl, rfl, rfl, rfl, rfl, htrace⟩

namespace Alike

variable {world other after : World}

theorem trans (hfirst : world.Alike other) (hsecond : other.Alike after) : world.Alike after :=
  ⟨hfirst.unhoisted.trans hsecond.unhoisted⟩

theorem symm (alike : world.Alike other) : other.Alike world := ⟨alike.unhoisted.symm⟩

theorem deeds (alike : world.Alike other) : world.deeds = other.deeds :=
  congrArg World.trace alike.unhoisted

theorem signals (alike : world.Alike other) : world.signals = other.signals :=
  (congrArg World.signals alike.unhoisted :)

theorem tokens (alike : world.Alike other) : world.tokens = other.tokens :=
  (congrArg World.tokens alike.unhoisted :)

theorem thread (alike : world.Alike other) : world.thread = other.thread :=
  (congrArg World.thread alike.unhoisted :)

theorem held (alike : world.Alike other) : world.held = other.held :=
  (congrArg World.held alike.unhoisted :)

theorem memory (alike : world.Alike other) : world.memory.unhoisted = other.memory.unhoisted :=
  (congrArg World.memory alike.unhoisted :)

theorem filled (alike : world.Alike other) : world.memory.filled = other.memory.filled :=
  (congrArg Memory.filled alike.memory :)

theorem bound (alike : world.Alike other) : world.memory.bound = other.memory.bound :=
  (congrArg Memory.bound alike.memory :)

theorem runs (alike : world.Alike other) : world.runs = other.runs :=
  (congrArg World.runs alike.unhoisted :)

theorem casts (alike : world.Alike other) : world.casts = other.casts :=
  (congrArg World.casts alike.unhoisted :)

theorem nextLayer (alike : world.Alike other) : world.nextLayer = other.nextLayer :=
  (congrArg World.nextLayer alike.unhoisted :)

theorem nextToken (alike : world.Alike other) : world.nextToken = other.nextToken :=
  (congrArg World.nextToken alike.unhoisted :)

theorem named (alike : world.Alike other) (name : String) :
    (world.layers.find? name).map Layer.unhoisted =
      (other.layers.find? name).map Layer.unhoisted := by
  have hlayers := congrArg (fun world => world.layers.find? name) alike.unhoisted
  rwa [World.unhoisted, World.unhoisted, Table.find?_map, Table.find?_map] at hlayers

/-- What does the same to a world and to the world without what hoisting leaves makes no
difference. -/
theorem change (alike : world.Alike other) (change : World → World)
    (h : ∀ world, (change world).unhoisted = change world.unhoisted) :
    (change world).Alike (change other) :=
  ⟨by rw [h, h, alike.unhoisted]⟩

theorem emit (alike : world.Alike other) (event : Event) :
    (world.emit event).Alike (other.emit event) := by
  have hdeeds (world : World) : (world.emit event).deeds =
      if event.isRouting then world.deeds else event :: world.deeds := by
    unfold World.deeds World.emit
    cases hrouting : event.isRouting <;> simp [hrouting]
  have htold : { world.unhoisted with trace := (world.emit event).deeds } =
      { other.unhoisted with trace := (other.emit event).deeds } := by
    rw [hdeeds, hdeeds, alike.deeds, alike.unhoisted]
  exact ⟨htold⟩

theorem emitAll (alike : world.Alike other) (events : List Event) :
    (world.emitAll events).Alike (other.emitAll events) := by
  induction events generalizing world other with
  | nil => exact alike
  | cons event rest ih =>
    have hrest := ih (alike.emit event)
    simpa [World.emit, World.emitAll] using hrest

theorem of_routes (routes : world.Routes after) : world.Alike after := by
  have hdeeds := routes.deeds
  obtain ⟨events, rfl, -⟩ := routes
  exact ⟨congrArg (fun trace => { world.unhoisted with trace }) hdeeds.symm⟩

theorem hoist (alike : world.Alike other) (scope : Scope) (key : Key) (value : Value) :
    (world.hoist scope key value).Alike other := by
  unfold World.hoist
  split <;> exact ⟨alike.unhoisted⟩

theorem enter (alike : world.Alike other) {layer layer' : Layer}
    (same : layer.unhoisted = layer'.unhoisted) :
    (world.enter layer).Alike (other.enter layer') := by
  have hentered : world.unhoisted.enter layer.unhoisted =
      other.unhoisted.enter layer'.unhoisted := by
    rw [same, alike.unhoisted]
  exact ⟨hentered⟩

theorem name (alike : world.Alike other) (name : String) {layer layer' : Layer}
    (same : layer.unhoisted = layer'.unhoisted) :
    World.Alike { world with layers := world.layers.set name layer }
      { other with layers := other.layers.set name layer' } := by
  have hnamed (world : World) (layer : Layer) :
      { world with layers := world.layers.set name layer }.unhoisted =
        { world.unhoisted with layers := world.unhoisted.layers.set name layer.unhoisted } :=
    congrArg (fun layers => { world.unhoisted with layers }) (Table.set_map _ _ _ _)
  refine ⟨?_⟩
  rw [hnamed, hnamed, same, alike.unhoisted]

theorem erase (alike : world.Alike other) (name : String) :
    World.Alike { world with layers := world.layers.erase name }
      { other with layers := other.layers.erase name } := by
  have herased (world : World) : { world with layers := world.layers.erase name }.unhoisted =
      { world.unhoisted with layers := world.unhoisted.layers.erase name } :=
    congrArg (fun layers => { world.unhoisted with layers }) (Table.erase_map _ _ _)
  refine ⟨?_⟩
  rw [herased, herased, alike.unhoisted]

theorem named_cases (alike : world.Alike other) (name : String) :
    (world.layers.find? name = none ∧ other.layers.find? name = none) ∨
      ∃ layer layer', world.layers.find? name = some layer ∧
        other.layers.find? name = some layer' ∧ layer.unhoisted = layer'.unhoisted := by
  have hnamed := alike.named name
  cases hlayer : world.layers.find? name with
  | none =>
    rw [hlayer] at hnamed
    exact .inl ⟨rfl, Option.map_eq_none_iff.mp hnamed.symm⟩
  | some layer =>
    rw [hlayer] at hnamed
    obtain ⟨layer', hlayer', hsame⟩ := Option.map_eq_some_iff.mp hnamed.symm
    exact .inr ⟨layer, layer', rfl, hlayer', hsame.symm⟩

theorem contextOf (alike : world.Alike other) (terms : Terms) :
    other.contextOf terms = world.contextOf terms := by
  unfold World.contextOf
  rw [alike.tokens, alike.signals]

end Alike

end World

namespace Builder

variable {world other : World}

inductive Kin : Builder → Builder → Prop
  | intro (builder : Builder) {parent : Option Layer}
      (same : builder.parent.map Layer.unhoisted = parent.map Layer.unhoisted) :
      Kin builder { builder with parent }

theorem Kin.unhoisted {builder builder' : Builder} (kin : Kin builder builder') :
    builder.unhoisted = builder'.unhoisted := by
  cases kin with
  | @intro parent same =>
    have hsettings : { builder.effective with hoist := false } =
        { ({ builder with parent } : Builder).effective with hoist := false } := by
      unfold Builder.effective
      cases builder.settings with
      | some settings => rfl
      | none =>
        cases hparent : builder.parent with
        | none =>
          rw [hparent] at same
          obtain rfl := Option.map_eq_none_iff.mp same.symm
          rfl
        | some layer =>
          rw [hparent] at same
          obtain ⟨layer', rfl, hsame⟩ := Option.map_eq_some_iff.mp same.symm
          exact (congrArg (·.scope.settings) hsame.symm :)
    unfold Builder.unhoisted
    rw [hsettings, same]

theorem Kin.apply {builder builder' : Builder} (kin : Kin builder builder')
    (alike : world.Alike other) (directive : Directive Command) :
    Kin (builder.apply world.layers directive) (builder'.apply other.layers directive) := by
  cases kin with
  | @intro parent same =>
    cases directive with
    | parent name =>
      rcases alike.named_cases name with ⟨hnone, hnone'⟩ | ⟨layer, layer', hlayer, hlayer', hsame⟩
      · simp only [Builder.apply, hnone, hnone']
        exact .intro builder same
      · simp only [Builder.apply, hlayer, hlayer']
        exact .intro { builder with parent := some layer } (congrArg some hsame)
    | register entry => exact .intro (builder.register entry) same
    | overridable key =>
      exact .intro { builder with overridable := builder.overridable ++ [key] } same
    | allowOverride allow => exact .intro { builder with allowOverride := allow } same
    | permitNil => exact .intro { builder with permitNil := true } same
    | lock => exact .intro { builder with locked := true } same
    | label label => exact .intro { builder with label := some label } same
    | settings settings => exact .intro { builder with settings := some settings } same
    | observe observer =>
      exact .intro { builder with observers := builder.observers ++ [observer] } same

theorem ofDirectives_unhoisted (alike : world.Alike other) (base : Option String)
    (directives : List (Directive Command)) :
    (Builder.ofDirectives world.layers base directives).unhoisted =
      (Builder.ofDirectives other.layers base directives).unhoisted := by
  have hfold (builder builder' : Builder) (kin : Kin builder builder') :
      Kin (directives.foldl (apply world.layers) builder)
        (directives.foldl (apply other.layers) builder') := by
    induction directives generalizing builder builder' with
    | nil => exact kin
    | cons directive rest ih => exact ih _ _ (kin.apply alike directive)
  refine (hfold _ _ (.intro _ ?_)).unhoisted
  cases base with
  | none => rfl
  | some name => exact alike.named name

end Builder

namespace Resolution

theorem Resolves.walk {layer : Layer} {key : Key} {value : Value} {world : World}
    (hcell : layer.cell? world.memory key = some value) (unimported : world.memory.imported = {})
    (unhoisted : ∀ scope ∈ layer.ancestry, scope.settings.hoist = false) (fuel : Nat)
    (chain : Chain) (context : Context) :
    ∃ last, Resolves fuel layer key chain context world (.ok (.ok value)) last ∧
      world.Routes last := by
  obtain ⟨scope, outer⟩ := layer
  have hstored {scope : Scope} {outer : List Scope} {world : World} (owned : scope.owns key = true)
      (hcell : Layer.cell? ⟨scope, outer⟩ world.memory key = some value) :
      ∃ last, Resolves fuel ⟨scope, outer⟩ key chain context world (.ok (.ok value)) last ∧
        world.Routes last := by
    have howner : Layer.owner? ⟨scope, outer⟩ key = some scope := List.find?_cons_of_pos owned
    rw [Layer.cell?, howner, Option.bind_some] at hcell
    obtain ⟨last, hresolver, hroutes⟩ := resolver_of_cell hcell fuel outer chain context
    have hresolves := resolver_resolves fuel ⟨scope, outer⟩ key chain context world
    rw [hresolver] at hresolves
    exact ⟨last, hresolves, hroutes⟩
  induction outer generalizing scope world with
  | nil =>
    cases howns : scope.owns key with
    | true => exact hstored howns hcell
    | false =>
      have howner : Layer.owner? ⟨scope, []⟩ key = none := by
        simp [Layer.owner?, Layer.ancestry, howns]
      rw [Layer.cell?, howner] at hcell
      cases hcell
  | cons parent further ih =>
    cases howns : scope.owns key with
    | true => exact hstored howns hcell
    | false =>
      rw [Layer.cell?_of_unowned howns] at hcell
      have hhoist := unhoisted scope List.mem_cons_self
      have hunknown : world.memory.imported.find? (scope.site key) = none := by
        rw [unimported, Table.find?_empty]
      obtain ⟨last, hresolves, hroutes⟩ := @ih (world.delegate scope key parent) unimported parent
        hcell fun inner h => unhoisted inner (List.mem_cons_of_mem _ h)
      have hvalue : hoisted scope key value last = value := by simp [hoisted, hhoist]
      have hlast : last.hoist scope key value = last := by simp [World.hoist, hhoist]
      have hdelegated := Resolves.delegated howns hunknown hresolves
      rw [hvalue, hlast] at hdelegated
      exact ⟨last, hdelegated, (World.Routes.delegate world scope key parent).trans hroutes⟩

end Resolution

theorem Simulation.unhoisted (built : List Layer) :
    Simulation (fun _ => false) (fun _ => True) fun world other =>
      other.memory.imported = {} ∧ world.Alike other ∧ world.built = built where
  signals h := h.2.1.signals.symm
  tokens h := h.2.1.tokens.symm
  thread h := h.2.1.thread.symm
  held h := h.2.1.held.symm
  filled site h _ := by rw [h.2.1.filled]
  bound site h _ := by rw [h.2.1.bound]
  runs h _ := by rw [h.2.1.runs]
  casts site h _ := by rw [h.2.1.casts]
  unknown h _ _ := by rw [h.1, Table.find?_empty]
  emit event h := ⟨h.1, h.2.1.emit event, h.2.2⟩
  signal signals h := ⟨h.1, h.2.1.change (fun w => { w with signals }) fun _ => rfl, h.2.2⟩
  hold held h := ⟨h.1, h.2.1.change (fun w => { w with held }) fun _ => rfl, h.2.2⟩
  fill site value h _ :=
    ⟨h.1, h.2.1.change (fun w => { w with memory := w.memory.fill site value }) fun _ => rfl, h.2.2⟩
  bind site value h _ :=
    ⟨h.1, h.2.1.change (fun w => { w with memory := w.memory.bind site value }) fun _ => rfl, h.2.2⟩
  countRun place run h _ :=
    ⟨h.1, h.2.1.change (fun w => { w with runs := w.runs.set (_, place) run }) fun _ => rfl, h.2.2⟩
  countCast call h _ :=
    ⟨h.1, h.2.1.change (fun w => { w with casts := w.casts.set _ call }) fun _ => rfl, h.2.2⟩
  imported := by
    intro world other layer key value fuel chain context h hosts faithful _ unowned present
    obtain ⟨unimported, alike, hbuilt⟩ := h
    have hcell := faithful layer hosts.2 key value present
    rw [← layer.cell?_unhoisted key alike.filled.symm alike.bound.symm] at hcell
    have hhoist : ∀ scope ∈ layer.unhoisted.ancestry, scope.settings.hoist = false := by
      intro scope hscope
      rw [layer.ancestry_unhoisted] at hscope
      obtain ⟨inner, -, rfl⟩ := List.mem_map.mp hscope
      rfl
    obtain ⟨last, hresolves, hroutes⟩ := Resolution.Resolves.walk hcell unimported hhoist fuel chain
      context
    refine ⟨last, hresolves, ?_, alike.trans (.of_routes hroutes), hbuilt⟩
    obtain ⟨events, rfl, -⟩ := hroutes
    exact unimported
  hoist := by
    intro world other layer key value h hosts faithful _ hcell
    obtain ⟨unimported, alike, hbuilt⟩ := h
    refine ⟨(faithful.hoisted_eq hosts hcell).symm, unimported, alike.hoist _ _ _, ?_⟩
    unfold World.hoist
    split <;> exact hbuilt

/-- A request that silent code answers is answered the same in the world without what hoisting
leaves, and the two worlds after it are alike again. -/
theorem Resolution.resolver_unhoisted {layer : Layer} {world : World}
    (silent : ∀ scope ∈ layer.ancestry, scope.Silent) (hosts : world.Hosts layer)
    (faithful : world.Faithful) (fuel : Nat) (key : Key) (chain : Chain) (context : Context) :
    ∃ last, Session.resolver fuel layer.unhoisted key chain context world.unhoisted =
        ((Session.resolver fuel layer key chain context world).1, last) ∧
      (Session.resolver fuel layer key chain context world).2.Alike last ∧
      (Session.resolver fuel layer key chain context world).2.built = world.built := by
  have hresolves := resolver_resolves fuel layer key chain context world
  obtain ⟨last, hfollows, -, halike, hbuilt⟩ := hresolves.follow (Simulation.unhoisted world.built)
    silent (fun _ _ => trivial) hosts faithful (.inl rfl) ⟨rfl, world.alike_unhoisted, rfl⟩
  exact ⟨last, hfollows.eq_resolver, halike, hbuilt⟩

end LayerGraph
