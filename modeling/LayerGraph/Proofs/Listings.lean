import LayerGraph.Proofs.Reparenting
import Mathlib.Algebra.GroupWithZero.Nat
import Mathlib.Data.Finset.Card

/-! What listings show.

A listing goes through tables, one of which is filled while requests are answered. No table has two
entries under one key, and nothing is imported that a scope owns itself. So names tell the rows of a
scope apart, and once they are sorted it does not matter in which order they were come by. -/

namespace LayerGraph

open Session

namespace Table

variable {κ α : Type} [DecidableEq κ]

theorem nodup_keys_add {table : Table κ α} (distinct : table.keys.Nodup) (key : κ) (value : α) :
    (table.add key value).keys.Nodup := by
  unfold add
  split
  · exact distinct
  · exact nodup_keys_set distinct key value

end Table

structure World.Tidy (world : World) : Prop where
  imported : world.memory.imported.keys.Nodup
  slots : ∀ layer ∈ world.built, layer.scope.slots.keys.Nodup
  interfaces : ∀ layer ∈ world.built, layer.scope.bindings.keys.Nodup

namespace World.Tidy

variable {world after : World} {layer : Layer}

theorem initial : World.Tidy {} :=
  ⟨List.nodup_nil, List.forall_mem_nil _, List.forall_mem_nil _⟩

theorem of_same (tidy : world.Tidy) (built : after.built = world.built)
    (imported : after.memory.imported = world.memory.imported) : after.Tidy where
  imported := imported ▸ tidy.imported
  slots := built ▸ tidy.slots
  interfaces := built ▸ tidy.interfaces

theorem lasts : World.Lasts (fun _ => True) World.Tidy :=
  ⟨fun _ => trivial, fun tidy built _ _ imported _ _ _ _ => tidy.of_same built imported⟩

theorem hoist (tidy : world.Tidy) (scope : Scope) (key : Key) (value : Value) :
    (world.hoist scope key value).Tidy := by
  unfold World.hoist
  split
  · exact { tidy with imported := Table.nodup_keys_add tidy.imported _ _ }
  · exact tidy

theorem enter (tidy : world.Tidy) {builder : Builder}
    (assembled : builder.assemble world.memory world.nextLayer = .ok layer) :
    (world.enter layer).Tidy := by
  have hreorders := Builder.assemble_reorders assembled
  refine ⟨tidy.imported, fun other hother => ?_, fun other hother => ?_⟩
  · rcases List.mem_cons.mp hother with rfl | hmem
    · exact hreorders.distinct
    · exact tidy.slots other hmem
  · rcases List.mem_cons.mp hother with rfl | hmem
    · exact hreorders.distinctInterfaces
    · exact tidy.interfaces other hmem

theorem resolves_of_keeps {fuel : Nat} {key : Key} {chain : Chain} {context : Context}
    {result : Except Stop Answer}
    (keeps : ∀ less ≤ fuel, ∀ {α : Type} (act : Act Command α),
      Engine.Keeps (fun world => world.Valid ∧ world.Tidy)
        (Engine.run (Session.handler less) act))
    (resolves : Resolution.Resolves fuel layer key chain context world result after)
    (hosts : world.Hosts layer) (tidy : world.Tidy) : after.Tidy := by
  refine resolves.lasting lasts (fun _ _ _ => trivial) (fun _ _ => trivial)
    (fun _ _ _ _ => trivial) keeps ?_ ?_ (Nat.le_refl _) hosts tidy
  · intro _ _ _ _ _ _ _ _ _ _ _ hless _ _ ends _ _ hhosts hbetween
    exact ends.lasting lasts (keeps _ hless) (fun _ _ _ _ _ => trivial) (fun _ _ _ _ => trivial)
      (fun _ _ => trivial) (fun _ _ => trivial) (fun _ _ => trivial) hhosts hbetween
  · intro _ scope _ _ key _ _ value between _ _ _ _ hbetween
    exact hbetween.hoist scope key value

theorem invariant : Invariant fun world => world.Valid ∧ world.Tidy :=
  lasts.invariant_of_resolves (fun _ _ => trivial) (fun _ => trivial) (fun _ _ => trivial)
    (fun _ _ => trivial) (fun _ tidy _ assembled => tidy.enter assembled)
    fun keeps _ _ _ _ _ _ resolves hosts tidy => resolves_of_keeps keeps resolves hosts tidy

end World.Tidy

theorem Session.Arises.tidy {world : World} (arises : Arises world) : world.Tidy := by
  have hinvariant := World.Tidy.invariant
  refine (arises.keeps .initial (fun _ course valid tidy => ?_)
    (fun _ resolves hosts tidy => ?_) ?_).2
  · exact (hinvariant.course (fun less _ => hinvariant.handler less) course ⟨valid, tidy⟩).1.2
  · exact World.Tidy.resolves_of_keeps
      (fun less _ => World.Tidy.lasts.outside (fun _ _ => trivial) (hinvariant.handler less))
      resolves hosts tidy
  · exact fun tidy _ built memory => tidy.of_same built (by rw [memory])

namespace Scope

/-- A row that shows a slot of a scope, or a value that it has imported, with the status that the
scope reports for the type. -/
inductive Shows (scope : Scope) (memory : Memory) : SlotRow → Prop
  | slot {key : Key} {backing : Backing} {status : Status}
      (slot : scope.slots.find? key = some backing)
      (reported : scope.status? memory key = some status) :
      scope.Shows memory
        { typeName := key.name, status
          signature := backing.source?.map (·.generator.signature), eager := backing.isEager }
  | imported {key : Key} {status : Status} (foreign : scope.slots.find? key = none)
      (imported : memory.imported.contains (scope.site key) = true)
      (reported : scope.status? memory key = some status) :
      scope.Shows memory { typeName := key.name, status, signature := none, eager := false }

/-- A row that shows an interface of a scope, with whether its cast has been applied. -/
inductive ShowsInterface (scope : Scope) (memory : Memory) : InterfaceRow → Prop
  | binding {interface : Key} {binding : Binding}
      (bound : scope.bindings.find? interface = some binding) :
      scope.ShowsInterface memory
        { interface := interface.name, source := binding.source.name
          bound := memory.bound.contains (scope.site interface) }

/-- An entry that lists a scope: all that is to be shown and nothing else, sorted by names, none of
which comes up twice. -/
structure ListedAs (scope : Scope) (memory : Memory) (entry : LayerDump) : Prop where
  id : entry.id = scope.id
  label : entry.label = scope.label
  locked : entry.locked = scope.locked
  slots : ∀ row, row ∈ entry.slots ↔ scope.Shows memory row
  sorted : entry.slots.Pairwise fun row later => row.typeName < later.typeName
  interfaces : ∀ row, row ∈ entry.interfaces ↔ scope.ShowsInterface memory row
  sortedInterfaces : entry.interfaces.Pairwise fun row later => row.interface < later.interface

structure Orderly (scope : Scope) (memory : Memory) : Prop where
  slots : scope.slots.keys.Nodup
  interfaces : scope.bindings.keys.Nodup
  imported : (memory.importedKeys scope.id).Nodup
  foreign : ∀ key, memory.imported.contains (scope.site key) = true → scope.owns key = false

end Scope

theorem Memory.mem_importedKeys {memory : Memory} {scope : Scope} {key : Key} :
    key ∈ memory.importedKeys scope.id ↔ memory.imported.contains (scope.site key) = true := by
  unfold Memory.importedKeys Table.contains
  rw [List.mem_map, Option.isSome_iff_exists, ← Table.mem_keys_iff]
  constructor
  · rintro ⟨⟨id, key⟩, hmem, rfl⟩
    obtain ⟨hmem, hid⟩ := List.mem_filter.mp hmem
    obtain rfl : id = scope.id := of_decide_eq_true hid
    exact hmem
  · exact fun hmem => ⟨scope.site key, List.mem_filter.mpr ⟨hmem, decide_eq_true rfl⟩, rfl⟩

theorem Session.Arises.orderly {world : World} (arises : Arises world) {layer : Layer}
    (known : layer ∈ world.built) {scope : Scope} (h : scope ∈ layer.ancestry) :
    scope.Orderly world.memory := by
  have hvalid := arises.faithful.1
  have htidy := arises.tidy
  obtain ⟨outer, hbuilt⟩ := hvalid.built_of_mem_ancestry known h
  refine ⟨htidy.slots _ hbuilt, htidy.interfaces _ hbuilt, ?_, fun key hkey => ?_⟩
  · refine (htidy.imported.filter _).map_on ?_
    rintro ⟨id, key⟩ hsite ⟨id', key'⟩ hsite' hkey
    obtain rfl : id = scope.id := of_decide_eq_true (List.mem_filter.mp hsite).2
    obtain rfl : id' = scope.id := of_decide_eq_true (List.mem_filter.mp hsite').2
    exact congrArg (Site.mk _) hkey
  · obtain ⟨value, himported⟩ := Option.isSome_iff_exists.mp hkey
    obtain ⟨other, hother, hid, unowned⟩ := hvalid.imported _ _ himported
    obtain rfl := hvalid.unique other hother ⟨scope, outer⟩ hbuilt hid
    exact unowned

theorem pairwise_lt_mergeSort {α : Type} {le : α → α → Bool} {name : α → String}
    (trans : ∀ a b c, le a b = true → le b c = true → le a c = true)
    (total : ∀ a b, (le a b || le b a) = true)
    (byName : ∀ a b, le a b = true → name a ≤ name b) {items : List α}
    (distinct : (items.map name).Nodup) :
    (items.mergeSort le).Pairwise fun a b => name a < name b := by
  have hsorted := List.pairwise_mergeSort trans total items
  have hdistinct : ((items.mergeSort le).map name).Nodup :=
    ((List.mergeSort_perm items le).map name).nodup_iff.mpr distinct
  rw [List.Nodup, List.pairwise_map] at hdistinct
  refine (hsorted.and hdistinct).imp fun {a b} h => String.not_le.mp fun hback => h.2 ?_
  exact String.le_antisymm (byName a b h.1) hback

namespace Scope.Orderly

variable {scope : Scope} {memory : Memory}

theorem mem_rows_iff (orderly : scope.Orderly memory) {row : SlotRow} :
    row ∈ scope.rows memory ↔ scope.Shows memory row := by
  unfold Scope.rows
  rw [List.mem_append, List.mem_map, List.mem_map]
  constructor
  · rintro (⟨⟨key, backing⟩, hentry, rfl⟩ | ⟨key, hkey, rfl⟩)
    · have slot := Table.find?_of_mem_entries orderly.slots hentry
      refine .slot slot ?_
      rw [Scope.status?, slot]
    · have himported := Memory.mem_importedKeys.mp hkey
      obtain ⟨noSlot, noInterface⟩ := Scope.owns_eq_false_iff.mp (orderly.foreign key himported)
      refine .imported noSlot himported ?_
      rw [Scope.status?, noSlot, noInterface]
      exact if_pos himported
  · rintro (⟨slot, reported⟩ | ⟨noSlot, himported, reported⟩)
    · rw [Scope.status?, slot] at reported
      obtain rfl := Option.some.inj reported
      exact .inl ⟨_, Table.mem_entries_of_find? slot, rfl⟩
    · obtain ⟨-, noInterface⟩ := Scope.owns_eq_false_iff.mp (orderly.foreign _ himported)
      rw [Scope.status?, noSlot, noInterface] at reported
      dsimp only at reported
      rw [if_pos himported] at reported
      obtain rfl := Option.some.inj reported
      exact .inr ⟨_, Memory.mem_importedKeys.mpr himported, rfl⟩

theorem nodup_typeNames (orderly : scope.Orderly memory) :
    ((scope.rows memory).map SlotRow.typeName).Nodup := by
  have hnames : (scope.rows memory).map SlotRow.typeName =
      (scope.slots.keys ++ memory.importedKeys scope.id).map Key.name := by
    unfold Scope.rows Table.keys
    rw [List.map_append, List.map_append, List.map_map, List.map_map, List.map_map]
    rfl
  have hkeys : (scope.slots.keys ++ memory.importedKeys scope.id).Nodup := by
    refine List.nodup_append.mpr ⟨orderly.slots, orderly.imported, ?_⟩
    rintro key hkey _ himported rfl
    obtain ⟨backing, slot⟩ := Table.mem_keys_iff.mp hkey
    have unowned := orderly.foreign key (Memory.mem_importedKeys.mp himported)
    rw [(Scope.owns_eq_false_iff.mp unowned).1] at slot
    cases slot
  rw [hnames]
  exact hkeys.map fun _ _ => Key.ext

theorem nodup_interfaces (orderly : scope.Orderly memory) :
    ((scope.bindings.entries.map (scope.interfaceRow memory)).map
      InterfaceRow.interface).Nodup := by
  have hnames : (scope.bindings.entries.map (scope.interfaceRow memory)).map
      InterfaceRow.interface = scope.bindings.keys.map Key.name := by
    unfold Table.keys
    rw [List.map_map, List.map_map]
    rfl
  rw [hnames]
  exact orderly.interfaces.map fun _ _ => Key.ext

theorem listed (orderly : scope.Orderly memory) : scope.ListedAs memory (scope.dump memory) where
  id := rfl
  label := rfl
  locked := rfl
  slots row := List.mem_mergeSort.trans orderly.mem_rows_iff
  sorted := by
    refine pairwise_lt_mergeSort SlotRow.le_trans SlotRow.le_total (fun a b hle => ?_)
      orderly.nodup_typeNames
    unfold SlotRow.le at hle
    split at hle
    · next hname => exact hname ▸ String.le_refl _
    · exact of_decide_eq_true hle
  interfaces row := by
    refine List.mem_mergeSort.trans (List.mem_map.trans ⟨?_, ?_⟩)
    · rintro ⟨⟨key, binding⟩, hentry, rfl⟩
      exact .binding (Table.find?_of_mem_entries orderly.interfaces hentry)
    · rintro ⟨interface⟩
      exact ⟨_, Table.mem_entries_of_find? interface, rfl⟩
  sortedInterfaces :=
    pairwise_lt_mergeSort InterfaceRow.le_trans InterfaceRow.le_total
      (fun _ _ hle => of_decide_eq_true hle) orderly.nodup_interfaces

theorem length_slots (orderly : scope.Orderly memory) :
    (scope.dump memory).slots.length =
      scope.slots.keys.toFinset.card + (memory.importedKeys scope.id).toFinset.card := by
  rw [List.toFinset_card_of_nodup orderly.slots, List.toFinset_card_of_nodup orderly.imported]
  change ((scope.rows memory).mergeSort SlotRow.le).length = _
  rw [List.length_mergeSort]
  unfold Scope.rows Table.keys
  rw [List.length_append, List.length_map, List.length_map, List.length_map]

end Scope.Orderly

namespace Scope.ListedAs

variable {scope : Scope} {memory : Memory} {entry : LayerDump}

theorem nodup_typeNames (listed : scope.ListedAs memory entry) :
    (entry.slots.map SlotRow.typeName).Nodup := by
  rw [List.Nodup, List.pairwise_map]
  refine listed.sorted.imp fun {a b} hlt heq => ?_
  rw [heq] at hlt
  exact String.lt_irrefl _ hlt

theorem slot?_eq_some_iff (listed : scope.ListedAs memory entry) {name : String} {row : SlotRow} :
    entry.slot? name = some row ↔ scope.Shows memory row ∧ row.typeName = name := by
  unfold LayerDump.slot?
  rw [← listed.slots]
  constructor
  · intro h
    have hname := List.find?_some h
    exact ⟨List.mem_of_find?_eq_some h, eq_of_beq hname⟩
  · rintro ⟨hmem, hname⟩
    obtain ⟨found, hfound⟩ : ∃ found, entry.slots.find? (·.typeName == name) = some found := by
      rw [← Option.isSome_iff_exists, List.find?_isSome]
      exact ⟨row, hmem, beq_iff_eq.mpr hname⟩
    have hother := List.find?_some hfound
    have hsame : found = row := by
      refine List.inj_on_of_nodup_map listed.nodup_typeNames (List.mem_of_find?_eq_some hfound)
        hmem ?_
      exact (eq_of_beq hother).trans hname.symm
    rw [hfound, hsame]

end Scope.ListedAs

structure Scope.Rehashes (scope scope' : Scope) : Prop where
  same : scope' = { scope with bindings := scope'.bindings }
  bindings : scope'.bindings.entries.Perm scope.bindings.entries

structure Memory.Rehashes (memory memory' : Memory) : Prop where
  same : memory' = { memory with imported := memory'.imported }
  imported : memory'.imported.entries.Perm memory.imported.entries

theorem Memory.Rehashes.importedKeys {memory memory' : Memory} (rehashes : memory.Rehashes memory')
    (layer : Nat) : (memory'.importedKeys layer).Perm (memory.importedKeys layer) :=
  ((rehashes.imported.map Prod.fst).filter _).map Site.key

/-- A scope is listed in one way, whatever order its interfaces and imported values are gone through
in. -/
theorem Scope.Orderly.dump_eq_of_rehashes {scope scope' : Scope} {memory memory' : Memory}
    (orderly : scope.Orderly memory) (rehashes : scope.Rehashes scope')
    (remembers : memory.Rehashes memory') : scope'.dump memory' = scope.dump memory := by
  have hrow : scope'.slotRow memory' = scope.slotRow memory := by
    rw [rehashes.same, remembers.same]
    rfl
  have hinterface : scope'.interfaceRow memory' = scope.interfaceRow memory := by
    rw [rehashes.same, remembers.same]
    rfl
  have hrows : (scope'.rows memory').Perm (scope.rows memory) := by
    unfold Scope.rows
    rw [hrow, rehashes.same]
    exact ((remembers.importedKeys scope.id).map _).append_left _
  have hinterfaces : (scope'.bindings.entries.map (scope'.interfaceRow memory')).Perm
      (scope.bindings.entries.map (scope.interfaceRow memory)) := by
    rw [hinterface]
    exact rehashes.bindings.map _
  have hid : scope'.id = scope.id := by rw [rehashes.same]
  have hlabel : scope'.label = scope.label := by rw [rehashes.same]
  have hlocked : scope'.locked = scope.locked := by rw [rehashes.same]
  rw [Scope.dump_eq, Scope.dump_eq, hid, hlabel, hlocked]
  unfold LayerDump.sort
  dsimp only
  rw [mergeSort_eq_of_perm SlotRow.le_trans SlotRow.le_total
      (scope.rows_antisymm orderly.slots memory) hrows,
    mergeSort_eq_of_perm InterfaceRow.le_trans InterfaceRow.le_total
      (scope.interfaceRows_antisymm orderly.interfaces memory) hinterfaces]

namespace Layer

variable {layer layer' : Layer} {memory memory' : Memory}

theorem dump_eq_of_rehashes (orderly : ∀ scope ∈ layer.ancestry, scope.Orderly memory)
    (rehashes : List.Forall₂ Scope.Rehashes layer.ancestry layer'.ancestry)
    (remembers : memory.Rehashes memory') : layer'.dump memory' = layer.dump memory := by
  unfold Layer.dump
  refine congrArg Dump.mk ?_
  revert orderly rehashes
  generalize layer.ancestry = scopes, layer'.ancestry = scopes'
  intro orderly rehashes
  revert orderly
  induction rehashes with
  | nil => exact fun _ => rfl
  | cons first rest ih =>
    intro orderly
    obtain ⟨hfirst, hrest⟩ := List.forall_mem_cons.mp orderly
    rw [List.map_cons, List.map_cons, hfirst.dump_eq_of_rehashes first remembers, ih hrest]

theorem find?_dump (orderly : ∀ scope ∈ layer.ancestry, scope.Orderly memory) (name : String)
    (row : SlotRow) :
    (layer.dump memory).find? name = some row ↔
      ∃ below scope outer, layer.ancestry = below ++ scope :: outer ∧
        (∀ inner ∈ below, ∀ other, inner.Shows memory other → other.typeName ≠ name) ∧
        scope.Shows memory row ∧ row.typeName = name := by
  unfold Layer.dump Dump.find?
  rw [List.findSome?_map, List.findSome?_eq_some_iff]
  constructor
  · rintro ⟨below, scope, outer, hancestry, hrow, hbelow⟩
    rw [hancestry] at orderly
    have hscope := (orderly scope (by simp)).listed
    refine ⟨below, scope, outer, hancestry, fun inner hinner other hshows hname => ?_,
      hscope.slot?_eq_some_iff.mp hrow⟩
    have hinner' := (orderly inner (List.mem_append_left _ hinner)).listed
    have hfound := hinner'.slot?_eq_some_iff.mpr ⟨hshows, hname⟩
    have hnone : (inner.dump memory).slot? name = none := hbelow inner hinner
    rw [hnone] at hfound
    cases hfound
  · rintro ⟨below, scope, outer, hancestry, hbelow, hrow⟩
    rw [hancestry] at orderly
    have hscope := (orderly scope (by simp)).listed
    refine ⟨below, scope, outer, hancestry, hscope.slot?_eq_some_iff.mpr hrow, ?_⟩
    intro inner hinner
    have hinner' := (orderly inner (List.mem_append_left _ hinner)).listed
    refine Option.eq_none_iff_forall_ne_some.mpr fun other hother => ?_
    obtain ⟨hshows, hname⟩ := hinner'.slot?_eq_some_iff.mp hother
    exact hbelow inner hinner other hshows hname

theorem slotCount_dump (orderly : ∀ scope ∈ layer.ancestry, scope.Orderly memory) :
    (layer.dump memory).slotCount = (layer.ancestry.map fun scope =>
      scope.slots.keys.toFinset.card + (memory.importedKeys scope.id).toFinset.card).sum := by
  unfold Layer.dump Dump.slotCount
  rw [List.foldl_map, List.sum_eq_foldl, List.foldl_map]
  refine List.foldl_ext _ _ _ fun count scope hscope => ?_
  rw [(orderly scope hscope).length_slots]

end Layer

namespace Session

/-- Listings show what there is, in one way. At every moment, the listing of a layer has an entry
for each layer from this one outwards. The entry has a row for each slot and each imported value and
no other rows, sorted by type, none of which comes up twice; a row has the status that the layer
reports for the type, and for a slot its generator and whether it is eager. The interfaces are
listed likewise, each with whether its cast has been applied. The order in which interfaces and
imported values are come by makes no difference. A type that is looked for is found in the nearest
layer that has a slot or an imported value for it, and rows are counted once for each type. -/
theorem listings_show_what_there_is {world : World} (arises : Arises world) {layer : Layer}
    (known : layer ∈ world.built) :
    List.Forall₂ (fun scope entry => scope.ListedAs world.memory entry) layer.ancestry
      (layer.dump world.memory).layers ∧
    (∀ (layer' : Layer) (memory' : Memory),
      List.Forall₂ Scope.Rehashes layer.ancestry layer'.ancestry →
      world.memory.Rehashes memory' → layer'.dump memory' = layer.dump world.memory) ∧
    (∀ name row, (layer.dump world.memory).find? name = some row ↔
      ∃ below scope outer, layer.ancestry = below ++ scope :: outer ∧
        (∀ inner ∈ below, ∀ other, inner.Shows world.memory other → other.typeName ≠ name) ∧
        scope.Shows world.memory row ∧ row.typeName = name) ∧
    (layer.dump world.memory).slotCount = (layer.ancestry.map fun scope =>
      scope.slots.keys.toFinset.card + (world.memory.importedKeys scope.id).toFinset.card).sum := by
  have horderly : ∀ scope ∈ layer.ancestry, scope.Orderly world.memory :=
    fun scope => arises.orderly known
  refine ⟨?_, fun layer' memory' => Layer.dump_eq_of_rehashes horderly, Layer.find?_dump horderly,
    Layer.slotCount_dump horderly⟩
  unfold Layer.dump
  rw [List.forall₂_map_right_iff, List.forall₂_same]
  exact fun scope hscope => (horderly scope hscope).listed

def listedWorld : World :=
  let generator : Generator Command :=
    ⟨"maker", "make", [], [⟨"Cog"⟩], fun _ _ => .done (.products [⟨⟨"Cog"⟩, "cog"⟩])⟩
  let base := (step 1 {} (.build "base" none [.register (.value ⟨"Bolt"⟩ "bolt"),
    .register (.generator generator false)])).2
  let app := (step 1 base (.build "app" none [.parent "base", .register (.value ⟨"Axle"⟩ "axle"),
    .register (.interface ⟨"dyn Turn"⟩ ⟨"Axle"⟩ ⟨"turn", fun _ payload => .done payload⟩)])).2
  (step 1 app (.resolveBatch "app" [⟨"Cog"⟩, ⟨"dyn Turn"⟩, ⟨"Bolt"⟩])).2

theorem listings_show_what_there_is_listed :
    Arises listedWorld ∧ ∃ layer ∈ listedWorld.built, ∃ memory,
      listedWorld.memory.Rehashes memory ∧
      listedWorld.memory.imported.keys = [⟨2, ⟨"Cog"⟩⟩, ⟨2, ⟨"Bolt"⟩⟩] ∧
      memory.imported.keys = [⟨2, ⟨"Bolt"⟩⟩, ⟨2, ⟨"Cog"⟩⟩] ∧
      layer.dump memory = layer.dump listedWorld.memory ∧
      (layer.dump listedWorld.memory).find? "Cog" = some ⟨"Cog", .imported, none, false⟩ ∧
      (layer.dump listedWorld.memory).slotCount = 5 := by
  have reachable : Reachable listedWorld := .step (.step (.step .initial _ _) _ _) _ _
  have h : (listedWorld.layers.find? "app").map (fun layer =>
      (layer.scope.slots.contains ⟨"Cog"⟩,
        listedWorld.memory.imported.contains (layer.scope.site ⟨"Cog"⟩),
        layer.scope.status? listedWorld.memory ⟨"Cog"⟩,
        (layer.ancestry.map fun scope => scope.slots.keys.toFinset.card +
          (listedWorld.memory.importedKeys scope.id).toFinset.card).sum)) =
      some (false, true, some .imported, 5) := by
    decide +kernel
  obtain ⟨layer, hlayer, hlisted⟩ := Option.map_eq_some_iff.mp h
  obtain ⟨noSlot, himported, hstatus, hcount⟩ := by simpa only [Prod.mk.injEq] using hlisted
  have known : layer ∈ listedWorld.built := reachable.valid.named "app" layer hlayer
  let backwards : Memory :=
    { listedWorld.memory with imported := ⟨listedWorld.memory.imported.entries.reverse⟩ }
  have rehashes : listedWorld.memory.Rehashes backwards := ⟨rfl, List.reverse_perm _⟩
  obtain ⟨-, hsame, hfind, hslots⟩ := listings_show_what_there_is reachable.arises known
  refine ⟨reachable.arises, layer, known, backwards, rehashes, by decide +kernel, by decide +kernel,
    ?_, ?_, hslots.trans hcount⟩
  · exact hsame layer backwards (List.forall₂_same.mpr fun scope _ => ⟨rfl, .refl _⟩) rehashes
  · have hcog : layer.scope.slots.find? ⟨"Cog"⟩ = none := by simpa [Table.contains] using noSlot
    have shows : layer.scope.Shows listedWorld.memory ⟨"Cog", .imported, none, false⟩ :=
      .imported hcog himported hstatus
    exact (hfind _ _).mpr ⟨[], layer.scope, layer.outer, rfl, by simp, shows, rfl⟩

end Session

end LayerGraph
