import LayerGraph.Proofs.Mirroring
import LayerGraph.Proofs.Unhoisted
import Mathlib.Data.List.Forall2

/-! What is the same of layers whose registrations were made in different orders.

Such layers answer alike, and listings sort by name, so nothing tells them apart but the places of
their generators. Two runs with such layers in them go side by side, whatever outside code does. -/

namespace LayerGraph

open Relation

namespace Table

variable {κ α β : Type} [DecidableEq κ]

theorem map_entries {table : Table κ α} (distinct : table.keys.Nodup) (f : κ × α → β) :
    table.entries.map f =
      table.keys.filterMap fun key => (table.find? key).map fun a => f (key, a) := by
  unfold keys
  rw [List.filterMap_map, ← List.filterMap_eq_map]
  refine List.filterMap_congr fun entry hentry => ?_
  simp [find?_of_mem_entries distinct hentry]

theorem map_entries_perm {table table' : Table κ α} (keys : table'.keys.Perm table.keys)
    (distinct : table.keys.Nodup) {f f' : κ × α → β}
    (h : ∀ key, (table'.find? key).map (fun a => f' (key, a)) =
      (table.find? key).map fun a => f (key, a)) :
    (table'.entries.map f').Perm (table.entries.map f) := by
  rw [map_entries distinct, map_entries (keys.nodup_iff.mpr distinct), funext h]
  exact keys.filterMap _

end Table

theorem mergeSort_eq_of_perm {α : Type} {le : α → α → Bool}
    (trans : ∀ a b c, le a b = true → le b c = true → le a c = true)
    (total : ∀ a b, (le a b || le b a) = true) {items items' : List α}
    (antisymm : ∀ a ∈ items, ∀ b ∈ items, le a b = true → le b a = true → a = b)
    (perm : items'.Perm items) : items'.mergeSort le = items.mergeSort le := by
  have hperm : (items'.mergeSort le).Perm (items.mergeSort le) :=
    ((List.mergeSort_perm items' le).trans perm).trans (List.mergeSort_perm items le).symm
  refine hperm.eq_of_pairwise (fun a b ha hb => ?_) (List.pairwise_mergeSort trans total _)
    (List.pairwise_mergeSort trans total _)
  exact antisymm a (perm.mem_iff.mp (List.mem_mergeSort.mp ha)) b (List.mem_mergeSort.mp hb)

theorem SlotRow.eq_of_le {a b : SlotRow} (hab : a.le b = true) (hba : b.le a = true) :
    a.typeName = b.typeName ∧ a.status = b.status := by
  unfold SlotRow.le at hab hba
  by_cases hname : a.typeName = b.typeName
  · rw [if_pos hname, decide_eq_true_iff] at hab
    rw [if_pos hname.symm, decide_eq_true_iff] at hba
    refine ⟨hname, ?_⟩
    have hrank := Nat.le_antisymm hab hba
    revert hrank
    cases a.status <;> cases b.status <;> simp [Status.rank]
  · rw [if_neg hname, decide_eq_true_iff] at hab
    rw [if_neg (Ne.symm hname), decide_eq_true_iff] at hba
    exact absurd (String.le_antisymm hab hba) hname

namespace InterfaceRow

theorem le_trans (a b c : InterfaceRow) (hab : a.le b = true) (hbc : b.le c = true) :
    a.le c = true := by
  unfold le at *
  simp only [decide_eq_true_eq] at *
  exact String.le_trans hab hbc

theorem le_total (a b : InterfaceRow) : (a.le b || b.le a) = true := by
  unfold le
  simp only [Bool.or_eq_true, decide_eq_true_eq]
  exact String.le_total _ _

end InterfaceRow

theorem Key.ext {key key' : Key} (h : key.name = key'.name) : key = key' := by
  cases key
  cases key'
  exact congrArg Key.mk h

namespace Scope

def slotRow (scope : Scope) (memory : Memory) (entry : Key × Backing) : SlotRow :=
  { typeName := entry.1.name
    status := scope.slotStatus memory entry.1 entry.2
    signature := entry.2.source?.map (·.generator.signature)
    eager := entry.2.isEager }

def importRow (key : Key) : SlotRow :=
  { typeName := key.name, status := .imported, signature := none, eager := false }

def interfaceRow (scope : Scope) (memory : Memory) (entry : Key × Binding) : InterfaceRow :=
  { interface := entry.1.name
    source := entry.2.source.name
    bound := memory.bound.contains (scope.site entry.1) }

def rows (scope : Scope) (memory : Memory) : List SlotRow :=
  scope.slots.entries.map (scope.slotRow memory) ++ (memory.importedKeys scope.id).map importRow

theorem dump_eq (scope : Scope) (memory : Memory) :
    scope.dump memory =
      LayerDump.sort ⟨scope.id, scope.label, scope.locked, scope.rows memory,
        scope.bindings.entries.map (scope.interfaceRow memory)⟩ :=
  rfl

theorem rows_antisymm (scope : Scope) (distinct : scope.slots.keys.Nodup) (memory : Memory) :
    ∀ a ∈ scope.rows memory, ∀ b ∈ scope.rows memory, a.le b = true → b.le a = true → a = b := by
  have hslot {entry entry' : Key × Backing} (h : entry ∈ scope.slots.entries)
      (h' : entry' ∈ scope.slots.entries) (hname : entry.1.name = entry'.1.name) :
      entry = entry' := by
    obtain ⟨key, backing⟩ := entry
    obtain ⟨key', backing'⟩ := entry'
    obtain rfl : key = key' := Key.ext hname
    have hsame := (Table.find?_of_mem_entries distinct h).symm.trans
      (Table.find?_of_mem_entries distinct h')
    rw [Option.some.inj hsame]
  intro a ha b hb hab hba
  obtain ⟨hname, hstatus⟩ := SlotRow.eq_of_le hab hba
  rcases List.mem_append.mp ha with ha | ha
  · obtain ⟨entry, hentry, rfl⟩ := List.mem_map.mp ha
    rcases List.mem_append.mp hb with hb | hb
    · obtain ⟨entry', hentry', rfl⟩ := List.mem_map.mp hb
      rw [hslot hentry hentry' hname]
    · obtain ⟨key, -, rfl⟩ := List.mem_map.mp hb
      exact absurd hstatus (scope.slotStatus_ne_imported memory _ _)
  · obtain ⟨key, -, rfl⟩ := List.mem_map.mp ha
    rcases List.mem_append.mp hb with hb | hb
    · obtain ⟨entry, -, rfl⟩ := List.mem_map.mp hb
      exact absurd hstatus.symm (scope.slotStatus_ne_imported memory _ _)
    · obtain ⟨key', -, rfl⟩ := List.mem_map.mp hb
      exact congrArg importRow (Key.ext hname)

theorem interfaceRows_antisymm (scope : Scope) (distinct : scope.bindings.keys.Nodup)
    (memory : Memory) :
    ∀ a ∈ scope.bindings.entries.map (scope.interfaceRow memory),
      ∀ b ∈ scope.bindings.entries.map (scope.interfaceRow memory),
        a.le b = true → b.le a = true → a = b := by
  intro a ha b hb hab hba
  obtain ⟨⟨key, binding⟩, hentry, rfl⟩ := List.mem_map.mp ha
  obtain ⟨⟨key', binding'⟩, hentry', rfl⟩ := List.mem_map.mp hb
  have hname : key.name = key'.name :=
    String.le_antisymm (of_decide_eq_true hab) (of_decide_eq_true hba)
  obtain rfl : key = key' := Key.ext hname
  have hsame := (Table.find?_of_mem_entries distinct hentry).symm.trans
    (Table.find?_of_mem_entries distinct hentry')
  rw [Option.some.inj hsame]

structure Reorders (scope scope' : Scope) : Prop extends Mirrors scope scope' where
  label : scope'.label = scope.label
  locked : scope'.locked = scope.locked
  overridable : scope'.overridable = scope.overridable
  eager : ∀ {key source source' eager eager' cyclic cyclic'},
    scope.slots.find? key = some (.generated source eager cyclic) →
    scope'.slots.find? key = some (.generated source' eager' cyclic') → eager' = eager
  keys : scope'.slots.keys.Perm scope.slots.keys
  interfaces : scope'.bindings.keys.Perm scope.bindings.keys
  distinct : scope.slots.keys.Nodup
  distinctInterfaces : scope.bindings.keys.Nodup

namespace Reorders

variable {scope scope' : Scope}

theorem owns (reorders : scope.Reorders scope') (key : Key) : scope'.owns key = scope.owns key := by
  unfold Scope.owns Table.contains
  rw [reorders.bindings]
  rcases reorders.slots.backing_cases key with ⟨slot, slot'⟩ | ⟨backing, backing', slot, slot', -⟩
  · rw [slot, slot']
  · rw [slot, slot']
    rfl

theorem knows (reorders : scope.Reorders scope') (memory : Memory) (key : Key) :
    scope'.knows memory key = scope.knows memory key := by
  unfold Scope.knows
  rw [reorders.owns, reorders.site]

theorem map_slot {β : Type} (reorders : scope.Reorders scope') {f f' : Backing → β} (key : Key)
    (value : ∀ value, f' (.value value) = f (.value value))
    (generated : ∀ generator place place' eager cyclic,
      f' (.generated ⟨place', generator⟩ eager cyclic) =
        f (.generated ⟨place, generator⟩ eager cyclic)) :
    (scope'.slots.find? key).map f' = (scope.slots.find? key).map f := by
  rcases reorders.slots.slot_cases key with ⟨slot, slot'⟩ | ⟨found, slot, slot'⟩ |
    ⟨⟨place, _⟩, ⟨place', generator⟩, eager, eager', cyclic, cyclic', rfl, slot, slot'⟩
  · rw [slot, slot']
    rfl
  · rw [slot, slot']
    exact congrArg some (value found)
  · obtain rfl := reorders.eager slot slot'
    obtain rfl := reorders.cyclic slot slot'
    rw [slot, slot']
    exact congrArg some (generated generator place place' _ _)

theorem slotStatus (reorders : scope.Reorders scope') (memory : Memory) (key slot : Key) :
    (scope'.slots.find? slot).map (scope'.slotStatus memory key) =
      (scope.slots.find? slot).map (scope.slotStatus memory key) := by
  refine reorders.map_slot slot (fun value => rfl) fun generator place place' eager cyclic => ?_
  unfold Scope.slotStatus
  rw [reorders.site]

theorem status? (reorders : scope.Reorders scope') (memory : Memory) (key : Key) :
    scope'.status? memory key = scope.status? memory key := by
  have hslot := reorders.slotStatus memory key key
  unfold Scope.status?
  rcases reorders.slots.backing_cases key with ⟨slot, slot'⟩ | ⟨backing, backing', slot, slot', -⟩
  · rw [slot, slot', reorders.bindings]
    cases scope.bindings.find? key with
    | none =>
      dsimp only
      rw [reorders.site]
    | some binding => exact reorders.slotStatus memory binding.source binding.source
  · rw [slot, slot'] at hslot ⊢
    exact hslot

theorem slotRow (reorders : scope.Reorders scope') (memory : Memory) (key : Key) :
    (scope'.slots.find? key).map (fun backing => scope'.slotRow memory (key, backing)) =
      (scope.slots.find? key).map fun backing => scope.slotRow memory (key, backing) := by
  refine reorders.map_slot key (fun value => rfl) fun generator place place' eager cyclic => ?_
  unfold Scope.slotRow Scope.slotStatus
  rw [reorders.site]
  rfl

theorem dump (reorders : scope.Reorders scope') (memory : Memory) :
    scope'.dump memory = scope.dump memory := by
  have hslots := Table.map_entries_perm reorders.keys reorders.distinct (reorders.slotRow memory)
  have hinterfaces : (scope'.bindings.entries.map (scope'.interfaceRow memory)).Perm
      (scope.bindings.entries.map (scope.interfaceRow memory)) := by
    refine Table.map_entries_perm reorders.interfaces reorders.distinctInterfaces fun key => ?_
    unfold Scope.interfaceRow
    simp only [reorders.bindings, reorders.site]
  have hrows : (scope'.rows memory).Perm (scope.rows memory) := by
    unfold Scope.rows
    rw [reorders.id]
    exact hslots.append_right _
  rw [dump_eq, dump_eq, reorders.id, reorders.label, reorders.locked]
  unfold LayerDump.sort
  dsimp only
  rw [mergeSort_eq_of_perm SlotRow.le_trans SlotRow.le_total
      (scope.rows_antisymm reorders.distinct memory) hrows,
    mergeSort_eq_of_perm InterfaceRow.le_trans InterfaceRow.le_total
      (scope.interfaceRows_antisymm reorders.distinctInterfaces memory) hinterfaces]

end Reorders

end Scope

theorem exists_of_forall₂ {α β : Type} {R : α → β → Prop} {items : List α} {others : List β}
    (h : List.Forall₂ R items others) {a : α} (ha : a ∈ items) : ∃ b ∈ others, R a b := by
  induction h with
  | nil => cases ha
  | cons first rest ih =>
    rcases List.mem_cons.mp ha with rfl | hmem
    · exact ⟨_, List.mem_cons_self, first⟩
    · obtain ⟨b, hb, hab⟩ := ih hmem
      exact ⟨b, List.mem_cons_of_mem _ hb, hab⟩

structure Layer.Reorders (layer layer' : Layer) : Prop where
  ancestry : List.Forall₂ Scope.Reorders layer.ancestry layer'.ancestry

namespace Layer.Reorders

variable {layer layer' : Layer}

theorem scope (reorders : layer.Reorders layer') : layer.scope.Reorders layer'.scope :=
  (List.forall₂_cons.mp reorders.ancestry).1

theorem outer (reorders : layer.Reorders layer') :
    List.Forall₂ Scope.Reorders layer.outer layer'.outer :=
  (List.forall₂_cons.mp reorders.ancestry).2

theorem parent? (reorders : layer.Reorders layer') :
    Option.Rel Layer.Reorders layer.parent? layer'.parent? := by
  obtain ⟨scope, outer⟩ := layer
  obtain ⟨scope', outer'⟩ := layer'
  have houter : List.Forall₂ Scope.Reorders outer outer' := reorders.outer
  cases houter with
  | nil => exact .none
  | cons parent further => exact .some ⟨.cons parent further⟩

theorem map_eq {α : Type} {scopes scopes' : List Scope}
    (reorders : List.Forall₂ Scope.Reorders scopes scopes') {f : Scope → α}
    (h : ∀ scope scope' : Scope, scope.Reorders scope' → f scope' = f scope) :
    scopes'.map f = scopes.map f := by
  induction reorders with
  | nil => rfl
  | cons first rest ih => rw [List.map_cons, List.map_cons, h _ _ first, ih]

theorem canResolve (reorders : layer.Reorders layer') (memory : Memory) (key : Key) :
    layer'.canResolve memory key = layer.canResolve memory key := by
  have hknows := map_eq reorders.ancestry fun _ _ reorders => reorders.knows memory key
  have hany := congrArg (fun known : List Bool => known.any id) hknows
  rw [List.any_map, List.any_map] at hany
  exact hany

theorem dump (reorders : layer.Reorders layer') (memory : Memory) :
    layer'.dump memory = layer.dump memory :=
  congrArg Dump.mk (map_eq reorders.ancestry fun _ _ reorders => reorders.dump memory)

theorem parentId? (reorders : layer.Reorders layer') : layer'.parentId? = layer.parentId? := by
  obtain ⟨scope, outer⟩ := layer
  obtain ⟨scope', outer'⟩ := layer'
  have houter : List.Forall₂ Scope.Reorders outer outer' := reorders.outer
  cases houter with
  | nil => rfl
  | cons parent further => exact congrArg some parent.id

theorem slots_size (reorders : layer.Reorders layer') :
    layer'.scope.slots.size = layer.scope.slots.size := by
  have hlength := reorders.scope.keys.length_eq
  unfold Table.keys at hlength
  rwa [List.length_map, List.length_map] at hlength

theorem profile (reorders : layer.Reorders layer') : layer'.profile = layer.profile := by
  have hscope := reorders.scope
  have hids := map_eq reorders.ancestry fun _ _ reorders => reorders.id
  unfold Layer.profile Layer.debug
  rw [hscope.id, hscope.label, hscope.locked, hscope.settings, hscope.observers, hids,
    reorders.parentId?, reorders.slots_size]

end Layer.Reorders

/-- Scopes of the same id that have been built in either world. -/
def Mates (built built' : List Layer) (scope scope' : Scope) : Prop :=
  scope'.id = scope.id ∧ (∃ outer, ⟨scope, outer⟩ ∈ built) ∧ ∃ outer', ⟨scope', outer'⟩ ∈ built'

/-- The same happens, at places that the same generator has in either world. -/
inductive Event.Reorders (built built' : List Layer) : Event → Event → Prop
  | same {event : Event} (placeless : event.isPlaced = false) :
      Event.Reorders built built' event event
  | ran {scope scope' : Scope} {source source' : Registered}
      (mates : Mates built built' scope scope')
      (counterparts : Counterparts scope.slots scope'.slots source source')
      (same : source'.generator = source.generator) (run : Nat) (arguments : List Argument) :
      Event.Reorders built built'
        (.ran scope.id source.place source.generator.tag run arguments)
        (.ran scope'.id source'.place source'.generator.tag run arguments)
  | returned {scope scope' : Scope} {source source' : Registered}
      (mates : Mates built built' scope scope')
      (counterparts : Counterparts scope.slots scope'.slots source source')
      (same : source'.generator = source.generator) (run : Nat) (yield : Yield) :
      Event.Reorders built built' (.returned scope.id source.place run yield)
        (.returned scope'.id source'.place run yield)

theorem Mates.mono {built built' after after' : List Layer} {scope scope' : Scope}
    (mates : Mates built built' scope scope') (h : built ⊆ after) (h' : built' ⊆ after') :
    Mates after after' scope scope' := by
  obtain ⟨hid, ⟨outer, hbuilt⟩, outer', hbuilt'⟩ := mates
  exact ⟨hid, ⟨outer, h hbuilt⟩, outer', h' hbuilt'⟩

theorem Event.Reorders.mono {built built' after after' : List Layer} {event event' : Event}
    (reorders : event.Reorders built built' event') (h : built ⊆ after) (h' : built' ⊆ after') :
    event.Reorders after after' event' := by
  cases reorders with
  | same placeless => exact .same placeless
  | ran mates counterparts same run arguments =>
    exact .ran (mates.mono h h') counterparts same run arguments
  | returned mates counterparts same run yield =>
    exact .returned (mates.mono h h') counterparts same run yield

def Event.isSkipping : Event → Bool
  | .logged (.skippingNil _) => true
  | _ => false

/-- What has happened but for absent values passed over. -/
def World.told (world : World) : List Event := world.trace.filter (!·.isSkipping)

structure World.Reorders (world other : World) : Prop where
  valid : world.Valid
  valid' : other.Valid
  layers : ∀ name, Option.Rel Layer.Reorders (world.layers.find? name) (other.layers.find? name)
  built : List.Forall₂ Layer.Reorders world.built other.built
  tokens : other.tokens = world.tokens
  memory : other.memory = world.memory
  casts : other.casts = world.casts
  nextLayer : other.nextLayer = world.nextLayer
  nextToken : other.nextToken = world.nextToken
  signals : other.signals = world.signals
  held : other.held = world.held
  thread : other.thread = world.thread
  runs : ∀ {scope scope' source source'}, Mates world.built other.built scope scope' →
    Counterparts scope.slots scope'.slots source source' →
      other.runs.find? (scope'.id, source'.place) = world.runs.find? (scope.id, source.place)
  fresh : ∀ layer place, world.nextLayer ≤ layer →
    world.runs.find? (layer, place) = none ∧ other.runs.find? (layer, place) = none
  told : List.Forall₂ (Event.Reorders world.built other.built) world.told other.told

namespace World.Reorders

variable {world other : World} {layer layer' : Layer} {source source' : Registered}

theorem initial : World.Reorders {} {} where
  valid := .initial
  valid' := .initial
  layers _ := .none
  built := .nil
  tokens := rfl
  memory := rfl
  casts := rfl
  nextLayer := rfl
  nextToken := rfl
  signals := rfl
  held := rfl
  thread := rfl
  runs _ _ := rfl
  fresh _ _ _ := ⟨rfl, rfl⟩
  told := .nil

theorem of_mates (reorders : world.Reorders other) {scope scope' : Scope}
    (mates : Mates world.built other.built scope scope') : scope.Reorders scope' := by
  obtain ⟨hid, ⟨outer, hbuilt⟩, outer', hbuilt'⟩ := mates
  obtain ⟨partner, hpartner, hreorders⟩ := exists_of_forall₂ reorders.built hbuilt
  obtain rfl := reorders.valid'.unique _ hpartner _ hbuilt' (hreorders.scope.id.trans hid.symm)
  exact hreorders.scope

theorem mates_unique (reorders : world.Reorders other) {scope scope' mate mate' : Scope}
    (mates : Mates world.built other.built scope scope')
    (others : Mates world.built other.built mate mate') (h : mate.id = scope.id) :
    mate = scope ∧ mate' = scope' := by
  obtain ⟨hid, ⟨outer, hbuilt⟩, outer', hbuilt'⟩ := mates
  obtain ⟨hother, ⟨further, hknown⟩, further', hknown'⟩ := others
  have hsame := reorders.valid.unique _ hknown _ hbuilt h
  have hsame' := reorders.valid'.unique _ hknown' _ hbuilt' (hother.trans (h.trans hid.symm))
  exact ⟨congrArg Layer.scope hsame, congrArg Layer.scope hsame'⟩

theorem id_lt (reorders : world.Reorders other) {scope scope' : Scope}
    (mates : Mates world.built other.built scope scope') :
    scope.id < world.nextLayer ∧ scope'.id < world.nextLayer := by
  obtain ⟨hid, ⟨outer, hbuilt⟩, -⟩ := mates
  rw [hid]
  exact ⟨reorders.valid.ids _ hbuilt, reorders.valid.ids _ hbuilt⟩

theorem emit (reorders : world.Reorders other) {event : Event}
    (placeless : event.isPlaced = false) : (world.emit event).Reorders (other.emit event) := by
  refine { reorders with
    valid := reorders.valid.emit event
    valid' := reorders.valid'.emit event
    told := ?_ }
  unfold World.told World.emit
  rw [List.filter_cons, List.filter_cons]
  split
  · exact .cons (.same placeless) reorders.told
  · exact reorders.told

theorem tell (reorders : world.Reorders other) {event event' : Event}
    (told : event.isSkipping = false) (told' : event'.isSkipping = false)
    (h : event.Reorders world.built other.built event') :
    (world.emit event).Reorders (other.emit event') := by
  refine { reorders with
    valid := reorders.valid.emit event
    valid' := reorders.valid'.emit event'
    told := ?_ }
  unfold World.told World.emit
  rw [List.filter_cons_of_pos (by simp [told]), List.filter_cons_of_pos (by simp [told'])]
  exact .cons h reorders.told

theorem skip (reorders : world.Reorders other) (keys keys' : List Key) :
    (world.emitAll (keys.map fun key => .logged (.skippingNil key))).Reorders
      (other.emitAll (keys'.map fun key => .logged (.skippingNil key))) := by
  have htold (world : World) (keys : List Key) :
      (world.emitAll (keys.map fun key => .logged (.skippingNil key))).told = world.told := by
    have hnone : (keys.map fun key => Event.logged (.skippingNil key)).reverse.filter
        (!·.isSkipping) = [] := by
      refine List.filter_eq_nil_iff.mpr fun event hevent => ?_
      obtain ⟨key, -, rfl⟩ := List.mem_map.mp (List.mem_reverse.mp hevent)
      exact Bool.false_ne_true
    unfold World.told World.emitAll
    rw [List.filter_append, hnone, List.nil_append]
  refine { reorders with
    valid := reorders.valid.emitAll _
    valid' := reorders.valid'.emitAll _
    told := ?_ }
  rw [htold, htold]
  exact reorders.told

theorem signal (reorders : world.Reorders other) (signals : Signals) :
    World.Reorders { world with signals } { other with signals } :=
  { reorders with
    valid := reorders.valid.of_same rfl rfl rfl rfl
    valid' := reorders.valid'.of_same rfl rfl rfl rfl
    signals := rfl }

theorem hold (reorders : world.Reorders other) (held : List Site) :
    World.Reorders { world with held } { other with held } :=
  { reorders with
    valid := reorders.valid.of_same rfl rfl rfl rfl
    valid' := reorders.valid'.of_same rfl rfl rfl rfl
    held := rfl }

theorem onThread (reorders : world.Reorders other) (thread : Option String) :
    World.Reorders { world with thread } { other with thread } :=
  { reorders with
    valid := reorders.valid.of_same rfl rfl rfl rfl
    valid' := reorders.valid'.of_same rfl rfl rfl rfl
    thread := rfl }

theorem enterCast (reorders : world.Reorders other) (site : Site) (binding : Binding)
    (payload : String) :
    (world.enterCast site binding payload).Reorders (other.enterCast site binding payload) := by
  unfold World.enterCast World.nextCast
  rw [reorders.casts]
  have hcounted : World.Reorders
      { world with casts := world.casts.set site ((world.casts.find? site).getD 0 + 1) }
      { other with casts := world.casts.set site ((world.casts.find? site).getD 0 + 1) } :=
    { reorders with
      valid := reorders.valid.of_same rfl rfl rfl rfl
      valid' := reorders.valid'.of_same rfl rfl rfl rfl
      casts := rfl }
  exact hcounted.emit rfl

theorem remember (reorders : world.Reorders other) {memory memory' : Memory}
    (same : memory' = memory) (valid : World.Valid { world with memory })
    (valid' : World.Valid { other with memory := memory' }) :
    World.Reorders { world with memory } { other with memory := memory' } :=
  { reorders with
    valid
    valid'
    memory := same }

theorem endow (reorders : world.Reorders other) {tokens tokens' : Table String Token}
    {next next' : Nat} (same : tokens' = tokens) (hnext : next' = next) :
    World.Reorders { world with tokens, nextToken := next }
      { other with tokens := tokens', nextToken := next' } :=
  { reorders with
    valid := reorders.valid.sidestep (.tokens world tokens next)
    valid' := reorders.valid'.sidestep (.tokens other tokens' next')
    tokens := same
    nextToken := hnext }

theorem nextRun (reorders : world.Reorders other)
    {scope scope' : Scope} (mates : Mates world.built other.built scope scope')
    (counterparts : Counterparts scope.slots scope'.slots source source') :
    other.nextRun scope' source' = world.nextRun scope source := by
  unfold World.nextRun
  rw [reorders.runs mates counterparts]

theorem enterBody (reorders : world.Reorders other)
    {scope scope' : Scope} (mates : Mates world.built other.built scope scope')
    (counterparts : Counterparts scope.slots scope'.slots source source')
    (arguments : List Argument) :
    (world.enterBody scope source arguments).Reorders
      (other.enterBody scope' source' arguments) := by
  have hscope := reorders.of_mates mates
  have hgenerator := hscope.slots.generator counterparts
  have hcounted (run : Nat) : World.Reorders
      { world with runs := world.runs.set (scope.id, source.place) run }
      { other with runs := other.runs.set (scope'.id, source'.place) run } := by
    refine { reorders with
      valid := reorders.valid.of_same rfl rfl rfl rfl
      valid' := reorders.valid'.of_same rfl rfl rfl rfl
      runs := ?_
      fresh := ?_ }
    · intro mate mate' first first' hmates hcounterparts
      have hsite : (mate'.id, first'.place) = (scope'.id, source'.place) ↔
          (mate.id, first.place) = (scope.id, source.place) := by
        rw [Prod.mk.injEq, Prod.mk.injEq, hmates.1, mates.1]
        refine and_congr_right fun hid => ?_
        obtain ⟨rfl, rfl⟩ := reorders.mates_unique mates hmates hid
        exact hscope.slots.places hcounterparts counterparts
      rw [Table.find?_set, Table.find?_set, reorders.runs hmates hcounterparts]
      simp only [hsite]
    · intro layer place hlayer
      obtain ⟨hlt, hlt'⟩ := reorders.id_lt mates
      have hne {id place' : Nat} (h : id < world.nextLayer) : (layer, place) ≠ (id, place') := by
        intro hsame
        have hid : layer = id := congrArg Prod.fst hsame
        exact absurd (hid ▸ h) (Nat.not_lt_of_le hlayer)
      rw [Table.find?_set_of_ne _ _ (hne hlt), Table.find?_set_of_ne _ _ (hne hlt')]
      exact reorders.fresh layer place hlayer
  unfold World.enterBody
  dsimp only
  rw [reorders.nextRun mates counterparts]
  exact (hcounted _).tell rfl rfl (.ran mates counterparts hgenerator _ arguments)

theorem returned (reorders : world.Reorders other)
    {scope scope' : Scope} (mates : Mates world.built other.built scope scope')
    (counterparts : Counterparts scope.slots scope'.slots source source') (run : Nat)
    (yield : Yield) :
    (world.emit (.returned scope.id source.place run yield)).Reorders
      (other.emit (.returned scope'.id source'.place run yield)) := by
  have hgenerator := (reorders.of_mates mates).slots.generator counterparts
  exact reorders.tell rfl rfl (.returned mates counterparts hgenerator run yield)

theorem enter (reorders : world.Reorders other) {builder builder' : Builder}
    (same : layer.Reorders layer')
    (parent : ∀ parent, builder.parent = some parent → parent ∈ world.built)
    (parent' : ∀ parent, builder'.parent = some parent → parent ∈ other.built)
    (assembled : builder.assemble world.memory world.nextLayer = .ok layer)
    (assembled' : builder'.assemble other.memory other.nextLayer = .ok layer') :
    (world.enter layer).Reorders (other.enter layer') := by
  obtain ⟨-, -, -, -, -, hid, -⟩ := Builder.assemble_inv assembled
  obtain ⟨-, -, -, -, -, hid', -⟩ := Builder.assemble_inv assembled'
  refine { reorders with
    valid := reorders.valid.enter parent assembled
    valid' := reorders.valid'.enter parent' assembled'
    built := .cons same reorders.built
    nextLayer := congrArg (· + 1) reorders.nextLayer
    runs := ?_
    fresh := fun id place h => reorders.fresh id place (Nat.le_of_succ_le h)
    told := reorders.told.imp fun _ _ h =>
      h.mono (List.subset_cons_self _ _) (List.subset_cons_self _ _) }
  intro scope scope' source source' mates counterparts
  obtain ⟨hsame, ⟨outer, hbuilt⟩, outer', hbuilt'⟩ := mates
  change other.runs.find? (scope'.id, source'.place) = world.runs.find? (scope.id, source.place)
  rcases List.mem_cons.mp hbuilt with rfl | hold
  · obtain ⟨hnone, -⟩ := reorders.fresh scope.id source.place (Nat.le_of_eq hid.symm)
    obtain ⟨-, hnone'⟩ := reorders.fresh scope.id source'.place (Nat.le_of_eq hid.symm)
    rw [hsame, hnone, hnone']
  · rcases List.mem_cons.mp hbuilt' with rfl | hold'
    · have hlt : scope.id < world.nextLayer := reorders.valid.ids _ hold
      rw [← hsame, ← reorders.nextLayer] at hlt
      exact absurd hid' (Nat.ne_of_lt hlt)
    · exact reorders.runs ⟨hsame, ⟨outer, hold⟩, outer', hold'⟩ counterparts

theorem name (reorders : world.Reorders other) (same : layer.Reorders layer')
    (known : layer ∈ world.built) (known' : layer' ∈ other.built) (name : String) :
    World.Reorders { world with layers := world.layers.set name layer }
      { other with layers := other.layers.set name layer' } := by
  refine { reorders with
    valid := reorders.valid.name known name
    valid' := reorders.valid'.name known' name
    layers := fun mentioned => ?_ }
  change Option.Rel Layer.Reorders ((world.layers.set name layer).find? mentioned)
    ((other.layers.set name layer').find? mentioned)
  rw [Table.find?_set, Table.find?_set]
  split
  · exact .some same
  · exact reorders.layers mentioned

theorem erase (reorders : world.Reorders other) (name : String) :
    World.Reorders { world with layers := world.layers.erase name }
      { other with layers := other.layers.erase name } := by
  refine { reorders with
    valid := reorders.valid.sidestep (.erase world name)
    valid' := reorders.valid'.sidestep (.erase other name)
    layers := fun mentioned => ?_ }
  change Option.Rel Layer.Reorders ((world.layers.erase name).find? mentioned)
    ((other.layers.erase name).find? mentioned)
  rw [Table.find?_erase, Table.find?_erase]
  split
  · exact .none
  · exact reorders.layers mentioned

theorem named_cases (reorders : world.Reorders other) (name : String) :
    (world.layers.find? name = none ∧ other.layers.find? name = none) ∨
    ∃ layer layer', world.layers.find? name = some layer ∧ other.layers.find? name = some layer' ∧
      layer.Reorders layer' := by
  have hlayers := reorders.layers name
  revert hlayers
  generalize world.layers.find? name = layer?, other.layers.find? name = layer?'
  intro hlayers
  cases hlayers with
  | none => exact .inl ⟨rfl, rfl⟩
  | some same => exact .inr ⟨_, _, rfl, rfl, same⟩

theorem contextOf (reorders : world.Reorders other) (terms : Terms) :
    other.contextOf terms = world.contextOf terms := by
  unfold World.contextOf
  rw [reorders.tokens, reorders.signals]

end World.Reorders

structure World.Housing (root root' : Layer) (world other : World) : Prop
    extends World.Reorders world other where
  known : root ∈ world.built
  known' : root' ∈ other.built

structure Layer.Paired (root root' layer layer' : Layer) : Prop where
  same : layer.Reorders layer'
  known : ∀ {world other}, World.Housing root root' world other →
    layer ∈ world.built ∧ layer' ∈ other.built

namespace Layer.Paired

variable {root root' layer layer' : Layer} {world other : World}

theorem refl (same : root.Reorders root') : Layer.Paired root root' root root' :=
  ⟨same, fun housing => ⟨housing.known, housing.known'⟩⟩

theorem mates (paired : Layer.Paired root root' layer layer')
    (housing : World.Housing root root' world other) :
    Mates world.built other.built layer.scope layer'.scope := by
  obtain ⟨hknown, hknown'⟩ := paired.known housing
  exact ⟨paired.same.scope.id, ⟨layer.outer, hknown⟩, layer'.outer, hknown'⟩

theorem parent? (paired : Layer.Paired root root' layer layer') :
    Option.Rel (Layer.Paired root root') layer.parent? layer'.parent? := by
  obtain ⟨scope, outer⟩ := layer
  obtain ⟨scope', outer'⟩ := layer'
  have hparent := paired.same.parent?
  match outer, outer', hparent with
  | [], [], _ => exact .none
  | parent :: further, parent' :: further', .some same =>
    refine .some ⟨same, fun housing => ?_⟩
    obtain ⟨hknown, hknown'⟩ := paired.known housing
    exact ⟨housing.valid.outer _ hknown _ _ rfl, housing.valid'.outer _ hknown' _ _ rfl⟩

end Layer.Paired

namespace World.Housing

variable {root root' layer layer' : Layer} {world other : World} {source source' : Registered}

theorem deliver (housing : World.Housing root root' world other)
    (paired : Layer.Paired root root' layer layer')
    (counterparts : Counterparts layer.scope.slots layer'.scope.slots source source')
    {products : List Value} {delivery : Site × Value}
    (h : delivery ∈ Resolution.deliveries layer.scope source products) :
    (world.deliver delivery).Reorders (other.deliver delivery) := by
  obtain ⟨hknown, hknown'⟩ := paired.known housing
  have h' := h
  rw [← paired.same.scope.deliveries counterparts] at h'
  have hvalid := housing.valid.deliver hknown h
  have hvalid' := housing.valid'.deliver hknown' h'
  unfold World.deliver at hvalid hvalid' ⊢
  rw [housing.memory] at hvalid' ⊢
  split
  · exact housing.toReorders.emit rfl
  · next hempty =>
    rw [if_neg hempty] at hvalid hvalid'
    have hfilled := housing.toReorders.remember rfl (hvalid.of_same rfl rfl rfl rfl)
      (hvalid'.of_same rfl rfl rfl rfl)
    exact hfilled.emit rfl

theorem bind (housing : World.Housing root root' world other)
    (paired : Layer.Paired root root' layer layer') {key : Key} {binding : Binding}
    (noSlot : layer.scope.slots.find? key = none)
    (interface : layer.scope.bindings.find? key = some binding) (payload : String) :
    (world.bind layer.scope key binding payload).Reorders
      (other.bind layer'.scope key binding payload) := by
  obtain ⟨hknown, hknown'⟩ := paired.known housing
  have hscope := paired.same.scope
  have hnoSlot : layer'.scope.slots.find? key = none := by
    rcases hscope.slots.backing_cases key with ⟨-, h⟩ | ⟨backing, -, h, -, -⟩
    · exact h
    · rw [noSlot] at h
      cases h
  have hvalid := housing.valid.bind hknown noSlot interface payload
  have hvalid' := housing.valid'.bind hknown' hnoSlot
    ((hscope.bindings key).trans interface) payload
  unfold World.bind at hvalid hvalid' ⊢
  rw [hscope.id, hscope.site] at hvalid' ⊢
  have hmemory : other.memory.bind (layer.scope.site key) ⟨key, payload⟩ =
      world.memory.bind (layer.scope.site key) ⟨key, payload⟩ := by
    rw [housing.memory]
  exact (housing.toReorders.emit rfl).remember hmemory hvalid hvalid'

theorem hoist (housing : World.Housing root root' world other)
    (paired : Layer.Paired root root' layer layer') {key : Key}
    (unowned : layer.scope.owns key = false) (value : Value) :
    (world.hoist layer.scope key value).Reorders (other.hoist layer'.scope key value) := by
  obtain ⟨hknown, hknown'⟩ := paired.known housing
  have hscope := paired.same.scope
  have hvalid := housing.valid.hoist hknown unowned value
  have hvalid' := housing.valid'.hoist hknown' ((hscope.owns key).trans unowned) value
  unfold World.hoist at hvalid hvalid' ⊢
  rw [hscope.settings, hscope.site] at hvalid' ⊢
  have hmemory : other.memory.importValue (layer.scope.site key) value =
      world.memory.importValue (layer.scope.site key) value := by
    rw [housing.memory]
  split
  · next hoists =>
    rw [if_pos hoists] at hvalid hvalid'
    exact housing.toReorders.remember hmemory hvalid hvalid'
  · exact housing.toReorders

theorem mirroring (root root' : Layer) :
    Mirroring (Layer.Paired root root') (World.Housing root root') where
  scope paired := paired.same.scope.toMirrors
  parent paired := paired.parent?
  signals housing := housing.signals
  tokens housing := housing.tokens
  held housing := housing.held
  memory housing := housing.memory
  casts housing := housing.casts
  runs housing paired counterparts := housing.runs (paired.mates housing) counterparts
  emit event placeless housing :=
    ⟨housing.toReorders.emit placeless, housing.known, housing.known'⟩
  note housing := by
    rw [housing.thread]
    exact ⟨housing.toReorders.emit rfl, housing.known, housing.known'⟩
  signal signals housing := ⟨housing.toReorders.signal signals, housing.known, housing.known'⟩
  hold held housing := ⟨housing.toReorders.hold held, housing.known, housing.known'⟩
  enterBody arguments housing paired counterparts :=
    ⟨housing.toReorders.enterBody (paired.mates housing) counterparts arguments, housing.known,
      housing.known'⟩
  returned run yield housing paired counterparts :=
    ⟨housing.toReorders.returned (paired.mates housing) counterparts run yield, housing.known,
      housing.known'⟩
  deliver housing paired counterparts h :=
    ⟨housing.deliver paired counterparts h, (World.Advances.deliver _ _).built.mem housing.known,
      (World.Advances.deliver _ _).built.mem housing.known'⟩
  enterCast site binding payload housing :=
    ⟨housing.toReorders.enterCast site binding payload, housing.known, housing.known'⟩
  bind payload housing paired noSlot interface :=
    ⟨housing.bind paired noSlot interface payload, housing.known, housing.known'⟩
  hoist value housing paired unowned :=
    ⟨housing.hoist paired unowned value, (World.Grows.hoist _ _ _ _).built.mem housing.known,
      (World.Grows.hoist _ _ _ _).built.mem housing.known'⟩

end World.Housing

end LayerGraph
