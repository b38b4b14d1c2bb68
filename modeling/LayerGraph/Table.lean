/-! Association tables that remember the order of first entry. Entering a value changes what its own
key has and nothing else. -/

namespace LayerGraph

/-- Keys with their values, in the order in which the keys were first entered. -/
structure Table (κ α : Type) where
  entries : List (κ × α) := []
  deriving Inhabited

namespace Table

variable {κ α : Type} [DecidableEq κ]

def lookup (key : κ) : List (κ × α) → Option α
  | [] => none
  | (k, a) :: rest => if k = key then some a else lookup key rest

def replace (key : κ) (value : α) : List (κ × α) → List (κ × α)
  | [] => [(key, value)]
  | (k, a) :: rest => if k = key then (k, value) :: rest else (k, a) :: replace key value rest

def find? (table : Table κ α) (key : κ) : Option α := lookup key table.entries

def contains (table : Table κ α) (key : κ) : Bool := (table.find? key).isSome

/-- Enters a value, replacing an older one under the same key in its place. -/
def set (table : Table κ α) (key : κ) (value : α) : Table κ α := ⟨replace key value table.entries⟩

/-- Enters a value unless the key already has one. -/
def add (table : Table κ α) (key : κ) (value : α) : Table κ α :=
  if table.contains key then table else table.set key value

def erase (table : Table κ α) (key : κ) : Table κ α := ⟨table.entries.filter (·.1 ≠ key)⟩

def keys (table : Table κ α) : List κ := table.entries.map (·.1)

def size (table : Table κ α) : Nat := table.entries.length

theorem lookup_replace (key other : κ) (value : α) (entries : List (κ × α)) :
    lookup other (replace key value entries) =
      if other = key then some value else lookup other entries := by
  induction entries with
  | nil => simp [replace, lookup, eq_comm]
  | cons head rest ih =>
    obtain ⟨k, a⟩ := head
    by_cases hk : k = key
    · subst hk
      by_cases ho : k = other
      · simp [replace, lookup, ho]
      · simp [replace, lookup, ho, Ne.symm ho]
    · by_cases ho : k = other
      · subst ho
        simp [replace, lookup, hk]
      · simp [replace, lookup, hk, ho, ih]

@[simp] theorem find?_empty (key : κ) : ({} : Table κ α).find? key = none := rfl

theorem find?_set (table : Table κ α) (key other : κ) (value : α) :
    (table.set key value).find? other = if other = key then some value else table.find? other :=
  lookup_replace key other value table.entries

theorem find?_set_of_ne (table : Table κ α) {key other : κ} (value : α) (h : other ≠ key) :
    (table.set key value).find? other = table.find? other := by simp [find?_set, h]

/-- What a key has, adding keeps. -/
theorem find?_add (table : Table κ α) (key other : κ) (value : α) :
    (table.add key value).find? other =
      if other = key then some ((table.find? key).getD value) else table.find? other := by
  unfold add contains
  cases h : table.find? key with
  | none => simp [find?_set]
  | some a =>
    by_cases ho : other = key
    · simp [ho, h]
    · simp [ho]

theorem lookup_filter_ne (key other : κ) (entries : List (κ × α)) :
    lookup other (entries.filter (·.1 ≠ key)) =
      if other = key then none else lookup other entries := by
  induction entries with
  | nil => simp [lookup]
  | cons head rest ih =>
    obtain ⟨k, a⟩ := head
    by_cases hk : k = key
    · subst hk
      by_cases ho : other = k
      · simp_all
      · simp_all [lookup, Ne.symm ho]
    · by_cases ho : k = other
      · subst ho
        simp [lookup, hk]
      · simp_all [lookup]

theorem find?_erase (table : Table κ α) (key other : κ) :
    (table.erase key).find? other = if other = key then none else table.find? other :=
  lookup_filter_ne key other table.entries

theorem replace_of_lookup_none {key : κ} {value : α} {entries : List (κ × α)}
    (h : lookup key entries = none) : replace key value entries = entries ++ [(key, value)] := by
  induction entries with
  | nil => rfl
  | cons head rest ih =>
    obtain ⟨k, a⟩ := head
    by_cases hk : k = key
    · simp [lookup, hk] at h
    · simp only [lookup, if_neg hk] at h
      simp [replace, hk, ih h]

/-- A new key comes last. -/
theorem keys_set_of_none {table : Table κ α} {key : κ} (value : α) (h : table.find? key = none) :
    (table.set key value).keys = table.keys ++ [key] := by
  unfold set keys
  rw [replace_of_lookup_none h, List.map_append]
  rfl

theorem map_fst_replace_of_lookup {key : κ} {value previous : α} {entries : List (κ × α)}
    (h : lookup key entries = some previous) :
    (replace key value entries).map (·.1) = entries.map (·.1) := by
  induction entries with
  | nil => cases h
  | cons head rest ih =>
    obtain ⟨k, a⟩ := head
    by_cases hk : k = key
    · simp [replace, hk]
    · simp only [lookup, if_neg hk] at h
      simp [replace, hk, ih h]

/-- A key that has a value keeps its place. -/
theorem keys_set_of_some {table : Table κ α} {key : κ} {previous : α} (value : α)
    (h : table.find? key = some previous) : (table.set key value).keys = table.keys :=
  map_fst_replace_of_lookup h

theorem size_set_of_none {table : Table κ α} {key : κ} (value : α) (h : table.find? key = none) :
    (table.set key value).size = table.size + 1 := by
  unfold set size
  rw [replace_of_lookup_none h, List.length_append]
  rfl

theorem mem_keys_iff {table : Table κ α} {key : κ} :
    key ∈ table.keys ↔ ∃ value, table.find? key = some value := by
  obtain ⟨entries⟩ := table
  change key ∈ entries.map (·.1) ↔ ∃ value, lookup key entries = some value
  induction entries with
  | nil => simp [lookup]
  | cons head rest ih =>
    obtain ⟨k, a⟩ := head
    by_cases hk : k = key
    · simp [lookup, hk]
    · simp [lookup, hk, Ne.symm hk, ih]

theorem mem_entries_of_find? {table : Table κ α} {key : κ} {a : α} (h : table.find? key = some a) :
    (key, a) ∈ table.entries := by
  obtain ⟨entries⟩ := table
  change lookup key entries = some a at h
  change (key, a) ∈ entries
  induction entries with
  | nil => cases h
  | cons head rest ih =>
    obtain ⟨k, b⟩ := head
    rw [lookup] at h
    split at h
    · next hk =>
      obtain rfl := Option.some.inj h
      exact hk ▸ List.mem_cons_self
    · exact List.mem_cons_of_mem _ (ih h)

/-- Without keys entered twice, a key has what is entered under it. -/
theorem find?_of_mem_entries {table : Table κ α} (distinct : table.keys.Nodup) {key : κ} {a : α}
    (h : (key, a) ∈ table.entries) : table.find? key = some a := by
  obtain ⟨entries⟩ := table
  change lookup key entries = some a
  change (entries.map (·.1)).Nodup at distinct
  induction entries with
  | nil => cases h
  | cons head rest ih =>
    obtain ⟨hhead, hrest⟩ := List.nodup_cons.mp distinct
    rcases List.mem_cons.mp h with rfl | hmem
    · exact if_pos rfl
    · have hne : head.1 ≠ key := by
        rintro rfl
        exact hhead (List.mem_map.mpr ⟨_, hmem, rfl⟩)
      exact (if_neg hne).trans (ih hmem hrest)

theorem find?_map {β : Type} (f : α → β) (table : Table κ α) (key : κ) :
    (⟨table.entries.map fun (key, a) => (key, f a)⟩ : Table κ β).find? key =
      (table.find? key).map f := by
  obtain ⟨entries⟩ := table
  change lookup key (entries.map _) = (lookup key entries).map f
  induction entries with
  | nil => rfl
  | cons head rest ih =>
    obtain ⟨k, a⟩ := head
    by_cases hk : k = key
    · simp [lookup, hk]
    · simp [lookup, hk, ih]

/-- What a key has in the one table, it has in the other. -/
def Extends (before after : Table κ α) : Prop :=
  ∀ key value, before.find? key = some value → after.find? key = some value

theorem Extends.refl (table : Table κ α) : table.Extends table := fun _ _ h => h

theorem Extends.trans {first second third : Table κ α} (hfirst : first.Extends second)
    (hsecond : second.Extends third) : first.Extends third :=
  fun key value h => hsecond key value (hfirst key value h)

theorem Extends.add (table : Table κ α) (key : κ) (value : α) :
    table.Extends (table.add key value) := by
  intro other found hfound
  rw [find?_add]
  split
  · next h =>
    subst h
    simp [hfound]
  · exact hfound

theorem Extends.set_of_none {table : Table κ α} {key : κ} (value : α)
    (h : table.find? key = none) : table.Extends (table.set key value) := by
  intro other found hfound
  have hne : other ≠ key := by
    rintro rfl
    rw [h] at hfound
    cases hfound
  rwa [find?_set_of_ne table value hne]

end Table

end LayerGraph
