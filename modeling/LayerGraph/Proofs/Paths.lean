import LayerGraph.Proofs.StaticCycles
import Mathlib.Data.Set.Finite.Basic

/-! A search comes to its end on its own, whatever bound it is given.

Here a search is a run with nothing to bound its depth. It carries the nodes looked at so far and
the path to where it is, puts a node on the path before looking at it, and takes it off again when
that was in vain. Wherever finitely many nodes can be reached there is exactly one such run, and the
bounded search finds the path that it ends with. -/

namespace LayerGraph.Graph

open Relation

variable {α : Type}

/-- Where a search stands: the nodes it has looked at, and the path to the last of them. -/
structure Trail (α : Type) where
  seen : List α
  path : List α

namespace Trail

def push (trail : Trail α) (node : α) : Trail α := ⟨trail.seen, trail.path ++ [node]⟩

def pop (trail : Trail α) : Trail α := ⟨trail.seen, trail.path.dropLast⟩

def look (trail : Trail α) (node : α) : Trail α := ⟨node :: trail.seen, trail.path⟩

@[simp] theorem pop_push (trail : Trail α) (node : α) : (trail.push node).pop = trail := by
  simp [push, pop]

end Trail

section

variable (successors : α → List α) (closes : α → Bool)

/-- Tries one step after the other from the end of the path: where this ends, and whether it has
found anything. A step to a node that closes does, and so does a step to a node not looked at before
if one of the steps from there does. -/
inductive Tries : Trail α → List α → Trail α → Bool → Prop
  | exhausted {trail} : Tries trail [] trail false
  | closes {trail next rest} (closing : closes next = true) :
      Tries trail (next :: rest) (trail.push next) true
  | again {trail next rest after found} (opens : closes next = false) (seen : next ∈ trail.seen)
      (tries : Tries (trail.push next).pop rest after found) :
      Tries trail (next :: rest) after found
  | onward {trail next rest after} (opens : closes next = false) (fresh : next ∉ trail.seen)
      (search : Tries ((trail.push next).look next) (successors next) after true) :
      Tries trail (next :: rest) after true
  | back {trail next rest between after found} (opens : closes next = false)
      (fresh : next ∉ trail.seen)
      (search : Tries ((trail.push next).look next) (successors next) between false)
      (tries : Tries between.pop rest after found) : Tries trail (next :: rest) after found

/-- What comes of a search: the path it ends with, or its first node twice. -/
inductive Finds (start : α) : List α → Prop
  | found {after}
      (search : Tries successors closes ⟨[start], [start]⟩ (successors start) after true) :
      Finds start after.path
  | vain {after}
      (search : Tries successors closes ⟨[start], [start]⟩ (successors start) after false) :
      Finds start [start, start]

end

variable {successors : α → List α} {closes : α → Bool}

/-- There is one way only for a search to go on. -/
theorem Tries.unique {trail after other : Trail α} {items : List α} {found answer : Bool}
    (first : Tries successors closes trail items after found)
    (second : Tries successors closes trail items other answer) :
    after = other ∧ found = answer := by
  induction first generalizing other answer with
  | exhausted =>
    cases second with
    | exhausted => exact ⟨rfl, rfl⟩
  | closes closing =>
    cases second with
    | closes _ => exact ⟨rfl, rfl⟩
    | again opens | onward opens | back opens => cases closing.symm.trans opens
  | again opens seen _ ih =>
    cases second with
    | closes closing => cases closing.symm.trans opens
    | again _ _ tries => exact ih tries
    | onward _ fresh | back _ fresh => exact absurd seen fresh
  | onward opens fresh _ ih =>
    cases second with
    | closes closing => cases closing.symm.trans opens
    | again _ seen => exact absurd seen fresh
    | onward _ _ search => exact ih search
    | back _ _ search => cases (ih search).2
  | back opens fresh _ _ ihSearch ihTries =>
    cases second with
    | closes closing => cases closing.symm.trans opens
    | again _ seen => exact absurd seen fresh
    | onward _ _ search => cases (ihSearch search).2
    | back _ _ search tries =>
      obtain ⟨rfl, -⟩ := ihSearch search
      exact ihTries tries

theorem Finds.unique {start : α} {path other : List α} (first : Finds successors closes start path)
    (second : Finds successors closes start other) : path = other := by
  cases first with
  | found search =>
    cases second with
    | found others => rw [(search.unique others).1]
    | vain others => cases (search.unique others).2
  | vain search =>
    cases second with
    | found others => cases (search.unique others).2
    | vain _ => rfl

theorem Closing.leads {path : List α} (closing : Closing successors closes start path) :
    ∃ last, TransGen (fun node next => next ∈ successors node) start last ∧ closes last = true := by
  obtain ⟨last, hlast, hcloses⟩ := closing.last
  obtain ⟨first, further, rfl⟩ : ∃ first further, path = first :: further :=
    List.exists_cons_of_ne_nil fun h => by simp [h] at hlast
  obtain rfl := Option.some.inj closing.head
  cases further with
  | nil => exact absurd closing.long (by simp)
  | cons next rest =>
    obtain ⟨hedge, hsteps⟩ := List.isChain_cons_cons.mp closing.steps
    rw [List.getLast?_cons_cons,
      List.getLast?_eq_some_getLast (List.cons_ne_nil next rest)] at hlast
    exact ⟨last, .head' hedge (List.relationReflTransGen_of_exists_isChain_cons rest hsteps
      (Option.some.inj hlast)), hcloses⟩

section

variable [DecidableEq α] {nodes : Finset α} {fuel : Nat} {start : α}

/-- How a bounded search from a node goes when it stands for a run: it finds nothing in a node that
has been looked at, and else it tries the steps from there. -/
def Follows (successors : α → List α) (closes : α → Bool)
    (explore : List α → α → List α × Option (List α)) (seen : List α) (node : α) : Prop :=
  if node ∈ seen then explore seen node = (seen, none)
  else ∀ path, Tries successors closes ⟨node :: seen, path⟩ (successors node)
    ⟨(explore seen node).1, path ++ (explore seen node).2.getD []⟩ (explore seen node).2.isSome

theorem firstSome_tries {explore : List α → α → List α × Option (List α)} {seen items : List α}
    (grows : ∀ before next, before ⊆ (explore before next).1)
    (follows : ∀ before, seen ⊆ before → ∀ next ∈ items,
      Follows successors closes explore before next) (path : List α) :
    Tries successors closes ⟨seen, path⟩ items
      ⟨(firstSome (stepTo closes explore) seen items).1,
        path ++ (firstSome (stepTo closes explore) seen items).2.getD []⟩
      (firstSome (stepTo closes explore) seen items).2.isSome := by
  induction items generalizing seen with
  | nil =>
    rw [firstSome, Option.getD_none, List.append_nil]
    exact .exhausted
  | cons next rest ih =>
    have hrest := fun between (hseen : seen ⊆ between) => @ih between
      fun later hlater other hother => follows later (List.Subset.trans hseen hlater) other
        (List.mem_cons_of_mem _ hother)
    have hnext := follows seen (List.Subset.refl _) next List.mem_cons_self
    cases hcloses : closes next with
    | true =>
      have hstep : stepTo closes explore seen next = (seen, some [next]) := if_pos hcloses
      rw [firstSome, hstep]
      exact .closes hcloses
    | false =>
      unfold Follows at hnext
      split at hnext
      · next hmem =>
        have hstep : stepTo closes explore seen next = (seen, none) := by
          simp [stepTo, hcloses, hnext]
        rw [firstSome, hstep]
        -- What is put on the path for nothing comes off it at once.
        refine .again hcloses hmem ?_
        rw [Trail.pop_push]
        exact hrest seen (List.Subset.refl _)
      · next hfresh =>
        have hrun := hnext (path ++ [next])
        have hgrows := grows seen next
        rcases hsearch : explore seen next with ⟨between, answer⟩
        rw [hsearch] at hrun hgrows
        cases answer with
        | some further =>
          have hstep : stepTo closes explore seen next = (between, some (next :: further)) := by
            simp [stepTo, hcloses, hsearch]
          rw [firstSome, hstep]
          rw [List.append_assoc] at hrun
          exact .onward hcloses hfresh hrun
        | none =>
          have hstep : stepTo closes explore seen next = (between, none) := by
            simp [stepTo, hcloses, hsearch]
          rw [firstSome, hstep]
          refine .back hcloses hfresh hrun ?_
          simpa [Trail.pop] using hrest between hgrows

theorem search_follows {seen : List α} {node : α}
    (bounded : ∀ node ∈ nodes, ∀ next ∈ successors node, next ∈ nodes) (known : node ∈ nodes)
    (room : (nodes \ seen.toFinset).card ≤ fuel) :
    Follows successors closes (search successors closes fuel) seen node := by
  induction fuel generalizing seen node with
  | zero =>
    have hnone := Finset.card_eq_zero.mp (Nat.le_zero.mp room)
    have hseen := Finset.sdiff_eq_empty_iff_subset.mp hnone known
    exact (if_pos (List.mem_toFinset.mp hseen)).mpr rfl
  | succ fuel ih =>
    unfold Follows
    split
    · next hseen => exact if_pos (List.contains_iff_mem.mpr hseen)
    · next fresh =>
      have hsearch : search successors closes (fuel + 1) seen node =
          firstSome (stepTo closes (search successors closes fuel)) (node :: seen)
            (successors node) := if_neg fun hmem => fresh (List.contains_iff_mem.mp hmem)
      rw [hsearch]
      refine firstSome_tries (search_grows fuel) fun before hbefore next hnext => ?_
      have hless := card_unseen_lt known fresh hbefore
      exact ih (bounded node known next hnext) (by omega)

/-- With as much fuel as there are nodes, the path that is found is the one that a run ends with. -/
theorem findPath_finds (bounded : ∀ node ∈ nodes, ∀ next ∈ successors node, next ∈ nodes)
    (known : start ∈ nodes) (room : nodes.card ≤ fuel) :
    Finds successors closes start (findPath fuel successors closes start) := by
  have hfollows : Follows successors closes (search successors closes fuel) [] start :=
    search_follows bounded known (by simpa using room)
  have hrun := (if_neg List.not_mem_nil).mp hfollows [start]
  unfold findPath
  cases hfound : (search successors closes fuel [] start).2 with
  | some rest =>
    rw [hfound] at hrun
    exact .found hrun
  | none =>
    rw [hfound] at hrun
    exact .vain hrun

theorem findPath_cases (fuel : Nat) (successors : α → List α) (closes : α → Bool) (start : α) :
    Closing successors closes start (findPath fuel successors closes start) ∨
      findPath fuel successors closes start = [start, start] := by
  rcases hsearch : search successors closes fuel [] start with ⟨after, found⟩
  unfold findPath
  rw [hsearch]
  cases found with
  | some rest => exact .inl (search_some hsearch).1
  | none => exact .inr rfl

end

/-- Where finitely many nodes can be reached, a search comes to its end, in one way only, and a
bound of as many nodes does not cut it short. If an edge or more lead to a node that closes, the
search ends with such a path, which goes through no node that closes on its way and through no node
twice. If not, it ends with its first node twice. -/
theorem searches_find_paths [DecidableEq α] (successors : α → List α) (closes : α → Bool)
    (start : α)
    (finite : {node | ReflTransGen (fun node next => next ∈ successors node) start node}.Finite) :
    ∃ path, Finds successors closes start path ∧
      (∀ other, Finds successors closes start other → other = path) ∧
      (∀ fuel, finite.toFinset.card ≤ fuel → findPath fuel successors closes start = path) ∧
      ((∃ last, TransGen (fun node next => next ∈ successors node) start last ∧
          closes last = true) → Closing successors closes start path) ∧
      ((¬∃ last, TransGen (fun node next => next ∈ successors node) start last ∧
          closes last = true) → path = [start, start]) := by
  have known : start ∈ finite.toFinset := finite.mem_toFinset.mpr .refl
  have bounded : ∀ node ∈ finite.toFinset, ∀ next ∈ successors node, next ∈ finite.toFinset := by
    intro node hnode next hedge
    exact finite.mem_toFinset.mpr (.tail (finite.mem_toFinset.mp hnode) hedge)
  have hfinds {fuel : Nat} (room : finite.toFinset.card ≤ fuel) :
      Finds successors closes start (findPath fuel successors closes start) :=
    findPath_finds bounded known room
  refine ⟨findPath finite.toFinset.card successors closes start, hfinds (Nat.le_refl _), ?_, ?_,
    ?_, ?_⟩
  · exact fun other hother => hother.unique (hfinds (Nat.le_refl _))
  · exact fun fuel room => (hfinds room).unique (hfinds (Nat.le_refl _))
  · intro h
    obtain ⟨last, hpath, hcloses⟩ := h
    exact findPath_closing bounded known (Nat.le_refl _) hpath hcloses
  · intro h
    exact (findPath_cases _ _ _ _).resolve_left fun hclosing => h hclosing.leads

def forked : Nat → List Nat
  | 0 => [1, 2]
  | 1 => [3]
  | 2 => [3, 4]
  | 3 => [1]
  | _ => []

theorem forked_lt (node : Nat) : ∀ next ∈ forked node, next < 5 := by
  unfold forked
  split <;> simp

/-- A search that has to go back before it finds a path. -/
theorem searches_find_paths_forked :
    {node | ReflTransGen (fun node next => next ∈ forked node) 0 node}.Finite ∧
      (∃ last, TransGen (fun node next => next ∈ forked node) 0 last ∧ (last == 4) = true) ∧
      Finds forked (· == 4) 0 [0, 2, 4] ∧ Closing forked (· == 4) 0 [0, 2, 4] := by
  have hsub : {node | ReflTransGen (fun node next => next ∈ forked node) 0 node} ⊆
      ↑(Finset.range 5) := by
    intro node hnode
    rcases ReflTransGen.cases_tail hnode with rfl | ⟨before, -, hedge⟩
    · decide
    · exact Finset.mem_coe.mpr (Finset.mem_range.mpr (forked_lt before node hedge))
  have finite := (Finset.finite_toSet _).subset hsub
  have leads : ∃ last, TransGen (fun node next => next ∈ forked node) 0 last ∧
      (last == 4) = true :=
    ⟨4, .tail (.single (b := 2) (by decide)) (by decide), rfl⟩
  obtain ⟨path, hfinds, -, hfuel, hclosing, -⟩ := searches_find_paths forked (· == 4) 0 finite
  have room : finite.toFinset.card ≤ 5 :=
    (Finset.card_le_card (finite.toFinset_subset.mpr hsub)).trans_eq (Finset.card_range 5)
  have hpath : path = [0, 2, 4] := (hfuel 5 room).symm.trans (by decide)
  subst hpath
  exact ⟨finite, leads, hfinds, hclosing leads⟩

end LayerGraph.Graph

namespace LayerGraph.Scope

/-- In every scope the bound leaves room for all that a search can reach. -/
theorem cyclePath_finds (scope : Scope) (key : Key) (source : Registered) :
    Graph.Finds scope.dependencies
      (fun candidate => (scope.behind? candidate).any (Backing.isFedBy source.place)) key
      (scope.cyclePath key source) := by
  have bounded : ∀ node ∈ insert key scope.known, ∀ next ∈ scope.dependencies node,
      next ∈ insert key scope.known := by
    intro node _ next hnext
    obtain ⟨_, found, -, -, hfound⟩ := mem_dependencies.mp hnext
    exact Finset.mem_insert_of_mem (mem_known_of_producer? hfound)
  exact Graph.findPath_finds bounded (Finset.mem_insert_self _ _)
    ((Finset.card_insert_le _ _).trans (Nat.succ_le_succ scope.card_known_le))

end LayerGraph.Scope
