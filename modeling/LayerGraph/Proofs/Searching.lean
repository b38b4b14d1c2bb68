import LayerGraph.Graph.Path
import Mathlib.Data.Finset.Card
import Mathlib.Data.List.Chain
import Mathlib.Logic.Relation

/-! The search for a path to a node that closes finds one exactly if there is one.

A search that comes back without a path leaves behind nodes that lead to one another only, and none
of them steps to a node that closes. Since nodes seen once are not searched again, no path goes
through a node twice. -/

namespace LayerGraph.Graph

open Relation

variable {α : Type} {successors : α → List α} {closes : α → Bool}

/-- A path from a node along the edges, up to the first node that closes and through no node twice
before that. -/
structure Closing (successors : α → List α) (closes : α → Bool) (start : α) (path : List α) :
    Prop where
  long : 2 ≤ path.length
  head : path.head? = some start
  steps : path.IsChain fun node next => next ∈ successors node
  last : ∃ last, path.getLast? = some last ∧ closes last = true
  inner : ∀ node ∈ path.tail.dropLast, closes node = false
  distinct : path.dropLast.Nodup

namespace Closing

variable {node next : α} {rest : List α}

theorem single (edge : next ∈ successors node) (closing : closes next = true) :
    Closing successors closes node [node, next] where
  long := Nat.le_refl 2
  head := rfl
  steps := .cons_cons edge (.singleton next)
  last := ⟨next, rfl, closing⟩
  inner := by simp
  distinct := List.nodup_singleton node

theorem cons (closing : Closing successors closes next (next :: rest))
    (edge : next ∈ successors node) (opens : closes next = false)
    (fresh : node ∉ (next :: rest).dropLast) :
    Closing successors closes node (node :: next :: rest) where
  long := Nat.le_succ_of_le closing.long
  head := rfl
  steps := .cons_cons edge closing.steps
  last := by
    obtain ⟨last, hlast, hcloses⟩ := closing.last
    exact ⟨last, hlast, hcloses⟩
  inner := by
    intro other hother
    have hrest : rest ≠ [] := by
      rintro rfl
      have hlong := closing.long
      simp at hlong
    rw [List.tail_cons, List.dropLast_cons_of_ne_nil hrest] at hother
    rcases List.mem_cons.mp hother with rfl | hmem
    · exact opens
    · exact closing.inner other hmem
  distinct := List.nodup_cons.mpr ⟨fresh, closing.distinct⟩

end Closing

/-- Between these two states of a search everything new has been looked at in vain: it steps to
nothing but what has been seen, and to nothing that closes. -/
structure Barren (successors : α → List α) (closes : α → Bool) (seen after : List α) : Prop where
  grows : seen ⊆ after
  vain : ∀ node ∈ after, node ∉ seen → ∀ next ∈ successors node, next ∈ after ∧ closes next = false

namespace Barren

variable {seen between after : List α}

theorem refl (seen : List α) : Barren successors closes seen seen :=
  ⟨fun _ h => h, fun _ h hnew => absurd h hnew⟩

theorem trans (first : Barren successors closes seen between)
    (second : Barren successors closes between after) : Barren successors closes seen after := by
  refine ⟨fun node h => second.grows (first.grows h), fun node hafter hnew next hnext => ?_⟩
  by_cases hbetween : node ∈ between
  · obtain ⟨hseen, hopens⟩ := first.vain node hbetween hnew next hnext
    exact ⟨second.grows hseen, hopens⟩
  · exact second.vain node hafter hbetween next hnext

theorem close {node : α} (barren : Barren successors closes (node :: seen) after)
    (steps : ∀ next ∈ successors node, next ∈ after ∧ closes next = false) :
    node ∈ after ∧ Barren successors closes seen after := by
  refine ⟨barren.grows List.mem_cons_self, fun other h => barren.grows (List.mem_cons_of_mem _ h),
    fun other hafter hnew => ?_⟩
  by_cases hnode : other = node
  · exact hnode ▸ steps
  · exact barren.vain other hafter (by simp [hnode, hnew])

/-- After a search in vain that began with nothing seen, no path leads from what has been seen to
a node that closes. -/
theorem opens {start last : α} (barren : Barren successors closes [] after) (hstart : start ∈ after)
    (path : TransGen (fun node next => next ∈ successors node) start last) :
    last ∈ after ∧ closes last = false := by
  induction path with
  | single edge => exact barren.vain start hstart List.not_mem_nil _ edge
  | tail _ edge ih => exact barren.vain _ ih.1 List.not_mem_nil _ edge

end Barren

section

variable {explore : List α → α → List α × Option (List α)} {seen after : List α} {next : α}

theorem stepTo_some {found : List α} (h : stepTo closes explore seen next = (after, some found)) :
    closes next = true ∧ found = [next] ∨
      closes next = false ∧ ∃ rest, explore seen next = (after, some rest) ∧
        found = next :: rest := by
  unfold stepTo at h
  split at h
  · next closing => exact .inl ⟨closing, (Option.some.inj (Prod.mk.inj h).2).symm⟩
  · next opens =>
    refine .inr ⟨Bool.eq_false_iff.mpr opens, ?_⟩
    split at h
    · next rest hrest =>
      obtain ⟨rfl, hfound⟩ := Prod.mk.inj h
      exact ⟨rest, hrest, (Option.some.inj hfound).symm⟩
    · cases (Prod.mk.inj h).2

theorem stepTo_none (h : stepTo closes explore seen next = (after, none)) :
    closes next = false ∧ explore seen next = (after, none) := by
  unfold stepTo at h
  split at h
  · cases (Prod.mk.inj h).2
  · next opens =>
    refine ⟨Bool.eq_false_iff.mpr opens, ?_⟩
    split at h
    · cases (Prod.mk.inj h).2
    · next hnone => exact hnone.trans h

section

variable {σ β γ : Type} {step : σ → β → σ × Option γ} {holds : σ → Prop} {state : σ}
  {items : List β}

theorem firstSome_keeps (holds : σ → Prop)
    (keeps : ∀ before item, holds before → holds (step before item).1)
    (hstate : holds state) : holds (firstSome step state items).1 := by
  induction items generalizing state with
  | nil => exact hstate
  | cons item rest ih =>
    have hkeeps := keeps state item hstate
    rw [firstSome]
    split
    · next between found hstep =>
      rw [hstep] at hkeeps
      exact hkeeps
    · next between hstep =>
      rw [hstep] at hkeeps
      exact ih hkeeps

theorem firstSome_some (holds : σ → Prop) {after : σ} {found : γ}
    (keeps : ∀ before item, holds before → holds (step before item).1) (hstate : holds state)
    (h : firstSome step state items = (after, some found)) :
    ∃ before, ∃ item ∈ items, holds before ∧ step before item = (after, some found) := by
  induction items generalizing state with
  | nil => cases h
  | cons item rest ih =>
    have hkeeps := keeps state item hstate
    rw [firstSome] at h
    split at h
    · next between other hstep =>
      exact ⟨state, item, List.mem_cons_self, hstate, hstep.trans h⟩
    · next between hstep =>
      rw [hstep] at hkeeps
      obtain ⟨before, other, hother, hfound⟩ := ih hkeeps h
      exact ⟨before, other, List.mem_cons_of_mem _ hother, hfound⟩

end

theorem stepTo_grows (h : seen ⊆ (explore seen next).1) :
    seen ⊆ (stepTo closes explore seen next).1 := by
  unfold stepTo
  split
  · exact fun _ h => h
  · split
    · next hrest =>
      rw [hrest] at h
      exact h
    · next hnone =>
      rw [hnone] at h
      exact h

theorem firstSome_none {state : List α} {items : List α}
    (h : firstSome (stepTo closes explore) state items = (after, none))
    (hexplore : ∀ between, state ⊆ between → ∀ next ∈ items, ∀ after,
      explore between next = (after, none) →
        next ∈ after ∧ Barren successors closes between after) :
    Barren successors closes state after ∧
      ∀ next ∈ items, next ∈ after ∧ closes next = false := by
  induction items generalizing state with
  | nil =>
    obtain ⟨rfl, -⟩ := Prod.mk.inj h
    exact ⟨.refl _, by simp⟩
  | cons item rest ih =>
    rw [firstSome] at h
    split at h
    · cases (Prod.mk.inj h).2
    · next between hstep =>
      obtain ⟨hopens, hvain⟩ := stepTo_none hstep
      obtain ⟨hseen, hfirst⟩ := hexplore state (fun _ h => h) item List.mem_cons_self between hvain
      obtain ⟨hsecond, hrest⟩ := ih h fun later hlater other hother => hexplore later
        (fun _ h => hlater (hfirst.grows h)) other (List.mem_cons_of_mem _ hother)
      refine ⟨hfirst.trans hsecond, fun other hother => ?_⟩
      rcases List.mem_cons.mp hother with rfl | hmem
      · exact ⟨hsecond.grows hseen, hopens⟩
      · exact hrest other hmem

end

section

variable [DecidableEq α] {fuel : Nat} {seen after : List α} {node start : α}

theorem search_grows (fuel : Nat) (seen : List α) (node : α) :
    seen ⊆ (search successors closes fuel seen node).1 := by
  induction fuel generalizing seen node with
  | zero => exact fun _ h => h
  | succ fuel ih =>
    rw [search]
    split
    · exact fun _ h => h
    · refine firstSome_keeps (fun state => seen ⊆ state) (fun before next hbefore => ?_)
        fun _ h => List.mem_cons_of_mem _ h
      exact fun other h => stepTo_grows (ih _ _) (hbefore h)

theorem search_some {rest : List α}
    (h : search successors closes fuel seen node = (after, some rest)) :
    Closing successors closes node (node :: rest) ∧
      ∀ other ∈ (node :: rest).dropLast, other ∉ seen := by
  induction fuel generalizing seen node after rest with
  | zero => cases (Prod.mk.inj h).2
  | succ fuel ih =>
    rw [search] at h
    split at h
    · cases (Prod.mk.inj h).2
    · next fresh =>
      have fresh : node ∉ seen := fun hmem => fresh (List.contains_iff_mem.mpr hmem)
      obtain ⟨before, next, hedge, hseen, hstep⟩ :=
        firstSome_some (fun state => node :: seen ⊆ state)
          (fun before item hbefore other hother =>
            stepTo_grows (search_grows fuel before item) (hbefore hother))
          (fun _ h => h) h
      rcases stepTo_some hstep with ⟨hcloses, rfl⟩ | ⟨hopens, further, hfurther, rfl⟩
      · exact ⟨.single hedge hcloses, by simpa using fresh⟩
      · obtain ⟨hclosing, hunseen⟩ := ih hfurther
        have hnode : node ∉ (next :: further).dropLast :=
          fun hmem => hunseen node hmem (hseen List.mem_cons_self)
        refine ⟨hclosing.cons hedge hopens hnode, fun other hother => ?_⟩
        rcases List.mem_cons.mp hother with rfl | hmem
        · exact fresh
        · exact fun hold => hunseen other hmem (hseen (List.mem_cons_of_mem _ hold))

theorem card_unseen_lt {nodes : Finset α} {between : List α} (known : node ∈ nodes)
    (fresh : node ∉ seen) (later : node :: seen ⊆ between) :
    (nodes \ between.toFinset).card < (nodes \ seen.toFinset).card := by
  refine Finset.card_lt_card (Finset.ssubset_iff_of_subset ?_ |>.mpr ⟨node, ?_, ?_⟩)
  · intro other hother
    simp only [Finset.mem_sdiff, List.mem_toFinset] at hother ⊢
    exact ⟨hother.1, fun hold => hother.2 (later (List.mem_cons_of_mem _ hold))⟩
  · simp [known, fresh]
  · simp [later List.mem_cons_self]

/-- With as much fuel as there are nodes not seen yet, a search in vain leaves nothing out. -/
theorem search_none {nodes : Finset α}
    (bounded : ∀ node ∈ nodes, ∀ next ∈ successors node, next ∈ nodes) (known : node ∈ nodes)
    (room : (nodes \ seen.toFinset).card ≤ fuel)
    (h : search successors closes fuel seen node = (after, none)) :
    node ∈ after ∧ Barren successors closes seen after := by
  induction fuel generalizing seen node after with
  | zero =>
    obtain ⟨rfl, -⟩ := Prod.mk.inj h
    have hnone := Finset.card_eq_zero.mp (Nat.le_zero.mp room)
    have hseen := Finset.sdiff_eq_empty_iff_subset.mp hnone known
    exact ⟨List.mem_toFinset.mp hseen, .refl _⟩
  | succ fuel ih =>
    rw [search] at h
    split at h
    · next hseen =>
      obtain ⟨rfl, -⟩ := Prod.mk.inj h
      exact ⟨List.contains_iff_mem.mp hseen, .refl _⟩
    · next fresh =>
      have fresh : node ∉ seen := fun hmem => fresh (List.contains_iff_mem.mpr hmem)
      obtain ⟨hbarren, hsteps⟩ := firstSome_none h fun between hbetween next hnext after hvain => by
        refine ih (bounded node known next hnext) ?_ hvain
        have hless := card_unseen_lt known fresh hbetween
        omega
      exact hbarren.close hsteps

/-- A path is found if there is one, given as much fuel as there are nodes. -/
theorem findPath_closing {nodes : Finset α}
    (bounded : ∀ node ∈ nodes, ∀ next ∈ successors node, next ∈ nodes) (known : start ∈ nodes)
    (room : nodes.card ≤ fuel) {last : α}
    (path : TransGen (fun node next => next ∈ successors node) start last)
    (closing : closes last = true) :
    Closing successors closes start (findPath fuel successors closes start) := by
  rcases hsearch : search successors closes fuel [] start with ⟨after, found⟩
  unfold findPath
  rw [hsearch]
  cases found with
  | some rest => exact (search_some hsearch).1
  | none =>
    obtain ⟨hstart, hbarren⟩ := search_none bounded known (by simpa using room) hsearch
    obtain ⟨-, hopens⟩ := hbarren.opens hstart path
    cases closing.symm.trans hopens

end

end LayerGraph.Graph
