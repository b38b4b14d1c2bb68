import LayerGraph.Graph.Cyclic
import Mathlib.Data.List.Nodup
import Mathlib.Data.List.Perm.Subperm
import Mathlib.Logic.Relation

/-! The walk over a finite graph finds exactly the nodes that lie on a cycle. -/

namespace LayerGraph.Graph

open Relation

def Edge (successors : Nat → List Nat) (node next : Nat) : Prop := next ∈ successors node

variable {successors : Nat → List Nat} {count : Nat}

namespace Walk

def Found (walk : Walk) (node : Nat) : Prop := ∃ number, walk.number.find? node = some number

/-- What holds of a walk between any two of its steps: the open nodes lie in the order of their
discovery, and the closed ones lead to closed ones only and are marked when they are on a cycle. -/
structure Sound (successors : Nat → List Nat) (count : Nat) (walk : Walk) : Prop where
  keys_nodup : walk.number.keys.Nodup
  keys_lt : ∀ node ∈ walk.number.keys, node < count
  number_lt : ∀ node number, walk.number.find? node = some number → number < walk.number.size
  stack_found : ∀ node ∈ walk.stack, walk.Found node
  stack_sorted : walk.stack.Pairwise fun newer older => walk.numberOf older < walk.numberOf newer
  closed : ∀ node, walk.Found node → node ∉ walk.stack → ∀ next ∈ successors node,
    walk.Found next ∧ next ∉ walk.stack
  marked : ∀ node, node ∈ walk.cyclic ↔
    walk.Found node ∧ node ∉ walk.stack ∧ TransGen (Edge successors) node node

variable {walk : Walk} {node number : Nat}

theorem Found.not_none (found : walk.Found node) : walk.number.find? node ≠ none := by
  obtain ⟨number, h⟩ := found
  rw [h]
  exact Option.some_ne_none number

theorem numberOf_eq (h : walk.number.find? node = some number) : walk.numberOf node = number := by
  rw [numberOf, h]
  rfl

theorem lowOf_lower (walk : Walk) (node other bound : Nat) :
    (walk.lower node bound).lowOf other =
      if other = node then min (walk.lowOf node) bound else walk.lowOf other := by
  unfold lower lowOf
  rw [Table.find?_set]
  split <;> rfl

theorem lowOf_enter (walk : Walk) (node other : Nat) :
    (walk.enter node).lowOf other =
      if other = node then walk.number.size else walk.lowOf other := by
  unfold enter lowOf
  rw [Table.find?_set]
  split <;> rfl

theorem find?_enter (walk : Walk) (node other : Nat) :
    (walk.enter node).number.find? other =
      if other = node then some walk.number.size else walk.number.find? other :=
  Table.find?_set _ _ _ _

theorem keys_enter (hnew : walk.number.find? node = none) :
    (walk.enter node).number.keys = walk.number.keys.concat node := by
  rw [List.concat_eq_append]
  exact Table.keys_set_of_none _ hnew

theorem size_enter (hnew : walk.number.find? node = none) :
    (walk.enter node).number.size = walk.number.size + 1 :=
  Table.size_set_of_none _ hnew

section

variable {after : Walk} {other : Nat}

theorem Found.extend (found : walk.Found other) (numbers : walk.number.Extends after.number) :
    after.Found other := by
  obtain ⟨number, h⟩ := found
  exact ⟨number, numbers other number h⟩

theorem Found.numberOf_extend (found : walk.Found other)
    (numbers : walk.number.Extends after.number) : after.numberOf other = walk.numberOf other := by
  obtain ⟨number, h⟩ := found
  rw [numberOf_eq h, numberOf_eq (numbers other number h)]

theorem closed_enter_iff (hnew : walk.number.find? node = none) :
    (walk.enter node).Found other ∧ other ∉ (walk.enter node).stack ↔
      walk.Found other ∧ other ∉ walk.stack := by
  have hstack : (walk.enter node).stack = node :: walk.stack := rfl
  constructor
  · intro h
    obtain ⟨⟨number, hnumber⟩, hclosed⟩ := h
    rw [hstack, List.mem_cons, not_or] at hclosed
    rw [find?_enter, if_neg hclosed.1] at hnumber
    exact ⟨⟨number, hnumber⟩, hclosed.2⟩
  · intro h
    obtain ⟨hfound, hclosed⟩ := h
    refine ⟨hfound.extend (Table.Extends.set_of_none _ hnew), fun hmem => ?_⟩
    rw [hstack] at hmem
    rcases List.mem_cons.mp hmem with rfl | hmem
    · exact hfound.not_none hnew
    · exact hclosed hmem

end

theorem Sound.size_lt (sound : walk.Sound successors count) (hnode : node < count)
    (hnew : walk.number.find? node = none) : walk.number.size < count := by
  have hnotin : node ∉ walk.number.keys := by
    intro hmem
    exact Found.not_none (Table.mem_keys_iff.mp hmem) hnew
  have hnodup : (node :: walk.number.keys).Nodup := List.nodup_cons.mpr ⟨hnotin, sound.keys_nodup⟩
  have hsub : node :: walk.number.keys ⊆ List.range count := by
    intro other hother
    rcases List.mem_cons.mp hother with rfl | hrest
    · exact List.mem_range.mpr hnode
    · exact List.mem_range.mpr (sound.keys_lt other hrest)
  have hlength := (hnodup.subperm hsub).length_le
  have hkeys : walk.number.keys.length = walk.number.size := List.length_map _
  rw [List.length_cons, hkeys, List.length_range] at hlength
  exact hlength

theorem Sound.lt_of_mem_below {above below : List Nat} (sound : walk.Sound successors count)
    (hstack : walk.stack = above ++ node :: below) {older : Nat} (hmem : older ∈ below) :
    walk.numberOf older < walk.numberOf node := by
  have hsorted := sound.stack_sorted
  rw [hstack, List.pairwise_append] at hsorted
  exact (List.pairwise_cons.mp hsorted.2.1).1 older hmem

theorem Sound.stack_nodup (sound : walk.Sound successors count) : walk.stack.Nodup := by
  refine sound.stack_sorted.imp fun hlt h => ?_
  rw [h] at hlt
  exact Nat.lt_irrefl _ hlt

theorem Sound.enter (sound : walk.Sound successors count) (hnode : node < count)
    (hnew : walk.number.find? node = none) : (walk.enter node).Sound successors count := by
  have hnumbers : walk.number.Extends (walk.enter node).number :=
    Table.Extends.set_of_none _ hnew
  have hown : (walk.enter node).number.find? node = some walk.number.size := by
    rw [find?_enter, if_pos rfl]
  refine ⟨?_, ?_, ?_, ?_, ?_, ?_, ?_⟩
  · rw [keys_enter hnew]
    refine sound.keys_nodup.concat fun hmem => ?_
    exact Found.not_none (Table.mem_keys_iff.mp hmem) hnew
  · intro other hother
    rw [keys_enter hnew, List.concat_eq_append] at hother
    rcases List.mem_append.mp hother with hmem | hmem
    · exact sound.keys_lt other hmem
    · rw [List.mem_singleton.mp hmem]
      exact hnode
  · intro other number hother
    rw [size_enter hnew]
    rw [find?_enter] at hother
    split at hother
    · obtain rfl := Option.some.inj hother
      omega
    · have hlt := sound.number_lt other number hother
      omega
  · intro other hother
    rcases List.mem_cons.mp hother with rfl | hmem
    · exact ⟨_, hown⟩
    · exact (sound.stack_found other hmem).extend hnumbers
  · apply List.pairwise_cons.mpr
    constructor
    · intro older holder
      obtain ⟨number, hnumber⟩ := sound.stack_found older holder
      have hlt := sound.number_lt older number hnumber
      rw [numberOf_eq (hnumbers older number hnumber), numberOf_eq hown]
      exact hlt
    · refine sound.stack_sorted.imp_of_mem fun hnewer holder hlt => ?_
      rw [(sound.stack_found _ hnewer).numberOf_extend hnumbers,
        (sound.stack_found _ holder).numberOf_extend hnumbers]
      exact hlt
  · intro other hfound hclosed next hnext
    obtain ⟨hfound, hclosed⟩ := (closed_enter_iff hnew).mp ⟨hfound, hclosed⟩
    exact (closed_enter_iff hnew).mpr (sound.closed other hfound hclosed next hnext)
  · intro other
    rw [← and_assoc, closed_enter_iff hnew, and_assoc]
    exact sound.marked other

theorem Sound.lower (sound : walk.Sound successors count) (node bound : Nat) :
    (walk.lower node bound).Sound successors count :=
  ⟨sound.keys_nodup, sound.keys_lt, sound.number_lt, sound.stack_found, sound.stack_sorted,
    sound.closed, sound.marked⟩

theorem Sound.closed_of_reaches (sound : walk.Sound successors count) {other : Nat}
    (hreach : ReflTransGen (Edge successors) node other) (hfound : walk.Found node)
    (hclosed : node ∉ walk.stack) : walk.Found other ∧ other ∉ walk.stack := by
  induction hreach with
  | refl => exact ⟨hfound, hclosed⟩
  | tail _ hedge ih => exact sound.closed _ ih.1 ih.2 _ hedge

theorem close_eq {above below : List Nat} (hstack : walk.stack = above ++ node :: below)
    (hnotin : node ∉ above) :
    walk.close successors node =
      { walk with
        stack := below
        cyclic :=
          if !above.isEmpty || (successors node).contains node then above ++ node :: walk.cyclic
          else walk.cyclic } := by
  have hne : ∀ other ∈ above, decide (other ≠ node) = true := by
    intro other hother
    exact decide_eq_true fun h => hnotin (h ▸ hother)
  unfold close
  rw [hstack, List.takeWhile_append_of_pos hne, List.dropWhile_append_of_pos hne]
  simp only [ne_eq, not_true_eq_false, decide_false, Bool.false_eq_true, not_false_eq_true,
    List.takeWhile_cons_of_neg, List.append_nil, List.dropWhile_cons_of_neg, List.tail_cons]
  split <;> rfl

end Walk

/-- How a walk has gone on since a node was about to be entered. -/
structure Onward (successors : Nat → List Nat) (count : Nat) (base : Walk) (node : Nat)
    (walk : Walk) : Prop where
  sound : walk.Sound successors count
  numbers : base.number.Extends walk.number
  size : base.number.size < walk.number.size
  lows : ∀ other, base.Found other → walk.lowOf other = base.lowOf other
  added : ∀ other ∈ walk.stack, other ∈ base.stack ∨ base.number.find? other = none
  fresh : ∀ other number, walk.number.find? other = some number →
    base.number.find? other = none →
      base.number.size ≤ number ∧ ReflTransGen (Edge successors) node other

/-- What is so while the edges out of a node are followed, given the successors dealt with. -/
structure Exploring (successors : Nat → List Nat) (count : Nat) (base : Walk) (node : Nat)
    (done : List Nat) (walk : Walk) : Prop extends Onward successors count base node walk where
  own : walk.number.find? node = some base.number.size
  stack : ∃ above, walk.stack = above ++ node :: base.stack
  back : ∀ other ∈ walk.stack, ReflTransGen (Edge successors) other node
  edges : ∀ other ∈ walk.stack, other ∉ base.stack → ∀ next ∈ successors other,
    (other = node → next ∈ done) →
      walk.Found next ∧ (next ∈ walk.stack → walk.lowOf node ≤ walk.numberOf next)
  lowest : ∃ other ∈ walk.stack, ReflTransGen (Edge successors) node other ∧
    walk.number.find? other = some (walk.lowOf node)
  low_le : walk.lowOf node ≤ base.number.size

/-- What is so once everything behind a node has been walked: either its component is closed, or
the node leads back to one that was open before. -/
structure Explored (successors : Nat → List Nat) (count : Nat) (base : Walk) (node : Nat)
    (walk : Walk) : Prop extends Onward successors count base node walk where
  own : ∃ number, walk.number.find? node = some number ∧ base.number.size ≤ number
  stack : base.stack <:+ walk.stack
  back : ∀ other ∈ walk.stack, other ∉ base.stack →
    ∃ older ∈ base.stack, ReflTransGen (Edge successors) other older
  edges : ∀ other ∈ walk.stack, other ∉ base.stack → ∀ next ∈ successors other,
    walk.Found next ∧ (next ∈ walk.stack → walk.lowOf node ≤ walk.numberOf next)
  lowest : base.number.size ≤ walk.lowOf node ∨
    ∃ other ∈ base.stack, ReflTransGen (Edge successors) node other ∧
      walk.number.find? other = some (walk.lowOf node)

variable {base walk : Walk} {node next : Nat} {done : List Nat}

theorem Exploring.enter (sound : base.Sound successors count)
    (hback : ∀ other ∈ base.stack, ReflTransGen (Edge successors) other node)
    (hnode : node < count) (hnew : base.number.find? node = none) :
    Exploring successors count base node [] (base.enter node) := by
  have hown : (base.enter node).number.find? node = some base.number.size := by
    rw [Walk.find?_enter, if_pos rfl]
  have hlow : (base.enter node).lowOf node = base.number.size := by
    rw [Walk.lowOf_enter, if_pos rfl]
  have hsize : base.number.size < (base.enter node).number.size := by
    rw [Walk.size_enter hnew]
    omega
  refine ⟨⟨sound.enter hnode hnew, Table.Extends.set_of_none _ hnew, hsize, ?_, ?_, ?_⟩, hown,
    ⟨[], rfl⟩, ?_, ?_, ⟨node, List.mem_cons_self, .refl, hlow ▸ hown⟩, Nat.le_of_eq hlow⟩
  · intro other hother
    rw [Walk.lowOf_enter, if_neg]
    intro h
    subst h
    exact hother.not_none hnew
  · intro other hother
    rcases List.mem_cons.mp hother with rfl | hmem
    · exact .inr hnew
    · exact .inl hmem
  · intro other number hother hunfound
    rw [Walk.find?_enter] at hother
    split at hother
    · next heq =>
      obtain rfl := Option.some.inj hother
      exact ⟨Nat.le_refl _, heq ▸ .refl⟩
    · rw [hunfound] at hother
      cases hother
  · intro other hother
    rcases List.mem_cons.mp hother with rfl | hmem
    · exact .refl
    · exact hback other hmem
  · intro other hother hbelow next hnext hdone
    rcases List.mem_cons.mp hother with rfl | hmem
    · exact absurd (hdone rfl) List.not_mem_nil
    · exact absurd hmem hbelow

theorem Onward.lower (onward : Onward successors count base node walk)
    (hnew : base.number.find? node = none) (bound : Nat) :
    Onward successors count base node (walk.lower node bound) := by
  refine ⟨onward.sound.lower node bound, onward.numbers, onward.size, ?_, onward.added,
    onward.fresh⟩
  intro other hother
  have hne : other ≠ node := by
    intro h
    subst h
    exact hother.not_none hnew
  rw [Walk.lowOf_lower, if_neg hne]
  exact onward.lows other hother

theorem Exploring.follow_open (exploring : Exploring successors count base node done walk)
    (hnew : base.number.find? node = none) (hedge : next ∈ successors node)
    (hopen : next ∈ walk.stack) :
    Exploring successors count base node (next :: done)
      (walk.lower node (walk.numberOf next)) := by
  have hlow : (walk.lower node (walk.numberOf next)).lowOf node =
      min (walk.lowOf node) (walk.numberOf next) := by
    rw [Walk.lowOf_lower, if_pos rfl]
  refine ⟨exploring.toOnward.lower hnew _, exploring.own, exploring.stack, exploring.back, ?_, ?_,
    ?_⟩
  · intro other hother hbelow target htarget hdone
    change walk.Found target ∧ (target ∈ walk.stack → _ ≤ walk.numberOf target)
    rw [hlow]
    by_cases hcase : other = node ∧ target = next
    · obtain ⟨rfl, rfl⟩ := hcase
      exact ⟨exploring.sound.stack_found target hopen, fun _ => Nat.min_le_right _ _⟩
    · have hdone : other = node → target ∈ done := fun h =>
        (List.mem_cons.mp (hdone h)).resolve_left fun htarget => hcase ⟨h, htarget⟩
      obtain ⟨hfound, hle⟩ := exploring.edges other hother hbelow target htarget hdone
      exact ⟨hfound, fun h => Nat.le_trans (Nat.min_le_left _ _) (hle h)⟩
  · rw [hlow]
    rcases Nat.le_total (walk.lowOf node) (walk.numberOf next) with hle | hle
    · rw [Nat.min_eq_left hle]
      exact exploring.lowest
    · rw [Nat.min_eq_right hle]
      obtain ⟨number, hnumber⟩ := exploring.sound.stack_found next hopen
      exact ⟨next, hopen, .single hedge, Walk.numberOf_eq hnumber ▸ hnumber⟩
  · rw [hlow]
    exact Nat.le_trans (Nat.min_le_left _ _) exploring.low_le

theorem Exploring.follow_closed (exploring : Exploring successors count base node done walk)
    (hfound : walk.Found next) (hclosed : next ∉ walk.stack) :
    Exploring successors count base node (next :: done) walk := by
  refine { exploring with edges := ?_ }
  intro other hother hbelow target htarget hdone
  by_cases hnext : target = next
  · subst hnext
    exact ⟨hfound, fun h => absurd h hclosed⟩
  · refine exploring.edges other hother hbelow target htarget fun h => ?_
    exact (List.mem_cons.mp (hdone h)).resolve_left hnext

theorem Onward.trans {after : Walk} (onward : Onward successors count base node walk)
    (hedge : next ∈ successors node) (further : Onward successors count walk next after) :
    Onward successors count base node after := by
  refine ⟨further.sound, onward.numbers.trans further.numbers,
    Nat.lt_trans onward.size further.size, ?_, ?_, ?_⟩
  · intro other hother
    rw [further.lows other (hother.extend onward.numbers)]
    exact onward.lows other hother
  · intro other hother
    rcases further.added other hother with hold | hfresh
    · exact onward.added other hold
    · right
      cases hbase : base.number.find? other with
      | none => rfl
      | some number =>
        rw [onward.numbers other number hbase] at hfresh
        cases hfresh
  · intro other number hother hunfound
    cases hwalk : walk.number.find? other with
    | some earlier =>
      rw [further.numbers other earlier hwalk] at hother
      obtain rfl := Option.some.inj hother
      exact onward.fresh other earlier hwalk hunfound
    | none =>
      obtain ⟨hle, hreach⟩ := further.fresh other number hother hwalk
      exact ⟨Nat.le_trans (Nat.le_of_lt onward.size) hle, .head hedge hreach⟩

theorem Exploring.follow_new {after : Walk}
    (exploring : Exploring successors count base node done walk)
    (hnew : base.number.find? node = none) (hedge : next ∈ successors node)
    (explored : Explored successors count walk next after) :
    Exploring successors count base node (next :: done)
      (after.lower node (after.lowOf next)) := by
  have hlow : (after.lower node (after.lowOf next)).lowOf node =
      min (walk.lowOf node) (after.lowOf next) := by
    rw [Walk.lowOf_lower, if_pos rfl, explored.lows node ⟨_, exploring.own⟩]
  have hstack : ∃ above, after.stack = above ++ node :: base.stack := by
    obtain ⟨above, habove⟩ := exploring.stack
    obtain ⟨more, hmore⟩ := explored.stack
    exact ⟨more ++ above, by rw [← hmore, habove, List.append_assoc]⟩
  have honward := exploring.toOnward.trans hedge explored.toOnward
  refine ⟨honward.lower hnew _, explored.numbers _ _ exploring.own, hstack, ?_, ?_, ?_, ?_⟩
  · intro other hother
    by_cases hold : other ∈ walk.stack
    · exact exploring.back other hold
    · obtain ⟨older, holder, hreach⟩ := explored.back other hother hold
      exact hreach.trans (exploring.back older holder)
  · intro other hother hbelow target htarget hdone
    change after.Found target ∧ (target ∈ after.stack → _ ≤ after.numberOf target)
    rw [hlow]
    by_cases hold : other ∈ walk.stack
    · by_cases hcase : other = node ∧ target = next
      · obtain ⟨rfl, rfl⟩ := hcase
        obtain ⟨number, hown, hle⟩ := explored.own
        refine ⟨⟨number, hown⟩, fun _ => ?_⟩
        rw [Walk.numberOf_eq hown]
        have hlowest := exploring.low_le
        have hsize := exploring.size
        omega
      · have hdone : other = node → target ∈ done := fun h =>
          (List.mem_cons.mp (hdone h)).resolve_left fun htarget => hcase ⟨h, htarget⟩
        obtain ⟨hfound, hle⟩ := exploring.edges other hold hbelow target htarget hdone
        refine ⟨hfound.extend explored.numbers, fun h => ?_⟩
        have hopen := (explored.added target h).resolve_right hfound.not_none
        rw [hfound.numberOf_extend explored.numbers]
        exact Nat.le_trans (Nat.min_le_left _ _) (hle hopen)
    · obtain ⟨hfound, hle⟩ := explored.edges other hother hold target htarget
      exact ⟨hfound, fun h => Nat.le_trans (Nat.min_le_right _ _) (hle h)⟩
  · rw [hlow]
    obtain ⟨witness, hmem, hreach, hwitness⟩ := exploring.lowest
    have hkept : ∃ other ∈ after.stack, ReflTransGen (Edge successors) node other ∧
        after.number.find? other = some (walk.lowOf node) :=
      ⟨witness, explored.stack.mem hmem, hreach, explored.numbers _ _ hwitness⟩
    rcases explored.lowest with hle | ⟨older, holder, hreach', hnumber'⟩
    · have hlowest := exploring.low_le
      have hsize := exploring.size
      rw [Nat.min_eq_left (by omega)]
      exact hkept
    · rcases Nat.le_total (walk.lowOf node) (after.lowOf next) with hle | hle
      · rw [Nat.min_eq_left hle]
        exact hkept
      · rw [Nat.min_eq_right hle]
        exact ⟨older, explored.stack.mem holder, .head hedge hreach', hnumber'⟩
  · rw [hlow]
    exact Nat.le_trans (Nat.min_le_left _ _) exploring.low_le

theorem Exploring.leave (exploring : Exploring successors count base node done walk)
    (hdone : ∀ next ∈ successors node, next ∈ done)
    (hlow : walk.lowOf node ≠ walk.numberOf node) :
    Explored successors count base node walk := by
  obtain ⟨witness, hmem, hreach, hnumber⟩ := exploring.lowest
  have hle := exploring.low_le
  rw [Walk.numberOf_eq exploring.own] at hlow
  have hwitness : witness ∈ base.stack := by
    refine (exploring.added witness hmem).resolve_right fun hunfound => ?_
    have hsize := (exploring.fresh witness _ hnumber hunfound).1
    omega
  refine ⟨exploring.toOnward, ⟨_, exploring.own, Nat.le_refl _⟩, ?_, ?_, ?_, ?_⟩
  · obtain ⟨above, habove⟩ := exploring.stack
    exact ⟨above ++ [node], by rw [habove, List.append_assoc]; rfl⟩
  · intro other hother _
    exact ⟨witness, hwitness, (exploring.back other hother).trans hreach⟩
  · intro other hother hbelow next hnext
    refine exploring.edges other hother hbelow next hnext ?_
    intro h
    subst h
    exact hdone next hnext
  · exact .inr ⟨witness, hwitness, hreach, hnumber⟩

section

variable {above : List Nat} {other : Nat}

theorem Exploring.mem_component_iff (exploring : Exploring successors count base node done walk)
    (hstack : walk.stack = above ++ node :: base.stack) (other : Nat) :
    other ∈ above ++ [node] ↔ other ∈ walk.stack ∧ other ∉ base.stack := by
  have hsplit : walk.stack = (above ++ [node]) ++ base.stack := by
    rw [hstack, List.append_assoc]
    rfl
  have hnodup := exploring.sound.stack_nodup
  rw [hsplit, List.nodup_append] at hnodup
  rw [hsplit]
  constructor
  · intro h
    exact ⟨List.mem_append_left _ h, fun hbelow => hnodup.2.2 other h other hbelow rfl⟩
  · intro h
    exact (List.mem_append.mp h.1).resolve_right h.2

theorem Exploring.reaches (exploring : Exploring successors count base node done walk)
    (hopen : other ∈ walk.stack) (hbelow : other ∉ base.stack) :
    ReflTransGen (Edge successors) node other := by
  obtain ⟨number, hnumber⟩ := exploring.sound.stack_found other hopen
  have hunfound := (exploring.added other hopen).resolve_left hbelow
  exact (exploring.fresh other number hnumber hunfound).2

theorem Exploring.cycle_iff (exploring : Exploring successors count base node done walk)
    (hopen : other ∈ walk.stack) (hbelow : other ∉ base.stack) :
    TransGen (Edge successors) other other ↔ TransGen (Edge successors) node node := by
  have hto := exploring.reaches hopen hbelow
  have hfrom := exploring.back other hopen
  constructor
  · exact fun h => .trans_right hto (h.trans_left hfrom)
  · exact fun h => .trans_right hfrom (h.trans_left hto)

theorem Exploring.closed (exploring : Exploring successors count base node done walk)
    (hdone : ∀ next ∈ successors node, next ∈ done)
    (hlow : walk.lowOf node = walk.numberOf node) (hfound : walk.Found other)
    (hbelow : other ∉ base.stack) (hnext : next ∈ successors other) :
    walk.Found next ∧ next ∉ base.stack := by
  obtain ⟨above, hstack⟩ := exploring.stack
  have hsub {older : Nat} (h : older ∈ base.stack) : older ∈ walk.stack := by
    rw [hstack]
    exact List.mem_append_right _ (List.mem_cons_of_mem _ h)
  by_cases hopen : other ∈ walk.stack
  · obtain ⟨hfoundNext, hle⟩ := exploring.edges other hopen hbelow next hnext fun h =>
      hdone next (h ▸ hnext)
    refine ⟨hfoundNext, fun hmem => ?_⟩
    have hlt := exploring.sound.lt_of_mem_below hstack hmem
    have hle := hle (hsub hmem)
    omega
  · obtain ⟨hfoundNext, hclosed⟩ := exploring.sound.closed other hfound hopen next hnext
    exact ⟨hfoundNext, fun h => hclosed (hsub h)⟩

theorem Exploring.onCycle_iff (exploring : Exploring successors count base node done walk)
    (hstack : walk.stack = above ++ node :: base.stack)
    (hdone : ∀ next ∈ successors node, next ∈ done)
    (hlow : walk.lowOf node = walk.numberOf node) :
    (!above.isEmpty || (successors node).contains node) = true ↔
      TransGen (Edge successors) node node := by
  have hcomponent := exploring.mem_component_iff hstack
  obtain ⟨hnode, hnodeBelow⟩ := (hcomponent node).mp (List.mem_append_right above List.mem_cons_self)
  constructor
  · intro h
    rcases Bool.or_eq_true_iff.mp h with hmore | hself
    · obtain ⟨other, hother⟩ := List.exists_mem_of_ne_nil above (by simpa using hmore)
      obtain ⟨hopen, hbelow⟩ := (hcomponent other).mp (List.mem_append_left [node] hother)
      have hne : other ≠ node := by
        intro heq
        have hnodup := exploring.sound.stack_nodup
        rw [hstack, List.nodup_append] at hnodup
        exact hnodup.2.2 other hother node List.mem_cons_self heq
      rcases reflTransGen_iff_eq_or_transGen.mp (exploring.reaches hopen hbelow) with heq | hpath
      · exact absurd heq hne
      · exact hpath.trans_left (exploring.back other hopen)
    · exact .single (List.contains_iff_mem.mp hself)
  · intro hpath
    obtain ⟨next, hedge, hback⟩ := TransGen.head'_iff.mp hpath
    obtain ⟨hfound, hbelow⟩ :=
      exploring.closed hdone hlow (exploring.sound.stack_found node hnode) hnodeBelow hedge
    have hopen : next ∈ walk.stack := by
      by_contra hclosed
      exact (exploring.sound.closed_of_reaches hback hfound hclosed).2 hnode
    rcases List.mem_append.mp ((hcomponent next).mpr ⟨hopen, hbelow⟩) with habove | hself
    · simp [List.isEmpty_eq_false_iff.mpr (List.ne_nil_of_mem habove)]
    · obtain rfl := List.mem_singleton.mp hself
      simpa [Edge] using Or.inr hedge

theorem Exploring.marked (exploring : Exploring successors count base node done walk)
    (hstack : walk.stack = above ++ node :: base.stack)
    (hdone : ∀ next ∈ successors node, next ∈ done)
    (hlow : walk.lowOf node = walk.numberOf node) (other : Nat) :
    other ∈ (if !above.isEmpty || (successors node).contains node then
        above ++ node :: walk.cyclic else walk.cyclic) ↔
      walk.Found other ∧ other ∉ base.stack ∧ TransGen (Edge successors) other other := by
  have hcycle := exploring.onCycle_iff hstack hdone hlow
  have hcomponent := exploring.mem_component_iff hstack other
  have hmem : other ∈ above ++ node :: walk.cyclic ↔
      other ∈ above ++ [node] ∨ other ∈ walk.cyclic := by
    rw [List.append_cons, List.mem_append]
  by_cases hmember : other ∈ above ++ [node]
  · obtain ⟨hopen, hbelow⟩ := hcomponent.mp hmember
    rw [exploring.cycle_iff hopen hbelow, ← hcycle]
    split
    · next hcond =>
      rw [hmem]
      constructor
      · exact fun _ => ⟨exploring.sound.stack_found other hopen, hbelow, hcond⟩
      · exact fun _ => .inl hmember
    · next hcond =>
      constructor
      · exact fun h => absurd hopen ((exploring.sound.marked other).mp h).2.1
      · exact fun h => absurd h.2.2 hcond
  · have hopen : other ∉ base.stack ↔ other ∉ walk.stack := by
      constructor
      · exact fun hbelow hopen => hmember (hcomponent.mpr ⟨hopen, hbelow⟩)
      · intro hclosed hbelow
        rw [hstack] at hclosed
        exact hclosed (List.mem_append_right _ (List.mem_cons_of_mem _ hbelow))
    rw [hopen, ← exploring.sound.marked other]
    split
    · rw [hmem]
      exact or_iff_right hmember
    · exact Iff.rfl

end

theorem Exploring.close (exploring : Exploring successors count base node done walk)
    (hdone : ∀ next ∈ successors node, next ∈ done)
    (hlow : walk.lowOf node = walk.numberOf node) :
    Explored successors count base node (walk.close successors node) := by
  obtain ⟨above, hstack⟩ := exploring.stack
  have sound := exploring.sound
  have hsplit := hstack
  rw [List.append_cons] at hsplit
  have hsub {other : Nat} (h : other ∈ base.stack) : other ∈ walk.stack := by
    rw [hsplit]
    exact List.mem_append_right _ h
  have hnotin : node ∉ above := by
    have hnodup := sound.stack_nodup
    rw [hstack, List.nodup_append] at hnodup
    exact fun h => hnodup.2.2 node h node List.mem_cons_self rfl
  have hsorted := sound.stack_sorted
  rw [hsplit, List.pairwise_append] at hsorted
  rw [Walk.close_eq hstack hnotin]
  refine ⟨⟨⟨sound.keys_nodup, sound.keys_lt, sound.number_lt, ?_, hsorted.2.1, ?_, ?_⟩,
    exploring.numbers, exploring.size, exploring.lows, fun _ h => .inl h, exploring.fresh⟩,
    ⟨_, exploring.own, Nat.le_refl _⟩, List.suffix_rfl, ?_, ?_, .inl ?_⟩
  · exact fun other h => sound.stack_found other (hsub h)
  · exact fun other hfound hbelow next hnext => exploring.closed hdone hlow hfound hbelow hnext
  · exact exploring.marked hstack hdone hlow
  · exact fun other h hbelow => absurd h hbelow
  · exact fun other h hbelow => absurd h hbelow
  · exact Nat.le_of_eq ((hlow.trans (Walk.numberOf_eq exploring.own)).symm)

theorem Exploring.follow {explore : Nat → Walk → Walk}
    (exploring : Exploring successors count base node done walk)
    (hnew : base.number.find? node = none) (hedge : next ∈ successors node)
    (hexplore : walk.number.find? next = none →
      Explored successors count walk next (explore next walk)) :
    Exploring successors count base node (next :: done) (follow explore node walk next) := by
  unfold Graph.follow
  cases hfind : walk.number.find? next with
  | none => exact exploring.follow_new hnew hedge (hexplore hfind)
  | some number =>
    dsimp only
    split
    · next hopen =>
      have hfollow := exploring.follow_open hnew hedge (List.contains_iff_mem.mp hopen)
      rw [Walk.numberOf_eq hfind] at hfollow
      exact hfollow
    · next hclosed =>
      apply exploring.follow_closed ⟨number, hfind⟩
      exact fun h => hclosed (List.contains_iff_mem.mpr h)

/-- Following one edge after the other. -/
theorem Exploring.followAll {explore : Nat → Walk → Walk}
    (hnew : base.number.find? node = none)
    (hexplore : ∀ done walk, Exploring successors count base node done walk →
      ∀ next ∈ successors node, walk.number.find? next = none →
        Explored successors count walk next (explore next walk))
    (rest : List Nat) (hrest : ∀ next ∈ rest, next ∈ successors node) {done : List Nat}
    {walk : Walk} (exploring : Exploring successors count base node done walk) :
    Exploring successors count base node (rest.reverse ++ done)
      (rest.foldl (Graph.follow explore node) walk) := by
  induction rest generalizing done walk with
  | nil => exact exploring
  | cons next rest ih =>
    have hedge := hrest next List.mem_cons_self
    have hstep := exploring.follow hnew hedge (hexplore _ _ exploring next hedge)
    have hlast := ih (fun other hother => hrest other (List.mem_cons_of_mem _ hother)) hstep
    rw [List.reverse_cons, List.append_assoc]
    exact hlast

/-- How much of a graph a walk from a node explores. -/
theorem visit_explored (bounded : ∀ node < count, ∀ next ∈ successors node, next < count)
    (fuel : Nat) {base : Walk} {node : Nat} (sound : base.Sound successors count)
    (hback : ∀ other ∈ base.stack, ReflTransGen (Edge successors) other node)
    (hnode : node < count) (hnew : base.number.find? node = none)
    (enough : count ≤ fuel + base.number.size) :
    Explored successors count base node (visit successors fuel node base) := by
  induction fuel generalizing base node with
  | zero =>
    have hlt := sound.size_lt hnode hnew
    omega
  | succ fuel ih =>
    have hexplore (done : List Nat) (walk : Walk)
        (exploring : Exploring successors count base node done walk) (next : Nat)
        (hedge : next ∈ successors node) (hunfound : walk.number.find? next = none) :
        Explored successors count walk next (visit successors fuel next walk) := by
      have hsize := exploring.size
      apply ih exploring.sound _ (bounded node hnode next hedge) hunfound
      · omega
      · exact fun other hother => (exploring.back other hother).tail hedge
    have hexploring := Exploring.followAll hnew hexplore (successors node) (fun _ h => h)
      (.enter sound hback hnode hnew)
    have hdone : ∀ next ∈ successors node, next ∈ (successors node).reverse ++ [] := by simp
    rw [visit]
    split
    · next hlow => exact hexploring.close hdone hlow
    · next hlow => exact hexploring.leave hdone hlow

structure Settled (successors : Nat → List Nat) (count : Nat) (walk : Walk) : Prop where
  sound : walk.Sound successors count
  stack : walk.stack = []

theorem Settled.empty : Settled successors count {} := by
  refine ⟨⟨List.nodup_nil, by simp [Table.keys], by simp, by simp, .nil, ?_, ?_⟩, rfl⟩
  · intro node hfound
    obtain ⟨number, h⟩ := hfound
    simp at h
  · simp [Walk.Found]

theorem Settled.visitNew (settled : Settled successors count walk)
    (bounded : ∀ node < count, ∀ next ∈ successors node, next < count) (hnode : node < count) :
    Settled successors count (visitNew successors count walk node) ∧
      walk.number.Extends (visitNew successors count walk node).number ∧
      (visitNew successors count walk node).Found node := by
  have hopen : ∀ other, other ∉ walk.stack := by
    intro other
    rw [settled.stack]
    exact List.not_mem_nil
  unfold Graph.visitNew
  split
  · next hfound => exact ⟨settled, .refl _, Option.isSome_iff_exists.mp hfound⟩
  · next hunfound =>
    have hnew : walk.number.find? node = none := by simpa [Table.contains] using hunfound
    have hexplored := visit_explored bounded count settled.sound
      (fun other h => absurd h (hopen other)) hnode hnew (Nat.le_add_right _ _)
    obtain ⟨number, hown, -⟩ := hexplored.own
    refine ⟨⟨hexplored.sound, ?_⟩, hexplored.numbers, number, hown⟩
    apply List.eq_nil_iff_forall_not_mem.mpr
    intro other hother
    obtain ⟨older, holder, -⟩ := hexplored.back other hother (hopen other)
    exact hopen older holder

theorem Settled.foldl (bounded : ∀ node < count, ∀ next ∈ successors node, next < count)
    (nodes : List Nat) (hnodes : ∀ node ∈ nodes, node < count) {walk : Walk}
    (settled : Settled successors count walk) :
    Settled successors count (nodes.foldl (Graph.visitNew successors count) walk) ∧
      walk.number.Extends (nodes.foldl (Graph.visitNew successors count) walk).number ∧
      ∀ node ∈ nodes, (nodes.foldl (Graph.visitNew successors count) walk).Found node := by
  induction nodes generalizing walk with
  | nil => exact ⟨settled, .refl _, fun node h => absurd h List.not_mem_nil⟩
  | cons node rest ih =>
    obtain ⟨hstep, hextends, hfound⟩ := settled.visitNew bounded (hnodes node List.mem_cons_self)
    obtain ⟨hlast, hlastExtends, hlastFound⟩ :=
      ih (fun other h => hnodes other (List.mem_cons_of_mem _ h)) hstep
    refine ⟨hlast, hextends.trans hlastExtends, fun other hother => ?_⟩
    rcases List.mem_cons.mp hother with rfl | hmem
    · exact hfound.extend hlastExtends
    · exact hlastFound other hmem

/-- The whole walk finds every node and leaves none open. -/
theorem walkAll_sound (bounded : ∀ node < count, ∀ next ∈ successors node, next < count) :
    (walkAll count successors).Sound successors count ∧ (walkAll count successors).stack = [] ∧
      ∀ node < count, (walkAll count successors).Found node := by
  obtain ⟨hsettled, -, hfound⟩ :=
    Settled.foldl bounded (List.range count) (fun _ => List.mem_range.mp) .empty
  exact ⟨hsettled.sound, hsettled.stack, fun node hnode => hfound node (List.mem_range.mpr hnode)⟩

/-- A node is flagged exactly when a path of at least one edge leads from it to itself. -/
theorem cyclicNodes_getElem? (bounded : ∀ node < count, ∀ next ∈ successors node, next < count)
    (node : Nat) :
    (cyclicNodes count successors)[node]? = some true ↔
      node < count ∧ TransGen (Edge successors) node node := by
  obtain ⟨hsound, hstack, hfound⟩ := walkAll_sound bounded
  have hmarked := hsound.marked node
  unfold cyclicNodes
  dsimp only
  rw [List.getElem?_map]
  by_cases hnode : node < count
  · rw [List.getElem?_range hnode]
    simp only [Option.map_some, Option.some.injEq, List.contains_iff_mem, hmarked, hstack]
    simp [hnode, hfound node hnode]
  · simp [hnode]

end LayerGraph.Graph
