import LayerGraph.Proofs.Components

/-! The walk over a graph, with a place for every node in each of its registers.

In its tables the walk can look up whatever it likes, and it says nothing when its fuel runs out.
Here every node has a place in each of several rows. To read or write anywhere else fails, and so
does to go deeper than allowed. With as much depth as there are nodes nothing fails, and the rows
say what the tables say. -/

namespace LayerGraph.Graph

open Relation

def write? {β : Type} (row : List β) (place : Nat) (value : β) : Option (List β) :=
  if place < row.length then some (row.set place value) else none

/-- Takes nodes off the stack up to the given one, all of which are open no longer. Yields these
nodes and the rest. -/
def popTo? (node : Nat) : List Nat → List Bool → Option (List Nat × List Nat × List Bool)
  | [], onStack => some ([], [], onStack)
  | member :: rest, onStack => do
    let onStack ← write? onStack member false
    if member = node then return ([member], rest, onStack)
    let (component, stack, onStack) ← popTo? node rest onStack
    return (member :: component, stack, onStack)

def markAll? : List Nat → List Bool → Option (List Bool)
  | [], cyclic => some cyclic
  | member :: rest, cyclic => do markAll? rest (← write? cyclic member true)

def markCycle? (targets : List Nat) (node : Nat) (component : List Nat) (cyclic : List Bool) :
    Option (List Bool) :=
  if 1 < component.length || targets.contains node then markAll? component cyclic else some cyclic

structure Registers where
  /-- The number of each node that has been discovered. -/
  index : List (Option Nat)
  /-- The least number found among the open nodes that a node leads to. -/
  low : List Nat
  /-- Whether a node is open. -/
  onStack : List Bool
  /-- The open nodes, newest first. -/
  stack : List Nat
  /-- The number of the next node. -/
  next : Nat
  /-- Whether a node has been found on a cycle. -/
  cyclic : List Bool
  /-- The nodes that have been visited, in order. -/
  visited : List Nat

namespace Registers

def blank (count : Nat) : Registers where
  index := List.replicate count none
  low := List.replicate count 0
  onStack := List.replicate count false
  stack := []
  next := 0
  cyclic := List.replicate count false
  visited := []

def enter? (registers : Registers) (node : Nat) : Option Registers := do
  let index ← write? registers.index node (some registers.next)
  let low ← write? registers.low node registers.next
  let onStack ← write? registers.onStack node true
  return { registers with
    index
    low
    onStack
    stack := node :: registers.stack
    next := registers.next + 1
    visited := registers.visited ++ [node] }

def lower? (registers : Registers) (node bound : Nat) : Option Registers := do
  let own ← registers.low[node]?
  let low ← write? registers.low node (min own bound)
  return { registers with low }

def close? (registers : Registers) (targets : List Nat) (node : Nat) : Option Registers := do
  let (component, stack, onStack) ← popTo? node registers.stack registers.onStack
  let cyclic ← markCycle? targets node component registers.cyclic
  return { registers with onStack, stack, cyclic }

def leave? (registers : Registers) (targets : List Nat) (node : Nat) : Option Registers := do
  let low ← registers.low[node]?
  let index ← registers.index[node]?
  if some low = index then registers.close? targets node else return registers

end Registers

def follow? (visit? : Nat → Registers → Option Registers) (node : Nat) (registers : Registers)
    (next : Nat) : Option Registers := do
  match ← registers.index[next]? with
  | none =>
    let registers ← visit? next registers
    registers.lower? node (← registers.low[next]?)
  | some number => if ← registers.onStack[next]? then registers.lower? node number else registers

def visit? (adjacency : List (List Nat)) : Nat → Nat → Registers → Option Registers
  | 0, _, _ => none
  | depth + 1, node, registers => do
    let registers ← registers.enter? node
    let targets ← adjacency[node]?
    let registers ← targets.foldlM (follow? (visit? adjacency depth) node) registers
    registers.leave? targets node

def visitNew? (adjacency : List (List Nat)) (depth : Nat) (registers : Registers) (node : Nat) :
    Option Registers := do
  match ← registers.index[node]? with
  | none => visit? adjacency depth node registers
  | some _ => registers

def walkAll? (depth count : Nat) (successors : Nat → List Nat) : Option Registers :=
  (List.range count).foldlM (visitNew? ((List.range count).map successors) depth)
    (Registers.blank count)

def row {β : Type} (count : Nat) (entry : Nat → β) : List β := (List.range count).map entry

section

variable {β : Type} {count place : Nat} {entry : Nat → β}

theorem getElem?_row (hplace : place < count) : (row count entry)[place]? = some (entry place) := by
  rw [row, List.getElem?_map, List.getElem?_range hplace, Option.map_some]

theorem write?_row (hplace : place < count) {value : β} {after : Nat → β}
    (hafter : ∀ other, after other = if other = place then value else entry other) :
    write? (row count entry) place value = some (row count after) := by
  have hlength : (row count entry).length = count := by simp [row]
  rw [write?, if_pos (hlength.symm ▸ hplace)]
  refine congrArg some (List.ext_getElem? fun other => ?_)
  rw [List.getElem?_set, hlength]
  by_cases hother : other < count
  · rw [getElem?_row hother, getElem?_row hother, hafter]
    by_cases hsame : place = other
    · simp [hsame, hother]
    · simp [hsame, Ne.symm hsame]
  · have houtside {entry : Nat → β} : (row count entry)[other]? = none := by
      simpa [row] using Nat.le_of_not_lt hother
    rw [houtside, houtside]
    split <;> simp_all

end

section

variable {count node : Nat} {entry : Nat → Bool}

theorem markAll?_row {members : List Nat} (hmembers : ∀ member ∈ members, member < count) :
    markAll? members (row count entry) =
      some (row count fun other => members.contains other || entry other) := by
  induction members generalizing entry with
  | nil => simp [markAll?]
  | cons member rest ih =>
    have hwrite : write? (row count entry) member true =
        some (row count fun other => other == member || entry other) := by
      refine write?_row (hmembers member List.mem_cons_self) fun other => ?_
      by_cases h : other = member <;> simp [h]
    rw [markAll?, hwrite, Option.bind_eq_bind, Option.bind_some,
      ih fun other hother => hmembers other (List.mem_cons_of_mem _ hother)]
    simp only [List.contains_cons, Bool.or_assoc, Bool.or_left_comm]

theorem popTo?_row {above below : List Nat} (hnode : node < count) (hnotin : node ∉ above)
    (habove : ∀ member ∈ above, member < count) :
    popTo? node (above ++ node :: below) (row count entry) =
      some (above ++ [node], below,
        row count fun other => entry other && !(above ++ [node]).contains other) := by
  induction above generalizing entry with
  | nil =>
    have hwrite : write? (row count entry) node false =
        some (row count fun other => entry other && !([] ++ [node]).contains other) := by
      refine write?_row hnode fun other => ?_
      by_cases h : other = node <;> simp [h]
    rw [List.nil_append, popTo?, hwrite, Option.bind_eq_bind, Option.bind_some, if_pos rfl]
    rfl
  | cons member rest ih =>
    obtain ⟨hne, hrest⟩ := not_or.mp (mt List.mem_cons.mpr hnotin)
    have hwrite : write? (row count entry) member false =
        some (row count fun other => entry other && !decide (other = member)) := by
      refine write?_row (habove member List.mem_cons_self) fun other => ?_
      by_cases h : other = member <;> simp [h]
    rw [List.cons_append, popTo?, hwrite, Option.bind_eq_bind, Option.bind_some,
      if_neg (Ne.symm hne),
      ih hrest fun other hother => habove other (List.mem_cons_of_mem _ hother)]
    simp [Bool.and_assoc]

end

namespace Walk

def registers (walk : Walk) (count : Nat) : Registers where
  index := row count walk.number.find?
  low := row count walk.lowOf
  onStack := row count walk.stack.contains
  stack := walk.stack
  next := walk.number.size
  cyclic := row count walk.cyclic.contains
  visited := walk.number.keys

variable {successors : Nat → List Nat} {count node : Nat} {walk : Walk}

theorem registers_empty (count : Nat) : ({} : Walk).registers count = Registers.blank count := by
  have hrow {β : Type} (value : β) : row count (fun _ => value) = List.replicate count value := by
    simp [row]
  unfold registers Registers.blank
  rw [← hrow, ← hrow, ← hrow]
  rfl

theorem registers_enter (hnode : node < count) (hnew : walk.number.find? node = none) :
    (walk.registers count).enter? node = some ((walk.enter node).registers count) := by
  have hindex : write? (walk.registers count).index node (some (walk.registers count).next) =
      some (row count (walk.enter node).number.find?) :=
    write?_row hnode (find?_enter walk node)
  have hlow : write? (walk.registers count).low node (walk.registers count).next =
      some (row count (walk.enter node).lowOf) :=
    write?_row hnode (lowOf_enter walk node)
  have hopen : write? (walk.registers count).onStack node true =
      some (row count (walk.enter node).stack.contains) := by
    refine write?_row hnode fun other => ?_
    change (node :: walk.stack).contains other = _
    by_cases h : other = node <;> simp [h]
  have hkeys : (walk.enter node).number.keys = walk.number.keys ++ [node] :=
    Table.keys_set_of_none _ hnew
  rw [Registers.enter?, hindex, Option.bind_eq_bind, Option.bind_some, hlow, Option.bind_eq_bind,
    Option.bind_some, hopen, Option.bind_eq_bind, Option.bind_some, registers, registers, hkeys,
    size_enter hnew]
  rfl

theorem registers_lower (hnode : node < count) (bound : Nat) :
    (walk.registers count).lower? node bound = some ((walk.lower node bound).registers count) := by
  have hown : (walk.registers count).low[node]? = some (walk.lowOf node) := getElem?_row hnode
  have hlow : write? (walk.registers count).low node (min (walk.lowOf node) bound) =
      some (row count (walk.lower node bound).lowOf) :=
    write?_row hnode (lowOf_lower walk node · bound)
  rw [Registers.lower?, hown, Option.bind_eq_bind, Option.bind_some, hlow]
  rfl

theorem registers_close {above below : List Nat} (sound : walk.Sound successors count)
    (hstack : walk.stack = above ++ node :: below) :
    (walk.registers count).close? (successors node) node =
      some ((walk.close successors node).registers count) := by
  have hcount : ∀ member ∈ walk.stack, member < count := fun member hmember =>
    sound.keys_lt member (Table.mem_keys_iff.mpr (sound.stack_found member hmember))
  have hnodup := sound.stack_nodup
  rw [hstack] at hcount hnodup
  have hnotin : node ∉ above := fun h =>
    (List.nodup_append.mp hnodup).2.2 node h node List.mem_cons_self rfl
  have habove : ∀ member ∈ above, member < count := fun member h =>
    hcount member (List.mem_append_left _ h)
  have hnode : node < count := hcount node (List.mem_append_right _ List.mem_cons_self)
  have hopen : (fun other => walk.stack.contains other && !(above ++ [node]).contains other) =
      below.contains := by
    funext other
    rw [List.append_cons] at hnodup hstack
    rw [hstack]
    -- No node is on the stack twice, so none of the component is still below.
    by_cases h : other ∈ above ++ [node]
    · have hbelow : other ∉ below := fun hmem =>
        (List.nodup_append.mp hnodup).2.2 other h other hmem rfl
      simp [h, hbelow]
    · have hcontains : (above ++ [node]).contains other = false := by simpa using h
      rw [List.contains_append, hcontains, Bool.false_or, Bool.not_false, Bool.and_true]
  have hpop : popTo? node (walk.registers count).stack (walk.registers count).onStack =
      some (above ++ [node], below, row count below.contains) := by
    change popTo? node walk.stack (row count walk.stack.contains) = _
    rw [← hopen, hstack]
    exact popTo?_row hnode hnotin habove
  have hmark : markCycle? (successors node) node (above ++ [node]) (walk.registers count).cyclic =
      some (row count (walk.close successors node).cyclic.contains) := by
    have hmore : decide (1 < (above ++ [node]).length) = !above.isEmpty := by
      cases above <;> simp
    have hmembers : ∀ member ∈ above ++ [node], member < count := by
      intro member hmember
      rcases List.mem_append.mp hmember with h | h
      · exact habove member h
      · exact List.mem_singleton.mp h ▸ hnode
    rw [markCycle?, hmore, close_eq hstack hnotin]
    split
    · refine (markAll?_row hmembers).trans (congrArg (some <| row count ·) (funext fun other => ?_))
      simp [Bool.or_assoc]
    · rfl
  rw [Registers.close?, hpop, Option.bind_eq_bind, Option.bind_some]
  dsimp only
  rw [hmark, close_eq hstack hnotin]
  rfl

theorem registers_leave {base : Walk} {done : List Nat}
    (exploring : Exploring successors count base node done walk) :
    (walk.registers count).leave? (successors node) node =
      some ((if walk.lowOf node = walk.numberOf node then walk.close successors node
        else walk).registers count) := by
  obtain ⟨above, hstack⟩ := exploring.stack
  have hnode : node < count :=
    exploring.sound.keys_lt node (Table.mem_keys_iff.mpr ⟨_, exploring.own⟩)
  have hlow : (walk.registers count).low[node]? = some (walk.lowOf node) := getElem?_row hnode
  have hindex : (walk.registers count).index[node]? = some (some (walk.numberOf node)) := by
    rw [numberOf_eq exploring.own, ← exploring.own]
    exact getElem?_row hnode
  rw [Registers.leave?, hlow, Option.bind_eq_bind, Option.bind_some, hindex, Option.bind_eq_bind,
    Option.bind_some]
  simp only [Option.some.injEq]
  split
  · exact registers_close exploring.sound hstack
  · rfl

end Walk

section

variable {successors : Nat → List Nat} {count node next fuel : Nat} {base walk : Walk}
  {done : List Nat}

theorem follow?_registers {explore : Nat → Walk → Walk}
    {visiting? : Nat → Registers → Option Registers} (hnode : node < count) (hnext : next < count)
    (hvisit : walk.number.find? next = none →
      visiting? next (walk.registers count) = some ((explore next walk).registers count)) :
    follow? visiting? node (walk.registers count) next =
      some ((follow explore node walk next).registers count) := by
  have hindex : (walk.registers count).index[next]? = some (walk.number.find? next) :=
    getElem?_row hnext
  rw [follow?, hindex, Option.bind_eq_bind, Option.bind_some]
  unfold follow
  cases hfind : walk.number.find? next with
  | none =>
    have hlow : ((explore next walk).registers count).low[next]? =
        some ((explore next walk).lowOf next) := getElem?_row hnext
    dsimp only
    rw [hvisit hfind, Option.bind_eq_bind, Option.bind_some, hlow, Option.bind_eq_bind,
      Option.bind_some]
    exact Walk.registers_lower hnode _
  | some number =>
    have hopen : (walk.registers count).onStack[next]? = some (walk.stack.contains next) :=
      getElem?_row hnext
    dsimp only
    rw [hopen, Option.bind_eq_bind, Option.bind_some]
    split
    · exact Walk.registers_lower hnode _
    · rfl

/-- Following one edge after the other. -/
theorem foldlM_follow?_registers {explore : Nat → Walk → Walk}
    {visiting? : Nat → Registers → Option Registers}
    (bounded : ∀ next ∈ successors node, next < count) (hnew : base.number.find? node = none)
    (hexplore : ∀ done walk, Exploring successors count base node done walk →
      ∀ next ∈ successors node, walk.number.find? next = none →
        Explored successors count walk next (explore next walk) ∧
          visiting? next (walk.registers count) = some ((explore next walk).registers count))
    (rest : List Nat) (hrest : ∀ next ∈ rest, next ∈ successors node)
    (exploring : Exploring successors count base node done walk) :
    rest.foldlM (follow? visiting? node) (walk.registers count) =
      some ((rest.foldl (follow explore node) walk).registers count) := by
  have hnode : node < count :=
    exploring.sound.keys_lt node (Table.mem_keys_iff.mpr ⟨_, exploring.own⟩)
  induction rest generalizing done walk with
  | nil => rfl
  | cons next rest ih =>
    have hedge := hrest next List.mem_cons_self
    have hbehind := hexplore _ _ exploring next hedge
    rw [List.foldlM_cons, follow?_registers hnode (bounded next hedge) fun h => (hbehind h).2,
      Option.bind_eq_bind, Option.bind_some]
    exact ih (fun other hother => hrest other (List.mem_cons_of_mem _ hother))
      (exploring.follow hnew hedge fun h => (hbehind h).1)

/-- With enough depth, a visit does with the rows what it does with the tables. -/
theorem visit?_registers (bounded : ∀ node < count, ∀ next ∈ successors node, next < count)
    (fuel : Nat) {base : Walk} {node : Nat} (sound : base.Sound successors count)
    (hback : ∀ other ∈ base.stack, ReflTransGen (Edge successors) other node)
    (hnode : node < count) (hnew : base.number.find? node = none)
    (enough : count ≤ fuel + base.number.size) :
    visit? (row count successors) fuel node (base.registers count) =
      some ((visit successors fuel node base).registers count) := by
  induction fuel generalizing base node with
  | zero =>
    have hlt := sound.size_lt hnode hnew
    omega
  | succ fuel ih =>
    have hexplore (done : List Nat) (walk : Walk)
        (exploring : Exploring successors count base node done walk) (next : Nat)
        (hedge : next ∈ successors node) (hunfound : walk.number.find? next = none) :
        Explored successors count walk next (visit successors fuel next walk) ∧
          visit? (row count successors) fuel next (walk.registers count) =
            some ((visit successors fuel next walk).registers count) := by
      have hsize := exploring.size
      have hback : ∀ other ∈ walk.stack, ReflTransGen (Edge successors) other next :=
        fun other hother => (exploring.back other hother).tail hedge
      have hnext := bounded node hnode next hedge
      exact ⟨visit_explored bounded fuel exploring.sound hback hnext hunfound (by omega),
        ih exploring.sound hback hnext hunfound (by omega)⟩
    have hentered := Exploring.enter sound hback hnode hnew
    have hexploring := Exploring.followAll hnew
      (fun done walk exploring next hedge hunfound =>
        (hexplore done walk exploring next hedge hunfound).1)
      (successors node) (fun _ h => h) hentered
    have htargets : (row count successors)[node]? = some (successors node) := getElem?_row hnode
    rw [visit?, Walk.registers_enter hnode hnew, Option.bind_eq_bind, Option.bind_some, htargets,
      Option.bind_eq_bind, Option.bind_some,
      foldlM_follow?_registers (bounded node hnode) hnew hexplore _ (fun _ h => h) hentered,
      Option.bind_some]
    exact Walk.registers_leave hexploring

/-- Between two visits of the whole walk, visiting a new node does with the rows what it does with
the tables. -/
theorem visitNew?_registers (settled : Settled successors count walk)
    (bounded : ∀ node < count, ∀ next ∈ successors node, next < count) (hnode : node < count) :
    visitNew? (row count successors) count (walk.registers count) node =
      some ((visitNew successors count walk node).registers count) := by
  have hindex : (walk.registers count).index[node]? = some (walk.number.find? node) :=
    getElem?_row hnode
  rw [visitNew?, hindex, Option.bind_eq_bind, Option.bind_some]
  unfold visitNew Table.contains
  cases hfind : walk.number.find? node with
  | none =>
    exact visit?_registers bounded count settled.sound
      (fun other h => absurd (settled.stack ▸ h) List.not_mem_nil) hnode hfind
      (Nat.le_add_right _ _)
  | some number => rfl

theorem foldlM_visitNew?_registers
    (bounded : ∀ node < count, ∀ next ∈ successors node, next < count) (nodes : List Nat)
    (hnodes : ∀ node ∈ nodes, node < count) (settled : Settled successors count walk) :
    nodes.foldlM (visitNew? (row count successors) count) (walk.registers count) =
      some ((nodes.foldl (visitNew successors count) walk).registers count) := by
  induction nodes generalizing walk with
  | nil => rfl
  | cons node rest ih =>
    have hnode := hnodes node List.mem_cons_self
    rw [List.foldlM_cons, visitNew?_registers settled bounded hnode, Option.bind_eq_bind,
      Option.bind_some]
    exact ih (fun other h => hnodes other (List.mem_cons_of_mem _ h))
      (settled.visitNew bounded hnode).1

/-- With as much depth as there are nodes, the walk with rows is the walk with tables. -/
theorem walkAll?_registers (bounded : ∀ node < count, ∀ next ∈ successors node, next < count) :
    walkAll? count count successors = some ((walkAll count successors).registers count) := by
  rw [walkAll?, ← Walk.registers_empty]
  exact foldlM_visitNew?_registers bounded _ (fun _ => List.mem_range.mp) .empty

end

section

variable {adjacency : List (List Nat)} {depth : Nat} {registers after : Registers} {node : Nat}

theorem foldlM_mono {σ β : Type} {step further : σ → β → Option σ}
    (mono : ∀ state item later, step state item = some later → further state item = some later)
    {items : List β} {state later : σ} (h : items.foldlM step state = some later) :
    items.foldlM further state = some later := by
  induction items generalizing state with
  | nil => exact h
  | cons item rest ih =>
    rw [List.foldlM_cons] at h ⊢
    obtain ⟨between, hstep, hrest⟩ := Option.bind_eq_some_iff.mp h
    exact Option.bind_eq_some_iff.mpr ⟨between, mono _ _ _ hstep, ih hrest⟩

theorem follow?_mono {visiting? deeper? : Nat → Registers → Option Registers}
    (mono : ∀ node registers after,
      visiting? node registers = some after → deeper? node registers = some after)
    {next : Nat} (h : follow? visiting? node registers next = some after) :
    follow? deeper? node registers next = some after := by
  unfold follow? at h ⊢
  obtain ⟨index, hindex, h⟩ := Option.bind_eq_some_iff.mp h
  refine Option.bind_eq_some_iff.mpr ⟨index, hindex, ?_⟩
  cases index with
  | none =>
    obtain ⟨between, hvisit, hrest⟩ := Option.bind_eq_some_iff.mp h
    exact Option.bind_eq_some_iff.mpr ⟨between, mono _ _ _ hvisit, hrest⟩
  | some number => exact h

theorem visit?_succ (h : visit? adjacency depth node registers = some after) :
    visit? adjacency (depth + 1) node registers = some after := by
  induction depth generalizing node registers after with
  | zero => cases h
  | succ depth ih =>
    rw [visit?] at h ⊢
    obtain ⟨opened, henter, h⟩ := Option.bind_eq_some_iff.mp h
    obtain ⟨targets, htargets, h⟩ := Option.bind_eq_some_iff.mp h
    obtain ⟨walked, hwalked, hleave⟩ := Option.bind_eq_some_iff.mp h
    refine Option.bind_eq_some_iff.mpr ⟨opened, henter, Option.bind_eq_some_iff.mpr
      ⟨targets, htargets, Option.bind_eq_some_iff.mpr ⟨walked, ?_, hleave⟩⟩⟩
    exact foldlM_mono (fun _ _ _ => follow?_mono fun _ _ _ => ih) hwalked

theorem visit?_mono {deeper : Nat} (hdepth : depth ≤ deeper)
    (h : visit? adjacency depth node registers = some after) :
    visit? adjacency deeper node registers = some after := by
  induction hdepth with
  | refl => exact h
  | step _ ih => exact visit?_succ ih

theorem visitNew?_mono {deeper : Nat} (hdepth : depth ≤ deeper)
    (h : visitNew? adjacency depth registers node = some after) :
    visitNew? adjacency deeper registers node = some after := by
  unfold visitNew? at h ⊢
  obtain ⟨index, hindex, h⟩ := Option.bind_eq_some_iff.mp h
  refine Option.bind_eq_some_iff.mpr ⟨index, hindex, ?_⟩
  cases index with
  | none => exact visit?_mono hdepth h
  | some number => exact h

theorem walkAll?_mono {deeper count : Nat} {successors : Nat → List Nat} (hdepth : depth ≤ deeper)
    (h : walkAll? depth count successors = some registers) :
    walkAll? deeper count successors = some registers :=
  foldlM_mono (fun _ _ _ => visitNew?_mono hdepth) h

end

/-- In every graph on the nodes below a count the walk comes to its end, at no more depth than there
are nodes, and it never reads or writes outside its rows. It visits every node once and leaves none
open, and it marks just those nodes from which a path of an edge or more leads back to them. -/
theorem walks_mark_cycles {count : Nat} {successors : Nat → List Nat}
    (bounded : ∀ node < count, ∀ next ∈ successors node, next < count) :
    ∃ registers, (∀ depth, count ≤ depth → walkAll? depth count successors = some registers) ∧
      registers.visited.Perm (List.range count) ∧ registers.stack = [] ∧
      registers.cyclic = cyclicNodes count successors ∧ registers.cyclic.length = count ∧
      ∀ node < count,
        (registers.cyclic[node]? = some true ↔ TransGen (Edge successors) node node) := by
  obtain ⟨hsound, hstack, hfound⟩ := walkAll_sound bounded
  refine ⟨(walkAll count successors).registers count,
    fun depth hdepth => walkAll?_mono hdepth (walkAll?_registers bounded), ?_, hstack, rfl, ?_, ?_⟩
  · refine (List.perm_ext_iff_of_nodup hsound.keys_nodup List.nodup_range).mpr fun node => ?_
    rw [List.mem_range]
    exact ⟨hsound.keys_lt node, fun hnode => Table.mem_keys_iff.mpr (hfound node hnode)⟩
  · exact (List.length_map _).trans List.length_range
  · intro node hnode
    exact (cyclicNodes_getElem? bounded node).trans (and_iff_right hnode)

/-- A graph with a cycle of two nodes, a loop, edges taken twice, and edges back and across. -/
def tangled : Nat → List Nat
  | 0 => [1]
  | 1 => [2, 2]
  | 2 => [3, 1]
  | 3 => [4, 3]
  | 5 => [4, 0, 2]
  | _ => []

/-- All but its first node and its last two are on a cycle. -/
theorem walks_mark_cycles_tangled :
    (∀ node < 6, ∀ next ∈ tangled node, next < 6) ∧
      (∃ registers, walkAll? 6 6 tangled = some registers ∧
        registers.cyclic = [false, true, true, true, false, false]) ∧
      TransGen (Edge tangled) 2 2 ∧ ¬TransGen (Edge tangled) 0 0 := by
  have bounded : ∀ node < 6, ∀ next ∈ tangled node, next < 6 := by decide
  obtain ⟨registers, hwalk, -, -, hcyclic, -, hmarked⟩ := walks_mark_cycles bounded
  have hflags : registers.cyclic = [false, true, true, true, false, false] :=
    hcyclic.trans (by decide)
  rw [hflags] at hmarked
  exact ⟨bounded, ⟨registers, hwalk 6 (Nat.le_refl 6), hflags⟩,
    (hmarked 2 (by decide)).mp rfl, fun h => nomatch (hmarked 0 (by decide)).mpr h⟩

end LayerGraph.Graph
