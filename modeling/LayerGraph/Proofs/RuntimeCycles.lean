import LayerGraph.Proofs.Calls

/-! The cycles that are found while generators run are shown by the runs in progress.

No two runs in progress are of one generator, so at most one of them claims a slot. From that one on
each run fetches what the next one is to fill, and the last of them what the first one fills. -/

namespace LayerGraph

open Relation

theorem Chain.Climbs.claims_apart {chain : Chain} {top : Layer} {scope : Scope} {key : Key}
    (climbs : chain.Climbs top) (proper : top.Proper) (known : scope ∈ top.ancestry) :
    chain.Pairwise fun later earlier =>
      later.claims scope.id key = true → earlier.claims scope.id key = false := by
  -- A run that claims the slot is of the generator that feeds it.
  have hslot {frame : Frame} (hframe : frame ∈ chain)
      (claims : frame.claims scope.id key = true) :
      ∃ source, frame.RunsIn top scope source ∧
        ∃ eager cyclic, scope.slots.find? key = some (.generated source eager cyclic) := by
    obtain ⟨hid, houtput⟩ := Bool.and_eq_true_iff.mp claims
    obtain ⟨other, source, hruns⟩ := climbs.frames frame hframe
    have hid : other.id = scope.id := hruns.id.symm.trans (beq_iff_eq.mp hid)
    obtain rfl := List.inj_on_of_nodup_map proper.distinct hruns.known known hid
    obtain ⟨eager, cyclic, slot⟩ := hruns.slot
    rw [hruns.outputs] at houtput
    have hfed := List.mem_mergeSort.mp (List.contains_iff_mem.mp houtput)
    exact ⟨source, hruns, eager, cyclic, (proper.sound other known).slot_of_mem_fedBy slot hfed⟩
  refine climbs.apart.imp_of_mem fun {later earlier} hlater hearlier hapart hclaims => ?_
  refine Bool.eq_false_iff.mpr fun hclaimed => ?_
  obtain ⟨source, hruns, _, _, hkey⟩ := hslot hlater hclaims
  obtain ⟨other, hother, _, _, hkey'⟩ := hslot hearlier hclaimed
  obtain ⟨rfl, -, -⟩ := Backing.generated.inj (Option.some.inj (hkey.symm.trans hkey'))
  obtain ⟨_, _, slot⟩ := hruns.slot
  have hsame := hother.claims ((proper.sound scope known).mem_fedBy_of_slot slot)
  rw [hruns.id] at hapart
  exact Bool.false_ne_true (hapart.symm.trans hsame)

theorem Chain.pathTo_of_claims {inner earlier : Chain} {frame : Frame} {layer : Nat} {key : Key}
    (claims : frame.claims layer key = true)
    (unclaimed : ∀ other ∈ earlier, other.claims layer key = false) :
    Chain.pathTo (inner ++ frame :: earlier) layer key =
      (inner ++ [frame]).reverse.map Frame.requested ++ [key] := by
  have hdrop : (inner ++ frame :: earlier).reverse.dropWhile (fun frame => !frame.claims layer key) =
      frame :: inner.reverse := by
    rw [List.reverse_append, List.reverse_cons, List.append_assoc, List.dropWhile_append_of_pos]
    · exact List.dropWhile_cons_of_neg (by simp [claims])
    · intro other hother
      simp [unclaimed other (List.mem_reverse.mp hother)]
  unfold Chain.pathTo
  dsimp only
  rw [hdrop]
  simp

namespace Session

open Resolution

/-- Every runtime cycle report shows the runs that closed the cycle. Whenever a slot is found to be
claimed by a run in progress, it has been come to through runs each of which fetches what the next
one is to fill, the innermost what comes down to this slot. Exactly one of them claims the slot, and
what it was asked for and the slot are fed by one and the same generator. The path leads from what
that run was asked for, through what the runs below it were asked for, to the slot. -/
theorem runtime_cycle_reports_show_the_runs {world : World} (reachable : Reachable world)
    {attempt : Attempted} (shown : attempt.In world.trace)
    (claimed : attempt.chain.claims attempt.site.layer attempt.site.key = true) :
    ∃ top ∈ world.built, ∃ fuel requested start context call,
      ReflTransGen (Call.Leads context) (top.call fuel requested start) call ∧
      call.Meets context attempt ∧
      call.runs.Pursue top requested context call.layer.scope call.key ∧
      ∃ inner run earlier, call.runs = inner ++ run :: earlier ∧
        run.frame.claims attempt.site.layer attempt.site.key = true ∧
        (∀ other ∈ inner ++ earlier,
          other.frame.claims attempt.site.layer attempt.site.key = false) ∧
        run.scope = call.layer.scope ∧ run.requested ∈ run.scope.fedBy run.source ∧
        call.key ∈ run.scope.fedBy run.source ∧
        ∃ path, attempt.obstacle = some (.cyclic call.key path) ∧
          path = (inner ++ [run]).reverse.map Invocation.requested ++ [call.key] ∧
          2 ≤ path.length := by
  obtain ⟨top, htop, fuel, requested, start, context, call, hpath, hmeets⟩ := reachable.stems shown
  have belongs := Layer.belongs_of_path hpath
  have proper := reachable.valid.proper htop
  obtain ⟨source, eager, cyclic, slot, hobstacle⟩ := hmeets.slot
  have hclaimed : call.runs.chain.claims call.layer.scope.id call.key = true := by
    rw [hmeets.chain, hmeets.site] at claimed
    exact claimed
  obtain ⟨frame, hframe, hclaims⟩ := List.any_eq_true.mp hclaimed
  obtain ⟨run, hrun, rfl⟩ := List.mem_map.mp hframe
  obtain ⟨inner, earlier, hruns⟩ := List.append_of_mem hrun
  have hchain : call.runs.chain =
      inner.map Invocation.frame ++ run.frame :: earlier.map Invocation.frame := by
    rw [hruns]
    exact List.map_append
  -- Neither the runs before it nor those below it claim the slot.
  have hapart : call.runs.chain.Pairwise fun later earlier =>
      later.claims call.layer.scope.id call.key = true →
        earlier.claims call.layer.scope.id call.key = false :=
    belongs.climbs.claims_apart proper belongs.scope_mem
  rw [hchain, List.pairwise_append, List.pairwise_cons] at hapart
  obtain ⟨-, ⟨hearlier, -⟩, hinner⟩ := hapart
  have hbefore : ∀ other ∈ earlier.map Invocation.frame,
      other.claims call.layer.scope.id call.key = false := fun other hother =>
    hearlier other hother hclaims
  have hbelow : ∀ other ∈ inner.map Invocation.frame,
      other.claims call.layer.scope.id call.key = false := fun other hother =>
    Bool.eq_false_iff.mpr fun h => by
      have hnot := hinner other hother run.frame List.mem_cons_self h
      exact Bool.false_ne_true (hnot.symm.trans hclaims)
  have hplaced := belongs.placed run hrun
  obtain ⟨hid, houtput⟩ := Bool.and_eq_true_iff.mp hclaims
  have hscope : run.scope = call.layer.scope :=
    List.inj_on_of_nodup_map proper.distinct hplaced.known belongs.scope_mem (beq_iff_eq.mp hid)
  obtain ⟨_, _, hslot⟩ := hplaced.slot
  have hpathTo : call.runs.chain.pathTo call.layer.scope.id call.key =
      (inner ++ [run]).reverse.map Invocation.requested ++ [call.key] := by
    rw [hchain, Chain.pathTo_of_claims hclaims hbefore]
    simp [Invocation.frame, Scope.frame, Function.comp_def]
  refine ⟨top, htop, fuel, requested, start, context, call, hpath, hmeets,
    belongs.pursue _ _ (Layer.target?_of_slot slot), inner, run, earlier, hruns, ?_, ?_, hscope, ?_,
    ?_, _, ?_, rfl, ?_⟩
  · rw [hmeets.site]
    exact hclaims
  · intro other hother
    rw [hmeets.site]
    rcases List.mem_append.mp hother with h | h
    · exact hbelow _ (List.mem_map_of_mem h)
    · exact hbefore _ (List.mem_map_of_mem h)
  · exact (proper.sound _ hplaced.known).mem_fedBy_of_slot hslot
  · exact List.mem_mergeSort.mp (List.contains_iff_mem.mp houtput)
  · rw [hobstacle, obstacle?]
    rw [if_pos hclaimed, hpathTo]
  · simp

/-- A generator that needs another one, which needs a third one through an interface, which asks for
the second one behind the back of its declarations. -/
def looping : List Registered :=
  [⟨0, "s", "make_s", [.required ⟨"A"⟩], [⟨"S"⟩], fun _ _ => .done (.products [⟨⟨"S"⟩, "s"⟩])⟩,
    ⟨1, "a", "make_a", [.required ⟨"I"⟩], [⟨"A"⟩], fun _ _ => .done (.products [⟨⟨"A"⟩, "a"⟩])⟩,
    ⟨2, "b", "make_b", [.hidden ⟨"A"⟩], [⟨"B"⟩], fun _ _ => .done (.products [⟨⟨"B"⟩, "b"⟩])⟩]

def loopedWorld : World :=
  let entries := looping.map fun source => Entry.generator source.generator false
  let interface := Entry.interface ⟨"I"⟩ ⟨"B"⟩ ⟨"i", fun _ payload => .done payload⟩
  (step 4 (step 4 {} (.build "app" none ((interface :: entries).map .register))).2
    (.resolve "app" ⟨"S"⟩ {})).2

theorem runtime_cycle_reports_show_the_runs_looped : ∃ attempt : Attempted,
    attempt.In loopedWorld.trace ∧ attempt.site = ⟨1, ⟨"A"⟩⟩ ∧
    attempt.chain.map Frame.requested = [⟨"B"⟩, ⟨"A"⟩, ⟨"S"⟩] ∧
    attempt.obstacle = some (.cyclic ⟨"A"⟩ [⟨"A"⟩, ⟨"B"⟩, ⟨"A"⟩]) ∧
    ∃ top ∈ loopedWorld.built, ∃ fuel requested start context call,
      ReflTransGen (Call.Leads context) (top.call fuel requested start) call ∧
      call.Meets context attempt ∧
      call.runs.Pursue top requested context call.layer.scope call.key := by
  have reachable : Reachable loopedWorld := .step (.step .initial _ _) _ _
  have hmem : .attempted ⟨1, ⟨"A"⟩⟩
      [⟨1, ⟨"B"⟩, [⟨"B"⟩]⟩, ⟨1, ⟨"A"⟩, [⟨"A"⟩]⟩, ⟨1, ⟨"S"⟩, [⟨"S"⟩]⟩]
      (some (.cyclic ⟨"A"⟩ [⟨"A"⟩, ⟨"B"⟩, ⟨"A"⟩])) ∈ loopedWorld.trace := by decide +kernel
  obtain ⟨later, past, htrace⟩ := List.append_of_mem hmem
  have hin : Attempted.In ⟨_, _, _, past⟩ loopedWorld.trace := ⟨later, htrace.symm⟩
  obtain ⟨top, htop, fuel, requested, start, context, call, hpath, hmeets, hpursue, -⟩ :=
    runtime_cycle_reports_show_the_runs reachable hin rfl
  exact ⟨_, hin, rfl, rfl, rfl, top, htop, fuel, requested, start, context, call, hpath, hmeets,
    hpursue⟩

end Session

end LayerGraph
