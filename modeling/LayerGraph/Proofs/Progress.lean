import LayerGraph.Proofs.Evaluation
import Mathlib.Data.List.Dedup

/-! Requests come to an answer.

If generators and casts are steady, then no two runs in progress for a request are of one generator.
So a request that no context ends comes to an answer of its own, provided that the layers it goes
through allow for as many runs below one another as there are generators. -/

namespace LayerGraph

namespace Scope

def places (scope : Scope) : List Nat :=
  (scope.slots.entries.filterMap fun entry => entry.2.source?.map Registered.place).dedup

theorem mem_places {scope : Scope} {key : Key} {source : Registered} {eager cyclic : Bool}
    (slot : scope.slots.find? key = some (.generated source eager cyclic)) :
    source.place ∈ scope.places := by
  refine List.mem_dedup.mpr (List.mem_filterMap.mpr ⟨_, Table.mem_entries_of_find? slot, ?_⟩)
  rfl

end Scope

namespace Layer

def generators (layer : Layer) : List (Nat × Nat) :=
  layer.ancestry.flatMap fun scope => scope.places.map fun place => (scope.id, place)

def generatorCount (layer : Layer) : Nat :=
  (layer.ancestry.flatMap Scope.places).length

theorem length_generators (layer : Layer) : layer.generators.length = layer.generatorCount := by
  unfold generators generatorCount
  simp only [List.length_flatMap, List.length_map]

end Layer

structure Frame.RunsIn (frame : Frame) (layer : Layer) (scope : Scope) (source : Registered) :
    Prop where
  known : scope ∈ layer.ancestry
  id : frame.layer = scope.id
  slot : ∃ eager cyclic,
    scope.slots.find? frame.requested = some (.generated source eager cyclic)
  outputs : frame.outputs = Key.sort (scope.fedBy source)

theorem Frame.RunsIn.claims {frame : Frame} {layer : Layer} {scope : Scope} {source : Registered}
    (runs : frame.RunsIn layer scope source) {key : Key} (hfed : key ∈ scope.fedBy source) :
    frame.claims scope.id key = true := by
  refine Bool.and_eq_true_iff.mpr ⟨beq_iff_eq.mpr runs.id, List.contains_iff_mem.mpr ?_⟩
  rw [runs.outputs]
  exact List.mem_mergeSort.mpr hfed

theorem Frame.RunsIn.mark_mem {frame : Frame} {layer : Layer} {scope : Scope} {source : Registered}
    (runs : frame.RunsIn layer scope source) : (scope.id, source.place) ∈ layer.generators := by
  obtain ⟨eager, cyclic, slot⟩ := runs.slot
  exact List.mem_flatMap.mpr ⟨scope, runs.known,
    List.mem_map.mpr ⟨source.place, Scope.mem_places slot, rfl⟩⟩

theorem Frame.RunsIn.mark_ne {later earlier : Frame} {layer : Layer} {scope other : Scope}
    {source source' : Registered} (hlater : later.RunsIn layer scope source)
    (hearlier : earlier.RunsIn layer other source') (proper : layer.Proper)
    (unclaimed : earlier.claims later.layer later.requested = false) :
    (scope.id, source.place) ≠ (other.id, source'.place) := by
  intro hmark
  obtain ⟨hid, hplace⟩ := Prod.mk.inj hmark
  obtain rfl := List.inj_on_of_nodup_map proper.distinct hlater.known hearlier.known hid
  obtain ⟨eager, cyclic, slot⟩ := hlater.slot
  obtain ⟨eager', cyclic', slot'⟩ := hearlier.slot
  have hsound := proper.sound scope hlater.known
  obtain ⟨rfl, -, -⟩ := hsound.placed _ _ _ _ _ _ _ _ slot slot' hplace
  have hclaims := hearlier.claims (hsound.mem_fedBy_of_slot slot)
  rw [hlater.id] at unclaimed
  exact Bool.false_ne_true (unclaimed.symm.trans hclaims)

structure Chain.Climbs (chain : Chain) (layer : Layer) : Prop where
  frames : ∀ frame ∈ chain, ∃ scope source, frame.RunsIn layer scope source
  apart : chain.Pairwise fun later earlier => earlier.claims later.layer later.requested = false

namespace Chain.Climbs

variable {chain : Chain} {layer : Layer} {scope : Scope} {key : Key} {source : Registered}
  {eager cyclic : Bool}

theorem nil (layer : Layer) : Chain.Climbs [] layer := ⟨by simp, .nil⟩

theorem push (climbs : chain.Climbs layer) (known : scope ∈ layer.ancestry)
    (slot : scope.slots.find? key = some (.generated source eager cyclic))
    (unclaimed : chain.claims scope.id key = false) :
    Chain.Climbs (scope.frame key source :: chain) layer := by
  refine ⟨fun frame hframe => ?_, List.pairwise_cons.mpr ⟨fun earlier hearlier => ?_, climbs.apart⟩⟩
  · rcases List.mem_cons.mp hframe with rfl | hmem
    · exact ⟨scope, source, known, rfl, ⟨eager, cyclic, slot⟩, rfl⟩
    · exact climbs.frames frame hmem
  · exact Bool.eq_false_iff.mpr (List.any_eq_false.mp unclaimed earlier hearlier)

theorem marks (climbs : chain.Climbs layer) (proper : layer.Proper) :
    ∃ marks : List (Nat × Nat),
      List.Forall₂ (fun frame mark => ∃ scope source, frame.RunsIn layer scope source ∧
        mark = (scope.id, source.place)) chain marks ∧
      marks.Nodup ∧ (∀ mark ∈ marks, mark ∈ layer.generators) ∧
      ∀ mark ∈ marks, ∃ frame ∈ chain, ∃ scope source, frame.RunsIn layer scope source ∧
        mark = (scope.id, source.place) := by
  induction chain with
  | nil => exact ⟨[], .nil, .nil, by simp, by simp⟩
  | cons frame chain ih =>
    obtain ⟨hapart, hrest⟩ := List.pairwise_cons.mp climbs.apart
    have hframes := fun other hother => climbs.frames other (List.mem_cons_of_mem _ hother)
    obtain ⟨marks, hforall, hnodup, hgenerators, hmarks⟩ := ih ⟨hframes, hrest⟩
    obtain ⟨scope, source, hruns⟩ := climbs.frames frame List.mem_cons_self
    refine ⟨(scope.id, source.place) :: marks, .cons ⟨scope, source, hruns, rfl⟩ hforall,
      List.nodup_cons.mpr ⟨fun hmem => ?_, hnodup⟩, fun mark hmark => ?_, fun mark hmark => ?_⟩
    · obtain ⟨earlier, hearlier, other, source', hother, hmark⟩ := hmarks _ hmem
      exact hruns.mark_ne hother proper (hapart earlier hearlier) hmark
    · rcases List.mem_cons.mp hmark with rfl | hmem
      · exact hruns.mark_mem
      · exact hgenerators mark hmem
    · rcases List.mem_cons.mp hmark with rfl | hmem
      · exact ⟨frame, List.mem_cons_self, scope, source, hruns, rfl⟩
      · obtain ⟨other, hother, hrest⟩ := hmarks mark hmem
        exact ⟨other, List.mem_cons_of_mem _ hother, hrest⟩

theorem length_le (climbs : chain.Climbs layer) (proper : layer.Proper) :
    chain.length ≤ layer.generatorCount := by
  obtain ⟨marks, hforall, hnodup, hgenerators, -⟩ := climbs.marks proper
  rw [hforall.length_eq, ← layer.length_generators]
  exact (List.subperm_of_subset hnodup hgenerators).length_le

end Chain.Climbs

theorem World.Advances.live {before after : World} (advances : before.Advances after)
    {context : Context} (live : context.isCancelled after.signals = false) :
    context.isCancelled before.signals = false := by
  obtain ⟨htoken, hdeadline⟩ := Bool.or_eq_false_iff.mp live
  refine Bool.or_eq_false_iff.mpr ⟨?_, ?_⟩
  · unfold Context.tokenCancelled at htoken ⊢
    cases htoken' : context.token with
    | none => rfl
    | some token =>
      rw [htoken'] at htoken
      refine List.any_eq_false.mpr fun id hid hcancelled => ?_
      refine List.any_eq_false.mp htoken id hid (List.contains_iff_mem.mpr ?_)
      exact advances.cancelled.mem (List.contains_iff_mem.mp hcancelled)
  · cases hdeadline' : context.deadline with
    | none => rfl
    | some deadline =>
      rw [hdeadline'] at hdeadline
      have hlater : ¬ deadline ≤ after.signals.now := of_decide_eq_false hdeadline
      have hnow := advances.now
      exact decide_eq_false (by omega)

/-- A request on its way through a layer and the layers around it: the runs in progress are of
different generators, those lead to what is asked for, and there is nesting left for the others. -/
structure Chain.Clear (chain : Chain) (top : Layer) (fuel : Nat) (layer : Layer) (key : Key) :
    Prop where
  proper : top.Proper
  within : layer.ancestry <:+ top.ancestry
  fits : chain.Fits layer key
  climbs : chain.Climbs top
  nesting : top.generatorCount ≤ fuel + chain.length

namespace Chain.Clear

variable {chain : Chain} {top : Layer} {fuel : Nat} {scope : Scope} {outer : List Scope}
  {key : Key} {source : Registered} {eager cyclic : Bool}

theorem known (clear : chain.Clear top fuel ⟨scope, outer⟩ key) : scope ∈ top.ancestry :=
  clear.within.mem List.mem_cons_self

theorem sound (clear : chain.Clear top fuel ⟨scope, outer⟩ key) : scope.Sound :=
  clear.proper.sound scope clear.known

theorem unclaimed (clear : chain.Clear top fuel ⟨scope, outer⟩ key)
    (slot : scope.slots.find? key = some (.generated source eager cyclic)) :
    chain.claims scope.id key = false :=
  clear.fits.claims_eq_false clear.sound slot

theorem room (clear : chain.Clear top fuel ⟨scope, outer⟩ key)
    (slot : scope.slots.find? key = some (.generated source eager cyclic)) :
    chain.length < top.generatorCount :=
  (clear.climbs.push clear.known slot (clear.unclaimed slot)).length_le clear.proper

theorem push (clear : chain.Clear top (fuel + 1) ⟨scope, outer⟩ key)
    (slot : scope.slots.find? key = some (.generated source eager false)) {dependency : Key}
    (declared : dependency ∈ source.generator.declarations.filterMap Declaration.key?) :
    Chain.Clear (scope.frame key source :: chain) top fuel ⟨scope, outer⟩ dependency where
  proper := clear.proper
  within := clear.within
  fits := clear.fits.push slot declared
  climbs := clear.climbs.push clear.known slot (clear.unclaimed slot)
  nesting := by
    have hnesting := clear.nesting
    rw [List.length_cons]
    omega

theorem behind (clear : chain.Clear top fuel ⟨scope, outer⟩ key) {binding : Binding}
    {backing : Backing} (noSlot : scope.slots.find? key = none)
    (interface : scope.bindings.find? key = some binding)
    (behind : scope.slots.find? binding.source = some backing) :
    chain.Clear top fuel ⟨scope, outer⟩ binding.source :=
  { clear with fits := clear.fits.source noSlot interface behind }

theorem parent {parent : Scope} {further : List Scope}
    (clear : chain.Clear top fuel ⟨scope, parent :: further⟩ key) :
    chain.Clear top fuel ⟨parent, further⟩ key := by
  have hdistinct : ((scope :: parent :: further).map Scope.id).Nodup :=
    clear.proper.distinct.sublist (clear.within.sublist.map Scope.id)
  have hid := (List.nodup_cons.mp hdistinct).1
  exact { clear with
    within := (List.suffix_cons _ _).trans clear.within
    fits := clear.fits.parent hid key }

end Chain.Clear

def World.HeldBy (world : World) (chain : Chain) : Prop :=
  ∀ site ∈ world.held, chain.claims site.layer site.key = true

namespace World.HeldBy

variable {world after : World} {chain : Chain} {top : Layer} {fuel : Nat} {scope : Scope}
  {outer : List Scope} {key : Key} {source : Registered} {eager cyclic : Bool}

theorem of_held_nil (h : world.held = []) : world.HeldBy [] := by
  intro site hsite
  rw [h] at hsite
  cases hsite

theorem push (held : world.HeldBy chain)
    (grows : (world.start scope key source chain).Grows after) :
    after.HeldBy (scope.frame key source :: chain) := by
  intro site hsite
  rw [grows.held] at hsite
  rcases List.mem_append.mp hsite with hlock | hheld
  · obtain ⟨output, houtput, rfl⟩ := List.mem_map.mp hlock
    refine List.any_eq_true.mpr ⟨_, List.mem_cons_self, ?_⟩
    exact Bool.and_eq_true_iff.mpr ⟨beq_self_eq_true _, List.contains_iff_mem.mpr houtput⟩
  · obtain ⟨frame, hframe, hclaims⟩ := List.any_eq_true.mp (held site hheld)
    exact List.any_eq_true.mpr ⟨frame, List.mem_cons_of_mem _ hframe, hclaims⟩

theorem unlocked (held : world.HeldBy chain) (clear : chain.Clear top fuel ⟨scope, outer⟩ key)
    (slot : scope.slots.find? key = some (.generated source eager cyclic)) :
    ¬ (scope.locks source).any world.held.contains := by
  intro hany
  obtain ⟨site, hsite, hheld⟩ := List.any_eq_true.mp hany
  obtain ⟨output, hfed, rfl⟩ := Scope.mem_locks.mp hsite
  have hclaims := held _ (List.contains_iff_mem.mp hheld)
  have hslot := clear.sound.slot_of_mem_fedBy slot hfed
  have hfits : Chain.Fits chain ⟨scope, outer⟩ output := clear.fits.of_producer?
    ((Chain.Fits.producer?_of_slot hslot).trans (Chain.Fits.producer?_of_slot slot).symm)
  have unclaimed := hfits.claims_eq_false clear.sound hslot
  exact Bool.false_ne_true (unclaimed.symm.trans hclaims)

end World.HeldBy

namespace Resolution

def IsCut : Answer → Prop
  | .error (.canceled _) | .error (.tooDeep _ _) => True
  | _ => False

variable {fuel : Nat} {layer : Layer} {key : Key} {source : Registered} {eager : Bool}
  {chain : Chain} {context : Context} {world after : World} {result : Except Stop Answer}

theorem IsCut.accept {answer : Answer} (cut : IsCut answer) (supply : Supply) (key : Key) :
    ∃ error, accept supply key answer = .error error ∧ IsCut (.error error) := by
  match answer with
  | .error (.canceled other) => exact ⟨.canceled other, by simp [Resolution.accept], trivial⟩
  | .error (.tooDeep other limit) =>
    exact ⟨.tooDeep other limit, by simp [Resolution.accept], trivial⟩

theorem IsCut.of_accept {answer : Answer} {supply : Supply} {error : ResolutionError}
    (h : Resolution.accept supply key answer = .error error) (cut : IsCut (.error error)) :
    IsCut answer := by
  cases answer with
  | ok value =>
    unfold Resolution.accept typed at h
    dsimp only at h
    split at h
    · cases h
    · obtain rfl := Except.error.inj h
      exact cut.elim
  | error other =>
    unfold Resolution.accept at h
    dsimp only at h
    split at h
    · cases h
    · obtain rfl := Except.error.inj h
      exact cut

theorem Gathers.completes {supplies : List Supply} {inquiries : List Inquiry}
    {gathered : Except Stop (Except ResolutionError (List Argument))}
    (gathers : Gathers layer context supplies inquiries world gathered after)
    (answers : ∀ inquiry ∈ inquiries, ∃ answer, inquiry.result = .ok answer ∧ ¬ IsCut answer) :
    ∃ collected, gathered = .ok collected ∧
      ∀ error, collected = .error error → ¬ IsCut (.error error) := by
  induction gathers with
  | done => exact ⟨_, rfl, fun error h => (nomatch h)⟩
  | given unasked willing further ih =>
    obtain ⟨collected, rfl, huncut⟩ := ih answers
    refine ⟨_, rfl, fun error h => ?_⟩
    cases collected with
    | error other => exact huncut error h
    | ok arguments => cases h
  | declined unasked refusal =>
    refine ⟨_, rfl, fun error h cut => ?_⟩
    obtain rfl := Except.error.inj h
    obtain ⟨key, generator, source, brought, rfl⟩ := Supply.refusal?_failed refusal
    cases cut
  | stopped asked =>
    obtain ⟨answer, hanswer, -⟩ := answers _ List.mem_cons_self
    cases hanswer
  | @refused supply rest key before answer after error asked unacceptable =>
    obtain ⟨found, hfound, huncut⟩ := answers _ List.mem_cons_self
    obtain rfl := Except.ok.inj hfound
    refine ⟨_, rfl, fun other h cut => huncut ?_⟩
    obtain rfl := Except.error.inj h
    exact .of_accept unacceptable cut
  | found asked acceptable further ih =>
    obtain ⟨collected, rfl, huncut⟩ :=
      ih fun other hother => answers other (List.mem_cons_of_mem _ hother)
    refine ⟨_, rfl, fun error h => ?_⟩
    cases collected with
    | error other => exact huncut error h
    | ok arguments => cases h

theorem outcome_uncut {invocation : Except ResolutionError Yield}
    (live : context.isCancelled world.signals = false)
    (uncut : ∀ error, invocation = .error error → ¬ IsCut (.error error)) :
    ¬ IsCut (outcome layer key source context invocation world).1 := by
  have rule := outcome_rule layer key source context invocation world
  generalize outcome layer key source context invocation world = ended at rule ⊢
  cases rule with
  | canceled lapsed => exact absurd (live.symm.trans lapsed) Bool.false_ne_true
  | refused => exact uncut _ rfl
  | failed | nil | found | unfilled => exact id

theorem Ends.completes {perform : Command → Engine Reply} {eager cyclic : Bool}
    {collected : Except ResolutionError (List Argument)}
    (ends : Ends perform layer key source context world (.ok collected) result after)
    (steady : layer.scope.Steady)
    (slot : layer.scope.slots.find? key = some (.generated source eager cyclic))
    (uncut : ∀ error, collected = .error error → ¬ IsCut (.error error))
    (live : context.isCancelled after.signals = false) :
    ∃ answer, result = .ok answer ∧ ¬ IsCut answer := by
  have hfinish (invocation : Except ResolutionError Yield) (between : World)
      (live : context.isCancelled
        (finish layer key source context invocation between).2.signals = false)
      (uncut : ∀ error, invocation = .error error → ¬ IsCut (.error error)) :
      ¬ IsCut (finish layer key source context invocation between).1 :=
    outcome_uncut ((finish_advances invocation between).live live) uncut
  cases ends with
  | @refused error =>
    refine ⟨_, rfl, hfinish (.error error) world live fun other h => ?_⟩
    obtain rfl := Except.error.inj h
    exact uncut error rfl
  | broken body =>
    obtain ⟨yield, hresult, -⟩ := steady.body_returns slot body
    cases hresult
  | @returned arguments yield between body =>
    exact ⟨_, rfl, hfinish (.ok yield) _ live fun error h => (nomatch h)⟩

theorem Binds.completes {perform : Command → Engine Reply} {scope : Scope} {binding : Binding}
    {value : Value} (binds : Binds perform scope key binding value world result after)
    (steady : scope.Steady) (interface : scope.bindings.find? key = some binding) :
    ∃ answer, result = .ok answer ∧ ¬ IsCut answer := by
  cases binds with
  | mistyped other => exact ⟨_, rfl, id⟩
  | broken typed cast =>
    obtain ⟨payload, hresult, -⟩ := steady.cast_returns interface cast
    cases hresult
  | bound typed cast => exact ⟨_, rfl, id⟩

/-- A request that has room comes to an answer, and is not given up while its context is live. -/
theorem Resolves.completes {top : Layer}
    (resolves : Resolves fuel layer key chain context world result after) (steady : top.Steady)
    (deep : ∀ scope ∈ top.ancestry, top.generatorCount ≤ scope.settings.maxDepth)
    (hosts : world.Hosts layer) (clear : chain.Clear top fuel layer key) (held : world.HeldBy chain)
    (live : context.isCancelled after.signals = false) :
    ∃ answer, result = .ok answer ∧ ¬ IsCut answer := by
  induction resolves with
  | stored => exact ⟨_, rfl, id⟩
  | exhausted slot empty =>
    have hroom := clear.room slot
    have hnesting := clear.nesting
    omega
  | @obstructed fuel scope outer key chain context world source eager cyclic error slot empty
      obstacle =>
    refine ⟨_, rfl, ?_⟩
    rcases obstacle?_some obstacle with ⟨hclaims, -⟩ | ⟨-, rfl⟩ | ⟨hdepth, -⟩ | ⟨hcancelled, -⟩
    · cases (clear.unclaimed slot).symm.trans hclaims
    · exact id
    · have hroom := clear.room slot
      have hlimit := deep scope clear.known
      have hdepth : scope.settings.maxDepth ≤ chain.length := hdepth
      omega
    · have hlive : context.isCancelled world.signals = false := live
      cases hlive.symm.trans hcancelled
  | blocked slot empty free locked => exact absurd locked (held.unlocked clear slot)
  | @run fuel scope outer key chain context world source inquiries gathered between result after
      starts answers ends ih =>
    obtain ⟨⟨eager, cyclic, slot, free⟩, empty, unlocked, gathers⟩ := starts
    obtain rfl := obstacle?_none free
    have hsteady := steady scope clear.known
    have hstep : ∀ inquiry ∈ inquiries, inquiry.before.Grows inquiry.after :=
      fun inquiry hinquiry => (answers inquiry hinquiry).grows
    have hbefore := gathers.before
      (fun between => between.Hosts ⟨scope, outer⟩ ∧
        (world.start scope key source chain).Grows between)
      (fun inquiry hinquiry h => ⟨(answers inquiry hinquiry).hosts h.1 h.1,
        h.2.trans (hstep inquiry hinquiry)⟩)
      ⟨hosts.start _ _ _, .refl _⟩
    have hlast : between.Advances after := (ends.grows (Session.handler_grows _)).1
    have hanswers : ∀ inquiry ∈ inquiries, ∃ answer,
        inquiry.result = .ok answer ∧ ¬ IsCut answer := by
      intro inquiry hinquiry
      obtain ⟨supply, hsupply, hasked⟩ := gathers.asked inquiry hinquiry
      obtain ⟨parameter, hparameter, rfl⟩ := List.mem_map.mp hsupply
      have declared := hsteady.declares key source eager false slot parameter hparameter _ hasked
      obtain ⟨hhosts, hgrows⟩ := hbefore inquiry hinquiry
      have honward := (gathers.onward hstep inquiry hinquiry).toAdvances.trans hlast
      exact ih inquiry hinquiry hhosts (clear.push slot declared) (held.push hgrows)
        (honward.live live)
    obtain ⟨collected, rfl, huncut⟩ := gathers.completes hanswers
    exact ends.completes hsteady slot huncut live
  | bound => exact ⟨_, rfl, id⟩
  | unbacked => exact ⟨_, rfl, id⟩
  | unsourced noSlot interface unbound behind answer lost ih =>
    exact ih hosts (clear.behind noSlot interface behind) held live
  | @cast fuel scope outer key chain context world binding backing value between result after
      noSlot interface unbound behind answer binds ih =>
    exact binds.completes (steady scope clear.known) interface
  | imported => exact ⟨_, rfl, id⟩
  | missing => exact ⟨_, rfl, id⟩
  | unavailable unowned unknown answer lost ih =>
    exact ih (hosts.delegate _ _ _).parent clear.parent held live
  | delegated => exact ⟨_, rfl, id⟩

end Resolution

namespace Evaluation

variable {top : Layer} {depth : Nat} {key : Key} {chain : Chain}

theorem fromSlot_total {produce : Producer} {scope : Scope} {outer : List Scope}
    (clear : chain.Clear top depth ⟨scope, outer⟩ key) {backing : Backing}
    (slot : scope.slots.find? key = some backing)
    (h : ∀ {scope outer key source eager}, chain.Clear top depth ⟨scope, outer⟩ key →
      scope.slots.find? key = some (.generated source eager false) →
        ∃ answer, produce ⟨scope, outer⟩ key source = some answer) :
    ∃ answer, fromSlot produce ⟨scope, outer⟩ key backing = some answer := by
  match backing with
  | .value value => exact ⟨_, rfl⟩
  | .generated source eager true => exact ⟨_, rfl⟩
  | .generated source eager false => exact h clear slot

theorem convert_total {scope : Scope} {binding : Binding} (steady : scope.Steady)
    (interface : scope.bindings.find? key = some binding) (answer : Answer) :
    ∃ converted, binding.convert key answer = some converted := by
  cases answer with
  | error error => exact ⟨_, rfl⟩
  | ok value =>
    obtain ⟨payload, hpayload⟩ := steady.casts key binding interface 1 value.payload
    unfold Binding.convert
    dsimp only
    rw [hpayload]
    split <;> exact ⟨_, rfl⟩

theorem search_total {produce : Producer} {scope : Scope} {outer : List Scope}
    (clear : chain.Clear top depth ⟨scope, outer⟩ key) (steady : top.Steady)
    (h : ∀ {scope outer key source eager}, chain.Clear top depth ⟨scope, outer⟩ key →
      scope.slots.find? key = some (.generated source eager false) →
        ∃ answer, produce ⟨scope, outer⟩ key source = some answer) :
    ∃ answer, search produce key scope outer = some answer := by
  have hbinding {scope : Scope} {outer : List Scope} {binding : Binding}
      (clear : chain.Clear top depth ⟨scope, outer⟩ key) (noSlot : scope.slots.find? key = none)
      (interface : scope.bindings.find? key = some binding) :
      ∃ answer, fromBinding produce ⟨scope, outer⟩ key binding = some answer := by
    unfold fromBinding
    split
    · next backing slot =>
      obtain ⟨answer, hanswer⟩ := fromSlot_total (clear.behind noSlot interface slot) slot h
      rw [hanswer, Option.bind_some]
      exact convert_total (steady scope clear.known) interface answer
    · exact ⟨_, rfl⟩
  induction outer generalizing scope with
  | nil =>
    rw [search]
    split
    · next slot => exact fromSlot_total clear slot h
    · next noSlot =>
      split
      · next interface => exact hbinding clear noSlot interface
      · exact ⟨_, rfl⟩
  | cons parent further ih =>
    rw [search]
    split
    · next slot => exact fromSlot_total clear slot h
    · next noSlot =>
      split
      · next interface => exact hbinding clear noSlot interface
      · exact ih clear.parent

theorem gather_total {evaluate : Key → Option Answer} {supplies : List Supply}
    (h : ∀ supply ∈ supplies, ∃ key answer, supply.key? = some key ∧ evaluate key = some answer) :
    ∃ gathered, gather evaluate supplies = some gathered := by
  induction supplies with
  | nil => exact ⟨_, rfl⟩
  | cons supply rest ih =>
    obtain ⟨key, answer, hkey, hanswer⟩ := h supply List.mem_cons_self
    obtain ⟨gathered, hgathered⟩ := ih fun other hother => h other (List.mem_cons_of_mem _ hother)
    rw [gather, hkey, Option.bind_some, hanswer, Option.bind_some, hgathered]
    split <;> exact ⟨_, rfl⟩

end Evaluation

/-- Evaluation goes no deeper than there are generators. -/
theorem Chain.Clear.evaluates {chain : Chain} {top layer : Layer} {depth : Nat} {key : Key}
    (clear : chain.Clear top depth layer key) (steady : top.Steady) :
    ∃ answer, layer.evaluate (depth + 1) key = some answer := by
  induction depth generalizing chain layer key with
  | zero =>
    refine Evaluation.search_total clear steady fun clear slot => ?_
    have hroom := clear.room slot
    have hnesting := clear.nesting
    omega
  | succ depth ih =>
    refine Evaluation.search_total clear steady fun {scope outer key source eager} clear slot => ?_
    have hsteady := steady scope clear.known
    obtain ⟨gathered, hgathered⟩ : ∃ gathered,
        Evaluation.gather (Layer.evaluate (depth + 1) ⟨scope, outer⟩)
          (source.generator.parameters.map Parameter.supply) = some gathered := by
      refine Evaluation.gather_total fun supply hsupply => ?_
      obtain ⟨parameter, hparameter, rfl⟩ := List.mem_map.mp hsupply
      obtain ⟨dependency, hasked, -⟩ := hsteady.asks slot hparameter
      have declared := hsteady.declares key source eager false slot parameter hparameter _ hasked
      obtain ⟨answer, hanswer⟩ := ih (clear.push slot declared)
      exact ⟨dependency, answer, hasked, hanswer⟩
    unfold Evaluation.produce
    rw [hgathered, Option.bind_some]
    cases gathered with
    | error error => exact ⟨_, rfl⟩
    | ok arguments =>
      obtain ⟨yield, houtcome, -⟩ := hsteady.bodies key source eager false slot arguments
      dsimp only
      rw [houtcome 1]
      exact ⟨_, rfl⟩

end LayerGraph
