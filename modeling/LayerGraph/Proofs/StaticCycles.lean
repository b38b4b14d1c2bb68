import LayerGraph.Proofs.Calls
import LayerGraph.Proofs.Searching

/-! The cycles that are known when a layer is built are cycles.

A slot is flagged by going from generator to generator, by their places, and a cycle is shown by
going from type to type. Both follow the declared dependencies as far as generators of the layer are
behind them, so the one finds a cycle exactly when the other does. -/

namespace LayerGraph

open Relation

/-- A path of declared dependencies from a type back to a type that the same generator is behind.
Until it ends it goes through no type twice, and through no other one of that generator. -/
structure Scope.Cycle (scope : Scope) (key : Key) (source : Registered) (path : List Key) : Prop where
  long : 2 ≤ path.length
  head : path.head? = some key
  steps : path.IsChain fun current next => ∃ producer, scope.producer? current = some producer ∧
    next ∈ producer.generator.declarations.filterMap Declaration.key?
  last : ∃ last, path.getLast? = some last ∧ scope.producer? last = some source
  inner : ∀ other ∈ path.tail.dropLast, scope.producer? other ≠ some source
  distinct : path.dropLast.Nodup

namespace Scope

variable {scope : Scope} {key next : Key} {source : Registered} {eager cyclic : Bool}

theorem mem_dependencies : next ∈ scope.dependencies key ↔
    ∃ producer other, scope.producer? key = some producer ∧
      next ∈ producer.generator.declarations.filterMap Declaration.key? ∧
      scope.producer? next = some other := by
  rw [dependencies_eq]
  cases scope.producer? key with
  | none => simp
  | some producer =>
    simp only [Option.elim_some, List.mem_filter, Option.isSome_iff_exists, Option.some.injEq,
      exists_and_left, exists_eq_left']

theorem slot_of_producer? (h : scope.producer? key = some source) :
    ∃ slot eager cyclic, scope.slots.find? slot = some (.generated source eager cyclic) := by
  obtain ⟨backing, hbacking, hsource⟩ := Option.bind_eq_some_iff.mp h
  cases backing with
  | value value => cases hsource
  | generated other eager cyclic =>
    obtain rfl := Option.some.inj hsource
    unfold behind? at hbacking
    split at hbacking
    · next found hfound =>
      exact ⟨key, eager, cyclic, hfound.trans hbacking⟩
    · split at hbacking
      · next binding hbinding => exact ⟨binding.source, eager, cyclic, hbacking⟩
      · cases hbacking

def known (scope : Scope) : Finset Key := (scope.slots.keys ++ scope.bindings.keys).toFinset

theorem card_known_le (scope : Scope) : scope.known.card ≤ scope.slots.size + scope.bindings.size := by
  refine (List.toFinset_card_le _).trans ?_
  simp [Table.keys, Table.size]

theorem mem_known_of_producer? (h : scope.producer? key = some source) : key ∈ scope.known := by
  obtain ⟨backing, hbacking, -⟩ := Option.bind_eq_some_iff.mp h
  refine List.mem_toFinset.mpr (List.mem_append.mpr ?_)
  unfold behind? at hbacking
  split at hbacking
  · next found hfound => exact .inl (Table.mem_keys_iff.mpr ⟨_, hfound⟩)
  · split at hbacking
    · next binding hbinding => exact .inr (Table.mem_keys_iff.mpr ⟨_, hbinding⟩)
    · cases hbacking

theorem dependsOn_of_declared {other : Registered} (producer : scope.producer? key = some source)
    (declared : next ∈ source.generator.declarations.filterMap Declaration.key?)
    (behind : scope.producer? next = some other) : scope.DependsOn source.place other.place := by
  obtain ⟨slot, eager, cyclic, hslot⟩ := slot_of_producer? producer
  exact ⟨slot, source, eager, cyclic, hslot, rfl, next, declared, other, behind, rfl⟩

theorem transGen_of_path {other : Registered} {path : List Key} (long : 2 ≤ path.length)
    (head : path.head? = some key) (producer : scope.producer? key = some source)
    (steps : path.IsChain fun current next => ∃ producer, scope.producer? current = some producer ∧
      next ∈ producer.generator.declarations.filterMap Declaration.key?)
    (last : ∃ last, path.getLast? = some last ∧ scope.producer? last = some other) :
    TransGen scope.DependsOn source.place other.place := by
  induction path generalizing key source with
  | nil => cases head
  | cons current rest ih =>
    obtain rfl := Option.some.inj head
    cases rest with
    | nil => exact absurd long (by simp)
    | cons next further =>
      obtain ⟨⟨found, hfound, hdeclared⟩, hsteps⟩ := List.isChain_cons_cons.mp steps
      obtain rfl := Option.some.inj (producer.symm.trans hfound)
      obtain ⟨final, hfinal, hbehind⟩ := last
      cases further with
      | nil =>
        obtain rfl := Option.some.inj hfinal
        exact .single (dependsOn_of_declared producer hdeclared hbehind)
      | cons more furthest =>
        obtain ⟨⟨middle, hmiddle, -⟩, -⟩ := List.isChain_cons_cons.mp hsteps
        have hrest := ih (by simp) rfl hmiddle hsteps ⟨final, hfinal, hbehind⟩
        exact .head (dependsOn_of_declared producer hdeclared hmiddle) hrest

namespace Sound

theorem producer?_unique (sound : scope.Sound) {other : Registered}
    (first : scope.producer? key = some source) (second : scope.producer? next = some other)
    (same : source.place = other.place) : source = other := by
  obtain ⟨_, _, _, hslot⟩ := slot_of_producer? first
  obtain ⟨_, _, _, hother⟩ := slot_of_producer? second
  exact (sound.placed _ _ _ _ _ _ _ _ hslot hother same).1

theorem closes_iff (sound : scope.Sound) (producer : scope.producer? key = some source) :
    (scope.behind? next).any (Backing.isFedBy source.place) = true ↔
      scope.producer? next = some source := by
  rw [Resolution.any_isFedBy]
  constructor
  · intro h
    obtain ⟨other, eager, cyclic, hbehind, hplace⟩ := h
    have hother : scope.producer? next = some other := by
      rw [producer?, hbehind]
      rfl
    rw [hother, sound.producer?_unique hother producer hplace]
  · intro h
    obtain ⟨backing, hbacking, hsource⟩ := Option.bind_eq_some_iff.mp h
    cases backing with
    | value value => cases hsource
    | generated other eager cyclic =>
      obtain rfl := Option.some.inj hsource
      exact ⟨other, eager, cyclic, hbacking, rfl⟩

theorem path_of_transGen (sound : scope.Sound) (producer : scope.producer? key = some source)
    {place : Nat} (leads : TransGen scope.DependsOn source.place place) :
    ∃ last other, TransGen (fun current next => next ∈ scope.dependencies current) key last ∧
      scope.producer? last = some other ∧ other.place = place := by
  have hstep {current : Key} {found : Registered} {place : Nat}
      (behind : scope.producer? current = some found) (depends : scope.DependsOn found.place place) :
      ∃ next other, next ∈ scope.dependencies current ∧ scope.producer? next = some other ∧
        other.place = place := by
    obtain ⟨slot, owner, eager, cyclic, hslot, hplace, next, hdeclared, other, hother, rfl⟩ := depends
    have howner : scope.producer? slot = some owner := Chain.Fits.producer?_of_slot hslot
    obtain rfl := sound.producer?_unique howner behind hplace
    exact ⟨next, other, mem_dependencies.mpr ⟨owner, other, behind, hdeclared, hother⟩, hother, rfl⟩
  induction leads with
  | single depends =>
    obtain ⟨next, other, hedge, hother, hplace⟩ := hstep producer depends
    exact ⟨next, other, .single hedge, hother, hplace⟩
  | tail _ depends ih =>
    obtain ⟨middle, found, hpath, hfound, rfl⟩ := ih
    obtain ⟨next, other, hedge, hother, hplace⟩ := hstep hfound depends
    exact ⟨next, other, hpath.tail hedge, hother, hplace⟩

/-- A generator depends on itself exactly if the search comes back to it. -/
theorem cycle_cyclePath_iff (sound : scope.Sound) (producer : scope.producer? key = some source) :
    TransGen scope.DependsOn source.place source.place ↔
      scope.Cycle key source (scope.cyclePath key source) := by
  constructor
  · intro leads
    obtain ⟨last, other, hpath, hother, hplace⟩ := sound.path_of_transGen producer leads
    obtain rfl := sound.producer?_unique producer hother hplace.symm
    have bounded : ∀ node ∈ scope.known, ∀ next ∈ scope.dependencies node, next ∈ scope.known := by
      intro node _ next hnext
      obtain ⟨_, found, -, -, hfound⟩ := mem_dependencies.mp hnext
      exact mem_known_of_producer? hfound
    have room := Nat.le_succ_of_le scope.card_known_le
    have closing : Graph.Closing scope.dependencies
        (fun candidate => (scope.behind? candidate).any (Backing.isFedBy source.place)) key
        (scope.cyclePath key source) :=
      Graph.findPath_closing bounded (mem_known_of_producer? producer) room hpath
        ((sound.closes_iff producer).mpr hother)
    refine ⟨closing.long, closing.head, ?_, ?_, fun node hnode hsource => ?_, closing.distinct⟩
    · refine closing.steps.imp fun current next hedge => ?_
      obtain ⟨found, _, hfound, hdeclared, -⟩ := mem_dependencies.mp hedge
      exact ⟨found, hfound, hdeclared⟩
    · obtain ⟨final, hfinal, hcloses⟩ := closing.last
      exact ⟨final, hfinal, (sound.closes_iff producer).mp hcloses⟩
    · have hopens := closing.inner node hnode
      cases hopens.symm.trans ((sound.closes_iff producer).mpr hsource)
  · exact fun cycle => transGen_of_path cycle.long cycle.head producer cycle.steps cycle.last

end Sound

end Scope

def World.Unflagged (world : World) : Prop :=
  ∀ site value, world.memory.filled.find? site = some value → world.HasSlot site false

def Event.IsNoFilling : Event → Prop
  | .filled .. => False
  | _ => True

namespace World.Unflagged

variable {world : World}

theorem initial : World.Unflagged {} := fun site value h => by cases h

theorem lasts : World.Lasts Event.IsNoFilling World.Unflagged where
  logged _ := trivial
  later unflagged built _ _ _ events _ filled plain := by
    intro site value h
    rcases filled site value h with hold | hnew
    · exact (unflagged site value hold).grow (built ▸ List.suffix_rfl)
    · exact (plain _ hnew).elim

theorem of_same {after : World} (unflagged : world.Unflagged) (built : world.built <:+ after.built)
    (filled : after.memory.filled = world.memory.filled) : after.Unflagged := by
  intro site value h
  rw [filled] at h
  exact (unflagged site value h).grow built

theorem deliver (unflagged : world.Unflagged) {delivery : Site × Value}
    (hasSlot : world.HasSlot delivery.1 false) : (world.deliver delivery).Unflagged := by
  unfold World.deliver
  split
  · exact lasts.emit unflagged trivial
  · intro site value h
    have h : (world.memory.filled.add delivery.1 delivery.2).find? site = some value := h
    rw [Table.find?_add] at h
    split at h
    · next hsite => exact hsite ▸ hasSlot
    · exact unflagged site value h

end World.Unflagged

namespace Resolution

open Engine (Keeps)

variable {fuel : Nat} {layer : Layer} {key : Key} {chain : Chain} {context : Context}
  {world after : World} {result : Except Stop Answer}

theorem Ends.unflagged {source : Registered} {eager : Bool}
    {gathered : Except Stop (Except ResolutionError (List Argument))}
    (ends : Ends (Session.handler fuel) layer key source context world gathered result after)
    (keeps : ∀ {α : Type} (act : Act Command α),
      Keeps (fun world => world.Valid ∧ world.Unflagged) (Engine.run (Session.handler fuel) act))
    (slot : layer.scope.slots.find? key = some (.generated source eager false))
    (hosts : world.Hosts layer) (unflagged : world.Unflagged) : after.Unflagged := by
  have lasts := World.Unflagged.lasts
  have sound := hosts.1.sound layer hosts.2
  have hends := ends.keeps (fun world => world.Hosts layer ∧ world.Unflagged)
    (fun arguments h => ⟨h.1.enterBody arguments, lasts.enterBody h.2 arguments fun _ => trivial⟩)
    (fun _ _ => (keeps _).hosts layer) (fun _ _ _ h => ⟨h.1.emit _, lasts.emit h.2 trivial⟩) ?_
    ⟨hosts, unflagged⟩
  · exact hends.2
  · intro result between h
    refine finish_keeps (fun world => world.Hosts layer ∧ world.Unflagged) ?_
      (fun answer _ h => ⟨h.1.report _ _ _ answer,
        lasts.report h.2 _ _ _ answer fun _ _ => trivial⟩) h
    intro products _ delivery hdelivery between h
    obtain ⟨output, -, hfed, hsite⟩ := mem_deliveries.mp hdelivery
    obtain ⟨other, early, flag, hother, hplace⟩ := any_isFedBy.mp hfed
    obtain ⟨rfl, rfl, rfl⟩ :=
      sound.placed output other early flag key source eager false hother slot hplace
    have hasSlot : between.HasSlot delivery.1 false :=
      hsite ▸ ⟨_, h.1.2, rfl, other, early, hother⟩
    exact ⟨h.1.deliver hdelivery, h.2.deliver hasSlot⟩

theorem Resolves.unflagged_of_keeps
    (keeps : ∀ less ≤ fuel, ∀ {α : Type} (act : Act Command α),
      Keeps (fun world => world.Valid ∧ world.Unflagged) (Engine.run (Session.handler less) act))
    (resolves : Resolves fuel layer key chain context world result after)
    (hosts : world.Hosts layer) (unflagged : world.Unflagged) : after.Unflagged := by
  refine resolves.lasting World.Unflagged.lasts (fun _ _ _ => trivial) (fun _ _ => trivial)
    (fun _ _ _ _ => trivial) keeps ?_ ?_ (Nat.le_refl _) hosts unflagged
  · intro less layer key chain world source inquiries gathered between result after hless starts
      answers ends _ _ hhosts hbetween
    obtain ⟨eager, cyclic, slot, free⟩ := starts.slot
    obtain rfl := obstacle?_none free
    exact ends.unflagged (keeps _ hless) slot hhosts hbetween
  · intro less scope parent further key chain world value between _ _ _ _ hbetween
    unfold World.hoist
    split
    · exact hbetween.of_same List.suffix_rfl rfl
    · exact hbetween

end Resolution

theorem Event.IsIncidental.isNoFilling {event : Event} (h : event.IsIncidental) :
    event.IsNoFilling := by
  cases event <;> trivial

theorem World.Unflagged.invariant :
    Session.Invariant fun world => world.Valid ∧ world.Unflagged := by
  refine lasts.invariant_of_resolves (fun _ hevent => hevent.isNoFilling) (fun _ => trivial)
    (fun _ _ => trivial) (fun _ _ => trivial)
    (fun _ unflagged _ _ => unflagged.of_same (List.suffix_cons _ _) rfl) ?_
  intro fuel keeps layer key context world result after resolves hosts unflagged
  exact resolves.unflagged_of_keeps keeps hosts unflagged

namespace Session

open Resolution

theorem Reachable.empty_of_flagged {world : World} (reachable : Reachable world) {owner : Layer}
    {key : Key} {source : Registered} {eager : Bool} (known : owner ∈ world.built)
    (slot : owner.scope.slots.find? key = some (.generated source eager true)) :
    world.memory.filled.find? (owner.scope.site key) = none := by
  cases hfilled : world.memory.filled.find? (owner.scope.site key) with
  | none => rfl
  | some value =>
    obtain ⟨valid, unflagged⟩ :=
      reachable.keeps World.Unflagged.invariant ⟨.initial, .initial⟩
    cases (unflagged _ value hfilled).flag_eq ⟨valid, known⟩ slot

/-- Every static cycle report shows a cycle. In every layer a slot is flagged if and only if the
search for a path of declared dependencies back to the slot's generator finds one, so that what the
search falls back to is never shown unless it is one. Whenever an attempt to start the generator of
such a slot is refused for a cycle that the runs in progress do not show, the path is such a cycle,
and whoever asks for a flagged slot, from whatever layer, is told of one. -/
theorem static_cycle_reports_are_cycles {world : World} (reachable : Reachable world)
    {owner : Layer} (known : owner ∈ world.built) {key : Key} {source : Registered}
    {eager cyclic : Bool}
    (slot : owner.scope.slots.find? key = some (.generated source eager cyclic)) :
    (cyclic = true ↔ owner.scope.Cycle key source (owner.scope.cyclePath key source)) ∧
    (∀ chain found path,
      .attempted (owner.scope.site key) chain (some (.cyclic found path)) ∈ world.trace →
      chain.claims owner.scope.id key = false →
        cyclic = true ∧ found = key ∧ owner.scope.Cycle key source path) ∧
    (cyclic = true → ∀ layer ∈ world.built,
      (layer.owner? key).map Scope.id = some owner.scope.id → ∀ fuel context,
        ∃ path snapshot, owner.scope.Cycle key source path ∧
          (layer.request (resolver (fuel + 1)) key context world).1 =
            .ok (.error ⟨.cyclic key path, snapshot⟩)) := by
  have valid := reachable.valid
  have sound := valid.sound owner known
  have hcycle : cyclic = true ↔
      owner.scope.Cycle key source (owner.scope.cyclePath key source) :=
    (sound.flagged key source eager cyclic slot).trans
      (sound.cycle_cyclePath_iff (Chain.Fits.producer?_of_slot slot))
  refine ⟨hcycle, fun chain found path hattempted unclaimed => ?_, fun flagged layer hlayer hid fuel
    context => ?_⟩
  · obtain ⟨later, past, htrace⟩ := List.append_of_mem hattempted
    have hin : Attempted.In ⟨owner.scope.site key, chain, _, past⟩ world.trace :=
      ⟨later, htrace.symm⟩
    obtain ⟨top, htop, fuel, requested, start, context, call, hpath, hmeets⟩ := reachable.stems hin
    obtain ⟨hid, hkey⟩ := Site.mk.inj hmeets.site
    -- The scope in which the attempt was made is the owner's own.
    obtain ⟨outer, hbuilt⟩ := valid.built_of_mem_ancestry htop (Layer.belongs_of_path hpath).scope_mem
    have hsame := valid.unique _ hbuilt owner known hid.symm
    have hscope : call.layer.scope = owner.scope := by rw [← hsame]
    obtain ⟨other, early, flag, hslot, hobstacle⟩ := hmeets.slot
    have hkey : key = call.key := hkey
    rw [hscope, ← hkey, slot] at hslot
    obtain ⟨rfl, rfl, rfl⟩ := Backing.generated.inj (Option.some.inj hslot)
    have hchain : chain = call.runs.chain := hmeets.chain
    have hunclaimed : call.runs.chain.claims call.layer.scope.id call.key = false := by
      rw [hscope, ← hkey, ← hchain]
      exact unclaimed
    obtain ⟨rfl, rfl, rfl⟩ := obstacle?_cyclic hunclaimed hobstacle.symm
    rw [hscope, ← hkey]
    exact ⟨rfl, rfl, hcycle.mp rfl⟩
  · subst flagged
    have hself : owner.owner? key = some owner.scope := Layer.owner?_of_slot slot owner.outer
    have hsame := owner?_eq_of_id valid hlayer known (by rw [hid, hself]; rfl)
    have hhosts : (world.emit (.asked (layer.scope.site key))).Hosts layer :=
      ⟨valid.emit _, hlayer⟩
    have hresolves := resolver_resolves (fuel + 1) layer key [] context
      (world.emit (.asked (layer.scope.site key)))
    have hrefused := hresolves.refuses_cyclic hhosts reachable.coherent.imports
      (hsame.trans hself) slot (reachable.empty_of_flagged known slot) rfl
    obtain ⟨snapshot, hrequest⟩ := Layer.request_denied hrefused
    exact ⟨_, snapshot, hcycle.mp rfl, hrequest⟩

/-- Two generators that need each other, the one through an interface, the other an output that the
layer was not asked for. -/
def winding : List Registered :=
  [⟨0, "a", "make_a", [.required ⟨"I"⟩], [⟨"A"⟩, ⟨"C"⟩],
      fun _ _ => .done (.products [⟨⟨"A"⟩, "a"⟩, ⟨⟨"C"⟩, "c"⟩])⟩,
    ⟨1, "b", "make_b", [.optional ⟨"C"⟩], [⟨"B"⟩], fun _ _ => .done (.products [⟨⟨"B"⟩, "b"⟩])⟩]

def windingCast : Cast Command := ⟨"i", fun _ payload => .done payload⟩

def windingLayer : Layer :=
  { scope :=
      { id := 1, label := none, locked := false
        slots := ⟨[(⟨"A"⟩, .generated winding[0] false true),
          (⟨"C"⟩, .generated winding[0] false true), (⟨"B"⟩, .generated winding[1] false true)]⟩
        bindings := ⟨[(⟨"I"⟩, ⟨⟨"B"⟩, windingCast⟩)]⟩
        overridable := [], settings := {}, observers := [] }
    outer := [] }

def windingWorld : World :=
  (step 2 {} (.build "app" none
    ((winding.map fun source => .register (.generator source.generator false)) ++
      [.register (.interface ⟨"I"⟩ ⟨"B"⟩ windingCast)]))).2

theorem windingWorld_built : windingWorld.built = [windingLayer] := rfl

theorem static_cycle_reports_are_cycles_winding :
    windingLayer.scope.Cycle ⟨"A"⟩ winding[0] [⟨"A"⟩, ⟨"I"⟩, ⟨"C"⟩] ∧
    ∀ fuel context, ∃ path snapshot, windingLayer.scope.Cycle ⟨"A"⟩ winding[0] path ∧
      (windingLayer.request (resolver (fuel + 1)) ⟨"A"⟩ context windingWorld).1 =
        .ok (.error ⟨.cyclic ⟨"A"⟩ path, snapshot⟩) := by
  have reachable : Reachable windingWorld := .step .initial _ _
  have hknown : windingLayer ∈ windingWorld.built := by
    rw [windingWorld_built]
    exact List.mem_singleton.mpr rfl
  have slot : windingLayer.scope.slots.find? ⟨"A"⟩ = some (.generated winding[0] false true) := rfl
  obtain ⟨hflag, -, hrequest⟩ := static_cycle_reports_are_cycles reachable hknown slot
  exact ⟨hflag.mp rfl, hrequest rfl windingLayer hknown rfl⟩

end Session

end LayerGraph
