import LayerGraph.Proofs.Determinacy
import LayerGraph.Proofs.Simulation

/-! A request that a layer does not answer itself is answered as its owner answers it.

The owner of a type is the nearest layer around that has a slot or an interface for it. What is
asked of a layer further in comes to what it comes to in the owner, with the same runs and casts,
and the scopes in between have no part in it but to keep what was found. -/

namespace LayerGraph

def Event.isRouting : Event → Bool
  | .noticed _ (.delegated ..) | .logged (.delegating ..) | .logged (.slotHit ..) => true
  | _ => false

namespace World

/-- What has happened, apart from the ways of requests to slots. -/
def deeds (world : World) : List Event := world.trace.filter fun event => !event.isRouting

/-- Nothing has happened but that a request found its way. -/
def Routes (world after : World) : Prop :=
  ∃ events, after = { world with trace := events ++ world.trace } ∧
    ∀ event ∈ events, event.isRouting = true

theorem Routes.refl (world : World) : world.Routes world := ⟨[], rfl, by simp⟩

theorem Routes.trans {first second third : World} (hfirst : first.Routes second)
    (hsecond : second.Routes third) : first.Routes third := by
  obtain ⟨earlier, rfl, hearlier⟩ := hfirst
  obtain ⟨later, rfl, hlater⟩ := hsecond
  refine ⟨later ++ earlier, by simp, fun event hevent => ?_⟩
  rcases List.mem_append.mp hevent with hmem | hmem
  · exact hlater event hmem
  · exact hearlier event hmem

theorem Routes.delegate (world : World) (scope : Scope) (key : Key) (parent : Scope) :
    world.Routes (world.delegate scope key parent) := by
  refine ⟨.logged (.delegating scope.id key parent.id) ::
    (scope.observers.map (Event.noticed · (.delegated scope.id key parent.id))).reverse, rfl, ?_⟩
  intro event hevent
  rcases List.mem_cons.mp hevent with rfl | hnotice
  · rfl
  · obtain ⟨observer, -, rfl⟩ := List.mem_map.mp (List.mem_reverse.mp hnotice)
    rfl

theorem Routes.deeds {world after : World} (routes : world.Routes after) :
    after.deeds = world.deeds := by
  obtain ⟨events, rfl, hevents⟩ := routes
  have hnone : (events.filter fun event => !event.isRouting) = [] := by
    rw [List.filter_eq_nil_iff]
    intro event hevent
    simp [hevents event hevent]
  unfold World.deeds
  rw [List.filter_append, hnone, List.nil_append]

/-- The worlds differ in how a request was passed on, and in what scopes on its way have imported of
the type. -/
structure PassesOn (way : List Scope) (key : Key) (world after : World) : Prop where
  same : after = { world with
    memory := { world.memory with imported := after.memory.imported }, trace := after.trace }
  imported : ∀ site, (site.key = key → site.layer ∉ way.map Scope.id) →
    after.memory.imported.find? site = world.memory.imported.find? site
  deeds : after.deeds = world.deeds

namespace PassesOn

variable {way : List Scope} {key : Key} {world between after : World}

theorem of_routes (routes : world.Routes after) : World.PassesOn way key world after := by
  have hdeeds := routes.deeds
  obtain ⟨events, rfl, -⟩ := routes
  exact ⟨rfl, fun _ _ => rfl, hdeeds⟩

theorem of_routes_symm (routes : world.Routes after) : World.PassesOn way key after world := by
  have hdeeds := routes.deeds
  obtain ⟨events, rfl, -⟩ := routes
  exact ⟨rfl, fun _ _ => rfl, hdeeds.symm⟩

theorem trans (hfirst : World.PassesOn way key world between)
    (hsecond : World.PassesOn way key between after) : World.PassesOn way key world after where
  same := by rw [hsecond.same, hfirst.same]
  imported site h := (hsecond.imported site h).trans (hfirst.imported site h)
  deeds := hsecond.deeds.trans hfirst.deeds

theorem further (h : World.PassesOn way key world after) (scope : Scope) :
    World.PassesOn (scope :: way) key world after where
  same := h.same
  imported site hsite := h.imported site fun hkey hmem =>
    hsite hkey (List.mem_cons_of_mem _ hmem)
  deeds := h.deeds

theorem widen (h : World.PassesOn [] key world after) (way : List Scope) :
    World.PassesOn way key world after where
  same := h.same
  imported site _ := h.imported site fun _ => List.not_mem_nil
  deeds := h.deeds

theorem hoist (scope : Scope) (value : Value) :
    World.PassesOn (scope :: way) key world (world.hoist scope key value) := by
  unfold World.hoist
  split
  · refine ⟨rfl, fun site hsite => ?_, rfl⟩
    have hne : site ≠ scope.site key := by
      rintro rfl
      exact hsite rfl List.mem_cons_self
    change (world.memory.imported.add (scope.site key) value).find? site = _
    rw [Table.find?_add, if_neg hne]
  · exact ⟨rfl, fun _ _ => rfl, rfl⟩

end PassesOn

/-- The worlds agree on all that requests of the layers inside look at. -/
structure Resembles (inside : Nat → Prop) (world other : World) : Prop where
  signals : other.signals = world.signals
  tokens : other.tokens = world.tokens
  thread : other.thread = world.thread
  held : other.held = world.held
  filled : ∀ site, inside site.layer →
    other.memory.filled.find? site = world.memory.filled.find? site
  bound : ∀ site, inside site.layer →
    other.memory.bound.find? site = world.memory.bound.find? site
  imported : ∀ site, inside site.layer →
    other.memory.imported.find? site = world.memory.imported.find? site
  runs : ∀ layer place, inside layer →
    other.runs.find? (layer, place) = world.runs.find? (layer, place)
  casts : ∀ site, inside site.layer → other.casts.find? site = world.casts.find? site

def Shares (world other start start' : World) : Prop :=
  ∃ events, world.trace = events ++ start.trace ∧ other.trace = events ++ start'.trace

theorem Shares.emit {world other start start' : World} (h : world.Shares other start start')
    (event : Event) : (world.emit event).Shares (other.emit event) start start' := by
  obtain ⟨events, htrace, htrace'⟩ := h
  exact ⟨event :: events, congrArg _ htrace, congrArg _ htrace'⟩

end World

theorem Table.find?_add_congr {κ α : Type} [DecidableEq κ] {table other : Table κ α} {key found : κ}
    (value : α) (hkey : other.find? key = table.find? key)
    (hfound : other.find? found = table.find? found) :
    (other.add key value).find? found = (table.add key value).find? found := by
  rw [find?_add, find?_add, hkey, hfound]

theorem Table.find?_set_congr {κ α : Type} [DecidableEq κ] {table other : Table κ α} {key found : κ}
    (value : α) (hfound : other.find? found = table.find? found) :
    (other.set key value).find? found = (table.set key value).find? found := by
  rw [find?_set, find?_set, hfound]

namespace Simulation

theorem shift (old old' : List Event) : Simulation id (fun _ => True)
    fun world other => ∃ events, world.trace = events ++ old ∧
      other = { world with trace := events ++ old' } where
  signals := by rintro world other ⟨events, -, rfl⟩; rfl
  tokens := by rintro world other ⟨events, -, rfl⟩; rfl
  thread := by rintro world other ⟨events, -, rfl⟩; rfl
  held := by rintro world other ⟨events, -, rfl⟩; rfl
  filled := by rintro world other site ⟨events, -, rfl⟩ -; rfl
  bound := by rintro world other site ⟨events, -, rfl⟩ -; rfl
  runs := by rintro world other layer place ⟨events, -, rfl⟩ -; rfl
  casts := by rintro world other site ⟨events, -, rfl⟩ -; rfl
  unknown := by rintro world other site ⟨events, -, rfl⟩ - unknown; exact unknown
  emit := by
    rintro world other event ⟨events, htrace, rfl⟩
    exact ⟨event :: events, congrArg _ htrace, rfl⟩
  signal := by rintro world other signals ⟨events, htrace, rfl⟩; exact ⟨events, htrace, rfl⟩
  hold := by rintro world other held ⟨events, htrace, rfl⟩; exact ⟨events, htrace, rfl⟩
  fill := by rintro world other site value ⟨events, htrace, rfl⟩ -; exact ⟨events, htrace, rfl⟩
  bind := by rintro world other site value ⟨events, htrace, rfl⟩ -; exact ⟨events, htrace, rfl⟩
  countRun := by
    rintro world other layer place run ⟨events, htrace, rfl⟩ -
    exact ⟨events, htrace, rfl⟩
  countCast := by rintro world other site call ⟨events, htrace, rfl⟩ -; exact ⟨events, htrace, rfl⟩
  imported := by
    rintro world other layer key value fuel chain context h - - - unowned present
    rw [Layer.hoisting_id]
    obtain ⟨events, htrace, rfl⟩ := h
    exact ⟨_, .imported unowned present, events, htrace, rfl⟩
  hoist := by
    rintro world other layer key value ⟨events, htrace, rfl⟩ - - - -
    have hscope : layer.scope.hoisting id = layer.scope := rfl
    rw [hscope]
    unfold Resolution.hoisted World.hoist
    split
    · exact ⟨rfl, events, htrace, rfl⟩
    · exact ⟨rfl, events, htrace, rfl⟩

theorem isolate (inside : Nat → Prop) (start start' : World) : Simulation id inside
    fun world other => world.Resembles inside other ∧ world.Shares other start start' where
  signals h := h.1.signals
  tokens h := h.1.tokens
  thread h := h.1.thread
  held h := h.1.held
  filled _ h known := h.1.filled _ known
  bound _ h known := h.1.bound _ known
  runs h known := h.1.runs _ _ known
  casts _ h known := h.1.casts _ known
  unknown h known unknown := (h.1.imported _ known).trans unknown
  emit event h := ⟨{ h.1 with }, h.2.emit event⟩
  signal signals h := ⟨{ h.1 with signals := rfl }, h.2⟩
  hold held h := ⟨{ h.1 with held := rfl }, h.2⟩
  fill site value h known := by
    refine ⟨{ h.1 with filled := fun found hfound => ?_ }, h.2⟩
    exact Table.find?_add_congr value (h.1.filled _ known) (h.1.filled found hfound)
  bind site value h known := by
    refine ⟨{ h.1 with bound := fun found hfound => ?_ }, h.2⟩
    exact Table.find?_add_congr value (h.1.bound _ known) (h.1.bound found hfound)
  countRun place run h known := by
    refine ⟨{ h.1 with runs := fun layer other hlayer => ?_ }, h.2⟩
    exact Table.find?_set_congr run (h.1.runs layer other hlayer)
  countCast call h known := by
    refine ⟨{ h.1 with casts := fun found hfound => ?_ }, h.2⟩
    exact Table.find?_set_congr call (h.1.casts found hfound)
  imported := by
    intro world other layer key value fuel chain context h hosts faithful known unowned present
    rw [Layer.hoisting_id]
    have hpresent := h.1.imported (layer.scope.site key) (known layer.scope List.mem_cons_self)
    exact ⟨other, .imported unowned (hpresent.trans present), h⟩
  hoist := by
    intro world other layer key value h hosts faithful known hcell
    have hscope : layer.scope.hoisting id = layer.scope := rfl
    rw [hscope]
    have hafter : (world.hoist layer.scope key value).Resembles inside
        (other.hoist layer.scope key value) := by
      unfold World.hoist
      split
      · refine { h.1 with imported := fun found hfound => ?_ }
        exact Table.find?_add_congr value (h.1.imported (layer.scope.site key) known)
          (h.1.imported found hfound)
      · exact h.1
    have hvalue := hafter.imported (layer.scope.site key) known
    refine ⟨?_, hafter, ?_⟩
    · unfold Resolution.hoisted
      rw [hvalue]
    · unfold World.hoist
      split
      · exact h.2
      · exact h.2

end Simulation

theorem World.Hosts.further {world : World} {layer : Layer} {below : List Scope} {scope : Scope}
    {outer : List Scope} (hosts : world.Hosts layer)
    (hancestry : layer.ancestry = below ++ scope :: outer) : world.Hosts ⟨scope, outer⟩ := by
  induction below generalizing layer with
  | nil =>
    obtain ⟨inner, around⟩ := layer
    obtain ⟨rfl, rfl⟩ := List.cons.inj hancestry
    exact hosts
  | cons first below ih =>
    obtain ⟨inner, around⟩ := layer
    obtain ⟨rfl, hrest⟩ := List.cons.inj hancestry
    cases around with
    | nil => simp at hrest
    | cons parent further => exact ih hosts.parent hrest

namespace Layer

theorem owner?_of_append {layer : Layer} {key : Key} {below : List Scope} {scope : Scope}
    {outer : List Scope} (hancestry : layer.ancestry = below ++ scope :: outer)
    (unowned : ∀ inner ∈ below, inner.owns key = false) (owned : scope.owns key = true) :
    layer.owner? key = some scope := by
  unfold owner?
  have hbelow : below.find? (·.owns key) = none := by
    rw [List.find?_eq_none]
    intro inner hinner
    simp [unowned inner hinner]
  rw [hancestry, List.find?_append, hbelow, Option.none_or]
  exact List.find?_cons_of_pos owned

/-- A layer can resolve the types that have an owner. -/
theorem canResolve_eq {layer : Layer} {world : World} (hosts : world.Hosts layer)
    (faithful : world.Faithful) (key : Key) :
    layer.canResolve world.memory key = (layer.owner? key).isSome := by
  obtain ⟨scope, outer⟩ := layer
  induction outer generalizing scope with
  | nil =>
    cases howns : scope.owns key with
    | true => simp [canResolve, owner?, ancestry, Scope.knows, howns]
    | false =>
      cases himported : world.memory.imported.find? (scope.site key) with
      | none =>
        simp [canResolve, owner?, ancestry, Scope.knows, howns, Table.contains, himported]
      | some value =>
        have hcell := faithful _ hosts.2 key value himported
        obtain ⟨owner, howner, -⟩ := Option.bind_eq_some_iff.mp hcell
        rw [howner]
        simp [canResolve, ancestry, Scope.knows, Table.contains, himported]
  | cons parent further ih =>
    cases howns : scope.owns key with
    | true => simp [canResolve, owner?, ancestry, Scope.knows, howns]
    | false =>
      cases himported : world.memory.imported.find? (scope.site key) with
      | none =>
        have hparent := ih parent hosts.parent
        rw [owner?_of_unowned howns, ← hparent]
        simp [canResolve, ancestry, Scope.knows, howns, Table.contains, himported]
      | some value =>
        have hcell := faithful _ hosts.2 key value himported
        obtain ⟨owner, howner, -⟩ := Option.bind_eq_some_iff.mp hcell
        rw [howner]
        simp [canResolve, ancestry, Scope.knows, Table.contains, himported]

end Layer

namespace Resolution

variable {fuel : Nat} {layer : Layer} {scope : Scope} {outer : List Scope} {key : Key}
  {chain : Chain} {context : Context} {world : World}

theorem resolver_of_ownerless (hosts : world.Hosts layer) (faithful : world.Faithful)
    (ownerless : layer.owner? key = none) :
    ∃ after, Session.resolver fuel layer key chain context world =
      (.ok (.error (.notFound key)), after) ∧ world.Routes after := by
  obtain ⟨scope, outer⟩ := layer
  have hlost {scope : Scope} {outer : List Scope} {world : World}
      (hosts : world.Hosts ⟨scope, outer⟩) (faithful : world.Faithful)
      (ownerless : Layer.owner? ⟨scope, outer⟩ key = none) :
      scope.owns key = false ∧ world.memory.imported.find? (scope.site key) = none := by
    refine ⟨Bool.eq_false_iff.mpr (List.find?_eq_none.mp ownerless scope List.mem_cons_self), ?_⟩
    refine Option.eq_none_iff_forall_ne_some.mpr fun value himported => ?_
    have hcell := faithful _ hosts.2 key value himported
    rw [Layer.cell?, ownerless] at hcell
    cases hcell
  induction outer generalizing scope world with
  | nil =>
    obtain ⟨unowned, unknown⟩ := hlost hosts faithful ownerless
    refine ⟨world, ?_, .refl world⟩
    rw [resolver_of_unowned unowned, unknown]
  | cons parent further ih =>
    obtain ⟨unowned, unknown⟩ := hlost hosts faithful ownerless
    have hownerless := (Layer.owner?_of_unowned unowned further).symm.trans ownerless
    obtain ⟨after, hresolver, hroutes⟩ :=
      @ih (world.delegate scope key parent) faithful parent (hosts.delegate _ _ _).parent hownerless
    refine ⟨after, ?_, (World.Routes.delegate world scope key parent).trans hroutes⟩
    rw [resolver_of_unowned unowned, unknown]
    dsimp only
    rw [hresolver]

theorem resolver_of_cell {value : Value} (hcell : scope.cell? world.memory key = some value)
    (fuel : Nat) (outer : List Scope) (chain : Chain) (context : Context) :
    ∃ after, Session.resolver fuel ⟨scope, outer⟩ key chain context world =
      (.ok (.ok value), after) ∧ world.Routes after := by
  unfold Scope.cell? at hcell
  split at hcell
  · next backing slot =>
    refine ⟨_, (Resolves.stored slot hcell).eq_resolver, ?_⟩
    exact ⟨[.logged (.slotHit scope.id key)], rfl, by simp [Event.isRouting]⟩
  · next noSlot =>
    split at hcell
    · next hcontains =>
      obtain ⟨binding, interface⟩ := Option.isSome_iff_exists.mp hcontains
      exact ⟨world, (Resolves.bound noSlot interface hcell).eq_resolver, .refl world⟩
    · cases hcell

theorem resolver_of_routes {after : World} (routes : world.Routes after)
    (silent : ∀ scope ∈ layer.ancestry, scope.Silent) (hosts : world.Hosts layer)
    (faithful : world.Faithful) (fuel : Nat) (key : Key) (chain : Chain) (context : Context) :
    (Session.resolver fuel layer key chain context after).1 =
        (Session.resolver fuel layer key chain context world).1 ∧
      World.PassesOn [] key (Session.resolver fuel layer key chain context world).2
        (Session.resolver fuel layer key chain context after).2 := by
  have hdeeds := routes.deeds
  obtain ⟨earlier, rfl, -⟩ := routes
  have hresolves := resolver_resolves fuel layer key chain context world
  obtain ⟨last, hfollows, events, htrace, rfl⟩ := hresolves.follow
    (Simulation.shift world.trace (earlier ++ world.trace)) silent (fun _ _ => trivial) hosts
    faithful (.inl rfl) ⟨[], rfl, rfl⟩
  rw [Layer.hoisting_id, Nat.add_zero, List.nil_append] at hfollows
  rw [hfollows.eq_resolver]
  refine ⟨rfl, rfl, fun _ _ => rfl, ?_⟩
  change (earlier ++ world.trace).filter _ = world.trace.filter _ at hdeeds
  unfold World.deeds
  rw [htrace]
  change (events ++ (earlier ++ world.trace)).filter _ = _
  rw [List.filter_append, hdeeds, ← List.filter_append]

/-- What a layer is asked for comes to what it comes to in the owner of the type. -/
theorem resolver_of_owner {below : List Scope}
    (hancestry : layer.ancestry = below ++ scope :: outer)
    (unowned : ∀ inner ∈ below, inner.owns key = false) (owned : scope.owns key = true)
    (silent : ∀ scope ∈ layer.ancestry, scope.Silent) (hosts : world.Hosts layer)
    (faithful : world.Faithful) (fuel : Nat) (chain : Chain) (context : Context) :
    (Session.resolver fuel layer key chain context world).1 =
        (Session.resolver fuel ⟨scope, outer⟩ key chain context world).1 ∧
      World.PassesOn below key (Session.resolver fuel ⟨scope, outer⟩ key chain context world).2
        (Session.resolver fuel layer key chain context world).2 := by
  induction below generalizing layer world with
  | nil =>
    obtain ⟨inner, around⟩ := layer
    obtain ⟨rfl, rfl⟩ := List.cons.inj hancestry
    exact ⟨rfl, .of_routes (.refl _)⟩
  | cons first below ih =>
    have howner := Layer.owner?_of_append hancestry unowned owned
    obtain ⟨inner, around⟩ := layer
    obtain ⟨rfl, hrest⟩ := List.cons.inj hancestry
    have hfirst := unowned inner List.mem_cons_self
    rw [resolver_of_unowned hfirst]
    cases himported : world.memory.imported.find? (inner.site key) with
    | some value =>
      have hcell := faithful _ hosts.2 key value himported
      rw [Layer.cell?, howner, Option.bind_some] at hcell
      obtain ⟨after, hresolver, hroutes⟩ := resolver_of_cell hcell fuel outer chain context
      rw [hresolver]
      exact ⟨rfl, .of_routes_symm hroutes⟩
    | none =>
      obtain ⟨parent, further, rfl⟩ : ∃ parent further, around = parent :: further := by
        cases around with
        | nil => simp at hrest
        | cons parent further => exact ⟨parent, further, rfl⟩
      have hrest : Layer.ancestry ⟨parent, further⟩ = below ++ scope :: outer := hrest
      have hdelegate := hosts.delegate inner key parent
      have hsilent : ∀ scope ∈ Layer.ancestry ⟨parent, further⟩, scope.Silent :=
        fun other h => silent other (List.mem_cons_of_mem _ h)
      obtain ⟨hparent, hpasses⟩ := @ih _ (world.delegate inner key parent) hrest
        (fun other h => unowned other (List.mem_cons_of_mem _ h)) hsilent hdelegate.parent faithful
      -- The owner answers in the same way whether or not the request has been passed on to it.
      have houter : ∀ other ∈ Layer.ancestry ⟨scope, outer⟩, other.Silent := by
        intro other hother
        refine silent other ?_
        rw [hancestry]
        exact List.mem_append_right _ hother
      obtain ⟨hsame, hshift⟩ := resolver_of_routes (World.Routes.delegate world inner key parent)
        houter (hosts.further hancestry) faithful fuel key chain context
      have hresolves := resolver_resolves fuel ⟨parent, further⟩ key chain context
        (world.delegate inner key parent)
      have hhosts := hresolves.hosts hdelegate.parent hdelegate
      obtain ⟨hfaithful, hcell⟩ := hresolves.faithful hdelegate.parent faithful
      rw [hsame] at hparent
      dsimp only
      revert hparent hpasses hhosts hfaithful hcell
      rcases Session.resolver fuel ⟨parent, further⟩ key chain context
        (world.delegate inner key parent) with ⟨result, between⟩
      intro hparent hpasses hhosts hfaithful hcell
      have hpassed := (hshift.widen below).trans hpasses
      rcases result with stop | (error | value)
      · exact ⟨hparent, hpassed.further inner⟩
      · exact ⟨hparent, hpassed.further inner⟩
      · have hcell : Layer.cell? ⟨inner, parent :: further⟩ between.memory key = some value :=
          (Layer.cell?_of_unowned hfirst further between.memory).trans (hcell value rfl)
        dsimp only
        rw [hfaithful.hoisted_eq hhosts hcell]
        exact ⟨hparent, (hpassed.further inner).trans (.hoist inner value)⟩

end Resolution

namespace Session

open Resolution

/-- The worlds that types are asked for in: those that commands come to on their way, those that
come about while a request is being answered, and those in which a body or a cast begins. -/
inductive Arises : World → Prop
  | initial : Arises {}
  | course {fuel start seen world} (arises : Arises start)
      (course : Course fuel start seen world) : Arises world
  | ask {world layer} (arises : Arises world) (known : layer ∈ world.built) (key : Key) :
      Arises (world.emit (.asked (layer.scope.site key)))
  | delegate {world} (arises : Arises world) (scope : Scope) (key : Key) (parent : Scope) :
      Arises (world.delegate scope key parent)
  | inquiry {fuel scope outer key chain context world source inquiries gathered between inquiry}
      (arises : Arises world) (known : ⟨scope, outer⟩ ∈ world.built)
      (starts : Starts ⟨scope, outer⟩ key chain context world source inquiries gathered between)
      (answers : ∀ inquiry ∈ inquiries,
        Resolves fuel ⟨scope, outer⟩ inquiry.key (scope.frame key source :: chain) context
          inquiry.before inquiry.result inquiry.after)
      (asked : inquiry ∈ inquiries) : Arises inquiry.before
  | body {fuel scope outer key chain context world source inquiries arguments between}
      (arises : Arises world) (known : ⟨scope, outer⟩ ∈ world.built)
      (starts : Starts ⟨scope, outer⟩ key chain context world source inquiries
        (.ok (.ok arguments)) between)
      (answers : ∀ inquiry ∈ inquiries,
        Resolves fuel ⟨scope, outer⟩ inquiry.key (scope.frame key source :: chain) context
          inquiry.before inquiry.result inquiry.after) :
      Arises (between.enterBody scope source arguments)
  | cast {fuel scope outer key chain context world binding value between} (arises : Arises world)
      (known : ⟨scope, outer⟩ ∈ world.built) (noSlot : scope.slots.find? key = none)
      (interface : scope.bindings.find? key = some binding)
      (unbound : world.memory.bound.find? (scope.site key) = none)
      (answer : Resolves fuel ⟨scope, outer⟩ binding.source chain context world (.ok (.ok value))
        between) :
      Arises (between.enterCast (scope.site key) binding value.payload)

theorem Reachable.arises {world : World} (reachable : Reachable world) : Arises world := by
  induction reachable with
  | initial => exact .initial
  | @step world reachable fuel command ih =>
    obtain ⟨seen, course⟩ := perform_course fuel command world
    exact ih.course course

/-- What commands and requests keep holds of every world that types are asked for in, if it does not
look beyond the layers and the memory. -/
theorem Arises.keeps {holds : World → Prop} {world : World} (arises : Arises world)
    (initial : holds {})
    (course : ∀ {fuel start seen world}, Arises start → Course fuel start seen world →
      start.Valid → holds start → holds world)
    (resolves : ∀ {fuel layer key chain context world result after}, Arises world →
      Resolves fuel layer key chain context world result after → world.Hosts layer →
        holds world → holds after)
    (same : ∀ {world after : World}, holds world → world.Advances after →
      after.built = world.built → after.memory = world.memory → holds after) :
    world.Valid ∧ holds world := by
  induction arises with
  | initial => exact ⟨.initial, initial⟩
  | course arises course' ih =>
    have hinvariant := World.Valid.invariant
    have hvalid := (hinvariant.course (fun less _ => hinvariant.handler less) course' ih.1).1
    exact ⟨hvalid, course arises course' ih.1 ih.2⟩
  | ask arises known key ih => exact ⟨ih.1.emit _, same ih.2 (.emit _ _) rfl rfl⟩
  | delegate arises scope key parent ih =>
    exact ⟨ih.1.of_same rfl rfl rfl rfl,
      same ih.2 (World.Grows.delegate _ _ _ _).toAdvances rfl rfl⟩
  | @inquiry fuel scope outer key chain context world source inquiries gathered between inquiry
      arises known starts answers asked ih =>
    obtain ⟨hbefore, -⟩ := starts.hosted holds answers
      (fun inquiry hinquiry => resolves (.inquiry arises known starts answers hinquiry)
        (answers inquiry hinquiry)) ⟨ih.1, known⟩ (same ih.2 (.start _ _ _ _ _) rfl rfl)
    exact ⟨(hbefore inquiry asked).1.1, (hbefore inquiry asked).2⟩
  | @body fuel scope outer key chain context world source inquiries arguments between arises known
      starts answers ih =>
    obtain ⟨-, hhosts, hbetween⟩ := starts.hosted holds answers
      (fun inquiry hinquiry => resolves (.inquiry arises known starts answers hinquiry)
        (answers inquiry hinquiry)) ⟨ih.1, known⟩ (same ih.2 (.start _ _ _ _ _) rfl rfl)
    exact ⟨(hhosts.enterBody arguments).1,
      same hbetween (World.Grows.enterBody _ _ _ _).toAdvances rfl rfl⟩
  | @cast fuel scope outer key chain context world binding value between arises known noSlot
      interface unbound answer ih =>
    have hosts : world.Hosts ⟨scope, outer⟩ := ⟨ih.1, known⟩
    exact ⟨((answer.hosts hosts hosts).enterCast _ _ _).1,
      same (resolves arises answer hosts ih.2) (World.Grows.enterCast _ _ _ _).toAdvances rfl rfl⟩

theorem Arises.faithful {world : World} (arises : Arises world) :
    world.Valid ∧ world.Faithful := by
  have hinvariant := World.Faithful.invariant
  refine arises.keeps (fun layer h => by cases h) (fun _ course valid faithful => ?_)
    (fun _ resolves hosts faithful => (resolves.faithful hosts faithful).1) ?_
  · exact (hinvariant.course (fun less _ => hinvariant.handler less) course
      ⟨valid, faithful⟩).1.2
  · exact fun faithful _ built memory =>
      faithful.of_same built (memory ▸ .refl _) (by rw [memory])

/-- Requests are delegated to the owner. Let no code give commands. A request for a type without an
owner does nothing but find its way. Any other comes to what it comes to in the nearest layer that
owns the type, and leaves the same world behind, but for what the scopes in between have imported of
the type; and what it comes to in the owner does not depend on any other layers than the owner and
those around it. What a scope has imported it does not own, and it is what the owner further out has
in its cell. So a layer can resolve a type if the type has an owner, at whatever moment. -/
theorem requests_are_delegated {world : World} (arises : Arises world)
    (silent : ∀ layer ∈ world.built, layer.scope.Silent) :
    (∀ layer ∈ world.built, ∀ key, layer.owner? key = none → ∀ fuel chain context, ∃ after,
      resolver fuel layer key chain context world = (.ok (.error (.notFound key)), after) ∧
        world.Routes after) ∧
    (∀ layer ∈ world.built, ∀ key below scope outer, layer.ancestry = below ++ scope :: outer →
      (∀ inner ∈ below, inner.owns key = false) → scope.owns key = true →
        ∀ fuel chain context,
          (resolver fuel layer key chain context world).1 =
              (resolver fuel ⟨scope, outer⟩ key chain context world).1 ∧
          World.PassesOn below key (resolver fuel ⟨scope, outer⟩ key chain context world).2
            (resolver fuel layer key chain context world).2 ∧
          ∀ other, World.Resembles (· ∈ (scope :: outer).map Scope.id) world other →
            (resolver fuel ⟨scope, outer⟩ key chain context other).1 =
                (resolver fuel ⟨scope, outer⟩ key chain context world).1 ∧
            World.Shares (resolver fuel ⟨scope, outer⟩ key chain context world).2
              (resolver fuel ⟨scope, outer⟩ key chain context other).2 world other) ∧
    (∀ site value, world.memory.imported.find? site = some value →
      ∃ layer ∈ world.built, layer.scope.id = site.layer ∧ layer.scope.owns site.key = false ∧
        ∃ owner ∈ layer.outer, layer.owner? site.key = some owner ∧
          owner.cell? world.memory site.key = some value) ∧
    ∀ layer key, ∀ moment, Arises moment → layer ∈ moment.built →
      (layer.canResolve moment.memory key = true ↔ ∃ owner, layer.owner? key = some owner) := by
  obtain ⟨valid, faithful⟩ := arises.faithful
  refine ⟨?_, ?_, ?_, ?_⟩
  · intro layer hlayer key ownerless fuel chain context
    exact resolver_of_ownerless ⟨valid, hlayer⟩ faithful ownerless
  · intro layer hlayer key below scope outer hancestry unowned owned fuel chain context
    have hosts : world.Hosts layer := ⟨valid, hlayer⟩
    have hsilent : ∀ scope ∈ layer.ancestry, scope.Silent := by
      intro inner hinner
      obtain ⟨around, hbuilt⟩ := valid.built_of_mem_ancestry hlayer hinner
      exact silent _ hbuilt
    obtain ⟨hresult, hpasses⟩ := resolver_of_owner hancestry unowned owned hsilent hosts faithful
      fuel chain context
    refine ⟨hresult, hpasses, fun other hresembles => ?_⟩
    have houter : ∀ inner ∈ Layer.ancestry ⟨scope, outer⟩, inner.Silent := by
      intro inner hinner
      refine hsilent inner ?_
      rw [hancestry]
      exact List.mem_append_right _ hinner
    have hresolves := resolver_resolves fuel ⟨scope, outer⟩ key chain context world
    obtain ⟨last, hfollows, -, hshares⟩ := hresolves.follow
      (Simulation.isolate (· ∈ (scope :: outer).map Scope.id) world other) houter
      (fun inner hinner => List.mem_map_of_mem hinner) (hosts.further hancestry) faithful (.inl rfl)
      ⟨hresembles, [], rfl, rfl⟩
    rw [Layer.hoisting_id, Nat.add_zero] at hfollows
    rw [hfollows.eq_resolver]
    exact ⟨rfl, hshares⟩
  · intro site value himported
    obtain ⟨layer, hlayer, hid, unowned⟩ := valid.imported site value himported
    have hsite : layer.scope.site site.key = site := by
      obtain ⟨id, key⟩ := site
      exact congrArg (Site.mk · key) hid
    have hcell := faithful layer hlayer site.key value (hsite ▸ himported)
    obtain ⟨owner, howner, hvalue⟩ := Option.bind_eq_some_iff.mp hcell
    refine ⟨layer, hlayer, hid, unowned, owner, ?_, howner, hvalue⟩
    have howned : owner.owns site.key = true :=
      List.find?_some (p := fun scope : Scope => scope.owns site.key) howner
    rcases List.mem_cons.mp (List.mem_of_find?_eq_some howner) with rfl | hmem
    · exact absurd howned (Bool.eq_false_iff.mp unowned)
    · exact hmem
  · intro layer key moment hmoment hlayer
    obtain ⟨hvalid, hfaithful⟩ := hmoment.faithful
    rw [Layer.canResolve_eq ⟨hvalid, hlayer⟩ hfaithful]
    exact Option.isSome_iff_exists

/-- A generator whose argument a layer further in has a value of its own for. -/
def echo : Registered :=
  ⟨0, "echo", "make_b", [.required ⟨"A"⟩], [⟨"B"⟩],
    fun _ arguments => .done (.products [⟨⟨"B"⟩, " ".intercalate (arguments.map Argument.text)⟩])⟩

def coveredScope : Scope :=
  { id := 1, label := none, locked := false
    slots := ⟨[(⟨"A"⟩, .value ⟨⟨"A"⟩, "outer"⟩), (⟨"B"⟩, .generated echo false false)]⟩
    bindings := {}, overridable := [], settings := {}, observers := [] }

theorem coveredScope_silent : coveredScope.Silent := by
  refine ⟨fun key source eager cyclic slot run arguments => ?_, fun key binding h => by cases h⟩
  have hmem := Table.mem_entries_of_find? slot
  simp only [coveredScope, List.mem_cons, List.not_mem_nil, or_false, Prod.mk.injEq,
    reduceCtorEq, and_false, false_or, Backing.generated.injEq] at hmem
  obtain ⟨-, rfl, -⟩ := hmem
  trivial

def coveringScope : Scope :=
  { id := 2, label := none, locked := false, slots := ⟨[(⟨"A"⟩, .value ⟨⟨"A"⟩, "inner"⟩)]⟩
    bindings := {}, overridable := [], settings := {}, observers := [] }

def coveredWorld : World :=
  (step 2 (step 2 {} (.build "outer" none [.register (.value ⟨"A"⟩ "outer"),
      .register (.generator echo.generator false)])).2
    (.build "inner" (some "outer") [.register (.value ⟨"A"⟩ "inner")])).2

theorem coveredWorld_built :
    coveredWorld.built = [⟨coveringScope, [coveredScope]⟩, ⟨coveredScope, []⟩] := rfl

theorem requests_are_delegated_covered :
    Arises coveredWorld ∧ (∀ layer ∈ coveredWorld.built, layer.scope.Silent) ∧
    (∀ fuel chain context,
      (resolver fuel ⟨coveringScope, [coveredScope]⟩ ⟨"B"⟩ chain context coveredWorld).1 =
        (resolver fuel ⟨coveredScope, []⟩ ⟨"B"⟩ chain context coveredWorld).1) ∧
    (resolver 1 ⟨coveringScope, [coveredScope]⟩ ⟨"B"⟩ [] {} coveredWorld).1 =
      .ok (.ok ⟨⟨"B"⟩, "outer"⟩) := by
  have arises : Arises coveredWorld := Reachable.arises (.step (.step .initial _ _) _ _)
  have silent : ∀ layer ∈ coveredWorld.built, layer.scope.Silent := by
    intro layer hlayer
    rw [coveredWorld_built] at hlayer
    simp only [List.mem_cons, List.not_mem_nil, or_false] at hlayer
    rcases hlayer with rfl | rfl
    · refine ⟨fun key source eager cyclic slot run arguments => ?_, fun key binding h => by cases h⟩
      have hmem := Table.mem_entries_of_find? slot
      simp [coveringScope] at hmem
    · exact coveredScope_silent
  obtain ⟨-, hdelegated, -⟩ := requests_are_delegated arises silent
  refine ⟨arises, silent, fun fuel chain context => ?_, by decide +kernel⟩
  have known : ⟨coveringScope, [coveredScope]⟩ ∈ coveredWorld.built := by
    rw [coveredWorld_built]
    exact List.mem_cons_self
  exact (hdelegated ⟨coveringScope, [coveredScope]⟩ known ⟨"B"⟩ [coveringScope] coveredScope [] rfl
    (by decide) (by decide) fuel chain context).1

end Session

end LayerGraph
