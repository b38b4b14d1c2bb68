import LayerGraph.Proofs.Precedence

/-! What a request may touch.

From a type at a layer a request goes on to the layer that owns it, from an interface to its source,
and from a slot to the types that its generator asks for. Nothing else is started, and nothing else
gets a value. -/

namespace LayerGraph

open Relation

/-- What a request for a type in a layer may ask for next. -/
inductive Layer.Consults : Layer × Key → Layer × Key → Prop
  | outward {scope parent further key} (unowned : scope.owns key = false) :
      Consults (⟨scope, parent :: further⟩, key) (⟨parent, further⟩, key)
  | source {layer key binding} (noSlot : layer.scope.slots.find? key = none)
      (interface : layer.scope.bindings.find? key = some binding) :
      Consults (layer, key) (layer, binding.source)
  | supplied {layer key source eager cyclic parameter asked}
      (slot : layer.scope.slots.find? key = some (.generated source eager cyclic))
      (listed : parameter ∈ source.generator.parameters)
      (asks : parameter.supply.key? = some asked) : Consults (layer, key) (layer, asked)

/-- A request for a type in a layer may come to be one for another type in another layer. -/
def Layer.Reaches (layer : Layer) (key : Key) (other : Layer) (asked : Key) : Prop :=
  ReflTransGen Consults (layer, key) (other, asked)

namespace Layer.Reaches

variable {layer other : Layer} {key asked : Key}

theorem refl (layer : Layer) (key : Key) : layer.Reaches key layer key := ReflTransGen.refl

theorem head {next : Layer} {middle : Key} (step : Consults (layer, key) (next, middle))
    (reaches : next.Reaches middle other asked) : layer.Reaches key other asked :=
  ReflTransGen.head step reaches

theorem ancestry (reaches : layer.Reaches key other asked) : other.ancestry <:+ layer.ancestry := by
  have hall : ∀ last, ReflTransGen Consults (layer, key) last →
      last.1.ancestry <:+ layer.ancestry := by
    intro last h
    induction h with
    | refl => exact List.suffix_rfl
    | tail _ step ih =>
      cases step with
      | outward unowned => exact (List.suffix_cons _ _).trans ih
      | source | supplied => exact ih
  exact hall _ reaches

end Layer.Reaches

/-- Generators and casts that a request may come to give no commands. -/
structure Layer.Undisturbed (layer : Layer) (key : Key) : Prop where
  bodies : ∀ other asked source eager cyclic, layer.Reaches key other asked →
    other.scope.slots.find? asked = some (.generated source eager cyclic) →
      ∀ run arguments, (source.generator.body run arguments).Silent
  casts : ∀ other asked binding, layer.Reaches key other asked →
    other.scope.bindings.find? asked = some binding →
      ∀ call payload, (binding.cast.apply call payload).Silent

theorem Layer.Undisturbed.step {layer other : Layer} {key asked : Key}
    (undisturbed : layer.Undisturbed key) (step : Consults (layer, key) (other, asked)) :
    other.Undisturbed asked :=
  ⟨fun _ _ source eager cyclic reaches =>
      undisturbed.bodies _ _ source eager cyclic (reaches.head step),
    fun _ _ binding reaches => undisturbed.casts _ _ binding (reaches.head step)⟩

abbrev Region := Layer → Key → Prop

namespace Region

def Somewhere (region : Region) (holds : Layer → Key → Prop) : Prop :=
  ∃ layer key, region layer key ∧ holds layer key

theorem Somewhere.mono {region larger : Region} {holds : Layer → Key → Prop}
    (h : ∀ layer key, region layer key → larger layer key) :
    region.Somewhere holds → larger.Somewhere holds :=
  fun ⟨layer, key, hregion, hholds⟩ => ⟨layer, key, h layer key hregion, hholds⟩

def HasSlot (region : Region) (site : Site) : Prop :=
  region.Somewhere fun layer key => ∃ source eager cyclic,
    layer.scope.slots.find? key = some (.generated source eager cyclic) ∧
      site = layer.scope.site key

def Feeds (region : Region) (id place : Nat) : Prop :=
  region.Somewhere fun layer key => ∃ source eager cyclic,
    layer.scope.slots.find? key = some (.generated source eager cyclic) ∧
      layer.scope.id = id ∧ source.place = place

def Fills (region : Region) (site : Site) : Prop :=
  region.Somewhere fun layer key => ∃ source eager cyclic,
    layer.scope.slots.find? key = some (.generated source eager cyclic) ∧
      site ∈ layer.scope.locks source

def Binds (region : Region) (site : Site) : Prop :=
  region.Somewhere fun layer key => layer.scope.slots.find? key = none ∧
    (∃ binding, layer.scope.bindings.find? key = some binding) ∧ site = layer.scope.site key

def Imports (region : Region) (site : Site) : Prop :=
  region.Somewhere fun layer key => layer.scope.owns key = false ∧ site = layer.scope.site key

end Region

/-- What an event may say while nothing happens outside a region, given the memory before and the
events since: only generators of the region are started, each for an empty slot, and only they run
and fill slots. -/
def Event.Within (region : Region) (memory : Memory) (earlier : List Event) : Event → Prop
  | .attempted site _ none => region.HasSlot site ∧ memory.filled.find? site = none ∧
      ∀ value, .filled site value ∉ earlier
  | .noticed _ (.started id key _) => region.HasSlot ⟨id, key⟩
  | .ran id place _ _ _ => region.Feeds id place
  | .casted site _ _ _ => region.Binds site
  | .filled site _ => region.Fills site
  | _ => True

def Event.IsInert : Event → Prop
  | .attempted _ _ none | .noticed _ (.started ..) | .ran .. | .casted .. | .filled .. => False
  | _ => True

structure World.Confined (region : Region) (before after : World) : Prop where
  built : after.built = before.built
  lasting : before.memory.filled.Extends after.memory.filled
  filled : ∀ site, region.Fills site ∨
    after.memory.filled.find? site = before.memory.filled.find? site
  bound : ∀ site, region.Binds site ∨
    after.memory.bound.find? site = before.memory.bound.find? site
  imported : ∀ site, region.Imports site ∨
    after.memory.imported.find? site = before.memory.imported.find? site
  events : ∃ events, after.trace = events ++ before.trace ∧
    (∀ site value, .filled site value ∈ events → after.memory.filled.find? site ≠ none) ∧
    ∀ later event earlier, events = later ++ event :: earlier →
      event.Within region before.memory earlier

namespace Event

variable {region larger : Region} {memory : Memory} {earlier : List Event} {event : Event}

theorem IsInert.within (inert : event.IsInert) : event.Within region memory earlier := by
  cases event with
  | attempted site chain obstacle =>
    cases obstacle with
    | none => exact inert.elim
    | some error => trivial
  | noticed observer notice =>
    cases notice with
    | started => exact inert.elim
    | _ => trivial
  | ran | casted | filled => exact inert.elim
  | _ => trivial

theorem IsIncidental.isInert (incidental : event.IsIncidental) : event.IsInert := by
  cases event <;> trivial

theorem Within.mono (h : ∀ layer key, region layer key → larger layer key)
    (within : event.Within region memory earlier) : event.Within larger memory earlier := by
  cases event with
  | attempted site chain obstacle =>
    cases obstacle with
    | none => exact ⟨within.1.mono h, within.2⟩
    | some error => trivial
  | noticed observer notice =>
    cases notice with
    | started => exact Region.Somewhere.mono h within
    | _ => trivial
  | ran | casted | filled => exact Region.Somewhere.mono h within
  | _ => trivial

theorem Within.prepend {before : Memory} {older : List Event}
    (within : event.Within region memory earlier)
    (empty : ∀ site, memory.filled.find? site = none → before.filled.find? site = none)
    (filled : ∀ site value, .filled site value ∈ older → memory.filled.find? site ≠ none) :
    event.Within region before (earlier ++ older) := by
  cases event with
  | attempted site chain obstacle =>
    cases obstacle with
    | none =>
      obtain ⟨hslot, hempty, hunfilled⟩ := within
      refine ⟨hslot, empty site hempty, fun value hvalue => ?_⟩
      rcases List.mem_append.mp hvalue with hvalue | hvalue
      · exact hunfilled value hvalue
      · exact filled site value hvalue hempty
    | some error => trivial
  | noticed observer notice =>
    cases notice with
    | started => exact within
    | _ => trivial
  | ran | casted | filled => exact within
  | _ => trivial

end Event

namespace World.Confined

variable {region larger : Region} {before world after : World}

theorem refl (world : World) : world.Confined region world where
  built := rfl
  lasting := .refl _
  filled _ := .inr rfl
  bound _ := .inr rfl
  imported _ := .inr rfl
  events := ⟨[], rfl, nofun, fun later event earlier h => by simp at h⟩

theorem trans (first : before.Confined region world) (second : world.Confined region after) :
    before.Confined region after where
  built := second.built.trans first.built
  lasting := first.lasting.trans second.lasting
  filled site := (first.filled site).elim .inl fun hfirst =>
    (second.filled site).imp_right fun hsecond => hsecond.trans hfirst
  bound site := (first.bound site).elim .inl fun hfirst =>
    (second.bound site).imp_right fun hsecond => hsecond.trans hfirst
  imported site := (first.imported site).elim .inl fun hfirst =>
    (second.imported site).imp_right fun hsecond => hsecond.trans hfirst
  events := by
    obtain ⟨older, holder, hfilled, hwithin⟩ := first.events
    obtain ⟨newer, hnewer, hfilled', hwithin'⟩ := second.events
    -- What is filled stays so.
    have hkept {site : Site} (h : world.memory.filled.find? site ≠ none) :
        after.memory.filled.find? site ≠ none := by
      obtain ⟨value, hvalue⟩ := Option.ne_none_iff_exists'.mp h
      rw [second.lasting site value hvalue]
      nofun
    refine ⟨newer ++ older, by rw [hnewer, holder, List.append_assoc], ?_, ?_⟩
    · intro site value h
      rcases List.mem_append.mp h with h | h
      · exact hfilled' site value h
      · exact hkept (hfilled site value h)
    · intro later event earlier h
      rcases split_append h with ⟨between, hnew, rfl⟩ | ⟨between, -, hold⟩
      · refine Event.Within.prepend (hwithin' later event between hnew) (fun site hempty => ?_)
          hfilled
        cases hbefore : before.memory.filled.find? site with
        | none => rfl
        | some value => exact (first.lasting site value hbefore).symm.trans hempty
      · exact hwithin between event earlier hold

theorem mono (h : ∀ layer key, region layer key → larger layer key)
    (confined : before.Confined region after) : before.Confined larger after where
  built := confined.built
  lasting := confined.lasting
  filled site := (confined.filled site).imp_left (·.mono h)
  bound site := (confined.bound site).imp_left (·.mono h)
  imported site := (confined.imported site).imp_left (·.mono h)
  events := by
    obtain ⟨events, htrace, hfilled, hwithin⟩ := confined.events
    exact ⟨events, htrace, hfilled, fun later event earlier hsplit =>
      (hwithin later event earlier hsplit).mono h⟩

theorem tell (confined : before.Confined region world) (built : after.built = world.built)
    (memory : after.memory = world.memory) (events : List Event)
    (trace : after.trace = events ++ world.trace)
    (unfilling : ∀ site value, .filled site value ∉ events)
    (within : ∀ event ∈ events, ∀ earlier, (∀ site value, .filled site value ∉ earlier) →
      event.Within region world.memory earlier) : before.Confined region after :=
  confined.trans
    { built
      lasting := memory ▸ .refl _
      filled := fun _ => .inr (memory ▸ rfl)
      bound := fun _ => .inr (memory ▸ rfl)
      imported := fun _ => .inr (memory ▸ rfl)
      events := by
        refine ⟨events, trace, fun site value h => absurd h (unfilling site value), ?_⟩
        rintro later event earlier rfl
        exact within event (by simp) earlier fun site value h => unfilling site value (by simp [h]) }

theorem advance (confined : before.Confined region world) (built : after.built = world.built)
    (memory : after.memory = world.memory) (events : List Event)
    (trace : after.trace = events ++ world.trace) (inert : ∀ event ∈ events, event.IsInert) :
    before.Confined region after :=
  confined.tell built memory events trace (fun _ _ h => inert _ h)
    fun event h _ _ => (inert event h).within

theorem emit (confined : before.Confined region world) (event : Event) (inert : event.IsInert) :
    before.Confined region (world.emit event) :=
  confined.advance rfl rfl [event] rfl (List.forall_mem_singleton.mpr inert)

theorem noticed (confined : before.Confined region world) (scope : Scope) (notice : Notice)
    (inert : ∀ observer, (Event.noticed observer notice).IsInert) :
    before.Confined region (world.emitAll (scope.observers.map (Event.noticed · notice))) := by
  refine confined.advance rfl rfl _ rfl fun event hevent => ?_
  obtain ⟨observer, -, rfl⟩ := List.mem_map.mp (List.mem_reverse.mp hevent)
  exact inert observer

theorem sidestep (confined : before.Confined region world) (sidesteps : world.Sidesteps after) :
    before.Confined region after :=
  confined.advance sidesteps.built sidesteps.memory [] sidesteps.trace nofun

theorem hold (confined : before.Confined region world) (held : List Site) :
    before.Confined region { world with held } :=
  confined.advance rfl rfl [] rfl nofun

theorem delegate (confined : before.Confined region world) (scope : Scope) (key : Key)
    (parent : Scope) : before.Confined region (world.delegate scope key parent) :=
  (confined.noticed scope (.delegated ..) fun _ => trivial).emit (.logged _) trivial

theorem obstruct (confined : before.Confined region world) (scope : Scope) (key : Key)
    (source : Registered) (chain : Chain) (error : ResolutionError) :
    before.Confined region (world.obstruct scope key source chain error) :=
  (confined.emit (.attempted _ _ (some error)) trivial).noticed scope (.failed ..) fun _ => trivial

theorem report (confined : before.Confined region world) (scope : Scope) (key : Key)
    (source : Registered) (answer : Answer) :
    before.Confined region (world.report scope key source answer) := by
  cases answer with
  | ok value =>
    exact (confined.emit (.logged (.finished scope.id key)) trivial).noticed scope (.finished ..)
      fun _ => trivial
  | error error =>
    exact (confined.emit (.logged (.failed scope.id key error)) trivial).noticed scope (.failed ..)
      fun _ => trivial

theorem conclude (confined : before.Confined region world) (layer : Layer) (key : Key)
    (result : Except Stop Answer) : before.Confined region (world.conclude layer key result) := by
  rcases result with stop | (error | value)
  · exact confined
  · exact (confined.emit (.denied _ error) trivial).emit (.logged _) trivial
  · exact confined.emit (.granted _ value) trivial

theorem start (confined : before.Confined region world) (scope : Scope) {key : Key}
    (source : Registered) (chain : Chain) (slot : region.HasSlot (scope.site key))
    (empty : world.memory.filled.find? (scope.site key) = none) :
    before.Confined region (world.start scope key source chain) := by
  refine confined.tell rfl rfl
    (.logged (.running scope.id key source.generator.signature (chain.length + 1)) ::
      ((scope.observers.map (Event.noticed ·
        (.started scope.id key source.generator.signature))).reverse ++
          [.attempted (scope.site key) chain none])) ?_ ?_ ?_
  · simp [World.start, World.emit, World.emitAll]
  · intro site value h
    simp at h
  · intro event hevent earlier unfilled
    simp only [List.mem_cons, List.mem_append, List.mem_reverse, List.mem_map, List.not_mem_nil,
      or_false] at hevent
    rcases hevent with rfl | ⟨observer, -, rfl⟩ | rfl
    · trivial
    · exact slot
    · exact ⟨slot, empty, unfilled _⟩

theorem enterBody (confined : before.Confined region world) {scope : Scope} {source : Registered}
    (arguments : List Argument) (feeds : region.Feeds scope.id source.place) :
    before.Confined region (world.enterBody scope source arguments) :=
  confined.tell rfl rfl [_] rfl (by simp) fun _ h _ _ => List.mem_singleton.mp h ▸ feeds

theorem enterCast (confined : before.Confined region world) {site : Site} (binding : Binding)
    (payload : String) (binds : region.Binds site) :
    before.Confined region (world.enterCast site binding payload) :=
  confined.tell rfl rfl [_] rfl (by simp) fun _ h _ _ => List.mem_singleton.mp h ▸ binds

theorem bind (confined : before.Confined region world) {scope : Scope} {key : Key}
    (binding : Binding) (payload : String) (binds : region.Binds (scope.site key)) :
    before.Confined region (world.bind scope key binding payload) := by
  have hlogged := confined.emit (.logged (.interfaceBound scope.id key binding.source)) trivial
  refine hlogged.trans
    { built := rfl
      lasting := .refl _
      filled := fun _ => .inr rfl
      bound := fun site => ?_
      imported := fun _ => .inr rfl
      events := ⟨[], rfl, nofun, fun later event earlier h => by simp at h⟩ }
  change _ ∨ (world.memory.bound.add (scope.site key) ⟨key, payload⟩).find? site =
    world.memory.bound.find? site
  rw [Table.find?_add]
  split
  · next hsite => exact .inl (hsite ▸ binds)
  · exact .inr rfl

theorem hoist (confined : before.Confined region world) {scope : Scope} {key : Key} (value : Value)
    (imports : region.Imports (scope.site key)) :
    before.Confined region (world.hoist scope key value) := by
  unfold World.hoist
  split
  · refine confined.trans
      { built := rfl
        lasting := .refl _
        filled := fun _ => .inr rfl
        bound := fun _ => .inr rfl
        imported := fun site => ?_
        events := ⟨[], rfl, nofun, fun later event earlier h => by simp at h⟩ }
    change _ ∨ (world.memory.imported.add (scope.site key) value).find? site =
      world.memory.imported.find? site
    rw [Table.find?_add]
    split
    · next hsite => exact .inl (hsite ▸ imports)
    · exact .inr rfl
  · exact confined

theorem deliver (confined : before.Confined region world) {delivery : Site × Value}
    (fills : region.Fills delivery.1) : before.Confined region (world.deliver delivery) := by
  unfold World.deliver
  split
  · exact confined.emit (.dropped _ _) trivial
  · have hfind (site : Site) : (world.memory.fill delivery.1 delivery.2).filled.find? site =
        if site = delivery.1 then some ((world.memory.filled.find? delivery.1).getD delivery.2)
        else world.memory.filled.find? site :=
      Table.find?_add _ _ _ _
    refine confined.trans
      { built := rfl
        lasting := Table.Extends.add _ _ _
        filled := fun site => ?_
        bound := fun _ => .inr rfl
        imported := fun _ => .inr rfl
        events := ?_ }
    · by_cases hsite : site = delivery.1
      · exact .inl (hsite ▸ fills)
      · exact .inr ((hfind site).trans (if_neg hsite))
    · refine ⟨[.filled delivery.1 delivery.2], rfl, fun site value h => ?_,
        fun later event earlier h => ?_⟩
      · obtain ⟨rfl, -⟩ := Event.filled.inj (List.mem_singleton.mp h)
        change (world.memory.fill delivery.1 delivery.2).filled.find? delivery.1 ≠ none
        rw [hfind, if_pos rfl]
        exact Option.some_ne_none _
      · have hevent : event ∈ [Event.filled delivery.1 delivery.2] := by
          rw [h]
          simp
        obtain rfl := List.mem_singleton.mp hevent
        exact fills

theorem finish (confined : before.Confined region world) {layer : Layer} (key : Key)
    {source : Registered} (context : Context) (result : Except ResolutionError Yield)
    (fills : ∀ site ∈ layer.scope.locks source, region.Fills site) :
    before.Confined region (Resolution.finish layer key source context result world).2 :=
  Resolution.finish_keeps (before.Confined region)
    (fun _ _ _ hdelivery _ h => h.deliver (fills _ (Resolution.mem_locks_of_delivery hdelivery)))
    (fun answer _ h => h.report _ _ _ answer) confined

end World.Confined

namespace Resolution

variable {fuel : Nat} {layer : Layer} {key : Key} {chain : Chain} {context : Context}
  {world after : World} {result : Except Stop Answer}

theorem Ends.confined {perform : Command → Engine Reply} {region : Region} {before : World}
    {source : Registered} {eager cyclic : Bool}
    {gathered : Except Stop (Except ResolutionError (List Argument))}
    (ends : Ends perform layer key source context world gathered result after)
    (within : region layer key)
    (slot : layer.scope.slots.find? key = some (.generated source eager cyclic))
    (silent : ∀ run arguments, (source.generator.body run arguments).Silent)
    (confined : before.Confined region world) : before.Confined region after := by
  refine ends.keeps (before.Confined region) ?_ ?_ ?_ ?_ confined
  · exact fun arguments h =>
      h.enterBody arguments ⟨layer, key, within, source, eager, cyclic, slot, rfl, rfl⟩
  · exact fun run arguments => (silent run arguments).keeps (fun h => h.sidestep)
      fun h incidental => h.emit _ incidental.isInert
  · exact fun between run yield h => h.emit (.returned ..) trivial
  · exact fun result between h => h.finish key context result fun site hsite =>
      ⟨layer, key, within, source, eager, cyclic, slot, hsite⟩

/-- A request does nothing outside what it may come to ask for, whatever its answer is. -/
theorem Resolves.confined
    (resolves : Resolves fuel layer key chain context world result after)
    (undisturbed : layer.Undisturbed key) : world.Confined (layer.Reaches key) after := by
  -- What is confined to a later request is confined to this one.
  have hstep {layer other : Layer} {key asked : Key} {before after : World}
      (step : Layer.Consults (layer, key) (other, asked))
      (confined : before.Confined (other.Reaches asked) after) :
      before.Confined (layer.Reaches key) after :=
    confined.mono fun _ _ reaches => reaches.head step
  induction resolves with
  | stored => exact (World.Confined.refl _).emit (.logged _) trivial
  | exhausted | bound | unbacked | imported | missing => exact .refl _
  | obstructed => exact (World.Confined.refl _).obstruct _ _ _ _ _
  | @blocked fuel scope outer key chain context world source eager cyclic slot empty =>
    refine (World.Confined.refl world).tell rfl rfl [_] rfl (by simp) fun event h earlier unfilled => ?_
    obtain rfl := List.mem_singleton.mp h
    exact ⟨⟨_, _, Layer.Reaches.refl _ _, source, eager, cyclic, slot, rfl⟩, empty, unfilled _⟩
  | @run fuel scope outer key chain context world source inquiries gathered between result after
      starts answers ends ih =>
    obtain ⟨eager, cyclic, slot, -⟩ := starts.slot
    have hstart := (World.Confined.refl world).start scope source chain
      ⟨_, _, Layer.Reaches.refl ⟨scope, outer⟩ key, source, eager, cyclic, slot, rfl⟩ starts.empty
    have hgather := starts.gathers.chain World.Confined.refl .trans
      fun inquiry hinquiry => by
        obtain ⟨supply, hsupply, hasked⟩ := starts.gathers.asked inquiry hinquiry
        obtain ⟨parameter, hparameter, rfl⟩ := List.mem_map.mp hsupply
        have step : Layer.Consults (⟨scope, outer⟩, key) (⟨scope, outer⟩, inquiry.key) :=
          .supplied slot hparameter hasked
        exact hstep step (ih inquiry hinquiry (undisturbed.step step))
    exact (ends.confined (Layer.Reaches.refl _ _) slot
      (undisturbed.bodies _ _ _ _ _ (Layer.Reaches.refl _ _) slot) (hstart.trans hgather)).hold _
  | @unsourced fuel scope outer key chain context world binding backing result after noSlot interface
      unbound behind answer lost ih =>
    have step : Layer.Consults (⟨scope, outer⟩, key) (⟨scope, outer⟩, binding.source) :=
      .source noSlot interface
    exact hstep step (ih (undisturbed.step step))
  | @cast fuel scope outer key chain context world binding backing value between result after
      noSlot interface unbound behind answer binds ih =>
    have step : Layer.Consults (⟨scope, outer⟩, key) (⟨scope, outer⟩, binding.source) :=
      .source noSlot interface
    have hbinds : Region.Binds (Layer.Reaches ⟨scope, outer⟩ key) (scope.site key) :=
      ⟨_, _, Layer.Reaches.refl _ _, noSlot, ⟨binding, interface⟩, rfl⟩
    refine binds.keeps (world.Confined _) ?_ ?_ ?_ (hstep step (ih (undisturbed.step step)))
    · exact fun payload h => h.enterCast binding payload hbinds
    · exact fun call payload =>
        (undisturbed.casts _ _ binding (Layer.Reaches.refl _ _) interface call payload).keeps
          (fun h => h.sidestep) fun h incidental => h.emit _ incidental.isInert
    · exact fun payload between h => h.bind binding payload hbinds
  | @unavailable fuel scope parent further key chain context world result after unowned unknown
      answer lost ih =>
    have step : Layer.Consults (⟨scope, parent :: further⟩, key) (⟨parent, further⟩, key) :=
      .outward unowned
    exact ((World.Confined.refl _).delegate _ _ _).trans (hstep step (ih (undisturbed.step step)))
  | @delegated fuel scope parent further key chain context world value between unowned unknown
      answer ih =>
    have step : Layer.Consults (⟨scope, parent :: further⟩, key) (⟨parent, further⟩, key) :=
      .outward unowned
    have hbetween := ((World.Confined.refl _).delegate _ _ _).trans
      (hstep step (ih (undisturbed.step step)))
    exact hbetween.hoist _ ⟨_, _, Layer.Reaches.refl _ _, unowned, rfl⟩

end Resolution

theorem Layer.Undisturbed.of_silent {layer : Layer} (silent : ∀ scope ∈ layer.ancestry, scope.Silent)
    (key : Key) : layer.Undisturbed key where
  bodies _ asked source eager cyclic reaches slot :=
    (silent _ (reaches.ancestry.mem List.mem_cons_self)).bodies asked source eager cyclic slot
  casts _ asked binding reaches interface :=
    (silent _ (reaches.ancestry.mem List.mem_cons_self)).casts asked binding interface

theorem World.Confined.outside {world after : World} {layer : Layer} {key : Key}
    (confined : world.Confined (layer.Reaches key) after) {site : Site}
    (outside : site.layer ∉ layer.ancestry.map Scope.id) :
    after.memory.filled.find? site = world.memory.filled.find? site ∧
    after.memory.bound.find? site = world.memory.bound.find? site ∧
    after.memory.imported.find? site = world.memory.imported.find? site := by
  have hinside {other : Layer} {asked : Key} (reaches : layer.Reaches key other asked) :
      other.scope.id ∈ layer.ancestry.map Scope.id :=
    List.mem_map_of_mem (reaches.ancestry.mem List.mem_cons_self)
  refine ⟨(confined.filled site).resolve_left ?_, (confined.bound site).resolve_left ?_,
    (confined.imported site).resolve_left ?_⟩
  · rintro ⟨other, asked, reaches, source, eager, cyclic, -, hsite⟩
    obtain ⟨output, -, rfl⟩ := Scope.mem_locks.mp hsite
    exact outside (hinside reaches)
  · rintro ⟨other, asked, reaches, -, -, rfl⟩
    exact outside (hinside reaches)
  · rintro ⟨other, asked, reaches, -, rfl⟩
    exact outside (hinside reaches)

namespace Session

/-- Requests are lazy. Of a request in whose course no code gives commands the following holds,
whatever its answer is, and even if it ends in a panic. The slots that change are those of generators
that the request may come to ask for; the interfaces and the imports that change are ones that it may
come to ask for; and all of that is in the layer of the request and those around it. Only such
generators are started, each for a slot that is empty at that time, and only they run. A generator
whose outputs were all registered again does not run at all. -/
theorem requests_are_lazy {world : World} (arises : Arises world) {layer : Layer}
    (known : layer ∈ world.built) {key : Key} (undisturbed : layer.Undisturbed key) (fuel : Nat)
    (context : Context) :
    let after := (layer.request (resolver fuel) key context world).2
    world.Confined (layer.Reaches key) after ∧
    (∀ other asked, layer.Reaches key other asked → other.ancestry <:+ layer.ancestry) ∧
    (∀ site : Site, site.layer ∉ layer.ancestry.map Scope.id →
      after.memory.filled.find? site = world.memory.filled.find? site ∧
      after.memory.bound.find? site = world.memory.bound.find? site ∧
      after.memory.imported.find? site = world.memory.imported.find? site) ∧
    (∀ site value,
      after.memory.filled.find? site = some value ↔ .filled site value ∈ after.trace) ∧
    ∀ (builder : Builder) memory id, ∀ other ∈ world.built,
      builder.assemble memory id = .ok other → ∀ before maker eager later,
        builder.entries = before ++ .generator maker eager :: later →
        (∀ output ∈ maker.outputs, ∃ entry ∈ later, output ∈ entry.keys) →
          ∀ tag run arguments, .ran other.scope.id (before.countP Entry.isGenerator) tag run
            arguments ∉ after.trace := by
  intro after
  have confined : world.Confined (layer.Reaches key) after := by
    have hasked : world.Confined (layer.Reaches key) (world.emit (.asked (layer.scope.site key))) :=
      (World.Confined.refl world).emit (.asked _) trivial
    have hresolved := (Resolution.resolver_resolves fuel layer key [] context
      (world.emit (.asked (layer.scope.site key)))).confined undisturbed
    change world.Confined _ (layer.request (resolver fuel) key context world).2
    rw [Layer.request_world]
    exact (hasked.trans hresolved).conclude layer key _
  obtain ⟨valid, accountable⟩ : after.Valid ∧ after.Accountable :=
    World.Accountable.invariant.request
      (fun less _ => World.Accountable.invariant.handler less) key context known arises.accountable
  refine ⟨confined, fun _ _ reaches => reaches.ancestry, fun site => confined.outside,
    accountable.stored, ?_⟩
  intro builder memory id other hother assembled before maker eager later split replaced
  exact (Builder.assemble_describes assembled).idle valid accountable (confined.built ▸ hother) split
    replaced

def maker (tag : String) (parameters : List Parameter) (outputs : List Key) : Generator Command :=
  ⟨tag, tag, parameters, outputs, fun _ _ => .done (.products (outputs.map (⟨·, tag⟩)))⟩

/-- A generator that fetches a type of the layer around, next to one that nobody needs. -/
def idleLayer : Layer :=
  { scope :=
      { id := 2, label := none, locked := false
        slots := ⟨[(⟨"A"⟩, .generated ⟨1, maker "pair" [.hidden ⟨"D"⟩] [⟨"A"⟩, ⟨"B"⟩]⟩ false false),
          (⟨"B"⟩, .value ⟨⟨"B"⟩, "b"⟩),
          (⟨"C"⟩, .generated ⟨2, maker "spare" [] [⟨"C"⟩]⟩ false false)]⟩
        bindings := {}, overridable := [], settings := {}, observers := [] }
    outer :=
      [{ id := 1, label := none, locked := false
         slots := ⟨[(⟨"D"⟩, .generated ⟨0, maker "deep" [] [⟨"D"⟩]⟩ false false),
          (⟨"E"⟩, .generated ⟨1, maker "other" [] [⟨"E"⟩]⟩ false false)]⟩
         bindings := {}, overridable := [], settings := {}, observers := [] }] }

def idleBuilder (parent : Option Layer) : Builder :=
  { parent, allowOverride := true
    entries :=
      [.generator (maker "lost" [] [⟨"A"⟩]) false,
        .generator (maker "pair" [.hidden ⟨"D"⟩] [⟨"A"⟩, ⟨"B"⟩]) false,
        .generator (maker "spare" [] [⟨"C"⟩]) false, .value ⟨"B"⟩ "b"] }

def idleWorld : World :=
  (step 2 (step 2 {} (.build "base" none [.register (.generator (maker "deep" [] [⟨"D"⟩]) false),
      .register (.generator (maker "other" [] [⟨"E"⟩]) false)])).2
    (.build "app" (some "base")
      (.allowOverride true :: (idleBuilder none).entries.map .register))).2

theorem idleWorld_built :
    idleWorld.built = [idleLayer, ⟨idleLayer.outer.head (by decide), []⟩] := rfl

theorem idleLayer_silent : ∀ scope ∈ idleLayer.ancestry, scope.Silent := by
  intro scope hscope
  refine ⟨fun key source eager cyclic slot run arguments => ?_, fun key binding h => ?_⟩
  · have hmem := Table.mem_entries_of_find? slot
    rcases List.mem_cons.mp hscope with rfl | hscope
    · simp only [idleLayer, List.mem_cons, List.not_mem_nil, or_false, Prod.mk.injEq,
        Backing.generated.injEq] at hmem
      rcases hmem with ⟨-, rfl, -⟩ | ⟨-, ⟨⟩⟩ | ⟨-, rfl, -⟩ <;> trivial
    · obtain rfl := List.mem_singleton.mp hscope
      simp only [List.mem_cons, List.not_mem_nil, or_false, Prod.mk.injEq,
        Backing.generated.injEq] at hmem
      rcases hmem with ⟨-, rfl, -⟩ | ⟨-, rfl, -⟩ <;> trivial
  · rcases List.mem_cons.mp hscope with rfl | hscope
    · cases h
    · obtain rfl := List.mem_singleton.mp hscope
      cases h

theorem requests_are_lazy_idle :
    Arises idleWorld ∧ idleLayer ∈ idleWorld.built ∧ idleLayer.Undisturbed ⟨"A"⟩ ∧
    (idleLayer.request (resolver 3) ⟨"A"⟩ .background idleWorld).2.memory.filled.keys =
      [⟨1, ⟨"D"⟩⟩, ⟨2, ⟨"A"⟩⟩] ∧
    ∀ fuel context,
      let after := (idleLayer.request (resolver fuel) ⟨"A"⟩ context idleWorld).2
      idleWorld.Confined (idleLayer.Reaches ⟨"A"⟩) after ∧
      ∀ tag run arguments, .ran 2 0 tag run arguments ∉ after.trace := by
  have arises : Arises idleWorld := Reachable.arises (.step (.step .initial _ _) _ _)
  have known : idleLayer ∈ idleWorld.built := by
    rw [idleWorld_built]
    exact List.mem_cons_self
  have undisturbed : idleLayer.Undisturbed ⟨"A"⟩ := .of_silent idleLayer_silent _
  refine ⟨arises, known, undisturbed, by decide +kernel, fun fuel context => ?_⟩
  obtain ⟨confined, -, -, -, hidle⟩ := requests_are_lazy arises known undisturbed fuel context
  refine ⟨confined, ?_⟩
  have assembled : (idleBuilder (some ⟨idleLayer.outer.head (by decide), []⟩)).assemble {} 2 =
      .ok idleLayer := rfl
  refine hidle _ {} 2 idleLayer known assembled [] _ _ _ rfl fun output houtput => ?_
  obtain rfl := List.mem_singleton.mp houtput
  exact ⟨_, List.mem_cons_self, List.mem_cons_self⟩

end Session

end LayerGraph
