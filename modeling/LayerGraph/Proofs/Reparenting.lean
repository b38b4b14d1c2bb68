import LayerGraph.Proofs.Shuffling

/-! Builders under parents whose registrations were made in another order.

A builder asks its parent what types there are, what is marked and what is locked. None of that
depends on the order in which the parent's registrations were made. -/

namespace LayerGraph

namespace Builder

variable {builder builder' : Builder}

structure Reparents (builder builder' : Builder) : Prop where
  parent : Option.Rel Layer.Reorders builder.parent builder'.parent
  rest : builder' = { builder with parent := builder'.parent }

namespace Reparents

theorem parent_cases (reparents : builder.Reparents builder') :
    (builder.parent = none ∧ builder'.parent = none) ∨
    ∃ parent parent', builder.parent = some parent ∧ builder'.parent = some parent' ∧
      parent.Reorders parent' := by
  have hparent := reparents.parent
  revert hparent
  generalize builder.parent = parent?, builder'.parent = parent?'
  intro hparent
  cases hparent with
  | none => exact .inl ⟨rfl, rfl⟩
  | some reorders => exact .inr ⟨_, _, rfl, rfl, reorders⟩

theorem outer (reparents : builder.Reparents builder') :
    List.Forall₂ Scope.Reorders builder.outer builder'.outer := by
  unfold Builder.outer
  rcases reparents.parent_cases with ⟨h, h'⟩ | ⟨parent, parent', h, h', reorders⟩
  · rw [h, h']
    exact .nil
  · rw [h, h']
    exact reorders.ancestry

theorem enter (reparents : builder.Reparents builder') : builder'.enter = builder.enter := by
  have hlock : builder'.underLock = builder.underLock := by
    unfold underLock
    have hlocked := Layer.Reorders.map_eq reparents.outer fun _ _ reorders => reorders.locked
    have hany := congrArg (fun locks : List Bool => locks.any id) hlocked
    rw [List.any_map, List.any_map] at hany
    exact hany
  have hmarked (key : Key) : builder'.markedAbove key = builder.markedAbove key := by
    unfold markedAbove
    have hmarks := Layer.Reorders.map_eq reparents.outer fun _ _ reorders => reorders.overridable
    have hany := congrArg (fun marks : List (List Key) => marks.any (·.contains key)) hmarks
    rw [List.any_map, List.any_map] at hany
    exact hany
  have hallow : builder'.allowOverride = builder.allowOverride :=
    (congrArg allowOverride reparents.rest :)
  have hpermit : builder'.permitNil = builder.permitNil := (congrArg permitNil reparents.rest :)
  have hoccupy : builder'.occupy = builder.occupy := by
    funext slots key backing
    unfold occupy mayReplace
    rw [hlock, hmarked, hallow]
  funext ledger entry
  unfold Builder.enter
  rw [hoccupy, hpermit]

theorem ledger (reparents : builder.Reparents builder') : builder'.ledger = builder.ledger := by
  have hscan (ledger : Ledger) (entries : List (Entry Command)) :
      builder'.scan ledger entries = builder.scan ledger entries := by
    induction entries generalizing ledger with
    | nil => rfl
    | cons entry rest ih =>
      unfold scan
      rw [reparents.enter]
      split
      · exact ih _
      · rfl
  have hentries : builder'.entries = builder.entries := (congrArg entries reparents.rest :)
  unfold Builder.ledger
  rw [hentries]
  exact hscan {} builder.entries

theorem assemble (reparents : builder.Reparents builder') (memory : Memory) (id : Nat) :
    builder'.assemble memory id =
      (builder.assemble memory id).map fun layer => ⟨layer.scope, builder'.outer⟩ := by
  have hparent (key : Key) : builder'.parent.any (·.canResolve memory key) =
      builder.parent.any (·.canResolve memory key) := by
    rcases reparents.parent_cases with ⟨h, h'⟩ | ⟨parent, parent', h, h', reorders⟩
    · rw [h, h']
    · rw [h, h']
      exact reorders.canResolve memory key
  have hsettings : builder'.parent.map (·.scope.settings) =
      builder.parent.map (·.scope.settings) := by
    rcases reparents.parent_cases with ⟨h, h'⟩ | ⟨parent, parent', h, h', reorders⟩
    · rw [h, h']
    · rw [h, h']
      exact congrArg some reorders.scope.settings
  have hobservers : builder'.parent.map (·.scope.observers) =
      builder.parent.map (·.scope.observers) := by
    rcases reparents.parent_cases with ⟨h, h'⟩ | ⟨parent, parent', h, h', reorders⟩
    · rw [h, h']
    · rw [h, h']
      exact congrArg some reorders.scope.observers
  have hledger := reparents.ledger
  obtain ⟨-, hrest⟩ := reparents
  generalize hnamed : builder'.parent = parent at hrest
  subst hrest
  refine assemble_map (fun ledger => ledger) hledger (fun ledger => rfl)
    (fun ledger bindings => ?_) fun ledger bindings => ?_
  · unfold unresolvable?
    simp only [hparent]
  · unfold complete
    rw [hsettings, hobservers]

end Reparents

theorem assemble_reorders {memory : Memory} {id : Nat} {layer : Layer}
    (h : builder.assemble memory id = .ok layer) : layer.scope.Reorders layer.scope := by
  obtain ⟨ledger, bindings, hledger, hbindings, -, rfl⟩ := assemble_eq_ok_iff.mp h
  have hslots : (builder.complete id ledger bindings).scope.slots.keys.Nodup := by
    rw [complete_keys, ledger_keys hledger]
    exact nodup_eraseDups _
  have hinterfaces : bindings.keys.Nodup := by
    refine foldlM_ok (fun bindings : Table Key Binding => bindings.keys.Nodup) ?_ hbindings
      List.nodup_nil
    intro declared _ before after hstep hbefore
    rw [(bindInterface_ok hstep).2]
    exact Table.nodup_keys_set hbefore _ _
  exact
    { Scope.Mirrors.refl _ with
      label := rfl
      locked := rfl
      overridable := rfl
      eager := fun slot slot' => by
        rw [slot] at slot'
        cases slot'
        rfl
      keys := .refl _
      interfaces := .refl _
      distinct := hslots
      distinctInterfaces := hinterfaces }

/-- The same entries, or entries of a strict builder in another order of which none is eager; and a
parent whose registrations may have been made in another order. -/
inductive Reorders : Builder → Builder → Prop
  | same {builder builder' : Builder} (reparents : builder.Reparents builder') :
      Reorders builder builder'
  | shuffled {builder builder' : Builder} (between : Builder) (shuffles : builder.Shuffles between)
      (patient : ∀ maker, .generator maker true ∉ builder.entries)
      (reparents : between.Reparents builder') : Reorders builder builder'

theorem Reparents.assembled (reparents : builder.Reparents builder') {memory : Memory} {id : Nat}
    {layer : Layer} (h : builder.assemble memory id = .ok layer) :
    ∃ layer', builder'.assemble memory id = .ok layer' ∧ layer.Reorders layer' ∧
      layer'.eagerKeys = layer.eagerKeys := by
  obtain ⟨-, -, -, -, -, -, houter, -⟩ := assemble_inv h
  have hassembled := reparents.assemble memory id
  rw [h] at hassembled
  refine ⟨_, hassembled, ⟨.cons (assemble_reorders h) ?_⟩, rfl⟩
  rw [houter]
  exact reparents.outer

theorem Reorders.assembled (reorders : builder.Reorders builder') {memory : Memory} {id : Nat}
    {layer : Layer} (h : builder.assemble memory id = .ok layer) :
    ∃ layer', builder'.assemble memory id = .ok layer' ∧ layer.Reorders layer' ∧
      layer'.eagerKeys = layer.eagerKeys := by
  cases reorders with
  | same reparents => exact reparents.assembled h
  | shuffled between shuffles patient reparents =>
    obtain ⟨mid, hmid, hscope, houter⟩ := shuffles.assemble h
    have hpatient (maker : Generator Command) : .generator maker true ∉ between.entries :=
      fun hmem => patient maker (shuffles.entries.mem_iff.mp hmem)
    have hassembled := reparents.assemble memory id
    rw [hmid] at hassembled
    obtain ⟨-, -, -, -, -, -, hlayer, -⟩ := assemble_inv h
    obtain ⟨-, -, -, -, -, -, hbetween, -⟩ := assemble_inv hmid
    have hkeys : mid.eagerKeys = [] := strict_eagerKeys shuffles.symm.strict hmid hpatient
    refine ⟨_, hassembled, ⟨.cons hscope ?_⟩, ?_⟩
    · rw [← houter, hbetween]
      exact reparents.outer
    · rw [strict_eagerKeys shuffles.strict h patient]
      exact hkeys

theorem Reparents.refused (reparents : builder.Reparents builder') {memory : Memory} {id : Nat}
    {error : BuildError} (h : builder.assemble memory id = .error error) :
    builder'.assemble memory id = .error error := by
  rw [reparents.assemble, h]
  rfl

theorem Reorders.refused (reorders : builder.Reorders builder') {memory : Memory} {id : Nat}
    {error : BuildError} (h : builder.assemble memory id = .error error) :
    ∃ error', builder'.assemble memory id = .error error' := by
  cases reorders with
  | same reparents => exact ⟨error, reparents.refused h⟩
  | shuffled between shuffles patient reparents =>
    cases hmid : between.assemble memory id with
    | error error' => exact ⟨error', reparents.refused hmid⟩
    | ok mid =>
      obtain ⟨layer, hlayer, -⟩ := shuffles.symm.assemble hmid
      rw [h] at hlayer
      cases hlayer

end Builder

end LayerGraph
