import LayerGraph.World

/-! Running computations on a world, one step at a time, and what they keep of it.

A computation keeps a property of the world when the property holds after it whenever it held
before, however the computation ends. -/

namespace LayerGraph.Engine

variable {α β : Type}

@[simp] theorem pure_apply (a : α) (world : World) : (pure a : Engine α) world = (.ok a, world) :=
  rfl

theorem bind_apply (action : Engine α) (next : α → Engine β) (world : World) :
    (action >>= next) world =
      match action world with
      | (.ok a, after) => next a after
      | (.error stop, after) => (.error stop, after) := by
  change ExceptT.bindCont next (action world).1 (action world).2 = _
  rcases action world with ⟨result, after⟩
  cases result <;> rfl

theorem bind_apply_ok {action : Engine α} {next : α → Engine β} {world after : World} {a : α}
    (h : action world = (.ok a, after)) : (action >>= next) world = next a after := by
  rw [bind_apply, h]

@[simp] theorem pure_bind_apply (a : α) (next : α → Engine β) (world : World) :
    ((pure a : Engine α) >>= next) world = next a world :=
  rfl

@[simp] theorem get_bind_apply (next : World → Engine β) (world : World) :
    ((get : Engine World) >>= next) world = next world world :=
  rfl

@[simp] theorem modify_bind_apply (change : World → World) (next : Unit → Engine β)
    (world : World) : ((modify change : Engine Unit) >>= next) world = next () (change world) :=
  rfl

@[simp] theorem emit_bind_apply (event : Event) (next : Unit → Engine β) (world : World) :
    (emit event >>= next) world = next () (world.emit event) :=
  rfl

@[simp] theorem log_bind_apply (entry : LogEntry) (next : Unit → Engine β) (world : World) :
    (log entry >>= next) world = next () (world.emit (.logged entry)) :=
  rfl

@[simp] theorem notify_bind_apply (scope : Scope) (notice : Notice) (next : Unit → Engine β)
    (world : World) :
    (notify scope notice >>= next) world =
      next () (world.emitAll (scope.observers.map (Event.noticed · notice))) :=
  rfl

theorem forM_log_apply (entry : α → LogEntry) (items : List α) (world : World) :
    (items.forM fun item => log (entry item)) world =
      (.ok (), world.emitAll (items.map fun item => .logged (entry item))) := by
  induction items generalizing world with
  | nil => rfl
  | cons item rest ih =>
    change (log (entry item) >>= fun _ => rest.forM fun item => log (entry item)) world = _
    rw [log_bind_apply, ih]
    simp [World.emit, World.emitAll]

def Keeps (property : World → Prop) (action : Engine α) : Prop :=
  ∀ world, property world → property (action world).2

section

variable {property : World → Prop}

theorem Keeps.of_unchanged {action : Engine α} (h : ∀ world, (action world).2 = world) :
    Keeps property action := by
  intro world hworld
  rw [h]
  exact hworld

theorem Keeps.pure (a : α) : Keeps property (pure a : Engine α) := .of_unchanged fun _ => rfl

theorem Keeps.throw (stop : Stop) : Keeps property (throw stop : Engine α) :=
  .of_unchanged fun _ => rfl

theorem Keeps.bind {action : Engine α} {next : α → Engine β} (hfirst : Keeps property action)
    (hnext : ∀ a, Keeps property (next a)) : Keeps property (action >>= next) := by
  intro world hworld
  have hbetween := hfirst world hworld
  rw [bind_apply]
  revert hbetween
  rcases action world with ⟨result, between⟩
  intro hbetween
  cases result with
  | ok a => exact hnext a between hbetween
  | error stop => exact hbetween

theorem Keeps.get_bind {next : World → Engine β}
    (h : ∀ world, property world → property (next world world).2) :
    Keeps property (get >>= next) :=
  h

theorem Keeps.modify {change : World → World} (h : ∀ world, property world → property (change world)) :
    Keeps property (modify change : Engine Unit) :=
  h

theorem Keeps.forM {step : α → Engine Unit} {items : List α}
    (h : ∀ item ∈ items, Keeps property (step item)) : Keeps property (items.forM step) := by
  induction items with
  | nil => exact .pure ()
  | cons item rest ih =>
    refine .bind (h item List.mem_cons_self) fun _ => ih fun other hother => ?_
    exact h other (List.mem_cons_of_mem _ hother)

theorem Keeps.catchPanic {action : Engine α} {answer : String → Engine α}
    (haction : Keeps property action) (hanswer : ∀ message, Keeps property (answer message)) :
    Keeps property (catchPanic action answer) := by
  intro world hworld
  have hafter := haction world hworld
  unfold Engine.catchPanic
  revert hafter
  rcases action world with ⟨result, after⟩
  intro hafter
  match result with
  | .error (.panic message) => exact hanswer message after hafter
  | .error .blocked => exact hafter
  | .error .outOfFuel => exact hafter
  | .ok a => exact hafter

theorem Keeps.onThread {name : String} {action : Engine α}
    (hthread : ∀ world thread, property world → property { world with thread })
    (haction : Keeps property action) : Keeps property (onThread name action) := by
  intro world hworld
  exact hthread _ _ (haction _ (hthread _ _ hworld))

theorem Keeps.run {perform : Command → Engine Reply}
    (hcancel : ∀ token world, property world → property (world.cancel token))
    (helapse : ∀ time world, property world → property (world.elapse time))
    (hthread : ∀ name, Keeps property (emit (.thread name)))
    (hperform : ∀ command, Keeps property (perform command))
    (hanswered : ∀ reply, Keeps property (emit (.answered reply))) (act : Act Command α) :
    Keeps property (run perform act) := by
  induction act with
  | done result => exact .pure result
  | panic message => exact .throw _
  | cancel name next ih =>
    refine .bind (.modify ?_) fun _ => ih
    intro world hworld
    cases world.tokens.find? name with
    | some token => exact hcancel token world hworld
    | none => exact hworld
  | elapse time next ih => exact .bind (.modify (helapse time)) fun _ => ih
  | noteThread next ih =>
    refine .get_bind fun world hworld => ?_
    exact Keeps.bind (hthread world.thread) (fun _ => ih) world hworld
  | perform command next ih =>
    exact .bind (hperform command) fun reply => .bind (hanswered reply) fun _ => ih reply

end

end LayerGraph.Engine
