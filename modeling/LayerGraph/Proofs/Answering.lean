import LayerGraph.Proofs.CompletedCourses
import LayerGraph.Proofs.Validity

/-! What holds between the world before a command and the one after it, if the command comes to its
end.

Such a command has been a passage, and so have all those that outside code has given meanwhile. What
holds from one world to the next along passages, and across the requests made on them, holds from
before each command to after it, at any depth of nesting. Panics may count as an end or not. -/

namespace LayerGraph

def Settled {α : Type} (panics : Prop) : Except Stop α → Prop
  | .ok _ => True
  | .error (.panic _) => panics
  | .error _ => False

theorem Settled.error {α β : Type} {panics : Prop} {stop : Stop}
    (settled : Settled panics (.error stop : Except Stop α)) :
    Settled panics (.error stop : Except Stop β) := by
  cases stop <;> exact settled

theorem Layer.request_settled {panics : Prop} {resolve : Resolver} {layer : Layer} {key : Key}
    {context : Context} {outcome : Except Stop Answered} {world after : World}
    (h : layer.request resolve key context world = (outcome, after))
    (settled : Settled panics outcome) :
    Settled panics
      (resolve layer key [] context (world.emit (.asked (layer.scope.site key)))).1 := by
  unfold Layer.request at h
  rw [Engine.emit_bind_apply, Engine.bind_apply] at h
  rcases hresolve : resolve layer key [] context (world.emit (.asked (layer.scope.site key))) with
    ⟨stop | answer, between⟩
  · rw [hresolve] at h
    obtain ⟨rfl, -⟩ := Prod.mk.inj h
    exact settled.error
  · trivial

namespace Session

/-- The relation goes on along passages of worlds of a kind that commands keep, as far as these do
nothing but what no request is needed for. If panics do not count, it holds across whatever a panic
has been told of. -/
structure Carries (panics : Prop) (holds : World → Prop) (relates : World → World → Prop) :
    Prop where
  invariant : Invariant fun world => world.Valid ∧ holds world
  refl : ∀ world, relates world world
  trans : ∀ {first second third}, relates first second → relates second third →
    relates first third
  sidestep : ∀ {world after : World}, world.Sidesteps after → relates world after
  note : ∀ {event : Event} (world : World), event.IsIncidental → event.IsMute →
    relates world (world.emit event)
  name : ∀ (world : World) name layer,
    relates world { world with layers := world.layers.set name layer }
  enter : ∀ (world : World) layer, relates world (world.enter layer)
  alarm : ∀ {fuel start seen world event}, Course fuel start seen world → start.Valid →
    holds start → (panics → relates start world) → event.isAlarm →
      relates start (world.emit event)

/-- The relation holds across the commands that come to their end at that depth, without a panic
unless these count. -/
def Answers (panics : Prop) (holds : World → Prop) (relates : World → World → Prop) (fuel : Nat) :
    Prop :=
  ∀ command world reply after, handler fuel command world = (.ok reply, after) →
    (panics ∨ ∀ message, reply ≠ .panicked message) → world.Valid → holds world →
      relates world after

variable {panics : Prop} {holds : World → Prop} {relates : World → World → Prop} {fuel : Nat}

/-- The relation holds across outside code that comes to its end if it does across what that asks
for. -/
theorem Answers.run {α : Type} {act : Act Command α} {outcome : Except Stop α} {world after : World}
    (answers : Answers panics holds relates fuel) (carries : Carries panics holds relates)
    (h : Engine.run (handler fuel) act world = (outcome, after)) (settled : Settled panics outcome)
    (valid : world.Valid) (hworld : holds world) : relates world after := by
  have hrun := @Engine.Leads.outside _
    (fun between => (between.Valid ∧ holds between) ∧ relates world between) (handler fuel)
    (fun hbetween sidesteps => ⟨carries.invariant.sidestep hbetween.1 sidesteps,
      carries.trans hbetween.2 (carries.sidestep sidesteps)⟩)
    (fun name hbetween => ⟨carries.invariant.note hbetween.1 (by trivial),
      carries.trans hbetween.2 (carries.note _ trivial trivial)⟩)
    (fun command between hbetween => ?_) act world ⟨⟨valid, hworld⟩, carries.refl world⟩
  · rw [h] at hrun
    rcases outcome with (message | _ | _) | result
    · exact hrun.2
    · exact settled.elim
    · exact settled.elim
    · exact hrun.2
  have hafter := carries.invariant.handler fuel command between hbetween.1
  rcases hreply : handler fuel command between with ⟨(message | _ | _) | reply, after⟩
  · exact (handler_ne_panic hreply).elim
  · trivial
  · trivial
  rw [hreply] at hafter
  refine ⟨carries.invariant.note hafter trivial, carries.trans hbetween.2 ?_⟩
  by_cases hpanic : ∃ message, reply = .panicked message
  · obtain ⟨message, rfl⟩ := hpanic
    cases fuel with
    | zero => cases hreply
    | succ fuel =>
      obtain ⟨seen, course⟩ := perform_course fuel command between
      have hsame : (perform (resolver fuel) command between).2 = after := congrArg Prod.snd hreply
      rw [hsame] at course
      exact carries.alarm course hbetween.1.1 hbetween.1.2
        (fun count => answers _ _ _ _ hreply (.inl count) hbetween.1.1 hbetween.1.2) rfl
  · have hrelates :=
      answers _ _ _ _ hreply (.inr (not_exists.mp hpanic)) hbetween.1.1 hbetween.1.2
    exact carries.trans hrelates (carries.note _ trivial trivial)

namespace Carries

theorem passage (carries : Carries panics holds relates)
    (request : ∀ {layer key context} {outcome : Except Stop Answered} {world after : World},
      layer.request (resolver fuel) key context world = (outcome, after) →
        Settled panics outcome → world.Hosts layer → holds world → relates world after)
    {start world : World} {calm : Bool} {seen : List Layer}
    (passage : Passage fuel start calm seen world) (ends : panics ∨ calm = true)
    (valid : start.Valid) (hstart : holds start) : relates start world := by
  have hcourse {seen : List Layer} {world : World} (course : Course fuel start seen world) :=
    carries.invariant.course (fun less _ => carries.invariant.handler less) course ⟨valid, hstart⟩
  induction passage with
  | rest => exact carries.refl start
  | sidestep passage sidesteps ih => exact carries.trans (ih ends) (carries.sidestep sidesteps)
  | note passage incidental mute ih =>
    exact carries.trans (ih ends) (carries.note _ incidental mute)
  | look passage named ih => exact ih ends
  | name passage met ih => exact carries.trans (ih ends) (carries.name _ _ _)
  | enter passage parent assembled ih => exact carries.trans (ih ends) (carries.enter _ _)
  | @request calm seen world layer key context answered after passage met answer ih =>
    obtain ⟨⟨hvalid, hworld⟩, hseen⟩ := hcourse passage.course
    exact carries.trans (ih ends) (request answer trivial ⟨hvalid, hseen layer met⟩ hworld)
  | @panic calm seen world layer key context message after passage met panicked ih =>
    obtain ⟨⟨hvalid, hworld⟩, hseen⟩ := hcourse passage.course
    have count : panics := ends.resolve_right Bool.false_ne_true
    exact carries.trans (ih (.inl count))
      (request panicked count ⟨hvalid, hseen layer met⟩ hworld)
  | alarm passage alarm ih =>
    exact carries.alarm passage.course valid hstart (fun count => ih (.inl count)) alarm

/-- The relation holds across what comes to its end at any depth, if it holds across each such
request while it does at the depths below. -/
theorem answers (carries : Carries panics holds relates)
    (request : ∀ {fuel}, (∀ less ≤ fuel, Answers panics holds relates less) →
      ∀ {layer key context} {outcome : Except Stop Answered} {world after : World},
        layer.request (resolver fuel) key context world = (outcome, after) →
          Settled panics outcome → world.Hosts layer → holds world → relates world after)
    (fuel : Nat) : Answers panics holds relates fuel := by
  have hbelow : ∀ less ≤ fuel, Answers panics holds relates less := by
    induction fuel with
    | zero =>
      intro less hless command world reply after h
      obtain rfl := Nat.le_zero.mp hless
      cases h
    | succ fuel ih =>
      intro less hless command world reply after h ends valid hworld
      rcases Nat.le_succ_iff.mp hless with hle | rfl
      · exact ih less hle command world reply after h ends valid hworld
      · obtain ⟨calm, seen, passage, hcalm⟩ := perform_passage h
        exact carries.passage (request ih) passage (ends.imp_right hcalm) valid hworld
  exact hbelow fuel (Nat.le_refl fuel)

end Carries

end Session

end LayerGraph
