import LayerGraph.Proofs.Engine

/-! Two computations side by side.

They are coupled if, begun in worlds that go together, they end in worlds that go together, and come
to answers that go together or stop for the same reason. -/

namespace LayerGraph.Engine

variable {α α' β β' : Type}

inductive Agree (answers : α → α' → Prop) : Except Stop α → Except Stop α' → Prop
  | answered {a a'} (h : answers a a') : Agree answers (.ok a) (.ok a')
  | stopped (stop : Stop) : Agree answers (.error stop) (.error stop)

structure Meets (worlds : World → World → Prop) (answers : α → α' → Prop)
    (first : Except Stop α × World) (second : Except Stop α' × World) : Prop where
  worlds : worlds first.2 second.2
  results : Agree answers first.1 second.1

def Couples (worlds : World → World → Prop) (answers : α → α' → Prop) (action : Engine α)
    (action' : Engine α') : Prop :=
  ∀ world other, worlds world other → Meets worlds answers (action world) (action' other)

variable {worlds : World → World → Prop} {answers : α → α' → Prop} {ends : β → β' → Prop}
  {world other : World}

namespace Agree

variable {result : Except Stop α} {result' : Except Stop α'}

theorem of_eq {result result' : Except Stop α} (h : result = result') :
    Agree Eq result result' := by
  subst h
  cases result with
  | ok a => exact .answered rfl
  | error stop => exact .stopped stop

theorem eq {result result' : Except Stop α} (agree : Agree Eq result result') :
    result = result' := by
  cases agree with
  | answered h => exact congrArg Except.ok h
  | stopped stop => rfl

theorem mono {wider : α → α' → Prop} (h : ∀ a a', answers a a' → wider a a')
    (agree : Agree answers result result') : Agree wider result result' := by
  cases agree with
  | answered hanswers => exact .answered (h _ _ hanswers)
  | stopped stop => exact .stopped stop

end Agree

namespace Meets

theorem mono {wider : World → World → Prop} {looser : α → α' → Prop}
    {first : Except Stop α × World} {second : Except Stop α' × World}
    (hworlds : ∀ world other, worlds world other → wider world other)
    (hanswers : ∀ a a', answers a a' → looser a a') (meets : Meets worlds answers first second) :
    Meets wider looser first second :=
  ⟨hworlds _ _ meets.worlds, meets.results.mono hanswers⟩

theorem pure (h : worlds world other) {a : α} {a' : α'} (hanswers : answers a a') :
    Meets worlds answers ((Pure.pure a : Engine α) world) ((Pure.pure a' : Engine α') other) :=
  ⟨h, .answered hanswers⟩

theorem bind {action : Engine α} {action' : Engine α'} {next : α → Engine β}
    {next' : α' → Engine β'} (meets : Meets worlds answers (action world) (action' other))
    (hnext : ∀ a a', answers a a' → Couples worlds ends (next a) (next' a')) :
    Meets worlds ends ((action >>= next) world) ((action' >>= next') other) := by
  rw [bind_apply, bind_apply]
  revert meets
  rcases action world with ⟨result, between⟩
  rcases action' other with ⟨result', between'⟩
  intro meets
  obtain ⟨hworlds, hresults⟩ := meets
  cases hresults with
  | answered hanswers => exact hnext _ _ hanswers between between' hworlds
  | stopped stop => exact ⟨hworlds, .stopped stop⟩

theorem catchPanic {action : Engine α} {action' : Engine α'} {answer : String → Engine α}
    {answer' : String → Engine α'} (meets : Meets worlds answers (action world) (action' other))
    (hanswer : ∀ message, Couples worlds answers (answer message) (answer' message)) :
    Meets worlds answers (catchPanic action answer world) (catchPanic action' answer' other) := by
  unfold Engine.catchPanic
  revert meets
  rcases action world with ⟨result, after⟩
  rcases action' other with ⟨result', after'⟩
  intro meets
  obtain ⟨hworlds, hresults⟩ := meets
  cases hresults with
  | answered hanswers => exact ⟨hworlds, .answered hanswers⟩
  | stopped stop =>
    cases stop with
    | panic message => exact hanswer message after after' hworlds
    | blocked => exact ⟨hworlds, .stopped _⟩
    | outOfFuel => exact ⟨hworlds, .stopped _⟩

end Meets

namespace Couples

theorem pure {a : α} {a' : α'} (hanswers : answers a a') :
    Couples worlds answers (Pure.pure a) (Pure.pure a') :=
  fun _ _ h => .pure h hanswers

theorem throw (stop : Stop) :
    Couples worlds answers (throw stop : Engine α) (throw stop : Engine α') :=
  fun _ _ h => ⟨h, .stopped stop⟩

theorem bind {action : Engine α} {action' : Engine α'} {next : α → Engine β}
    {next' : α' → Engine β'} (couples : Couples worlds answers action action')
    (hnext : ∀ a a', answers a a' → Couples worlds ends (next a) (next' a')) :
    Couples worlds ends (action >>= next) (action' >>= next') :=
  fun world other h => (couples world other h).bind hnext

theorem get_bind {next : World → Engine α} {next' : World → Engine α'}
    (h : ∀ world other, worlds world other →
      Meets worlds answers (next world world) (next' other other)) :
    Couples worlds answers (get >>= next) (get >>= next') :=
  h

theorem modify {change change' : World → World}
    (h : ∀ world other, worlds world other → worlds (change world) (change' other)) :
    Couples worlds (fun _ _ => True) (modify change : Engine Unit) (modify change' : Engine Unit) :=
  fun world other hworlds => ⟨h world other hworlds, .answered trivial⟩

theorem forM {step step' : α → Engine Unit} {items : List α}
    (h : ∀ item ∈ items, Couples worlds (fun _ _ => True) (step item) (step' item)) :
    Couples worlds (fun _ _ => True) (items.forM step) (items.forM step') := by
  induction items with
  | nil => exact .pure trivial
  | cons item rest ih =>
    refine .bind (h item List.mem_cons_self) fun _ _ _ => ih fun other hother => ?_
    exact h other (List.mem_cons_of_mem _ hother)

theorem catchPanic {action : Engine α} {action' : Engine α'} {answer : String → Engine α}
    {answer' : String → Engine α'} (haction : Couples worlds answers action action')
    (hanswer : ∀ message, Couples worlds answers (answer message) (answer' message)) :
    Couples worlds answers (catchPanic action answer) (catchPanic action' answer') :=
  fun world other h => (haction world other h).catchPanic hanswer

theorem onThread {name : String} {action : Engine α} {action' : Engine α'}
    (hthread : ∀ world other thread thread', worlds world other → thread' = thread →
      worlds { world with thread } { other with thread := thread' })
    (hsame : ∀ world other, worlds world other → other.thread = world.thread)
    (haction : Couples worlds answers action action') :
    Couples worlds answers (onThread name action) (onThread name action') := by
  intro world other h
  have hmeets := haction _ _ (hthread world other (some name) (some name) h rfl)
  exact ⟨hthread _ _ _ _ hmeets.worlds (hsame world other h), hmeets.results⟩

end Couples

end LayerGraph.Engine
