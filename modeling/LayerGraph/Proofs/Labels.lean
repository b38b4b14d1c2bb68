import LayerGraph.Signature

/-! How functions are labelled.

The type name of a function is a path. What a function should be called is read off the path; its
label is read off the text of the path, up to the first angle bracket. The two agree as long as
there are no angle brackets before the last segment. -/

namespace LayerGraph.Signature

/-- A segment of a path: its name, and what stands between angle brackets after it. Nothing is
assumed of what stands there, which may itself contain paths and angle brackets. -/
structure Segment where
  name : List Char
  arguments : Option (List Char)
  named : name ≠ []
  plain : ∀ c ∈ name, c ≠ '<' ∧ c ≠ ':'
  closure : name = closureMark → arguments = none

/-- The type name of a function. A method of a trait comes after its type and its trait, which
stand between angle brackets. -/
structure FunctionPath where
  self? : Option (List Char)
  leading : List Segment
  last : Segment

def separator : List Char := "::".toList

def bracketed (text : List Char) : List Char := '<' :: text ++ ['>']

def Segment.text (segment : Segment) : List Char :=
  segment.name ++ segment.arguments.elim [] bracketed

namespace FunctionPath

def text (path : FunctionPath) : List Char :=
  path.self?.elim [] (bracketed · ++ separator) ++
    path.leading.flatMap (·.text ++ separator) ++ path.last.text

/-- What a function in these segments is called: by its name, or as a closure of the function
around it. -/
def called (leading : List Segment) (last : Segment) : List Char :=
  if last.name = closureMark then
    match leading.getLast? with
    | some outer => outer.name ++ separator ++ closureMark
    | none => closureMark
  else last.name

def nominal (path : FunctionPath) : List Char := called path.leading path.last

/-- What the label shows of the function. Nothing of it is seen behind an angle bracket. -/
def shown (path : FunctionPath) : List Char :=
  match path.self? with
  | some _ => []
  | none =>
    match path.leading.find? (·.arguments.isSome) with
    | some generic => generic.name
    | none => path.nominal

end FunctionPath

def IsMarked (label : List Char) : Prop :=
  label = closureMark ∨ separator ++ closureMark <:+ label

variable {name : List Char}

theorem closureMark_ne_nil : closureMark ≠ [] := by decide

theorem closureMark_plain : ∀ c ∈ closureMark, c ≠ '<' ∧ c ≠ ':' := by
  have hall : (closureMark.all fun c => c != '<' && c != ':') = true := by decide
  simpa using hall

theorem cutLast_of_plain (plain : ':' ∉ name) : cutLast name = (name, none) := by
  induction name with
  | nil => rfl
  | cons c name ih =>
    have hc : c ≠ ':' := fun h => plain (h ▸ List.mem_cons_self)
    rw [cutLast, ih fun h => plain (List.mem_cons_of_mem _ h)]
    exact fun _ h _ => hc h

theorem cutLast_append_separator (plain : ':' ∉ name) (before : List Char) :
    cutLast (name ++ ':' :: ':' :: before) = (name, some before) := by
  induction name with
  | nil => rfl
  | cons c name ih =>
    have hc : c ≠ ':' := fun h => plain (h ▸ List.mem_cons_self)
    rw [List.cons_append, cutLast, ih fun h => plain (List.mem_cons_of_mem _ h)]
    exact fun _ h _ => hc h

theorem Segment.not_mem_reverse (segment : Segment) : ':' ∉ segment.name.reverse :=
  fun h => (segment.plain _ (List.mem_reverse.mp h)).2 rfl

def bare (leading : List Segment) (last : Segment) : List Char :=
  leading.flatMap (·.name ++ separator) ++ last.name

theorem cutLast_bare (leading : List Segment) (last : Segment) :
    cutLast (bare leading last).reverse =
      (last.name.reverse,
        leading.getLast?.map fun outer => (bare leading.dropLast outer).reverse) := by
  rcases leading.eq_nil_or_concat with rfl | ⟨before, outer, rfl⟩
  · exact cutLast_of_plain last.not_mem_reverse
  · rw [List.concat_eq_append]
    have htext : (bare (before ++ [outer]) last).reverse =
        last.name.reverse ++ ':' :: ':' :: (bare before outer).reverse := by
      simp [bare, separator]
    rw [htext, cutLast_append_separator last.not_mem_reverse]
    simp

theorem takeWhile_bare (leading : List Segment) (last : Segment) (rest : List Char) :
    (bare leading last ++ rest).takeWhile (· ≠ '<') =
      bare leading last ++ rest.takeWhile (· ≠ '<') := by
  refine List.takeWhile_append_of_pos fun c hc => ?_
  have hplain : c ≠ '<' := by
    rcases List.mem_append.mp hc with hc | hc
    · obtain ⟨segment, -, hc⟩ := List.mem_flatMap.mp hc
      rcases List.mem_append.mp hc with hc | hc
      · exact (segment.plain c hc).1
      · rintro rfl
        revert hc
        decide
    · exact (last.plain c hc).1
  simpa using hplain

theorem labelOf_bare (leading : List Segment) (last : Segment) {rest : List Char}
    (bracket : ∀ c ∈ rest.head?, c = '<') :
    labelOf (bare leading last ++ rest) = FunctionPath.called leading last := by
  have hrest : rest.takeWhile (· ≠ '<') = [] := by
    cases rest with
    | nil => rfl
    | cons c rest => exact List.takeWhile_cons_of_neg (by simp [bracket c rfl])
  unfold labelOf FunctionPath.called
  rw [takeWhile_bare, hrest, List.append_nil]
  dsimp only
  rw [cutLast_bare]
  dsimp only
  rw [List.reverse_reverse]
  cases leading.getLast? with
  | none => rfl
  | some outer =>
    dsimp only [Option.map_some]
    rw [cutLast_bare, List.reverse_reverse]
    rfl

theorem flatMap_text {leading : List Segment}
    (simple : ∀ segment ∈ leading, segment.arguments = none) :
    leading.flatMap (·.text ++ separator) = leading.flatMap (·.name ++ separator) := by
  rw [List.flatMap_def, List.flatMap_def]
  refine congrArg List.flatten (List.map_congr_left fun segment hsegment => ?_)
  unfold Segment.text
  rw [simple segment hsegment]
  simp

theorem head?_arguments (arguments : Option (List Char)) :
    ∀ c ∈ (arguments.elim [] bracketed).head?, c = '<' := by
  cases arguments <;> simp [bracketed]

/-- A label is what the text shows of the function. -/
theorem labelOf_text (path : FunctionPath) : labelOf path.text = path.shown := by
  obtain ⟨self?, leading, last⟩ := path
  unfold FunctionPath.text FunctionPath.shown
  cases self? with
  | some self =>
    have hcut : (bracketed self ++ separator ++ leading.flatMap (·.text ++ separator) ++
        last.text).takeWhile (· ≠ '<') = [] := rfl
    unfold labelOf
    dsimp only [Option.elim_some]
    rw [hcut]
    exact if_neg closureMark_ne_nil.symm
  | none =>
    dsimp only [Option.elim_none]
    rw [List.nil_append]
    cases hgeneric : leading.find? (·.arguments.isSome) with
    | none =>
      have hsimple : ∀ segment ∈ leading, segment.arguments = none := by
        simpa using hgeneric
      rw [flatMap_text hsimple, Segment.text, ← List.append_assoc]
      exact labelOf_bare leading last (head?_arguments last.arguments)
    | some generic =>
      obtain ⟨hsome, before, after, rfl, hbefore⟩ := List.find?_eq_some_iff_append.mp hgeneric
      have hsimple : ∀ segment ∈ before, segment.arguments = none := by
        simpa using hbefore
      have hopen : generic.name ≠ closureMark := fun h => by
        simp [generic.closure h] at hsome
      have htext : (before ++ generic :: after).flatMap (·.text ++ separator) ++ last.text =
          bare before generic ++ (generic.arguments.elim [] bracketed ++
            (separator ++ after.flatMap (·.text ++ separator) ++ last.text)) := by
        rw [List.flatMap_append, flatMap_text hsimple]
        simp [bare, Segment.text]
      obtain ⟨arguments, harguments⟩ := Option.isSome_iff_exists.mp hsome
      rw [htext, labelOf_bare before generic (by simp [harguments, bracketed])]
      exact if_neg hopen

namespace FunctionPath

theorem called_ne_nil (leading : List Segment) (last : Segment) : called leading last ≠ [] := by
  unfold called
  split
  · split <;> simp [closureMark_ne_nil]
  · exact last.named

/-- The cases of what is shown: there is a bracket in front, there is one behind a segment before
the last, or there is none before the last segment. -/
theorem shown_cases (path : FunctionPath) :
    (path.self?.isSome = true ∧ path.shown = []) ∨
    (path.self? = none ∧ ∃ generic ∈ path.leading, generic.arguments.isSome = true ∧
      path.leading.find? (·.arguments.isSome) = some generic ∧ path.shown = generic.name) ∨
    (path.self? = none ∧ (∀ segment ∈ path.leading, segment.arguments = none) ∧
      path.shown = path.nominal) := by
  unfold shown
  cases hself : path.self? with
  | some self => exact .inl ⟨rfl, rfl⟩
  | none =>
    cases hgeneric : path.leading.find? (·.arguments.isSome) with
    | some generic =>
      have hsome := List.find?_some hgeneric
      exact .inr (.inl ⟨rfl, generic, List.mem_of_find?_eq_some hgeneric, hsome, rfl, rfl⟩)
    | none => exact .inr (.inr ⟨rfl, by simpa using hgeneric, rfl⟩)

theorem shown_eq_nil_iff (path : FunctionPath) : path.shown = [] ↔ path.self?.isSome = true := by
  rcases path.shown_cases with ⟨hself, hshown⟩ | ⟨hself, generic, -, -, -, hshown⟩ |
    ⟨hself, -, hshown⟩
  · simp [hself, hshown]
  · simp [hself, hshown, generic.named]
  · simp [hself, hshown, nominal, called_ne_nil]

end FunctionPath

theorem Segment.isMarked_iff (segment : Segment) :
    IsMarked segment.name ↔ segment.name = closureMark := by
  refine or_iff_left fun hsuffix => ?_
  have hcolon : ':' ∈ separator ++ closureMark := by decide
  exact (segment.plain _ (hsuffix.subset hcolon)).2 rfl

namespace FunctionPath

theorem isMarked_called_iff (leading : List Segment) (last : Segment) :
    IsMarked (called leading last) ↔ last.name = closureMark := by
  unfold called
  split
  · next hmark =>
    refine iff_of_true ?_ hmark
    cases leading.getLast? with
    | none => exact .inl rfl
    | some outer => exact .inr ⟨outer.name, (List.append_assoc _ _ _).symm⟩
  · exact last.isMarked_iff

theorem isMarked_shown_iff (path : FunctionPath) :
    IsMarked path.shown ↔ path.last.name = closureMark ∧ path.self? = none ∧
      ∀ segment ∈ path.leading, segment.arguments = none := by
  rcases path.shown_cases with ⟨hself, hshown⟩ | ⟨-, generic, hmem, hsome, -, hshown⟩ |
    ⟨hself, hsimple, hshown⟩
  · have hunmarked : ¬IsMarked [] := by
      rintro (h | h)
      · exact closureMark_ne_nil h.symm
      · exact absurd (List.suffix_nil.mp h) (by decide)
    rw [hshown]
    refine iff_of_false hunmarked fun h => ?_
    rw [h.2.1] at hself
    cases hself
  · rw [hshown, generic.isMarked_iff]
    refine iff_of_false (fun h => ?_) fun h => ?_
    · rw [generic.closure h] at hsome
      cases hsome
    · rw [h.2.2 generic hmem] at hsome
      cases hsome
  · rw [hshown, nominal, isMarked_called_iff]
    exact ⟨fun h => ⟨h, hself, hsimple⟩, And.left⟩

/-- What is shown is what the function is called, if there is no angle bracket before the last
segment, or if the name before the first one happens to be the same. -/
theorem shown_eq_nominal_iff (path : FunctionPath) :
    path.shown = path.nominal ↔ path.self? = none ∧
      ((∀ segment ∈ path.leading, segment.arguments = none) ∨
        ∃ generic, path.leading.find? (·.arguments.isSome) = some generic ∧
          generic.name = path.nominal) := by
  rcases path.shown_cases with ⟨hself, hshown⟩ | ⟨hself, generic, hmem, hsome, hfind, hshown⟩ |
    ⟨hself, hsimple, hshown⟩
  · rw [hshown]
    refine iff_of_false (called_ne_nil _ _).symm fun h => ?_
    rw [h.1] at hself
    cases hself
  · rw [hshown]
    constructor
    · exact fun h => ⟨hself, .inr ⟨generic, hfind, h⟩⟩
    · rintro ⟨-, hsimple | ⟨other, hother, hname⟩⟩
      · rw [hsimple generic hmem] at hsome
        cases hsome
      · obtain rfl := Option.some.inj (hfind.symm.trans hother)
        exact hname
  · exact iff_of_true hshown ⟨hself, .inl hsimple⟩

end FunctionPath

/-- The label of a function, with which its signature begins, is what can be seen of the function
before the first angle bracket. It is what the function is called exactly if no segment before the
last has generic arguments, or the first such segment has the right name by chance. The methods of
traits have no label at all, and closures are marked as such only outside generic code. -/
theorem label_is_cut_at_brackets (path : FunctionPath) (parameters : List Declaration)
    (outputs : List Key) :
    label (String.ofList path.text) = String.ofList path.shown ∧
    path.shown ++ ['('] <+: (render (String.ofList path.text) parameters outputs).toList ∧
    (path.shown = path.nominal ↔ path.self? = none ∧
      ((∀ segment ∈ path.leading, segment.arguments = none) ∨
        ∃ generic, path.leading.find? (·.arguments.isSome) = some generic ∧
          generic.name = path.nominal)) ∧
    (path.shown = [] ↔ path.self?.isSome = true) ∧
    (IsMarked path.shown ↔ path.last.name = closureMark ∧ path.self? = none ∧
      ∀ segment ∈ path.leading, segment.arguments = none) := by
  have hlabel : label (String.ofList path.text) = String.ofList path.shown := by
    unfold label
    rw [String.toList_ofList, labelOf_text]
  refine ⟨hlabel, ?_, path.shown_eq_nominal_iff, path.shown_eq_nil_iff, path.isMarked_shown_iff⟩
  unfold render
  simp [hlabel]

def traitMethod : FunctionPath where
  self? := some "driver::gens::fns::Maker2 as driver::gens::fns::Factory".toList
  leading := []
  last := ⟨"create".toList, none, by decide, by simp, by decide⟩

def genericClosure : FunctionPath where
  self? := none
  leading := [⟨"gens".toList, none, by decide, by simp, by decide⟩,
    ⟨"wrap".toList, some "model::Wrap<model::Widget>".toList, by decide, by simp, by decide⟩]
  last := ⟨closureMark, none, closureMark_ne_nil, closureMark_plain, fun _ => rfl⟩

/-- Neither is labelled as what it is. -/
theorem bracketed_functions_are_mislabelled :
    String.ofList traitMethod.text =
        "<driver::gens::fns::Maker2 as driver::gens::fns::Factory>::create" ∧
      String.ofList traitMethod.nominal = "create" ∧
      label (String.ofList traitMethod.text) = "" ∧
      String.ofList genericClosure.text =
        "gens::wrap<model::Wrap<model::Widget>>::\x7b\x7bclosure\x7d\x7d" ∧
      String.ofList genericClosure.nominal = "wrap::\x7b\x7bclosure\x7d\x7d" ∧
      label (String.ofList genericClosure.text) = "wrap" := by
  decide +kernel

end LayerGraph.Signature
