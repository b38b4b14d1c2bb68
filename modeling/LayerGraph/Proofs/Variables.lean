import LayerGraph.Report
import LayerGraph.Settings.Environment
import Mathlib.Data.List.Forall2
import Mathlib.Data.List.TakeWhile
import Mathlib.Data.Nat.Digits.Defs

/-! What environment variables come to.

Words and numbers are described by what they look like, independently of how they are read. A
variable that is set to one of them sets its field; any other value is passed over, and the only
ones that are passed over in silence are those of boolean variables that are no text at all. -/

namespace LayerGraph

namespace Text

variable {text core : List Char}

/-- The core of a text is what lies between the white space at its ends. -/
structure IsCore (core text : List Char) : Prop where
  framed : ∃ before after, text = before ++ core ++ after ∧
    (∀ c ∈ before, isBlank c = true) ∧ ∀ c ∈ after, isBlank c = true
  first : ∀ c ∈ core.head?, isBlank c = false
  last : ∀ c ∈ core.getLast?, isBlank c = false

theorem not_isBlank_of_mem_head? {c : Char} (h : c ∈ (text.dropWhile isBlank).head?) :
    isBlank c = false := by
  have hnot := List.head?_dropWhile_not isBlank text
  rw [Option.mem_def.mp h] at hnot
  exact hnot

theorem trim_isCore (text : List Char) : IsCore (trim text) text := by
  let rest := text.dropWhile isBlank
  have htext : text = text.takeWhile isBlank ++ rest := List.takeWhile_append_dropWhile.symm
  have hrest : rest = trim text ++ (rest.reverse.takeWhile isBlank).reverse := by
    rw [trim, ← List.reverse_append, List.takeWhile_append_dropWhile, List.reverse_reverse]
  refine ⟨⟨text.takeWhile isBlank, (rest.reverse.takeWhile isBlank).reverse, ?_, ?_, ?_⟩, ?_, ?_⟩
  · rw [List.append_assoc, ← hrest]
    exact htext
  · exact fun c hc => List.mem_takeWhile_imp hc
  · exact fun c hc => List.mem_takeWhile_imp (List.mem_reverse.mp hc)
  · intro c hc
    have hfirst : c ∈ rest.head? := by
      rw [hrest, List.head?_append, Option.mem_def.mp hc]
      rfl
    exact not_isBlank_of_mem_head? hfirst
  · intro c hc
    rw [trim, List.getLast?_reverse] at hc
    exact not_isBlank_of_mem_head? hc

theorem dropWhile_isBlank_append {before rest : List Char} (blank : ∀ c ∈ before, isBlank c = true)
    (first : ∀ c ∈ rest.head?, isBlank c = false) :
    (before ++ rest).dropWhile isBlank = rest := by
  rw [List.dropWhile_append_of_pos blank]
  cases rest with
  | nil => rfl
  | cons c rest => exact List.dropWhile_cons_of_neg (by simp [first c rfl])

theorem IsCore.eq_trim (isCore : IsCore core text) : core = trim text := by
  obtain ⟨⟨before, after, rfl, hbefore, hafter⟩, hfirst, hlast⟩ := isCore
  cases core with
  | nil =>
    have hblank : (before ++ [] ++ after).dropWhile isBlank = [] := by
      rw [List.append_nil, List.dropWhile_append_of_pos hbefore, List.dropWhile_eq_nil_iff]
      exact hafter
    rw [trim, hblank]
    rfl
  | cons c core =>
    have hrest : (before ++ (c :: core) ++ after).dropWhile isBlank = (c :: core) ++ after := by
      rw [List.append_assoc]
      exact dropWhile_isBlank_append hbefore hfirst
    have hback : (((c :: core) ++ after).reverse).dropWhile isBlank = (c :: core).reverse := by
      rw [List.reverse_append]
      refine dropWhile_isBlank_append (fun c hc => hafter c (List.mem_reverse.mp hc)) ?_
      rw [List.head?_reverse]
      exact hlast
    rw [trim, hrest, hback, List.reverse_reverse]

theorem isCore_iff : IsCore core text ↔ core = trim text :=
  ⟨IsCore.eq_trim, fun h => h ▸ trim_isCore text⟩

end Text

namespace Settings

open Text (IsCore)

def words : Bool → List String
  | true => ["1", "true", "yes", "on"]
  | false => ["0", "false", "no", "off"]

def InEitherCase (letter c : Char) : Prop :=
  c = letter ∨ c.isUpper = true ∧ letter.toNat = c.toNat + 32

/-- A text that is a word for a truth value, in any case and with white space around it. -/
def Says (text : List Char) (b : Bool) : Prop :=
  ∃ core, IsCore core text ∧ ∃ word ∈ words b, List.Forall₂ InEitherCase word.toList core

def IsDigits (text : List Char) (n : Nat) : Prop :=
  ∃ digits : List Nat, digits ≠ [] ∧ (∀ d ∈ digits, d < 10) ∧
    text = digits.map Nat.digitChar ∧ n = Nat.ofDigits 10 digits.reverse

/-- A number in decimal digits after at most one plus sign. -/
def IsNumeral (core : List Char) (n : Nat) : Prop :=
  IsDigits core n ∨ ∃ digits, core = '+' :: digits ∧ IsDigits digits n

/-- A text that is a number that fits 64 bits, with white space around it. -/
def Counts (text : List Char) (n : Nat) : Prop :=
  ∃ core, IsCore core text ∧ IsNumeral core n ∧ n < 2 ^ 64

/-- A text that is taken as a name as it stands: any but white space alone. -/
def Names (text : List Char) (name : String) : Prop :=
  name.toList = text ∧ ∃ c ∈ text, Text.isBlank c = false

theorem toLower_of_isUpper {c : Char} (upper : c.isUpper = true) :
    c.toLower.toNat = c.toNat + 32 := by
  have hbounds : c.val ≥ 'A'.val ∧ c.val ≤ 'Z'.val := of_decide_eq_true upper
  have hle : c.val.toNat ≤ 90 := UInt32.le_iff_toNat_le.mp hbounds.2
  have hlower : c.toLower.val = c.val + ('a'.val - 'A'.val) := by
    unfold Char.toLower
    rw [dif_pos hbounds]
  change c.toLower.val.toNat = c.val.toNat + 32
  rw [hlower, UInt32.toNat_add]
  change (c.val.toNat + 32) % 4294967296 = c.val.toNat + 32
  omega

theorem toLower_of_not_isUpper {c : Char} (upper : c.isUpper ≠ true) : c.toLower = c := by
  have hbounds : ¬(c.val ≥ 'A'.val ∧ c.val ≤ 'Z'.val) := mt decide_eq_true upper
  unfold Char.toLower
  rw [dif_neg hbounds]

theorem toLower_eq_iff {letter c : Char} (lower : letter.isUpper = false) :
    c.toLower = letter ↔ InEitherCase letter c := by
  unfold InEitherCase
  by_cases hupper : c.isUpper = true
  · have hother : c ≠ letter := fun h => by simp [h, lower] at hupper
    rw [← Char.toNat_inj, toLower_of_isUpper hupper]
    exact ⟨fun h => .inr ⟨hupper, h.symm⟩, fun h => (h.resolve_left hother).2.symm⟩
  · rw [toLower_of_not_isUpper hupper]
    exact ⟨.inl, fun h => h.resolve_right fun h => hupper h.1⟩

theorem words_lower (b : Bool) : ∀ word ∈ words b, ∀ c ∈ word.toList, c.isUpper = false := by
  cases b <;> simp [words]

theorem map_toLower_eq_iff {word text : List Char} (lower : ∀ c ∈ word, c.isUpper = false) :
    text.map Char.toLower = word ↔ List.Forall₂ InEitherCase word text := by
  induction word generalizing text with
  | nil => simp
  | cons letter word ih =>
    cases text with
    | nil => simp
    | cons c text =>
      rw [List.map_cons, List.cons.injEq, List.forall₂_cons,
        toLower_eq_iff (lower letter List.mem_cons_self),
        ih fun c hc => lower c (List.mem_cons_of_mem _ hc)]

theorem readBool_eq (text : String) :
    readBool text =
      let word := String.ofList ((Text.trim text.toList).map Char.toLower)
      if word ∈ words true then some true else if word ∈ words false then some false else none := by
  unfold readBool
  simp only [List.contains_iff_mem, words]
  rfl

theorem mem_words_iff {text : List Char} {b : Bool} :
    String.ofList ((Text.trim text).map Char.toLower) ∈ words b ↔ Says text b := by
  constructor
  · intro h
    refine ⟨Text.trim text, Text.trim_isCore text, _, h, ?_⟩
    exact (map_toLower_eq_iff (words_lower b _ h)).mp (by rw [String.toList_ofList])
  · rintro ⟨core, hcore, word, hword, hspells⟩
    rw [← hcore.eq_trim, (map_toLower_eq_iff (words_lower b word hword)).mpr hspells,
      String.ofList_toList]
    exact hword

/-- What the value of a variable comes to: the field, and what is said about it. A text that is
accepted sets the field, and nothing is said. Every other value leaves the standard. -/
inductive Comes {α : Type} (accepts : List Char → α → Prop) (standard : α)
    (refused : String → List Ignored) (undecoded : List Ignored) :
    Option ByteArray → α → List Ignored → Prop
  | unset : Comes accepts standard refused undecoded none standard []
  | accepted {text : String} {field : α} (accepted : accepts text.toList field) :
    Comes accepts standard refused undecoded (some text.toUTF8) field []
  | refused {text : String} (unaccepted : ∀ field, ¬accepts text.toList field) :
    Comes accepts standard refused undecoded (some text.toUTF8) standard (refused text)
  | undecoded {bytes : ByteArray} (noText : ∀ text : String, bytes ≠ text.toUTF8) :
    Comes accepts standard refused undecoded (some bytes) standard undecoded

def Ignored.named : Ignored → String
  | .boolean name _ => name
  | .value name => name

/-- No word means both. -/
theorem words_disjoint {word : String} (h : word ∈ words true) : word ∉ words false := by
  revert word
  decide

theorem readBool_eq_some_iff {text : String} {b : Bool} :
    readBool text = some b ↔ Says text.toList b := by
  rw [readBool_eq, ← mem_words_iff]
  dsimp only
  cases b with
  | true => split <;> simp_all
  | false =>
    split
    · next h => simp [words_disjoint h]
    · simp

theorem digitChar_of_isDigit {c : Char} (h : c.isDigit = true) :
    c.toNat - 48 < 10 ∧ Nat.digitChar (c.toNat - 48) = c := by
  have hbounds : 48 ≤ c.toNat ∧ c.toNat ≤ 57 := by
    simpa [Char.isDigit, UInt32.le_iff_toNat_le, ← Char.toNat_val] using h
  have hsmall : c.toNat - 48 < 10 := by omega
  refine ⟨hsmall, Char.toNat_inj.mp ?_⟩
  rw [Nat.toNat_digitChar_of_lt_ten hsmall]
  omega

theorem foldl_digitChar {digits : List Nat} (small : ∀ d ∈ digits, d < 10) :
    (digits.map Nat.digitChar).foldl (fun n c => n * 10 + (c.toNat - '0'.toNat)) 0 =
      Nat.ofDigits 10 digits.reverse := by
  rw [Nat.ofDigits_eq_foldr, List.foldr_reverse, List.foldl_map]
  refine List.foldl_ext _ _ _ fun n d hd => ?_
  have hdigit : (Nat.digitChar d).toNat - '0'.toNat = d := by
    rw [Nat.toNat_digitChar_of_lt_ten (small d hd)]
    exact Nat.add_sub_cancel_left 48 d
  rw [hdigit]
  simp only [Nat.cast_id]
  omega

theorem isDigits_iff {text : List Char} {n : Nat} :
    IsDigits text n ↔ text ≠ [] ∧ text.all Char.isDigit = true ∧
      text.foldl (fun n c => n * 10 + (c.toNat - '0'.toNat)) 0 = n := by
  constructor
  · rintro ⟨digits, hne, hsmall, rfl, rfl⟩
    refine ⟨by simpa using hne, ?_, foldl_digitChar hsmall⟩
    rw [List.all_map, List.all_eq_true]
    intro d hd
    simpa [Nat.isDigit_digitChar] using hsmall d hd
  · rintro ⟨hne, hdigits, rfl⟩
    have hdigit (c : Char) (hc : c ∈ text) :=
      digitChar_of_isDigit (List.all_eq_true.mp hdigits c hc)
    have hsmall : ∀ d ∈ text.map (fun c => c.toNat - 48), d < 10 := by
      simpa using fun c hc => (hdigit c hc).1
    have htext : text = (text.map fun c => c.toNat - 48).map Nat.digitChar := by
      rw [List.map_map]
      exact ((List.map_congr_left fun c hc => (hdigit c hc).2).trans (List.map_id' text)).symm
    refine ⟨_, by simpa using hne, hsmall, htext, ?_⟩
    rw [← foldl_digitChar hsmall, ← htext]

theorem not_isDigits_plus (digits : List Char) (n : Nat) : ¬IsDigits ('+' :: digits) n := by
  rw [isDigits_iff]
  simp

theorem readDepth_eq_some_iff {text : String} {n : Nat} :
    readDepth text = some n ↔ Counts text.toList n := by
  have hread (digits : List Char) :
      (if digits.isEmpty || !digits.all Char.isDigit then none
        else
          let depth := digits.foldl (fun n c => n * 10 + (c.toNat - '0'.toNat)) 0
          if depth < depthBound then some depth else none) = some n ↔
        IsDigits digits n ∧ n < 2 ^ 64 := by
    rw [isDigits_iff]
    have hbound : depthBound = 2 ^ 64 := rfl
    rw [hbound]
    grind
  have hcounts : Counts text.toList n ↔ IsNumeral (Text.trim text.toList) n ∧ n < 2 ^ 64 := by
    unfold Counts
    simp only [Text.isCore_iff, exists_eq_left]
  rw [hcounts]
  unfold readDepth IsNumeral
  rw [hread]
  refine and_congr_left' ?_
  split
  · simp [*, not_isDigits_plus]
  · next unsigned =>
    exact ⟨.inl, fun h => h.resolve_right fun ⟨digits, hcore, _⟩ => unsigned digits hcore⟩

theorem fromUTF8?_eq_some_iff {bytes : ByteArray} {text : String} :
    String.fromUTF8? bytes = some text ↔ bytes = text.toUTF8 := by
  unfold String.fromUTF8?
  constructor
  · intro h
    split at h
    · cases h
      rfl
    · cases h
  · rintro rfl
    have hvalid : text.toUTF8.IsValidUTF8 := text.isValidUTF8
    rw [dif_pos hvalid]
    rfl

theorem decoded_cases (value : Option ByteArray) :
    value = none ∨
    (∃ text : String, value = some text.toUTF8 ∧ String.fromUTF8? text.toUTF8 = some text) ∨
    ∃ bytes, value = some bytes ∧ (∀ text : String, bytes ≠ text.toUTF8) ∧
      String.fromUTF8? bytes = none := by
  cases value with
  | none => exact .inl rfl
  | some bytes =>
    refine .inr ?_
    cases htext : String.fromUTF8? bytes with
    | none =>
      refine .inr ⟨bytes, rfl, fun text hbytes => ?_, htext⟩
      rw [fromUTF8?_eq_some_iff.mpr hbytes] at htext
      cases htext
    | some text =>
      obtain rfl := fromUTF8?_eq_some_iff.mp htext
      exact .inl ⟨text, rfl, htext⟩

theorem boolFrom_comes (environment : Environment) (name : String) (standard : Bool) :
    Comes Says standard (fun text => [.boolean name text]) [] (environment name)
      ((boolFrom environment name).1.getD standard) (boolFrom environment name).2 := by
  unfold boolFrom
  rcases decoded_cases (environment name) with h | ⟨text, h, htext⟩ | ⟨bytes, h, noText, htext⟩
  · rw [h]
    exact .unset
  · rw [h, Option.bind_some, htext]
    dsimp only
    cases hread : readBool text with
    | some b => exact .accepted (readBool_eq_some_iff.mp hread)
    | none =>
      refine .refused fun b hsays => ?_
      rw [readBool_eq_some_iff.mpr hsays] at hread
      cases hread
  · rw [h, Option.bind_some, htext]
    exact .undecoded noText

theorem depthFrom_comes (environment : Environment) (standard : Nat) :
    Comes Counts standard (fun _ => [.value depthVariable]) [.value depthVariable]
      (environment depthVariable) ((depthFrom environment).1.getD standard)
      (depthFrom environment).2 := by
  unfold depthFrom
  rcases decoded_cases (environment depthVariable) with
    h | ⟨text, h, htext⟩ | ⟨bytes, h, noText, htext⟩
  · rw [h]
    exact .unset
  · rw [h]
    dsimp only
    rw [htext, Option.bind_some]
    cases hread : readDepth text with
    | some depth => exact .accepted (readDepth_eq_some_iff.mp hread)
    | none =>
      refine .refused fun depth hcounts => ?_
      rw [readDepth_eq_some_iff.mpr hcounts] at hread
      cases hread
  · rw [h]
    dsimp only
    rw [htext]
    exact .undecoded noText

theorem trim_isEmpty_iff {text : List Char} :
    (Text.trim text).isEmpty = true ↔ ∀ c ∈ text, Text.isBlank c = true := by
  rw [List.isEmpty_iff, eq_comm, ← Text.isCore_iff]
  constructor
  · rintro ⟨⟨before, after, rfl, hbefore, hafter⟩, -, -⟩ c hc
    rw [List.append_nil] at hc
    exact (List.mem_append.mp hc).elim (hbefore c) (hafter c)
  · intro h
    exact ⟨⟨text, [], by simp, h, by simp⟩, by simp, by simp⟩

theorem threadFrom_comes (environment : Environment) (standard : String) :
    Comes Names standard (fun _ => []) [] (environment threadVariable)
      ((threadFrom environment).getD standard) [] := by
  unfold threadFrom
  rcases decoded_cases (environment threadVariable) with
    h | ⟨text, h, htext⟩ | ⟨bytes, h, noText, htext⟩
  · rw [h]
    exact .unset
  · rw [h, Option.bind_some, htext]
    dsimp only
    split
    · next hblank =>
      refine .refused ?_
      rintro name ⟨-, c, hc, hclear⟩
      rw [trim_isEmpty_iff.mp hblank c hc] at hclear
      cases hclear
    · next hclear =>
      refine .accepted ⟨rfl, ?_⟩
      rw [trim_isEmpty_iff] at hclear
      simpa using hclear
  · rw [h, Option.bind_some, htext]
    exact .undecoded noText

theorem Says.unique {text : List Char} {b b' : Bool} (h : Says text b) (h' : Says text b') :
    b = b' := by
  rw [← String.toList_ofList (l := text)] at h h'
  exact Option.some.inj ((readBool_eq_some_iff.mpr h).symm.trans (readBool_eq_some_iff.mpr h'))

theorem Counts.unique {text : List Char} {n n' : Nat} (h : Counts text n) (h' : Counts text n') :
    n = n' := by
  rw [← String.toList_ofList (l := text)] at h h'
  exact Option.some.inj ((readDepth_eq_some_iff.mpr h).symm.trans (readDepth_eq_some_iff.mpr h'))

theorem Names.unique {text : List Char} {name name' : String} (h : Names text name)
    (h' : Names text name') : name = name' :=
  String.toList_injective (h.1.trans h'.1.symm)

theorem Comes.unique {α : Type} {accepts : List Char → α → Prop} {standard : α}
    {refused : String → List Ignored} {undecoded : List Ignored} {value : Option ByteArray}
    {field field' : α} {said said' : List Ignored}
    (comes : Comes accepts standard refused undecoded value field said)
    (comes' : Comes accepts standard refused undecoded value field' said')
    (single : ∀ text a b, accepts text a → accepts text b → a = b) :
    field = field' ∧ said = said' := by
  have htext {text text' : String} (h : some text.toUTF8 = some text'.toUTF8) : text = text' :=
    String.toByteArray_inj.mp (Option.some.inj h)
  generalize hvalue : value = value' at comes'
  cases comes with
  | unset =>
    cases comes' with
    | unset => exact ⟨rfl, rfl⟩
    | accepted | refused | undecoded => cases hvalue
  | accepted accepted =>
    cases comes' with
    | unset => cases hvalue
    | accepted accepted' =>
      obtain rfl := htext hvalue
      exact ⟨single _ _ _ accepted accepted', rfl⟩
    | refused unaccepted =>
      obtain rfl := htext hvalue
      exact absurd accepted (unaccepted _)
    | undecoded noText => exact absurd (Option.some.inj hvalue).symm (noText _)
  | refused unaccepted =>
    cases comes' with
    | unset => cases hvalue
    | accepted accepted' =>
      obtain rfl := htext hvalue
      exact absurd accepted' (unaccepted _)
    | refused =>
      obtain rfl := htext hvalue
      exact ⟨rfl, rfl⟩
    | undecoded noText => exact absurd (Option.some.inj hvalue).symm (noText _)
  | undecoded noText =>
    cases comes' with
    | unset => cases hvalue
    | accepted | refused => exact absurd (Option.some.inj hvalue) (noText _)
    | undecoded => exact ⟨rfl, rfl⟩

theorem named_of_boolFrom {environment : Environment} {name : String} :
    ∀ warning ∈ (boolFrom environment name).2, warning.named = name := by
  unfold boolFrom
  split
  · simp
  · split <;> simp [Ignored.named]

theorem named_of_depthFrom {environment : Environment} :
    ∀ warning ∈ (depthFrom environment).2, warning.named = depthVariable := by
  unfold depthFrom
  split
  · simp
  · split <;> simp [Ignored.named]

theorem filter_named {warnings : List Ignored} {name : String}
    (h : ∀ warning ∈ warnings, warning.named = name) (other : String) :
    warnings.filter (·.named = other) = if name = other then warnings else [] := by
  split
  · next heq => exact List.filter_eq_self.mpr fun warning hmem => by simp [h warning hmem, heq]
  · next hne => exact List.filter_eq_nil_iff.mpr fun warning hmem => by simp [h warning hmem, hne]

/-- What an environment comes to, for the variables one by one. Each field depends on its own
variable. What is said names the variable that it is about, as a warning. -/
structure Follows (environment : Environment) (settings : Settings) (ignored : List Ignored) :
    Prop where
  hoist : Comes Says true (fun text => [.boolean hoistVariable text]) []
    (environment hoistVariable) settings.hoist (ignored.filter (·.named = hoistVariable))
  snapshot : Comes Says false (fun text => [.boolean snapshotVariable text]) []
    (environment snapshotVariable) settings.snapshot
    (ignored.filter (·.named = snapshotVariable))
  depth : Comes Counts 1024 (fun _ => [.value depthVariable]) [.value depthVariable]
    (environment depthVariable) settings.maxDepth (ignored.filter (·.named = depthVariable))
  thread : Comes Names "stratum-eager" (fun _ => []) [] (environment threadVariable)
    settings.threadName (ignored.filter (·.named = threadVariable))
  named : ∀ warning ∈ ignored,
    warning.named ∈ [hoistVariable, snapshotVariable, depthVariable]
  warned : ∀ warning ∈ ignored, (LogEntry.ignored warning).line.level = .warn ∧
    ("var", Json.str warning.named) ∈ (LogEntry.ignored warning).line.fields

theorem fromEnvironment_follows (environment : Environment) :
    Follows environment (fromEnvironment environment).1 (fromEnvironment environment).2 := by
  have hsplit (name : String) : (fromEnvironment environment).2.filter (·.named = name) =
      (if hoistVariable = name then (boolFrom environment hoistVariable).2 else []) ++
        (if snapshotVariable = name then (boolFrom environment snapshotVariable).2 else []) ++
          (if depthVariable = name then (depthFrom environment).2 else []) := by
    unfold fromEnvironment
    simp only [List.filter_append, filter_named named_of_boolFrom, filter_named named_of_depthFrom]
  have hnamed : ∀ warning ∈ (fromEnvironment environment).2,
      warning.named ∈ [hoistVariable, snapshotVariable, depthVariable] := by
    intro warning hmem
    have hparts : warning ∈ (boolFrom environment hoistVariable).2 ++
      (boolFrom environment snapshotVariable).2 ++ (depthFrom environment).2 := hmem
    rcases List.mem_append.mp hparts with hparts | hmem
    · rcases List.mem_append.mp hparts with hmem | hmem
      · simp [named_of_boolFrom warning hmem]
      · simp [named_of_boolFrom warning hmem]
    · simp [named_of_depthFrom warning hmem]
  refine ⟨?_, ?_, ?_, ?_, hnamed, ?_⟩
  · have hown : (fromEnvironment environment).2.filter (·.named = hoistVariable) =
        (boolFrom environment hoistVariable).2 := by
      rw [hsplit, if_pos rfl, if_neg (by decide), if_neg (by decide), List.append_nil,
        List.append_nil]
    rw [hown]
    exact boolFrom_comes environment hoistVariable true
  · have hown : (fromEnvironment environment).2.filter (·.named = snapshotVariable) =
        (boolFrom environment snapshotVariable).2 := by
      rw [hsplit, if_neg (by decide), if_pos rfl, if_neg (by decide), List.nil_append,
        List.append_nil]
    rw [hown]
    exact boolFrom_comes environment snapshotVariable false
  · have hown : (fromEnvironment environment).2.filter (·.named = depthVariable) =
        (depthFrom environment).2 := by
      rw [hsplit, if_neg (by decide), if_neg (by decide), if_pos rfl, List.nil_append,
        List.nil_append]
    rw [hown]
    exact depthFrom_comes environment 1024
  · have hnone : (fromEnvironment environment).2.filter (·.named = threadVariable) = [] := by
      rw [hsplit, if_neg (by decide), if_neg (by decide), if_neg (by decide)]
      rfl
    rw [hnone]
    exact threadFrom_comes environment "stratum-eager"
  · rintro (⟨name, value⟩ | name) -
    · exact ⟨rfl, by simp [LogEntry.line, Ignored.named]⟩
    · exact ⟨rfl, by simp [LogEntry.line, Ignored.named]⟩

/-- For each variable: unset, it leaves the standard; set to a text that is accepted, it sets its
field to what the text says; set to anything else, it leaves the standard with one warning that
names it. The exception are boolean variables whose value is no text: they are dropped in silence.
No field depends on another variable. -/
theorem variables_set_their_fields (environment : Environment) :
    Follows environment (fromEnvironment environment).1 (fromEnvironment environment).2 ∧
      ∀ other : Environment,
        (other hoistVariable = environment hoistVariable →
          (fromEnvironment other).1.hoist = (fromEnvironment environment).1.hoist) ∧
        (other snapshotVariable = environment snapshotVariable →
          (fromEnvironment other).1.snapshot = (fromEnvironment environment).1.snapshot) ∧
        (other depthVariable = environment depthVariable →
          (fromEnvironment other).1.maxDepth = (fromEnvironment environment).1.maxDepth) ∧
        (other threadVariable = environment threadVariable →
          (fromEnvironment other).1.threadName = (fromEnvironment environment).1.threadName) := by
  have hfollows := fromEnvironment_follows environment
  refine ⟨hfollows, fun other => ?_⟩
  have hother := fromEnvironment_follows other
  refine ⟨fun h => ?_, fun h => ?_, fun h => ?_, fun h => ?_⟩
  · exact ((h ▸ hother.hoist).unique hfollows.hoist fun _ _ _ => Says.unique).1
  · exact ((h ▸ hother.snapshot).unique hfollows.snapshot fun _ _ _ => Says.unique).1
  · exact ((h ▸ hother.depth).unique hfollows.depth fun _ _ _ => Counts.unique).1
  · exact ((h ▸ hother.thread).unique hfollows.thread fun _ _ _ => Names.unique).1

/-- An environment with a word in mixed case, bytes that are no text, the largest depth, and a
blank name. -/
def mixedEnvironment : Environment := fun name =>
  if name = hoistVariable then some " oFf\u3000".toUTF8
  else if name = snapshotVariable then some ⟨#[0xff]⟩
  else if name = depthVariable then some "\t+018446744073709551615\n".toUTF8
  else if name = threadVariable then some "  ".toUTF8
  else none

theorem variables_set_their_fields_mixed :
    fromEnvironment mixedEnvironment =
        ({ hoist := false, maxDepth := 18446744073709551615 }, []) ∧
      Follows mixedEnvironment (fromEnvironment mixedEnvironment).1
        (fromEnvironment mixedEnvironment).2 ∧
      (fromEnvironment mixedEnvironment).1.hoist = false ∧
      (fromEnvironment mixedEnvironment).1.snapshot = false ∧
      (fromEnvironment mixedEnvironment).1.maxDepth = 18446744073709551615 ∧
      (fromEnvironment mixedEnvironment).1.threadName = "stratum-eager" := by
  -- each variable alone sets its field as it does among the others
  let alone (only : String) : Environment := fun name =>
    if name = only then mixedEnvironment name else none
  have hlaw (only : String) := (variables_set_their_fields (alone only)).2 mixedEnvironment
  refine ⟨by decide +kernel, (variables_set_their_fields mixedEnvironment).1, ?_, ?_, ?_, ?_⟩
  · exact (hlaw hoistVariable).1 rfl
  · exact (hlaw snapshotVariable).2.1 rfl
  · exact (hlaw depthVariable).2.2.1 rfl
  · exact (hlaw threadVariable).2.2.2 rfl

/-- The same bytes, which are no text, are noted as a depth and dropped in silence as a truth
value. -/
theorem undecodable_boolean_is_dropped :
    (∀ text : String, (⟨#[0xff]⟩ : ByteArray) ≠ text.toUTF8) ∧
      fromEnvironment (fun name => if name = depthVariable then some ⟨#[0xff]⟩ else none) =
        ({}, [.value depthVariable]) ∧
      fromEnvironment (fun name => if name = hoistVariable then some ⟨#[0xff]⟩ else none) =
        ({}, []) := by
  refine ⟨fun text h => ?_, by decide +kernel, by decide +kernel⟩
  have hnone : String.fromUTF8? ⟨#[0xff]⟩ = none := by decide +kernel
  rw [fromUTF8?_eq_some_iff.mpr h] at hnone
  cases hnone

end Settings

end LayerGraph
