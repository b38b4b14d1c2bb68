import LayerGraph.Key
import Mathlib.Data.List.DropRight
import Mathlib.Data.String.Basic

/-! How the names of types are shortened.

Between any two delimiters of a type name there is a path. Shortening keeps the last segment of each
path, and every delimiter where it is. So it can be done on both sides of a delimiter separately,
and it leaves nothing to be shortened. -/

namespace LayerGraph.Key

/-- The part of a run after its last colon. -/
def tip (run : List Char) : List Char := run.rtakeWhile (· ≠ ':')

def delimiting : List Char := "<>, ()[];&*".toList

def runs (text : List Char) : List (List Char) := text.splitOnP delimiting.contains

def delimiters (text : List Char) : List Char := text.filter delimiting.contains

/-- Runs one after the other, each but the last with a delimiter after it. -/
def interlace (runs : List (List Char)) (delimiters : List Char) : List Char :=
  (List.zipWith (· ++ ·) runs (delimiters.map (fun delimiter => [delimiter]) ++ [[]])).flatten

variable {text : List Char} {delimiter : Char}

theorem isDelimiter_eq : isDelimiter = delimiting.contains := rfl

theorem delimiters_cons (c : Char) (rest : List Char) :
    delimiters (c :: rest) =
      if isDelimiter c = true then c :: delimiters rest else delimiters rest := by
  rw [isDelimiter_eq]
  exact List.filter_cons

theorem interlace_runs (text : List Char) : interlace (runs text) (delimiters text) = text :=
  List.splitOnP_spec text

theorem interlace_singleton (run : List Char) : interlace [run] [] = run := by
  simp [interlace]

theorem interlace_cons (run : List Char) (rest : List (List Char)) (delimiters : List Char) :
    interlace (run :: rest) (delimiter :: delimiters) =
      run ++ delimiter :: interlace rest delimiters := by
  simp [interlace]

theorem tip_nil : tip [] = [] := List.rtakeWhile_nil _

theorem tip_concat_colon (run : List Char) : tip (run ++ [':']) = [] :=
  List.rtakeWhile_concat_neg _ _ _ (by simp)

theorem tip_concat {c : Char} (run : List Char) (hc : c ≠ ':') :
    tip (run ++ [c]) = tip run ++ [c] :=
  List.rtakeWhile_concat_pos _ _ _ (by simpa using hc)

theorem ne_colon_of_isDelimiter (h : isDelimiter delimiter = true) : delimiter ≠ ':' := by
  rintro rfl
  cases h

theorem shortenFrom_tip (read text : List Char) :
    shortenFrom (tip read.reverse).reverse text =
      interlace ((text.splitOnPPrepend isDelimiter read).map tip) (delimiters text) := by
  induction text generalizing read with
  | nil =>
    rw [shortenFrom, List.reverse_reverse, List.splitOnPPrepend_nil]
    exact (interlace_singleton _).symm
  | cons c rest ih =>
    rw [shortenFrom]
    split
    · next hcolon =>
      subst hcolon
      -- The segment that is dropped is the tip of a run that ends in a colon.
      have htip : (tip (':' :: read).reverse).reverse = [] := by
        rw [List.reverse_cons, tip_concat_colon, List.reverse_nil]
      rw [← htip, ih, List.splitOnPPrepend_cons_neg rfl]
      rfl
    · next hcolon =>
      split
      · next hdelimiter =>
        have hrest := ih []
        rw [List.reverse_nil, tip_nil, List.reverse_nil] at hrest
        rw [hrest, List.reverse_reverse, List.splitOnPPrepend_cons_pos hdelimiter, List.map_cons,
          delimiters_cons, if_pos hdelimiter, interlace_cons]
        rfl
      · next hplain =>
        have htip : (tip (c :: read).reverse).reverse = c :: (tip read.reverse).reverse := by
          rw [List.reverse_cons, tip_concat _ hcolon, List.reverse_concat]
        rw [← htip, ih, List.splitOnPPrepend_cons_neg (Bool.eq_false_iff.mpr hplain),
          delimiters_cons, if_neg hplain]

/-- Shortening leaves the tip of every run, and every delimiter where it is. -/
theorem shorten_eq (text : List Char) :
    shorten text = interlace ((runs text).map tip) (delimiters text) := by
  rw [runs, ← isDelimiter_eq]
  exact shortenFrom_tip [] text

theorem shortenFrom_append (h : isDelimiter delimiter = true) (segment before after : List Char) :
    shortenFrom segment (before ++ delimiter :: after) =
      shortenFrom segment before ++ delimiter :: shorten after := by
  induction before generalizing segment with
  | nil =>
    rw [List.nil_append, shortenFrom, shortenFrom, if_neg (ne_colon_of_isDelimiter h), if_pos h]
    rfl
  | cons c rest ih =>
    rw [List.cons_append, shortenFrom, shortenFrom]
    split
    · exact ih []
    · split
      · rw [ih, List.append_assoc]
        rfl
      · exact ih (c :: segment)

theorem colon_notMem_shortenFrom {segment : List Char} (h : ':' ∉ segment) :
    ':' ∉ shortenFrom segment text := by
  fun_induction shortenFrom segment text with
  | case1 segment => simpa using h
  | case2 segment rest ih => exact ih List.not_mem_nil
  | case3 segment c rest hcolon hdelimiter ih =>
    simp [h, Ne.symm hcolon, ih]
  | case4 segment c rest hcolon hplain ih => exact ih (by simp [h, Ne.symm hcolon])

theorem shortenFrom_sublist (segment text : List Char) :
    (shortenFrom segment text).Sublist (segment.reverse ++ text) := by
  fun_induction shortenFrom segment text with
  | case1 segment => simp
  | case2 segment rest ih =>
    exact (ih.trans (List.sublist_cons_self _ _)).trans (List.sublist_append_right _ _)
  | case3 segment c rest hcolon hdelimiter ih => exact (ih.cons_cons c).append_left segment.reverse
  | case4 segment c rest hcolon hplain ih => simpa using ih

theorem shortenFrom_of_colon_notMem (segment : List Char) (h : ':' ∉ text) :
    shortenFrom segment text = segment.reverse ++ text := by
  induction text generalizing segment with
  | nil => simp [shortenFrom]
  | cons c rest ih =>
    obtain ⟨hc, hrest⟩ := not_or.mp (mt List.mem_cons.mpr h)
    rw [shortenFrom, if_neg (Ne.symm hc), ih _ hrest, ih _ hrest]
    simp

theorem colon_notMem_shorten (text : List Char) : ':' ∉ shorten text :=
  colon_notMem_shortenFrom List.not_mem_nil

theorem shorten_sublist (text : List Char) : (shorten text).Sublist text :=
  shortenFrom_sublist [] text

theorem shorten_of_colon_notMem (h : ':' ∉ text) : shorten text = text :=
  shortenFrom_of_colon_notMem [] h

theorem shorten_shorten (text : List Char) : shorten (shorten text) = shorten text :=
  shorten_of_colon_notMem (colon_notMem_shorten text)

theorem toList_shortName (key : Key) : key.shortName.toList = shorten key.name.toList :=
  String.toList_ofList

/-- A short name is the name with every run between delimiters cut down to what is after its last
colon, and with every delimiter in its place. So what is on the one side of a delimiter is shortened
without regard to the other. A short name has no colon, it is not longer than the name, and it
cannot be shortened any further. -/
theorem short_names_drop_paths (key : Key) :
    (key.name.toList = interlace (runs key.name.toList) (delimiters key.name.toList) ∧
      key.shortName.toList =
        interlace ((runs key.name.toList).map tip) (delimiters key.name.toList)) ∧
    (∀ delimiter ∈ delimiting, ∀ before after : String,
      shortName ⟨before ++ String.singleton delimiter ++ after⟩ =
        shortName ⟨before⟩ ++ String.singleton delimiter ++ shortName ⟨after⟩) ∧
    shortName ⟨key.shortName⟩ = key.shortName ∧
    ':' ∉ key.shortName.toList ∧
    (key.shortName.length ≤ key.name.length ∧
      key.shortName.utf8ByteSize ≤ key.name.utf8ByteSize) ∧
    (':' ∉ key.name.toList → key.shortName = key.name) := by
  refine ⟨⟨(interlace_runs _).symm, ?_⟩, ?_, ?_, ?_, ⟨?_, ?_⟩, ?_⟩
  · rw [toList_shortName, shorten_eq]
  · intro delimiter hdelimiter before after
    apply String.toList_inj.mp
    simp only [String.toList_append, toList_shortName, String.toList_singleton, List.append_assoc,
      List.singleton_append]
    have h : isDelimiter delimiter = true := by
      rw [isDelimiter_eq]
      exact List.contains_iff_mem.mpr hdelimiter
    exact shortenFrom_append h [] _ _
  · apply String.toList_inj.mp
    rw [toList_shortName, toList_shortName, shorten_shorten]
  · rw [toList_shortName]
    exact colon_notMem_shorten _
  · rw [← String.length_toList, ← String.length_toList, toList_shortName]
    exact (shorten_sublist _).length_le
  · rw [← String.utf8Len_toList, ← String.utf8Len_toList, toList_shortName]
    exact String.utf8Len_le_of_sublist (shorten_sublist _)
  · intro hcolon
    apply String.toList_inj.mp
    rw [toList_shortName, shorten_of_colon_notMem hcolon]

/-- The name of a vector, cut where its arguments begin. -/
theorem short_names_drop_paths_nested :
    '<' ∈ delimiting ∧
      shortName ⟨"alloc::vec::Vec" ++ String.singleton '<' ++ "(app::model::Widget, &[u8; 3])>"⟩ =
        shortName ⟨"alloc::vec::Vec"⟩ ++ String.singleton '<' ++
          shortName ⟨"(app::model::Widget, &[u8; 3])>"⟩ ∧
      shortName ⟨"(app::model::Widget, &[u8; 3])>"⟩ = "(Widget, &[u8; 3])>" ∧
      ':' ∉ "Vec<u8>".toList ∧ shortName ⟨"Vec<u8>"⟩ = "Vec<u8>" := by
  obtain ⟨-, happend, -⟩ := short_names_drop_paths ⟨"alloc::vec::Vec"⟩
  obtain ⟨-, -, -, -, -, hplain⟩ := short_names_drop_paths ⟨"Vec<u8>"⟩
  have hcolon : ':' ∉ "Vec<u8>".toList := by decide
  have hdelimiter : '<' ∈ delimiting := by decide
  exact ⟨hdelimiter, happend '<' hdelimiter _ _, by decide +kernel, hcolon, hplain hcolon⟩

end LayerGraph.Key
