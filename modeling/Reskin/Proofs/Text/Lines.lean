import Mathlib.Data.List.Basic
import Reskin.Proofs.Text.Integer
import Reskin.Proofs.Text.Split

/-!
# Texts in lines

A text that is put together from lines falls apart into these lines again just if none of them has a
line break in it.

* **`flatMap_splitAll_eq_iff`** — when the parts of some lines are these lines.
* **`splitAll_flatMap_ended`**, **`splitAll_intercalate`** — lines with a separator behind each of
  them, and with separators between them.
* **`IsOneLine`** — a text without line breaks.
-/

namespace Reskin.Text

/-! ## Lines and their separators -/

/-- Lines fall apart into one part each, and one more for each separator in them. -/
theorem length_flatMap_splitAll (separator : Char) (lines : List (List Char)) :
    (lines.flatMap (splitAll separator)).length
      = lines.length + lines.flatten.count separator := by
  induction lines with
  | nil => rfl
  | cons line lines ih =>
    rw [List.flatMap_cons, List.length_append, length_splitAll, ih, List.flatten_cons,
      List.count_append, List.length_cons]
    omega

/-- Lines stay as they are when they are split just if no separator is in them. The converse is a
matter of counting the parts. -/
theorem flatMap_splitAll_eq_iff {separator : Char} {lines : List (List Char)} :
    lines.flatMap (splitAll separator) = lines ↔ ∀ line ∈ lines, separator ∉ line := by
  constructor
  · intro h line hline hmem
    -- It is enough to count: a separator in a line would add a part.
    have hlength := length_flatMap_splitAll separator lines
    rw [h] at hlength
    have hcount : lines.flatten.count separator = 0 := by omega
    exact List.count_eq_zero.mp hcount (List.mem_flatten.mpr ⟨line, hline, hmem⟩)
  · intro h
    have hparts : lines.flatMap (splitAll separator) = lines.flatMap fun line => [line] :=
      List.flatMap_congr fun line hline => splitAll_of_not_mem (h line hline)
    rw [hparts, List.flatMap_singleton']

/-- Lines that are ended by a separator each fall apart into the parts of the lines, with nothing
behind the last separator. -/
theorem splitAll_flatMap_ended (separator : Char) (lines : List (List Char)) :
    splitAll separator (lines.flatMap (· ++ [separator]))
      = lines.flatMap (splitAll separator) ++ [[]] := by
  induction lines with
  | nil => rfl
  | cons line lines ih =>
    rw [List.flatMap_cons, List.append_assoc, List.singleton_append, splitAll_append, ih,
      List.flatMap_cons, List.append_assoc]

theorem intercalate_append_separator {separator : Char} {lines : List (List Char)}
    (h : lines ≠ []) :
    [separator].intercalate lines ++ [separator] = lines.flatMap (· ++ [separator]) := by
  induction lines with
  | nil => exact absurd rfl h
  | cons line lines ih =>
    rw [List.flatMap_cons]
    cases lines with
    | nil => rw [List.intercalate_singleton, List.flatMap_nil, List.append_nil]
    | cons next lines =>
      rw [List.intercalate_cons_cons, List.append_assoc, ih (List.cons_ne_nil next lines)]

/-- Parts that are put together with separators between them are split into these parts, if no
separator is in them. -/
theorem splitAll_intercalate {separator : Char} {parts : List (List Char)} (hne : parts ≠ [])
    (hparts : ∀ part ∈ parts, separator ∉ part) :
    splitAll separator ([separator].intercalate parts) = parts := by
  have hended : splitAll separator ([separator].intercalate parts) ++ [[]] = parts ++ [[]] := by
    calc splitAll separator ([separator].intercalate parts) ++ [[]]
        = splitAll separator ([separator].intercalate parts ++ [separator]) :=
          (splitAll_append separator _ []).symm
      _ = parts.flatMap (splitAll separator) ++ [[]] := by
          rw [intercalate_append_separator hne, splitAll_flatMap_ended]
      _ = parts ++ [[]] := by rw [flatMap_splitAll_eq_iff.mpr hparts]
  exact List.append_cancel_right hended

/-! ## Texts without line breaks -/

/-- A text without line breaks. -/
def IsOneLine (text : String) : Prop :=
  '\n' ∉ text.toList

instance (text : String) : Decidable (IsOneLine text) :=
  inferInstanceAs (Decidable ('\n' ∉ text.toList))

@[simp] theorem isOneLine_append {a b : String} :
    IsOneLine (a ++ b) ↔ IsOneLine a ∧ IsOneLine b := by
  rw [IsOneLine, String.toList_append, List.mem_append, not_or]
  rfl

theorem isOneLine_intercalate {separator : String} {texts : List String}
    (hseparator : IsOneLine separator) (htexts : ∀ text ∈ texts, IsOneLine text) :
    IsOneLine (separator.intercalate texts) := by
  rw [IsOneLine, String.toList_intercalate]
  induction texts with
  | nil => exact List.not_mem_nil
  | cons text texts ih =>
    obtain ⟨htext, htexts⟩ := List.forall_mem_cons.mp htexts
    cases texts with
    | nil =>
      show '\n' ∉ separator.toList.intercalate [text.toList]
      rw [List.intercalate_singleton]
      exact htext
    | cons next texts =>
      rw [List.map_cons, List.map_cons, List.intercalate_cons_cons, List.mem_append,
        List.mem_append, not_or, not_or]
      exact ⟨⟨htext, hseparator⟩, ih htexts⟩

/-- An ASCII character can be looked for in the encoded text, which need not be decoded for that. -/
theorem not_mem_of_not_mem_bytes {text : String} {c : Char} (byte : UInt8)
    (hbyte : byte ∈ String.utf8EncodeChar c) (h : byte ∉ text.toByteArray.data.toList) :
    c ∉ text.toList := by
  intro hmem
  apply h
  rw [← String.utf8Encode_toList, List.utf8Encode, List.toList_data_toByteArray]
  exact List.mem_flatMap.mpr ⟨c, hmem, hbyte⟩

theorem isOneLine_of_isDigit {text : String} (h : ∀ c ∈ text.toList, c.isDigit = true) :
    IsOneLine text :=
  fun hmem => absurd (h '\n' hmem) (by decide)

theorem isOneLine_toString_nat (n : Nat) : IsOneLine (toString n) :=
  not_mem_toString_nat rfl n

theorem isOneLine_toString_int (n : Int) : IsOneLine (toString n) := by
  cases n with
  | ofNat n => exact isOneLine_toString_nat n
  | negSucc n => exact isOneLine_append.mpr ⟨by decide, isOneLine_toString_nat (n + 1)⟩

/-! ## Blanks in front -/

theorem toList_pushn (text : String) (c : Char) (n : Nat) :
    (text.pushn c n).toList = text.toList ++ List.replicate n c := by
  induction n with
  | zero => simp [String.pushn_eq_repeat_push, Nat.repeat]
  | succ n ih =>
    rw [String.pushn_eq_repeat_push] at ih ⊢
    rw [Nat.repeat, String.toList_push, ih, List.replicate_succ', List.append_assoc]

end Reskin.Text
