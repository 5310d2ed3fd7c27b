import Reskin.Text.Integer

/-!
# Integers are read as they are written

A number is written with its digits from the front, and the last of them is what is left when it is
divided by ten. The reader multiplies by ten and adds, so it undoes one division after the other.
-/

namespace Reskin.Text

theorem not_mem_toString_nat {c : Char} (hc : c.isDigit = false) (n : Nat) :
    c ∉ (toString n).toList := by
  intro hmem
  have hdigit : c ∈ Nat.toDigits 10 n := by
    rwa [← String.toList_ofList (l := Nat.toDigits 10 n)]
  rw [Nat.isDigit_of_mem_toDigits (by decide) (by decide) hdigit] at hc
  cases hc

/-- Digits behind others are read with the value of those as the start. -/
theorem decimalValue?_append (value : Nat) (a b : List Char) :
    decimalValue? value (a ++ b) = (decimalValue? value a).bind (decimalValue? · b) := by
  induction a generalizing value with
  | nil => rfl
  | cons c a ih =>
    rw [List.cons_append, decimalValue?, decimalValue?]
    split
    · exact ih _
    · rfl

/-- The digits of a number are read as the number. Strong induction: all digits but the last one are
those of a tenth of the number. -/
theorem decimalValue?_toDigits (n : Nat) : decimalValue? 0 (Nat.toDigits 10 n) = some n := by
  have hdigit : ∀ digit < 10, ∀ value,
      decimalValue? value [digit.digitChar] = some (value * 10 + digit) := by
    intro digit hlt value
    have hall : ∀ digit < 10, digit.digitChar.isDigit = true
        ∧ digit.digitChar.toNat - 48 = digit := by
      decide
    rw [decimalValue?, if_pos (hall digit hlt).1, (hall digit hlt).2]
    rfl
  induction n using Nat.strongRecOn with
  | ind n ih =>
    by_cases hlt : n < 10
    · rw [Nat.toDigits_of_lt_base hlt, hdigit n hlt, Nat.zero_mul, Nat.zero_add]
    · rw [Nat.toDigits_of_base_le (by decide) (Nat.le_of_not_lt hlt), decimalValue?_append,
        ih (n / 10) (by omega), Option.bind_some, hdigit (n % 10) (by omega)]
      congr 1
      omega

theorem decimal?_toString (n : Nat) : decimal? (toString n).toList = some n := by
  have hdigits : (toString n).toList = Nat.toDigits 10 n := String.toList_ofList
  have hvalue := decimalValue?_toDigits n
  rw [hdigits]
  cases hcs : Nat.toDigits 10 n with
  | nil => exact absurd hcs Nat.toDigits_ne_nil
  | cons c cs =>
    rw [hcs] at hvalue
    exact hvalue

theorem toString_nat_inj {m n : Nat} (h : (toString m).toList = (toString n).toList) : m = n := by
  have hread := decimal?_toString m
  rw [h, decimal?_toString n] at hread
  exact (Option.some.inj hread).symm

/-- Integers are read as they are written. A sign is there for negative ones only, and no digit is
taken for one. -/
theorem integer?_toString (n : Int) : integer? (toString n).toList = some n := by
  cases n with
  | ofNat n =>
    -- A digit is no sign.
    have hsign : ∀ c ∈ (toString n).toList, c ≠ '+' ∧ c ≠ '-' := by
      intro c hc
      constructor
      · rintro rfl
        exact not_mem_toString_nat rfl n hc
      · rintro rfl
        exact not_mem_toString_nat rfl n hc
    show integer? (toString n).toList = _
    unfold integer?
    split
    · next heq => exact absurd rfl (hsign '+' (by rw [heq]; exact List.mem_cons_self)).1
    · next heq => exact absurd rfl (hsign '-' (by rw [heq]; exact List.mem_cons_self)).2
    · rw [decimal?_toString]
      rfl
  | negSucc n =>
    have htext : (toString (Int.negSucc n)).toList = '-' :: (toString (n + 1)).toList := by
      show ("-" ++ toString (n + 1)).toList = _
      rw [String.toList_append]
      rfl
    rw [htext, integer?, decimal?_toString]
    rfl

end Reskin.Text
