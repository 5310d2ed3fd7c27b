import Mathlib.Data.List.Nodup
import Reskin.Proofs.Text.Split
import Reskin.Text.Escape

/-!
# Texts in printable characters

A text in printable characters stands for one text only: a character is spelled in one of three ways
(`IsSpelled`), and where a spelling ends can be seen from the spelling itself.

* **`toDigits_inj`** — hexadecimal digits stand for one number.
* **`IsSpelled.append_inj`** — no spelling is the start of another one.
* **`printable_inj`**, **`newline_not_mem_printable`** — the spelling of a text.
-/

namespace Reskin.Text

/-! ## Hexadecimal digits -/

theorem mem_hexDigits_of_mem {c : Char} {n : Nat} (h : c ∈ Nat.toDigits 16 n) :
    c ∈ ['0', '1', '2', '3', '4', '5', '6', '7', '8', '9', 'a', 'b', 'c', 'd', 'e', 'f'] := by
  have hdigit : ∀ digit < 16, digit.digitChar
      ∈ ['0', '1', '2', '3', '4', '5', '6', '7', '8', '9', 'a', 'b', 'c', 'd', 'e', 'f'] := by
    decide
  induction n using Nat.strongRecOn with
  | ind n ih =>
    by_cases hlt : n < 16
    · rw [Nat.toDigits_of_lt_base hlt, List.mem_singleton] at h
      exact h ▸ hdigit n hlt
    · rw [Nat.toDigits_of_base_le (by decide) (Nat.le_of_not_lt hlt), List.mem_append,
        List.mem_singleton] at h
      rcases h with h | rfl
      · exact ih (n / 16) (by omega) h
      · exact hdigit (n % 16) (by omega)

/-- Numbers with the same hexadecimal digits are the same. Strong induction: the last digits are the
remainders, and the others those of the quotients. -/
theorem toDigits_inj {m n : Nat} (h : Nat.toDigits 16 m = Nat.toDigits 16 n) : m = n := by
  have hdigit : ∀ a < 16, ∀ b < 16, a.digitChar = b.digitChar → a = b := by decide
  -- A number with more than one digit ends in its remainder, which is a digit of its own.
  have hsnoc : ∀ k, 16 ≤ k → Nat.toDigits 16 k = Nat.toDigits 16 (k / 16) ++ [(k % 16).digitChar] :=
    fun k hk => Nat.toDigits_of_base_le (by decide) hk
  have hlonger : ∀ a k, a < 16 → 16 ≤ k → Nat.toDigits 16 a ≠ Nat.toDigits 16 k := by
    intro a k ha hk heq
    rw [Nat.toDigits_of_lt_base ha, hsnoc k hk] at heq
    have hlength := congrArg List.length heq
    have hpos := Nat.length_toDigits_pos (b := 16) (n := k / 16)
    simp only [List.length_append, List.length_singleton] at hlength
    omega
  induction n using Nat.strongRecOn generalizing m with
  | ind n ih =>
    by_cases hm : m < 16 <;> by_cases hn : n < 16
    · rw [Nat.toDigits_of_lt_base hm, Nat.toDigits_of_lt_base hn] at h
      exact hdigit m hm n hn (List.singleton_inj.mp h)
    · exact absurd h (hlonger m n hm (Nat.le_of_not_lt hn))
    · exact absurd h.symm (hlonger n m hn (Nat.le_of_not_lt hm))
    · rw [hsnoc m (Nat.le_of_not_lt hm), hsnoc n (Nat.le_of_not_lt hn)] at h
      obtain ⟨hfront, hlast⟩ := List.append_inj' h rfl
      have hquotient : m / 16 = n / 16 := ih (n / 16) (by omega) hfront
      have hremainder : m % 16 = n % 16 :=
        hdigit _ (by omega) _ (by omega) (List.singleton_inj.mp hlast)
      omega

/-! ## Characters -/

/-- The characters with a short escape, each with what stands for it behind the backslash. -/
def shortEscapes : List (Char × Char) :=
  [('\t', 't'), ('\r', 'r'), ('\n', 'n'), ('\'', '\''), ('"', '"'), ('\\', '\\')]

theorem shortEscapes_inj {c d x : Char} (hc : (c, x) ∈ shortEscapes) (hd : (d, x) ∈ shortEscapes) :
    c = d := by
  have hnodup : (shortEscapes.map Prod.snd).Nodup := by decide
  exact congrArg Prod.fst (List.inj_on_of_nodup_map hnodup hc hd rfl)

/-- The spellings of a character: as it is, with a short escape, or with its code point. -/
inductive IsSpelled (c : Char) : List Char → Prop where
  | plain (hvisible : 0x20 ≤ c.toNat) (hbackslash : c ≠ '\\') : IsSpelled c [c]
  | short {x : Char} (h : (c, x) ∈ shortEscapes) : IsSpelled c ['\\', x]
  | coded : IsSpelled c ('\\' :: 'u' :: '\x7b' :: (Nat.toDigits 16 c.toNat ++ ['\x7d']))

theorem isSpelled_printableChar (c : Char) : IsSpelled c (printableChar c) := by
  unfold printableChar
  split_ifs with htab hreturn hnewline hquote hvisible
  · exact .short (by rw [htab]; decide)
  · exact .short (by rw [hreturn]; decide)
  · exact .short (by rw [hnewline]; decide)
  · simp only [Bool.or_eq_true, decide_eq_true_eq] at hquote
    rcases hquote with (rfl | rfl) | rfl <;> exact .short (by decide)
  · simp only [Bool.or_eq_true, decide_eq_true_eq, not_or, Bool.and_eq_true] at hquote hvisible
    exact .plain hvisible.1 hquote.2
  · exact .coded

namespace IsSpelled

variable {c d : Char} {a b x y : List Char}

/-- No spelling is the start of another one, so a text that starts with one starts with no other.
Plain characters, short escapes and code points are told apart by their first two characters. -/
theorem append_inj (hc : IsSpelled c a) (hd : IsSpelled d b) (h : a ++ x = b ++ y) :
    c = d ∧ x = y := by
  have hu : ∀ e, (e, 'u') ∉ shortEscapes := by simp [shortEscapes]
  cases hc with
  | plain _ hbackslash =>
    cases hd with
    | plain => exact List.cons.inj h
    | short | coded => exact absurd (List.cons.inj h).1 hbackslash
  | @short e he =>
    cases hd with
    | plain _ hbackslash => exact absurd (List.cons.inj h).1.symm hbackslash
    | @short e' he' =>
      simp only [List.cons_append, List.nil_append, List.cons.injEq, true_and] at h
      obtain ⟨rfl, hrest⟩ := h
      exact ⟨shortEscapes_inj he he', hrest⟩
    | coded =>
      simp only [List.cons_append, List.cons.injEq, true_and] at h
      exact absurd (h.1 ▸ he) (hu c)
  | coded =>
    cases hd with
    | plain _ hbackslash => exact absurd (List.cons.inj h).1.symm hbackslash
    | short he' =>
      simp only [List.cons_append, List.cons.injEq, true_and] at h
      exact absurd (h.1 ▸ he') (hu d)
    | coded =>
      -- Both code points end at the brace.
      have hbrace : ∀ n, '\x7d' ∉ Nat.toDigits 16 n := fun n hmem =>
        absurd (mem_hexDigits_of_mem hmem) (by decide)
      simp only [List.cons_append, List.cons.injEq, true_and, List.append_assoc,
        List.nil_append] at h
      obtain ⟨hdigits, hrest⟩ := append_separator_inj (hbrace _) (hbrace _) h
      exact ⟨Char.toNat_inj.mp (toDigits_inj hdigits), hrest⟩

theorem newline_not_mem (h : IsSpelled c a) : '\n' ∉ a := by
  cases h with
  | plain hvisible =>
    intro hmem
    rw [← List.mem_singleton.mp hmem] at hvisible
    exact absurd hvisible (by decide)
  | @short e he =>
    have hall : shortEscapes.all (fun escape => escape.2 ≠ '\n') = true := by decide
    have hne : e ≠ '\n' := by simpa using List.all_eq_true.mp hall _ he
    simp [hne.symm]
  | coded =>
    have hdigits : '\n' ∉ Nat.toDigits 16 c.toNat := fun hmem =>
      absurd (mem_hexDigits_of_mem hmem) (by decide)
    simp [hdigits]

theorem ne_nil (h : IsSpelled c a) : a ≠ [] := by
  cases h <;> simp

end IsSpelled

/-! ## Texts -/

/-- Texts with the same spelling are the same. Induction on the first text, a character at a
time. -/
theorem printable_inj {a b : List Char} (h : printable a = printable b) : a = b := by
  induction a generalizing b with
  | nil =>
    cases b with
    | nil => rfl
    | cons d b =>
      have hnil := (List.append_eq_nil_iff.mp h.symm).1
      exact absurd hnil (isSpelled_printableChar d).ne_nil
  | cons c a ih =>
    cases b with
    | nil => exact absurd (List.append_eq_nil_iff.mp h).1 (isSpelled_printableChar c).ne_nil
    | cons d b =>
      obtain ⟨rfl, hrest⟩ :=
        (isSpelled_printableChar c).append_inj (isSpelled_printableChar d) h
      rw [ih hrest]

theorem newline_not_mem_printable (cs : List Char) : '\n' ∉ printable cs := by
  intro hmem
  obtain ⟨c, -, hc⟩ := List.mem_flatMap.mp hmem
  exact (isSpelled_printableChar c).newline_not_mem hc

end Reskin.Text
