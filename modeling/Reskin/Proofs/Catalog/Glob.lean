import Mathlib.Data.List.Infix
import Reskin.Catalog.Glob

/-!
# What a pattern matches

A text matches a pattern just if it can be split into pieces, one for each character of the pattern:
any piece for a `*`, one character for a `?`, and the character itself for every other one.

The search for a match commits itself: behind a `*` it takes the first place that fits and never
comes back to it once the next `*` is reached. Nothing is lost by that, since a `*` can absorb
whatever a later place would have left out.

* **`Outcome.Allows`** — what is left to be shown at the point where pattern and text come to.
* **`splits_iff_align`** — laying pattern and text side by side loses nothing.
* **`allows_of_suffix`** — the first place that fits is as good as any later one.
* **`isMatch_iff_splits`** — matching is splitting.
-/

namespace Reskin.Glob

/-- What a character of a pattern stands for. -/
inductive Fits : Char → List Char → Prop where
  | star (piece : List Char) : Fits '*' piece
  | any (x : Char) : Fits '?' [x]
  | itself {c : Char} (hstar : c ≠ '*') (hany : c ≠ '?') : Fits c [c]

/-- A text that can be split into pieces, one for each character of the pattern. -/
def Splits (pattern text : List Char) : Prop :=
  ∃ pieces : List (List Char), List.Forall₂ Fits pattern pieces ∧ pieces.flatten = text

variable {c x : Char} {pattern text rest : List Char}

/-! ## Splitting off one piece -/

theorem splits_nil : Splits [] text ↔ text = [] := by
  constructor
  · rintro ⟨pieces, hpieces, rfl⟩
    cases hpieces
    rfl
  · rintro rfl
    exact ⟨[], .nil, rfl⟩

/-- A split begins with a piece for the first character. All the lemmas below take the pattern apart
by this one. -/
theorem splits_cons :
    Splits (c :: pattern) text
      ↔ ∃ piece rest, Fits c piece ∧ Splits pattern rest ∧ piece ++ rest = text := by
  constructor
  · rintro ⟨pieces, hpieces, rfl⟩
    cases hpieces with
    | @cons _ piece _ more hpiece hmore =>
      exact ⟨piece, more.flatten, hpiece, ⟨more, hmore, rfl⟩, rfl⟩
  · rintro ⟨piece, rest, hpiece, ⟨more, hmore, rfl⟩, rfl⟩
    exact ⟨piece :: more, .cons hpiece hmore, rfl⟩

/-- A `*` leaves some suffix of the text to the pattern behind it, and any suffix will do. -/
theorem splits_star :
    Splits ('*' :: pattern) text ↔ ∃ rest, rest <:+ text ∧ Splits pattern rest := by
  rw [splits_cons]
  constructor
  · rintro ⟨piece, rest, -, hrest, rfl⟩
    exact ⟨rest, List.suffix_append piece rest, hrest⟩
  · rintro ⟨rest, ⟨piece, htext⟩, hrest⟩
    exact ⟨piece, rest, .star piece, hrest, htext⟩

/-- Every other character takes one character of the text, so there is nothing to choose up to the
next `*`. -/
theorem splits_char (hstar : c ≠ '*') :
    Splits (c :: pattern) text
      ↔ ∃ x rest, text = x :: rest ∧ (c = '?' ∨ c = x) ∧ Splits pattern rest := by
  rw [splits_cons]
  constructor
  · rintro ⟨piece, rest, hpiece, hrest, rfl⟩
    cases hpiece with
    | star => exact absurd rfl hstar
    | any x => exact ⟨x, rest, rfl, .inl rfl, hrest⟩
    | itself => exact ⟨c, rest, rfl, .inr rfl, hrest⟩
  · rintro ⟨x, rest, rfl, hfits, hrest⟩
    refine ⟨[x], rest, ?_, hrest, rfl⟩
    by_cases hany : c = '?'
    · subst hany
      exact .any x
    · rw [← hfits.resolve_left hany]
      exact .itself hstar hany

/-- Nothing but `*` matches the empty text. This is the test that is made when the text ends before
the pattern. -/
theorem splits_text_nil : Splits pattern [] ↔ ∀ c ∈ pattern, c = '*' := by
  induction pattern with
  | nil => exact iff_of_true (splits_nil.mpr rfl) (List.forall_mem_nil _)
  | cons c pattern ih =>
    rw [List.forall_mem_cons]
    by_cases hstar : c = '*'
    · subst hstar
      rw [splits_star, ← ih]
      simp [List.suffix_nil]
    · refine iff_of_false (fun hsplits => ?_) fun hall => hstar hall.1
      obtain ⟨x, rest, hnil, -⟩ := (splits_char hstar).mp hsplits
      cases hnil

/-- A `*` in front can absorb more. So a pattern that starts with `*` and matches a suffix matches
the whole. -/
theorem Splits.of_suffix (h : Splits ('*' :: pattern) rest) (hrest : rest <:+ text) :
    Splits ('*' :: pattern) text := by
  obtain ⟨later, hlater, hsplits⟩ := splits_star.mp h
  exact splits_star.mpr ⟨later, hlater.trans hrest, hsplits⟩

/-! ## Side by side -/

/-- What is left to be shown where pattern and text come to. -/
def Outcome.Allows : Outcome → Prop
  | mismatch => False
  | ended pattern => ∀ c ∈ pattern, c = '*'
  | star pattern text => Splits ('*' :: pattern) text

/-- Up to the next `*` there is only one way to split a text, which `align` follows. Induction along
`align`: a character that is not a `*` takes one character of the text. -/
theorem splits_iff_align (pattern text : List Char) :
    Splits pattern text ↔ (align pattern text).Allows := by
  fun_induction align pattern text with
  | case1 pattern => exact splits_text_nil
  | case2 x text => exact iff_of_false (fun h => absurd (splits_nil.mp h) (by simp)) not_false
  | case3 pattern x text => exact Iff.rfl
  | case4 c pattern x text hstar hfits ih =>
    rw [splits_char hstar, ← ih]
    constructor
    · rintro ⟨y, rest, htext, -, hrest⟩
      cases htext
      exact hrest
    · intro hrest
      exact ⟨x, text, rfl, by simpa using hfits, hrest⟩
  | case5 c pattern x text hstar hfits =>
    refine iff_of_false (fun hsplits => hfits ?_) not_false
    obtain ⟨y, rest, htext, hfits, -⟩ := (splits_char hstar).mp hsplits
    cases htext
    simpa using hfits

/-- **The first place that fits is as good as any later one.** If the pattern can be laid beside the
text up to the next `*` or up to the end, then a match at a later place gives one from here. -/
theorem allows_of_suffix (h : align pattern text ≠ .mismatch) (hrest : rest <:+ text)
    (hsplits : Splits pattern rest) : (align pattern text).Allows := by
  fun_induction align pattern text generalizing rest with
  | case1 pattern =>
    -- At the end of the text the later place is the end as well.
    rw [List.suffix_nil] at hrest
    subst hrest
    exact splits_text_nil.mp hsplits
  | case2 x text => exact absurd rfl h
  | case3 pattern x text => exact hsplits.of_suffix hrest
  | case4 c pattern x text hstar hfits ih =>
    -- Both places are left by one character, so the later one stays the later one.
    obtain ⟨y, rest', rfl, -, hrest'⟩ := (splits_char hstar).mp hsplits
    refine ih h ?_ hrest'
    rcases List.suffix_cons_iff.mp hrest with heq | hlater
    · cases heq
      exact List.suffix_refl text
    · exact (List.suffix_cons y rest').trans hlater
  | case5 c pattern x text hstar hfits => exact absurd rfl h

/-! ## Behind a `*` -/

/-- Behind a `*`, laying the pattern beside the text is enough if it fits here. The direction from
left to right is where the greedy choice is justified. -/
theorem splits_star_iff_align (h : align pattern text ≠ .mismatch) :
    Splits ('*' :: pattern) text ↔ (align pattern text).Allows := by
  rw [splits_star]
  constructor
  · rintro ⟨rest, hrest, hsplits⟩
    exact allows_of_suffix h hrest hsplits
  · intro hallows
    exact ⟨text, List.suffix_refl text, (splits_iff_align pattern text).mpr hallows⟩

/-- Where a pattern does not fit, a `*` in front of it absorbs one more character. This is the step
of `search`. -/
theorem splits_star_cons (h : align pattern (x :: text) = .mismatch) :
    Splits ('*' :: pattern) (x :: text) ↔ Splits ('*' :: pattern) text := by
  have hhere : ¬Splits pattern (x :: text) := by
    rw [splits_iff_align, h]
    exact not_false
  constructor
  · intro hsplits
    obtain ⟨rest, hrest, hsplits⟩ := splits_star.mp hsplits
    rcases List.suffix_cons_iff.mp hrest with rfl | hlater
    · exact absurd hsplits hhere
    · exact splits_star.mpr ⟨rest, hlater, hsplits⟩
  · exact fun hsplits => hsplits.of_suffix (List.suffix_cons x text)

/-- Taking the first place that fits decides whether there is any place to go on at. Induction along
`search`, with one of the two lemmas above at each place. -/
theorem splits_star_iff_search (pattern text : List Char) :
    Splits ('*' :: pattern) text ↔ (search pattern text).Allows := by
  fun_induction search pattern text with
  | case1 => exact splits_star_iff_align (by cases pattern <;> simp [align])
  | case2 x text hmismatch ih => exact (splits_star_cons hmismatch).trans ih
  | case3 x text hne => exact splits_star_iff_align hne

/-- The test that runs decides `Allows`. Induction on what remains of the pattern, with
`splits_star_iff_search` at each `*`. -/
theorem Outcome.isMatch_iff_allows (outcome : Outcome) :
    outcome.isMatch = true ↔ outcome.Allows := by
  fun_induction isMatch outcome with
  | case1 => exact iff_of_false Bool.false_ne_true not_false
  | case2 pattern => simp [Allows]
  | case3 pattern text ih => rw [ih, ← splits_star_iff_search, Allows]

/-- **Matching is splitting.** A text matches a pattern just if it consists of pieces, one for each
character of the pattern: any text for a `*`, any single character for a `?`, and the character
itself for every other one. -/
theorem isMatch_iff_splits (pattern text : String) :
    isMatch pattern text = true
      ↔ ∃ pieces : List (List Char),
        List.Forall₂ Fits pattern.toList pieces ∧ pieces.flatten = text.toList := by
  rw [isMatch, Outcome.isMatch_iff_allows, ← splits_iff_align, Splits]

end Reskin.Glob
