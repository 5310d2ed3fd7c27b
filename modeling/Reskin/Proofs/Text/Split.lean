import Reskin.Text.Split

/-!
# Laws of splitting

Everything about splitting follows from what happens at one separator: the parts of `a`, the
separator and `b` are those of `a` followed by those of `b`, and a text without separators is its
own only part. No separator stands in front of the first one, and none follows the last. Texts are
also told apart by their starts, when neither start continues the other.
-/

namespace Reskin.Text

variable {separator : Char} {cs before after : List Char}

/-- A text falls apart at each of its separators. Induction on the text in front of this one. -/
theorem splitAll_append (separator : Char) (a b : List Char) :
    splitAll separator (a ++ separator :: b) = splitAll separator a ++ splitAll separator b := by
  induction a with
  | nil =>
    show (if separator = separator then _ else _) = _
    rw [if_pos rfl]
    rfl
  | cons c a ih =>
    rw [List.cons_append, splitAll, splitAll, ih]
    by_cases hc : c = separator
    · rw [if_pos hc, if_pos hc]
      rfl
    · -- `c` joins the first part, which is a part of `a`.
      obtain ⟨part, parts, hsplit⟩ := List.exists_cons_of_ne_nil (splitAll_ne_nil separator a)
      rw [if_neg hc, if_neg hc, hsplit]
      rfl

theorem splitAll_of_not_mem (h : separator ∉ cs) : splitAll separator cs = [cs] := by
  induction cs with
  | nil => rfl
  | cons c cs ih =>
    obtain ⟨hc, hcs⟩ := not_or.mp (mt List.mem_cons.mpr h)
    rw [splitAll, if_neg (Ne.symm hc), ih hcs]

/-- No part of a text that was split has a separator in it. -/
theorem not_mem_of_mem_splitAll {part : List Char} (h : part ∈ splitAll separator cs) :
    separator ∉ part := by
  induction cs generalizing part with
  | nil =>
    rw [List.mem_singleton.mp h]
    exact List.not_mem_nil
  | cons c cs ih =>
    rw [splitAll] at h
    by_cases hc : c = separator
    · rw [if_pos hc] at h
      rcases List.mem_cons.mp h with rfl | hpart
      · exact List.not_mem_nil
      · exact ih hpart
    · obtain ⟨first, parts, hsplit⟩ := List.exists_cons_of_ne_nil (splitAll_ne_nil separator cs)
      rw [if_neg hc, hsplit] at h
      rw [hsplit] at ih
      rcases List.mem_cons.mp h with rfl | hpart
      · exact List.not_mem_cons_of_ne_of_not_mem (Ne.symm hc) (ih List.mem_cons_self)
      · exact ih (List.mem_cons_of_mem first hpart)

theorem length_splitAll (separator : Char) (cs : List Char) :
    (splitAll separator cs).length = cs.count separator + 1 := by
  induction cs with
  | nil => rfl
  | cons c cs ih =>
    rw [splitAll]
    by_cases hc : c = separator
    · rw [if_pos hc, hc, List.count_cons_self, List.length_cons, ih]
    · obtain ⟨part, parts, hsplit⟩ := List.exists_cons_of_ne_nil (splitAll_ne_nil separator cs)
      rw [if_neg hc, List.count_cons_of_ne hc, ← ih, hsplit]
      rfl

/-- No separator stands in front of the first one. -/
theorem splitFirst_append {a : List Char} (h : separator ∉ a) (b : List Char) :
    splitFirst separator (a ++ separator :: b) = some (a, b) := by
  induction a with
  | nil => exact if_pos rfl
  | cons c a ih =>
    obtain ⟨hc, ha⟩ := not_or.mp (mt List.mem_cons.mpr h)
    rw [List.cons_append, splitFirst, if_neg (Ne.symm hc), ih ha]
    rfl

/-- Where a text is cut at its first separator, both parts are determined. This is how a text with
marks in it is read from left to right. -/
theorem append_separator_inj {a b x y : List Char} (ha : separator ∉ a) (hb : separator ∉ b)
    (h : a ++ separator :: x = b ++ separator :: y) : a = b ∧ x = y := by
  have hsplit := splitFirst_append ha x
  rw [h, splitFirst_append hb] at hsplit
  cases hsplit
  exact ⟨rfl, rfl⟩

theorem eq_of_splitFirst_eq_some (h : splitFirst separator cs = some (before, after)) :
    cs = before ++ separator :: after := by
  induction cs generalizing before with
  | nil => cases h
  | cons c cs ih =>
    rw [splitFirst] at h
    by_cases hc : c = separator
    · rw [if_pos hc] at h
      cases h
      rw [hc, List.nil_append]
    · rw [if_neg hc] at h
      obtain ⟨parts, hparts, heq⟩ := Option.map_eq_some_iff.mp h
      cases heq
      rw [List.cons_append, ← ih hparts]

/-- What stands in front of the first separator, or everything if there is none. -/
theorem fst_splitFirst (separator : Char) (cs : List Char) :
    ((splitFirst separator cs).map Prod.fst).getD cs = cs.takeWhile (· ≠ separator) := by
  induction cs with
  | nil => rfl
  | cons c cs ih =>
    rw [splitFirst]
    by_cases hc : c = separator
    · rw [if_pos hc, List.takeWhile_cons_of_neg (by simp [hc])]
      rfl
    · rw [if_neg hc, List.takeWhile_cons_of_pos (by simp [hc]), ← ih]
      cases splitFirst separator cs <;> rfl

theorem splitLast_eq_none_iff : splitLast separator cs = none ↔ separator ∉ cs := by
  induction cs with
  | nil => exact ⟨fun _ => List.not_mem_nil, fun _ => rfl⟩
  | cons c cs ih =>
    rw [splitLast, List.mem_cons, not_or, ← ih]
    cases splitLast separator cs with
    | some parts => exact ⟨nofun, fun h => nomatch h.2⟩
    | none =>
      by_cases hc : c = separator
      · exact ⟨fun h => absurd h (by simp [hc]), fun h => absurd hc.symm h.1⟩
      · exact ⟨fun _ => ⟨Ne.symm hc, rfl⟩, fun _ => if_neg hc⟩

/-- No separator follows the last one. -/
theorem splitLast_append (a : List Char) {b : List Char} (h : separator ∉ b) :
    splitLast separator (a ++ separator :: b) = some (a, b) := by
  induction a with
  | nil =>
    rw [List.nil_append, splitLast, splitLast_eq_none_iff.mpr h]
    exact if_pos rfl
  | cons c a ih => rw [List.cons_append, splitLast, ih]

theorem eq_of_splitLast_eq_some (h : splitLast separator cs = some (before, after)) :
    cs = before ++ separator :: after ∧ separator ∉ after := by
  induction cs generalizing before with
  | nil => cases h
  | cons c cs ih =>
    rw [splitLast] at h
    cases hsplit : splitLast separator cs with
    | some parts =>
      rw [hsplit] at h
      cases h
      obtain ⟨hcs, hafter⟩ := ih hsplit
      exact ⟨congrArg (c :: ·) hcs, hafter⟩
    | none =>
      have hcs : separator ∉ cs := splitLast_eq_none_iff.mp hsplit
      rw [hsplit] at h
      dsimp only at h
      split at h
      · next hc =>
        cases h
        exact ⟨congrArg (· :: after) hc, hcs⟩
      · cases h

/-! ## Starts of texts -/

/-- Neither of two texts continues the other. -/
def AreApart (a b : String) : Prop :=
  ¬a.toList <+: b.toList ∧ ¬b.toList <+: a.toList

instance (a b : String) : Decidable (AreApart a b) :=
  inferInstanceAs (Decidable (_ ∧ _))

/-- A text cannot start in both ways. -/
theorem AreApart.not_prefix {a b : String} (h : AreApart a b) {text : List Char}
    (hb : b.toList <+: text) : ¬a.toList <+: text := by
  intro ha
  rcases List.prefix_or_prefix_of_prefix ha hb with hab | hba
  · exact h.1 hab
  · exact h.2 hba

/-- Texts that start with two texts of which neither continues the other are different. -/
theorem AreApart.append_ne_append {a b : String} (h : AreApart a b) (x y : String) :
    a ++ x ≠ b ++ y := by
  intro heq
  have hb : b.toList <+: (a ++ x).toList := by
    rw [heq, String.toList_append]
    exact List.prefix_append _ _
  refine h.not_prefix hb ?_
  rw [String.toList_append]
  exact List.prefix_append _ _

end Reskin.Text
