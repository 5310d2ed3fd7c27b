import Reskin.Proofs.Text.Split
import Reskin.Proofs.Token.Tiling

/-!
# Stretches of a line

Places are counted while a text is read, and a line is looked up by splitting the text again,
without the carriage return at its end. Here the two are brought together: a stretch of a text that
stays on one line and does not end in a carriage return is found at its place in that line.

* **`Text.line?_append`** — the line that a place is on.
* **`Text.exists_line?_stretch`** — a stretch of text is a stretch of its line.
* **`Location.Covers`** — a location that marks some text of a line, just as much as it says.
-/

namespace Reskin

namespace Text

/-- The first part of a text goes up to its first separator. There always is one, if only an empty
one. -/
theorem head?_splitAll (separator : Char) (cs : List Char) :
    (splitAll separator cs)[0]? = some (cs.takeWhile (· ≠ separator)) := by
  induction cs with
  | nil => rfl
  | cons c cs ih =>
    obtain ⟨part, parts, hsplit⟩ := List.exists_cons_of_ne_nil (splitAll_ne_nil separator cs)
    rw [hsplit] at ih
    have hpart : part = cs.takeWhile (· ≠ separator) := Option.some.inj ih
    rw [splitAll]
    by_cases hc : c = separator
    · rw [if_pos hc, List.takeWhile_cons_of_neg (by simpa using hc)]
      rfl
    · rw [if_neg hc, List.takeWhile_cons_of_pos (by simpa using hc), hsplit, ← hpart]
      rfl

theorem forall_ne_newline {cs : List Char} (h : '\n' ∉ cs) :
    ∀ c ∈ cs, decide (c ≠ '\n') = true := by
  intro c hc
  rw [decide_eq_true_eq]
  rintro rfl
  exact h hc

/-- The characters behind the last line break. -/
def lastLine (cs : List Char) : List Char :=
  (cs.reverse.takeWhile (· ≠ '\n')).reverse

theorem lastLine_of_not_mem {cs : List Char} (h : '\n' ∉ cs) : lastLine cs = cs := by
  have hall := forall_ne_newline (mt List.mem_reverse.mp h)
  rw [lastLine, List.takeWhile_eq_self_iff.mpr hall, List.reverse_reverse]

theorem lastLine_append (a : List Char) {b : List Char} (h : '\n' ∉ b) :
    lastLine (a ++ '\n' :: b) = b := by
  have hall := forall_ne_newline (mt List.mem_reverse.mp h)
  rw [lastLine, List.reverse_append, List.reverse_cons, List.append_assoc,
    List.takeWhile_append_of_pos hall]
  simp

/-- The part of a text that a place is in: what stands on the line in front of it and behind it. The
text in front is cut at its last line break, and what comes before that are whole lines. -/
theorem splitAll_append_getElem? (before rest : List Char) :
    (splitAll '\n' (before ++ rest))[before.count '\n']?
      = some (lastLine before ++ rest.takeWhile (· ≠ '\n')) := by
  have hfirst : ∀ line : List Char, '\n' ∉ line →
      (splitAll '\n' (line ++ rest))[0]? = some (line ++ rest.takeWhile (· ≠ '\n')) := by
    intro line hline
    rw [head?_splitAll, List.takeWhile_append_of_pos (forall_ne_newline hline)]
  cases hsplit : splitLast '\n' before with
  | none =>
    have hnone : '\n' ∉ before := splitLast_eq_none_iff.mp hsplit
    rw [List.count_eq_zero.mpr hnone, lastLine_of_not_mem hnone]
    exact hfirst before hnone
  | some parts =>
    obtain ⟨front, line⟩ := parts
    obtain ⟨rfl, hline⟩ := eq_of_splitLast_eq_some hsplit
    -- The lines up to the last line break are as many as the index says.
    have hcount : (front ++ '\n' :: line).count '\n' = (splitAll '\n' front).length := by
      rw [length_splitAll, List.count_append, List.count_cons_self, List.count_eq_zero.mpr hline]
    rw [lastLine_append front hline, List.append_assoc, List.cons_append, splitAll_append, hcount,
      List.getElem?_append_right (Nat.le_refl _), Nat.sub_self]
    exact hfirst line hline

/-- The line that a place is on, without the carriage return at its end. -/
theorem line?_append (before rest : List Char) :
    line? (before ++ rest) (Position.after before).line
      = some (dropReturn (lastLine before ++ rest.takeWhile (· ≠ '\n'))) := by
  show ((splitAll '\n' (before ++ rest))[before.count '\n']?).map dropReturn = _
  rw [splitAll_append_getElem?, Option.map_some]

theorem column_after (before : List Char) :
    (Position.after before).column = (lastLine before).length + 1 := by
  rw [lastLine, List.length_reverse]
  rfl

/-- A carriage return is dropped from what stands behind a text that does not end in one. So the
text itself stays whole on its line. -/
theorem dropReturn_append (front : List Char) {text : List Char} (hne : text ≠ [])
    (hreturn : text.getLast? ≠ some '\r') (back : List Char) :
    dropReturn (front ++ text ++ back) = front ++ text ++ dropReturn back := by
  have hlast : (front ++ text).getLast? ≠ some '\r' := by
    rwa [List.getLast?_append_of_ne_nil front hne]
  cases hback : back with
  | nil =>
    rw [List.append_nil, dropReturn, if_neg hlast]
    exact (List.append_nil _).symm
  | cons c rest =>
    have hcons : c :: rest ≠ [] := List.cons_ne_nil c rest
    rw [dropReturn, dropReturn, List.getLast?_append_of_ne_nil _ hcons]
    split
    · rw [List.dropLast_append_of_ne_nil hcons]
    · rfl

/-- **A stretch of text is a stretch of its line**, at the column of its first character. It stands
behind the characters that the place counts as columns, and in front of the line break. -/
theorem exists_line?_stretch (before : List Char) {text : List Char} (rest : List Char)
    (hne : text ≠ []) (hline : '\n' ∉ text) (hreturn : text.getLast? ≠ some '\r') :
    ∃ front back, line? (before ++ (text ++ rest)) (Position.after before).line
        = some (front ++ text ++ back)
      ∧ (Position.after before).column = front.length + 1 := by
  refine ⟨lastLine before, dropReturn (rest.takeWhile (· ≠ '\n')), ?_, column_after before⟩
  rw [line?_append, List.takeWhile_append_of_pos (forall_ne_newline hline), ← List.append_assoc,
    dropReturn_append _ hne hreturn]

end Text

/-! ## Locations -/

/-- A location that marks a text of a line: the range that is marked is the one that the location
gives, since all of it is on the line, and the text stands there. -/
structure Location.Covers (location : Location) (line marked : String) : Prop where
  column_pos : 1 ≤ location.column
  length_pos : 1 ≤ location.length
  end_le : location.column - 1 + location.length ≤ line.length
  range_eq : location.markedRange line.length
    = (location.column - 1, location.column - 1 + location.length)
  text_eq : (line.toList.drop (location.column - 1)).take location.length = marked.toList

/-- What stands on a line behind `front` is what a location with that column and length covers.
Nothing is cut off, since the line goes on to the end of the marked text. -/
theorem Location.covers_of_append {location : Location} {line marked : String}
    {front back : List Char} (hline : line.toList = front ++ marked.toList ++ back)
    (hcolumn : location.column = front.length + 1) (hlength : location.length = marked.length)
    (hne : marked ≠ "") : location.Covers line marked := by
  have hmarked : 1 ≤ marked.length := by
    rw [Nat.one_le_iff_ne_zero, ne_eq, String.length_eq_zero_iff]
    exact hne
  have htotal : line.length = front.length + marked.length + back.length := by
    rw [← String.length_toList, hline, List.length_append, List.length_append,
      String.length_toList]
  refine ⟨by omega, by omega, by omega, ?_, ?_⟩
  · -- Neither end of the range is moved.
    have hstart : min (location.column - 1) (line.length - 1) = location.column - 1 := by omega
    have hend : min (location.column - 1 + max location.length 1) line.length
        = location.column - 1 + location.length := by
      omega
    have hpos : line.length ≠ 0 := by omega
    rw [markedRange, if_neg hpos]
    dsimp only
    rw [hstart, hend]
  · have hdrop : location.column - 1 = front.length := by omega
    rw [hdrop, hline, List.append_assoc, List.drop_left, hlength, ← String.length_toList,
      List.take_left]

/-- **What stands at a place is marked there.** The location starts at the place behind `before` and
is as long as the text, which stays on its line. -/
theorem SourceFile.covers_stretch (file : SourceFile) {location : Location}
    {before rest : List Char} {marked : String}
    (htext : file.text.toList = before ++ (marked.toList ++ rest))
    (hplace : ⟨location.line, location.column⟩ = Position.after before)
    (hlength : location.length = marked.length) (hne : marked ≠ "")
    (hline : '\n' ∉ marked.toList) (hreturn : marked.toList.getLast? ≠ some '\r') :
    ∃ line, file.line? location.line = some line ∧ location.Covers line marked := by
  have hnil : marked.toList ≠ [] := by
    rwa [ne_eq, String.toList_eq_nil_iff]
  obtain ⟨front, back, hfound, hcolumn⟩ := Text.exists_line?_stretch before rest hnil hline hreturn
  rw [← hplace] at hfound hcolumn
  refine ⟨String.ofList (front ++ marked.toList ++ back), ?_, ?_⟩
  · rw [SourceFile.line?, htext, hfound]
    rfl
  · exact Location.covers_of_append String.toList_ofList hcolumn hlength hne

end Reskin
