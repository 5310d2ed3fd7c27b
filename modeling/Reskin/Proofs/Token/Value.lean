import Mathlib.Data.List.Forall2
import Mathlib.Data.Nat.Digits.Defs
import Reskin.Proofs.Token.Layout

/-!
# The value of a text literal, unit by unit

Text literals are gone through twice: when a literal is read, its escapes are checked, and when its
value is needed, they are replaced. Both cut the inside of the literal into the same units, each a
plain character or one escape, so what is replaced is what was checked.

* **`IsUnit`** — what is read at a time, by the checks of the reader.
* **`Decodes`** — what a unit stands for, as a table.
* **`cuts`** — where the replacement of escapes cuts a text.
* **`Decodes.unescape_eq`** — what stands in the table is what the replacement gives.
* **`IsTaken`** — one step: a unit in front is taken off as a whole.
* **`exists_units`**, **`cuts_units`**, **`unescape_units`** — the inside of a literal is read, cut
  and replaced unit by unit.
* **`Token.value_of_mem_scan`** — the literals of a source.
-/

namespace Reskin

namespace Literal

/-! ## Units -/

/-- What is read of a literal at a time: a plain character, or a backslash with an escape that is
accepted behind it. -/
inductive IsUnit (quote : Char) : List Char → Prop where
  | plain {c : Char} (hbackslash : c ≠ '\\') (hline : c ≠ '\n') (hquote : c ≠ quote) :
      IsUnit quote [c]
  | escape {escape : List Char}
      (h : ∀ offset rest, Piece.splitEscape offset (escape ++ rest) = .ok (escape, rest)) :
      IsUnit quote ('\\' :: escape)

/-- The characters that a backslash and a letter stand for. -/
def controls : List (Char × Nat) :=
  [('n', 0x0a), ('t', 0x09), ('b', 0x08), ('f', 0x0c), ('r', 0x0d)]

/-- The value of a hexadecimal digit, in upper or lower case. -/
def IsHexDigitOf (c : Char) (value : Nat) : Prop :=
  value < 16 ∧ (c = value.digitChar ∨ c = value.digitChar.toUpper)

/-- The number that four hexadecimal digits stand for. -/
def IsCodePoint (digits : List Char) (n : Nat) : Prop :=
  digits.length = 4 ∧ ∃ values, List.Forall₂ IsHexDigitOf digits values
    ∧ n = Nat.ofDigits 16 values.reverse

/-- What a unit stands for. -/
inductive Decodes : List Char → List Char → Prop where
  | plain {c : Char} (h : c ≠ '\\') : Decodes [c] [c]
  | control {c value : Char} (h : (c, value.toNat) ∈ controls) : Decodes ['\\', c] [value]
  | itself {c : Char} (h : c ∈ ['"', '\'', '\\']) : Decodes ['\\', c] [c]
  | digit {c value : Char} (hc : c.toNat = '0'.toNat + value.toNat) (hvalue : value.toNat < 10) :
      Decodes ['\\', c] [value]
  | codePoint {digits : List Char} {value : Char} (h : IsCodePoint digits value.toNat) :
      Decodes ('\\' :: 'u' :: digits) [value]
  | surrogate {digits : List Char} {n : Nat} (h : IsCodePoint digits n) (hlow : 0xd800 ≤ n)
      (hhigh : n ≤ 0xdfff) : Decodes ('\\' :: 'u' :: digits) ('\\' :: 'u' :: digits)

/-! ## Hexadecimal digits -/

variable {c value : Char} {n : Nat} {rest digits unit decoded : List Char}

theorem hexDigit?_eq {c : Char} {value : Nat} (h : IsHexDigitOf c value) :
    hexDigit? c = some value := by
  have hall : ∀ value < 16, hexDigit? value.digitChar = some value
      ∧ hexDigit? value.digitChar.toUpper = some value := by
    decide
  obtain ⟨hlt, rfl | rfl⟩ := h
  · exact (hall value hlt).1
  · exact (hall value hlt).2

theorem toNat_lt_of_isHexDigit (h : isHexDigit c = true) : c.toNat < 128 := by
  show c.val.toNat < 128
  unfold isHexDigit hexDigit? at h
  split at h
  · next hdigit =>
    have hle : c.val ≤ '9'.val := of_decide_eq_true (Bool.and_eq_true_iff.mp hdigit).2
    have : c.val.toNat ≤ 57 := hle
    omega
  · split at h
    · next hlower =>
      have : c.val.toNat ≤ 102 := hlower.2
      omega
    · split at h
      · next hupper =>
        have : c.val.toNat ≤ 70 := hupper.2
        omega
      · cases h

theorem exists_isHexDigitOf (h : isHexDigit c = true) : ∃ value, IsHexDigitOf c value := by
  -- There are few characters up to the last digit, so all of them can be tried.
  have hall : (List.range 128).all (fun n => !isHexDigit (Char.ofNat n)
      || (List.range 16).any fun value =>
        Char.ofNat n == value.digitChar || Char.ofNat n == value.digitChar.toUpper) = true := by
    decide +kernel
  have hc := List.all_eq_true.mp hall c.toNat (List.mem_range.mpr (toNat_lt_of_isHexDigit h))
  rw [Char.ofNat_toNat, h, Bool.not_true, Bool.false_or] at hc
  obtain ⟨value, hvalue, hdigit⟩ := List.any_eq_true.mp hc
  refine ⟨value, List.mem_range.mp hvalue, ?_⟩
  simpa using hdigit

theorem lt_of_mem_values {values : List Nat} (h : List.Forall₂ IsHexDigitOf digits values) :
    ∀ value ∈ values, value < 16 := by
  induction h with
  | nil => exact List.forall_mem_nil _
  | cons hdigit _ ih => exact List.forall_mem_cons.mpr ⟨hdigit.1, ih⟩

/-- Hexadecimal digits are read as the number that they stand for, with a start that counts as
digits in front of them. -/
theorem hexValue?_eq {values : List Nat} (h : List.Forall₂ IsHexDigitOf digits values)
    (start : Nat) :
    hexValue? start digits
      = some (start * 16 ^ values.length + Nat.ofDigits 16 values.reverse) := by
  induction h generalizing start with
  | nil => simp [hexValue?]
  | cons hdigit _ ih =>
    -- A digit in front counts as often as the digits behind it can be chosen.
    rw [hexValue?, hexDigit?_eq hdigit, Option.bind_some, ih, Nat.ofDigits_reverse_cons,
      List.length_cons]
    congr 1
    ring

/-- Four hexadecimal digits are read as the number that they stand for. -/
theorem codePoint?_eq (h : IsCodePoint digits n) : codePoint? digits = some n := by
  obtain ⟨hlength, values, hvalues, rfl⟩ := h
  have hplain : codePoint? digits = hexValue? 0 digits := by
    cases hvalues with
    | nil => cases hlength
    | @cons c value digits values hdigit _ =>
      -- The first digit is no sign.
      have hsign : c ≠ '+' := by
        rintro rfl
        cases hexDigit?_eq hdigit
      rw [codePoint?]
      · simp
      · exact fun heq => hsign (List.cons.inj heq).1
      · exact fun _ heq => hsign (List.cons.inj heq).1
  rw [hplain, hexValue?_eq hvalues, Nat.zero_mul, Nat.zero_add]

theorem IsCodePoint.lt (h : IsCodePoint digits n) : n < 0x10000 := by
  obtain ⟨hlength, values, hvalues, rfl⟩ := h
  have hlt : ∀ value ∈ values.reverse, value < 16 := fun value hvalue =>
    lt_of_mem_values hvalues value (List.mem_reverse.mp hvalue)
  have hbound := Nat.ofDigits_lt_base_pow_length (by decide) hlt
  rw [List.length_reverse, ← hvalues.length_eq, hlength] at hbound
  exact hbound

theorem exists_isCodePoint (hlength : digits.length = 4)
    (hdigits : ∀ c ∈ digits, isHexDigit c = true) : ∃ n, IsCodePoint digits n := by
  have hvalues : ∃ values, List.Forall₂ IsHexDigitOf digits values := by
    clear hlength
    induction digits with
    | nil => exact ⟨[], .nil⟩
    | cons c digits ih =>
      obtain ⟨hc, hdigits⟩ := List.forall_mem_cons.mp hdigits
      obtain ⟨value, hvalue⟩ := exists_isHexDigitOf hc
      obtain ⟨values, hvalues⟩ := ih hdigits
      exact ⟨value :: values, .cons hvalue hvalues⟩
  obtain ⟨values, hvalues⟩ := hvalues
  exact ⟨_, hlength, values, hvalues, rfl⟩

/-! ## What a unit stands for -/

theorem toNat_ofNat (h : n.isValidChar) : (Char.ofNat n).toNat = n := by
  rw [Char.ofNat, dif_pos h]
  rfl

/-- A single character behind a backslash is replaced by what the table says. One direction goes
through the branches of the program, the other through the table. -/
theorem escape?_eq_some_iff : escape? c = some value ↔ Decodes ['\\', c] [value] := by
  constructor
  · intro h
    unfold escape? at h
    split at h
    case h_9 =>
      split at h
      · next hdigit =>
        cases h
        obtain ⟨hlow, hhigh⟩ := Bool.and_eq_true_iff.mp hdigit
        have hlow' : 48 ≤ c.toNat := of_decide_eq_true hlow
        have hhigh' : c.toNat ≤ 57 := of_decide_eq_true hhigh
        have hvalue : (Char.ofNat (c.toNat - 48)).toNat = c.toNat - 48 :=
          toNat_ofNat (.inl (by omega))
        have hzero : '0'.toNat = 48 := rfl
        exact .digit (by omega) (by omega)
      · cases h
    all_goals cases h
    · exact .control (by decide)
    · exact .control (by decide)
    · exact .control (by decide)
    · exact .control (by decide)
    · exact .control (by decide)
    · exact .itself (by decide)
    · exact .itself (by decide)
    · exact .itself (by decide)
  · intro h
    cases h with
    | control h =>
      have hall : controls.all (fun pair => escape? pair.1 == some (Char.ofNat pair.2)) = true := by
        decide
      have hpair := beq_iff_eq.mp (List.all_eq_true.mp hall _ h)
      rw [hpair, Char.ofNat_toNat]
    | itself h =>
      have hall : ['"', '\'', '\\'].all (fun c => escape? c == some c) = true := by decide
      exact beq_iff_eq.mp (List.all_eq_true.mp hall _ h)
    | digit hc hvalue =>
      have hall : ∀ n < 10, escape? (Char.ofNat ('0'.toNat + n)) = some (Char.ofNat n) := by decide
      rw [← Char.ofNat_toNat c, hc, hall _ hvalue, Char.ofNat_toNat]
    | codePoint h => cases h.1

theorem unescapeCodePoint_char (h : IsCodePoint digits value.toNat) :
    unescapeCodePoint digits = [value] := by
  have hvalid : value.toNat.isValidChar := value.valid
  rw [unescapeCodePoint, codePoint?_eq h, Option.bind_some, charOfCodePoint?, if_pos hvalid,
    Char.ofNat_toNat]

/-- A surrogate names no character. -/
theorem unescapeCodePoint_surrogate (h : IsCodePoint digits n) (hlow : 0xd800 ≤ n)
    (hhigh : n ≤ 0xdfff) : unescapeCodePoint digits = '\\' :: 'u' :: digits := by
  have hinvalid : ¬n.isValidChar := by
    rw [Nat.isValidChar]
    omega
  rw [unescapeCodePoint, codePoint?_eq h, Option.bind_some, charOfCodePoint?, if_neg hinvalid]

/-- Four hexadecimal digits stand for a character or a surrogate. -/
theorem exists_decodes_codePoint (hlength : digits.length = 4)
    (hdigits : ∀ c ∈ digits, isHexDigit c = true) :
    ∃ decoded, Decodes ('\\' :: 'u' :: digits) decoded := by
  obtain ⟨n, hn⟩ := exists_isCodePoint hlength hdigits
  by_cases hvalid : n.isValidChar
  · rw [← toNat_ofNat hvalid] at hn
    exact ⟨_, .codePoint hn⟩
  · -- A number of 16 bits names no character only if it is a surrogate.
    have hlt := hn.lt
    rw [Nat.isValidChar] at hvalid
    exact ⟨_, .surrogate hn (by omega) (by omega)⟩

/-! ## Where escapes are replaced -/

/-- The pieces that a text is cut into when its escapes are replaced. -/
def cuts : List Char → List (List Char)
  | [] => []
  | ['\\'] => [['\\']]
  | '\\' :: 'u' :: rest => ('\\' :: 'u' :: rest.take 4) :: cuts (rest.drop 4)
  | '\\' :: c :: rest => ['\\', c] :: cuts rest
  | c :: rest => [c] :: cuts rest
termination_by cs => cs.length
decreasing_by all_goals simp <;> omega

/-- The pieces that are not escapes, but are replaced as if they were: a backslash at the end, a
code point with less than four digits or with other characters among them, and a backslash in front
of a character that cannot be escaped. -/
inductive IsFallback : List Char → Prop where
  | backslash : IsFallback ['\\']
  | short {digits : List Char} (h : digits.length < 4) : IsFallback ('\\' :: 'u' :: digits)
  | other {digits : List Char} {c : Char} (hc : c ∈ digits) (h : isHexDigit c = false) :
      IsFallback ('\\' :: 'u' :: digits)
  | unknown {c : Char} (hcode : c ≠ 'u') (h : escape? c = none) : IsFallback ['\\', c]

theorem unescape_plain (h : c ≠ '\\') : unescape (c :: rest) = c :: unescape rest := by
  rw [unescape]
  · exact fun heq => absurd heq h
  · exact fun _ heq => absurd heq h
  · exact fun _ _ heq => absurd heq h

theorem cuts_plain (h : c ≠ '\\') : cuts (c :: rest) = [c] :: cuts rest := by
  rw [cuts]
  · exact fun heq => absurd heq h
  · exact fun _ heq => absurd heq h
  · exact fun _ _ heq => absurd heq h

theorem unescape_codePoint (h : digits.length ≤ 4) :
    unescape ('\\' :: 'u' :: digits) = unescapeCodePoint digits := by
  rw [unescape, List.take_of_length_le h, List.drop_of_length_le h, unescape, List.append_nil]

theorem unescape_escape (h : c ≠ 'u') : unescape ['\\', c] = [(escape? c).getD c] := by
  rw [unescape, unescape]
  exact h

/-- Replacing the escapes of a text is replacing each of its pieces. The induction follows the cuts,
which are made where the replacement makes them. -/
theorem unescape_eq_flatMap_cuts (cs : List Char) : unescape cs = (cuts cs).flatMap unescape := by
  fun_induction cuts cs with
  | case1 => rw [unescape, List.flatMap_nil]
  | case2 => simp [unescape]
  | case3 rest ih =>
    rw [List.flatMap_cons, ← ih, unescape_codePoint (List.length_take_le 4 rest), unescape]
  | case4 c rest hcode ih =>
    rw [List.flatMap_cons, ← ih, unescape_escape hcode, unescape]
    · rfl
    · exact hcode
  | case5 c rest hend hcode hescape ih =>
    have hplain : c ≠ '\\' := by
      rintro rfl
      cases rest with
      | nil => exact hend rfl rfl
      | cons d rest => exact hescape d rest rfl rfl
    rw [List.flatMap_cons, ← ih, unescape_plain hplain, unescape_plain hplain, unescape]
    rfl

/-- **What stands in the table is what the replacement gives**, for each kind of unit. -/
theorem Decodes.unescape_eq (h : Decodes unit decoded) : unescape unit = decoded := by
  have hescape : ∀ {c value}, Decodes ['\\', c] [value] → unescape ['\\', c] = [value] := by
    intro c value h
    have hvalue := escape?_eq_some_iff.mpr h
    have hcode : c ≠ 'u' := by
      rintro rfl
      cases hvalue
    rw [unescape_escape hcode, hvalue, Option.getD_some]
  cases h with
  | plain hbackslash => rw [unescape_plain hbackslash, unescape]
  | control h => exact hescape (.control h)
  | itself h => exact hescape (.itself h)
  | digit hc hvalue => exact hescape (.digit hc hvalue)
  | codePoint h => rw [unescape_codePoint h.1.le, unescapeCodePoint_char h]
  | surrogate h hlow hhigh =>
    rw [unescape_codePoint h.1.le, unescapeCodePoint_surrogate h hlow hhigh]

/-! ## Both sides take the same units -/

/-- A unit, with what it stands for, that is read and replaced as a whole. -/
structure IsTaken (quote : Char) (unit : List Char × List Char) : Prop where
  isUnit : IsUnit quote unit.1
  decodes : Decodes unit.1 unit.2
  not_isFallback : ¬IsFallback unit.1
  cuts_append : ∀ rest, cuts (unit.1 ++ rest) = unit.1 :: cuts rest

variable {quote : Char}

theorem isTaken_plain (hbackslash : c ≠ '\\') (hline : c ≠ '\n') (hquote : c ≠ quote) :
    IsTaken quote ([c], [c]) where
  isUnit := .plain hbackslash hline hquote
  decodes := .plain hbackslash
  not_isFallback := by
    intro h
    cases h
    exact hbackslash rfl
  cuts_append rest := cuts_plain hbackslash

theorem isTaken_escape (h : escape? c = some value) : IsTaken quote (['\\', c], [value]) := by
  have hcode : c ≠ 'u' := by
    rintro rfl
    cases h
  have hescape := escape?_isSome (Option.isSome_of_eq_some h)
  refine ⟨.escape fun offset rest => splitEscape_of_escape hescape offset rest,
    escape?_eq_some_iff.mp h, ?_, fun rest => ?_⟩
  · intro hfallback
    cases hfallback with
    | short _ => exact hcode rfl
    | other _ _ => exact hcode rfl
    | unknown _ hnone =>
      rw [h] at hnone
      cases hnone
  · show cuts ('\\' :: c :: rest) = _
    rw [cuts]
    exact hcode

theorem exists_isTaken_codePoint (hlength : digits.length = 4)
    (hdigits : ∀ c ∈ digits, isHexDigit c = true) :
    ∃ decoded, IsTaken quote ('\\' :: 'u' :: digits, decoded) := by
  obtain ⟨decoded, hdecoded⟩ := exists_decodes_codePoint hlength hdigits
  refine ⟨decoded, .escape fun offset rest => splitEscape_of_codePoint hlength hdigits offset rest,
    hdecoded, ?_, fun rest => ?_⟩
  · intro hfallback
    cases hfallback with
    | short h => omega
    | other hc h => exact absurd (hdigits _ hc) (by rw [h]; exact Bool.false_ne_true)
    | unknown hcode _ => exact hcode rfl
  · show cuts ('\\' :: 'u' :: (digits ++ rest)) = _
    rw [cuts, List.take_left' hlength, List.drop_left' hlength]

/-- The inside of a literal is a sequence of units. Induction on the inside: a plain character, an
escape or a code point comes first. -/
theorem exists_units {body : List Char} (h : IsLiteralBody quote body) :
    ∃ units : List (List Char × List Char),
      body = units.flatMap Prod.fst ∧ ∀ unit ∈ units, IsTaken quote unit := by
  induction h with
  | nil => exact ⟨[], rfl, List.forall_mem_nil _⟩
  | plain hline hbackslash hquote _ ih =>
    obtain ⟨units, rfl, hunits⟩ := ih
    exact ⟨_ :: units, rfl,
      List.forall_mem_cons.mpr ⟨isTaken_plain hbackslash hline hquote, hunits⟩⟩
  | escape hc _ ih =>
    obtain ⟨units, rfl, hunits⟩ := ih
    obtain ⟨value, hvalue⟩ := Option.isSome_iff_exists.mp (escape?_isSome_iff.mpr hc)
    exact ⟨_ :: units, rfl, List.forall_mem_cons.mpr ⟨isTaken_escape hvalue, hunits⟩⟩
  | codePoint hlength hdigits _ ih =>
    obtain ⟨units, rfl, hunits⟩ := ih
    obtain ⟨decoded, hunit⟩ := exists_isTaken_codePoint hlength hdigits
    exact ⟨_ :: units, rfl, List.forall_mem_cons.mpr ⟨hunit, hunits⟩⟩

/-- Units are cut apart where they were put together, by induction on them. -/
theorem cuts_units {units : List (List Char × List Char)}
    (h : ∀ unit ∈ units, IsTaken quote unit) :
    cuts (units.flatMap Prod.fst) = units.map Prod.fst := by
  induction units with
  | nil => rw [List.flatMap_nil, cuts, List.map_nil]
  | cons unit units ih =>
    obtain ⟨hunit, hunits⟩ := List.forall_mem_cons.mp h
    rw [List.flatMap_cons, hunit.cuts_append, ih hunits, List.map_cons]

/-- Each unit is replaced by what it stands for, since the text is cut into the units. -/
theorem unescape_units {units : List (List Char × List Char)}
    (h : ∀ unit ∈ units, IsTaken quote unit) :
    unescape (units.flatMap Prod.fst) = units.flatMap Prod.snd := by
  rw [unescape_eq_flatMap_cuts, cuts_units h, List.flatMap_map]
  exact List.flatMap_congr fun unit hunit => (h unit hunit).decodes.unescape_eq

theorem unquote?_eq {body : List Char} (hquote : isQuote quote = true) :
    unquote? (quote :: (body ++ [quote])) = some body := by
  simp [unquote?, hquote]

end Literal

/-! ## The literals of a source -/

theorem IsLexeme.isLiteral {text : List Char} (h : IsLexeme text)
    (hquote : text.head?.any isQuote = true) : IsLiteral text := by
  obtain ⟨c, rest, rfl, hc⟩ : ∃ c rest, text = c :: rest ∧ isQuote c = true := by
    cases text with
    | nil => cases hquote
    | cons c rest => exact ⟨c, rest, rfl, hquote⟩
  cases h with
  | literal hliteral => exact hliteral
  | mark hmark =>
    have hmarks : ∀ mark ∈ marks, mark.head?.any isQuote = false := by decide
    exact absurd hquote (by rw [hmarks _ hmark]; exact Bool.false_ne_true)
  | word hword =>
    have hword' := hword.isWordChar c List.mem_cons_self
    rw [Piece.isWordChar, hc] at hword'
    simp at hword'

namespace Token

/-- A literal is told by its first character, as no keyword or mark has the kind of a literal. -/
theorem isQuote_of_kind_eq_text {token : Token} (h : token.kind = .text) :
    token.text.toList.head?.any isQuote = true := by
  refine Decidable.byContradiction fun hquote => ?_
  rw [kind, TokenKind.ofText, if_neg hquote] at h
  cases hfind : (TokenKind.keywords ++ TokenKind.marks).find?
      (fun kind => kind.fixedText? == some token.text) with
  | none =>
    rw [hfind] at h
    cases h
  | some kind =>
    rw [hfind, Option.getD_some] at h
    subst h
    exact absurd (List.mem_of_find?_eq_some hfind) (by decide)

/-- **What is replaced in a literal is what was checked.** The inside of every literal of a source
is a sequence of units, each of them a plain character or an escape that is accepted. Each unit
stands for one thing, and the value of the literal is what the units stand for, one after the other.
The replacement of escapes cuts the literal into exactly these units, and none of them is one for
which it has to make do. -/
theorem value_of_mem_scan {source : String} {file : Option FileId} {tokens : List Token}
    (h : scan source file = .ok tokens) {token : Token} (htoken : token ∈ tokens)
    (hkind : token.kind = .text) :
    ∃ (quote : Char) (units : List (List Char × List Char)), isQuote quote = true
      ∧ token.text.toList = quote :: (units.flatMap Prod.fst ++ [quote])
      ∧ token.value.toList = units.flatMap Prod.snd
      ∧ (∀ unit ∈ units, Literal.IsUnit quote unit.1
        ∧ ∀ decoded, Literal.Decodes unit.1 decoded ↔ decoded = unit.2)
      ∧ Literal.cuts (units.flatMap Prod.fst) = units.map Prod.fst
      ∧ ∀ piece ∈ Literal.cuts (units.flatMap Prod.fst), ¬Literal.IsFallback piece := by
  obtain ⟨quote, body, hquote, hbody, htext⟩ :=
    (isLexeme_of_mem_scan h htoken).isLiteral (isQuote_of_kind_eq_text hkind)
  obtain ⟨units, rfl, hunits⟩ := Literal.exists_units hbody
  have hcuts := Literal.cuts_units hunits
  refine ⟨quote, units, hquote, htext, ?_, fun unit hunit => ?_, hcuts, fun piece hpiece => ?_⟩
  · rw [value, htext, Literal.unquote?_eq hquote]
    show (String.ofList _).toList = _
    rw [String.toList_ofList, Literal.unescape_units hunits]
  · refine ⟨(hunits unit hunit).isUnit, fun decoded => ⟨fun hdecodes => ?_, ?_⟩⟩
    · exact hdecodes.unescape_eq.symm.trans (hunits unit hunit).decodes.unescape_eq
    · rintro rfl
      exact (hunits unit hunit).decodes
  · rw [hcuts] at hpiece
    obtain ⟨unit, hunit, rfl⟩ := List.mem_map.mp hpiece
    exact (hunits unit hunit).not_isFallback

/-- A literal with a code point, a surrogate, a tab, backslashes in front of a quote, the other
quote and a digit. -/
def mixedLiteral : Token :=
  ⟨"'\\u0041\\uD800\\t\\\\\\'\"\\7'", 1, 1, none⟩

theorem value_of_mem_scan_mixedLiteral :
    scan mixedLiteral.text none = .ok [mixedLiteral]
      ∧ mixedLiteral.kind = .text
      ∧ mixedLiteral.value = "A\\uD800\t\\'\"\x07"
      ∧ ∃ (quote : Char) (units : List (List Char × List Char)), isQuote quote = true
        ∧ mixedLiteral.text.toList = quote :: (units.flatMap Prod.fst ++ [quote])
        ∧ mixedLiteral.value.toList = units.flatMap Prod.snd
        ∧ (∀ unit ∈ units, Literal.IsUnit quote unit.1
          ∧ ∀ decoded, Literal.Decodes unit.1 decoded ↔ decoded = unit.2)
        ∧ Literal.cuts (units.flatMap Prod.fst) = units.map Prod.fst
        ∧ ∀ piece ∈ Literal.cuts (units.flatMap Prod.fst), ¬Literal.IsFallback piece := by
  have hscan : scan mixedLiteral.text none = .ok [mixedLiteral] := by decide +kernel
  have hkind : mixedLiteral.kind = .text := by decide +kernel
  exact ⟨hscan, hkind, by decide +kernel, value_of_mem_scan hscan List.mem_cons_self hkind⟩

end Token

end Reskin
