import Reskin.Pack
import Reskin.Proofs.Token.Value

/-!
# The description of a pack as a JSON string

The description of a pack is copied into `pack.mcmeta` between double quotes. Quotes, backslashes
and three layout characters are escaped there, but JSON asks for an escape in place of every control
character. So the description is a JSON string just if it has no other control characters, and then
it is read back as it was.

* **`Json.IsString`** — the strings of JSON, with the UTF-16 code units that they stand for.
* **`Json.Denotes`** — the text that a string stands for. There is at most one.
* **`Json.isBody_jsonEscapeChar_iff`** — one step: what the spelling of a character stands for.
* **`Pack.description_isString_iff`** — when a description is a JSON string, and which text it is.
* **`Pack.control_unescaped`** — a description that breaks `pack.mcmeta`.
-/

namespace Reskin

namespace Json

open Literal (IsCodePoint)

/-! ## Strings -/

/-- The UTF-16 code units of a character. -/
def codeUnits (c : Char) : List Nat :=
  if c.toNat < 0x10000 then [c.toNat]
  else [0xd800 + (c.toNat - 0x10000) / 0x400, 0xdc00 + (c.toNat - 0x10000) % 0x400]

/-- What a backslash with one character stands for. -/
def escapes : List (Char × Nat) :=
  [('"', 0x22), ('\\', 0x5c), ('/', 0x2f), ('b', 0x08), ('f', 0x0c), ('n', 0x0a), ('r', 0x0d),
    ('t', 0x09)]

/-- The inside of a string, with the code units that it stands for. Surrogates may be escaped one by
one. -/
inductive IsBody : List Char → List Nat → Prop where
  | nil : IsBody [] []
  | plain {c : Char} {body : List Char} {units : List Nat} (hcontrol : 0x20 ≤ c.toNat)
      (hquote : c ≠ '"') (hbackslash : c ≠ '\\') (hbody : IsBody body units) :
      IsBody (c :: body) (codeUnits c ++ units)
  | escape {c : Char} {n : Nat} {body : List Char} {units : List Nat} (h : (c, n) ∈ escapes)
      (hbody : IsBody body units) : IsBody ('\\' :: c :: body) (n :: units)
  | codePoint {n : Nat} {digits body : List Char} {units : List Nat} (h : IsCodePoint digits n)
      (hbody : IsBody body units) : IsBody ('\\' :: 'u' :: (digits ++ body)) (n :: units)

/-- A string with its quotes. -/
def IsString (text : String) (units : List Nat) : Prop :=
  ∃ body, text.toList = '"' :: (body ++ ['"']) ∧ IsBody body units

def Denotes (text value : String) : Prop :=
  IsString text (value.toList.flatMap codeUnits)

/-! ## Code units

No character is a surrogate, so the first code unit tells how many there are. -/

/-- A character can be read back from its code units. No character is a surrogate, so the first code
unit tells whether there is a second one. -/
theorem codeUnits_append_inj {c d : Char} {a b : List Nat}
    (h : codeUnits c ++ a = codeUnits d ++ b) : c = d ∧ a = b := by
  have hc : c.toNat.isValidChar := c.valid
  have hd : d.toNat.isValidChar := d.valid
  have hnat : c.toNat = d.toNat ∧ a = b := by
    unfold codeUnits at h
    unfold Nat.isValidChar at hc hd
    split at h <;> split at h
    · simpa using h
    · simp only [List.cons_append, List.cons.injEq] at h
      omega
    · simp only [List.cons_append, List.cons.injEq] at h
      omega
    · simp only [List.cons_append, List.nil_append, List.cons.injEq] at h
      exact ⟨by omega, h.2.2⟩
  exact ⟨Char.toNat_inj.mp hnat.1, hnat.2⟩

/-- So a text can be read back from the code units of its characters, one after the other. -/
theorem flatMap_codeUnits_injective {cs ds : List Char}
    (h : cs.flatMap codeUnits = ds.flatMap codeUnits) : cs = ds := by
  have hne : ∀ c, codeUnits c ≠ [] := by
    intro c
    unfold codeUnits
    split <;> exact List.cons_ne_nil _ _
  induction cs generalizing ds with
  | nil =>
    cases ds with
    | nil => rfl
    | cons d ds => exact absurd (List.append_eq_nil_iff.mp h.symm).1 (hne d)
  | cons c cs ih =>
    cases ds with
    | nil => exact absurd (List.append_eq_nil_iff.mp h).1 (hne c)
    | cons d ds =>
      obtain ⟨rfl, hrest⟩ := codeUnits_append_inj h
      rw [ih hrest]

/-! ## What an escaped text stands for -/

/-- The characters that are written in a way that JSON admits. -/
def IsWritable (c : Char) : Prop :=
  0x20 ≤ c.toNat ∨ c = '\n' ∨ c = '\r' ∨ c = '\t'

instance (c : Char) : Decidable (IsWritable c) :=
  inferInstanceAs (Decidable (_ ∨ _))

variable {c : Char} {n : Nat} {rest : List Char} {units : List Nat}

theorem isBody_nil_iff : IsBody [] units ↔ units = [] := by
  constructor
  · intro h
    cases h
    rfl
  · rintro rfl
    exact .nil

/-- A character that is neither a quote nor a backslash stands for itself, unless it is a control
character. -/
theorem isBody_plain_iff (hquote : c ≠ '"') (hbackslash : c ≠ '\\') :
    IsBody (c :: rest) units
      ↔ 0x20 ≤ c.toNat ∧ ∃ more, IsBody rest more ∧ units = codeUnits c ++ more := by
  constructor
  · intro h
    cases h with
    | plain hcontrol _ _ hrest => exact ⟨hcontrol, _, hrest, rfl⟩
    | escape _ _ => exact absurd rfl hbackslash
    | codePoint _ _ => exact absurd rfl hbackslash
  · rintro ⟨hcontrol, more, hrest, rfl⟩
    exact .plain hcontrol hquote hbackslash hrest

/-- A backslash with a letter of the table stands for one code unit. The table has one line for a
letter, and none for `u`. -/
theorem isBody_escape_iff (h : (c, n) ∈ escapes) :
    IsBody ('\\' :: c :: rest) units ↔ ∃ more, IsBody rest more ∧ units = n :: more := by
  constructor
  · intro hbody
    cases hbody with
    | plain _ _ hbackslash _ => exact absurd rfl hbackslash
    | @escape _ m _ _ hother hrest =>
      -- The table says one thing for each character.
      have hunique : ∀ a ∈ escapes, ∀ b ∈ escapes, a.1 = b.1 → a.2 = b.2 := by decide
      have heq : m = n := hunique _ hother _ h rfl
      exact ⟨_, hrest, by rw [heq]⟩
    | codePoint _ _ =>
      have hcode : ∀ a ∈ escapes, a.1 ≠ 'u' := by decide
      exact absurd rfl (hcode _ h)
  · rintro ⟨more, hrest, rfl⟩
    exact .escape h hrest

/-- A character is escaped with a letter that JSON knows, or written as it is. In the second case it
may be a control character, which JSON does not admit. -/
theorem jsonEscapeChar_cases (c : Char) :
    (∃ letter, Text.jsonEscapeChar c = ['\\', letter] ∧ (letter, c.toNat) ∈ escapes
        ∧ IsWritable c ∧ codeUnits c = [c.toNat])
      ∨ (Text.jsonEscapeChar c = [c] ∧ c ≠ '"' ∧ c ≠ '\\' ∧ (IsWritable c ↔ 0x20 ≤ c.toNat)) := by
  unfold Text.jsonEscapeChar
  split
  · next h =>
    subst h
    exact .inl ⟨'"', by decide⟩
  split
  · next h =>
    subst h
    exact .inl ⟨'\\', by decide⟩
  split
  · next h =>
    subst h
    exact .inl ⟨'n', by decide⟩
  split
  · next h =>
    subst h
    exact .inl ⟨'r', by decide⟩
  split
  · next h =>
    subst h
    exact .inl ⟨'t', by decide⟩
  · next hquote hbackslash hline hreturn htab =>
    refine .inr ⟨rfl, hquote, hbackslash, or_iff_left ?_⟩
    rintro (h | h | h)
    · exact hline h
    · exact hreturn h
    · exact htab h

/-- What the spelling of a character stands for, in front of anything. This is the step of
`isBody_jsonEscape_iff`. -/
theorem isBody_jsonEscapeChar_iff :
    IsBody (Text.jsonEscapeChar c ++ rest) units
      ↔ IsWritable c ∧ ∃ more, IsBody rest more ∧ units = codeUnits c ++ more := by
  obtain ⟨letter, hspelling, hescape, hwritable, hunits⟩ | ⟨hspelling, hquote, hbackslash, hiff⟩ :=
    jsonEscapeChar_cases c
  · rw [hspelling, hunits]
    exact (isBody_escape_iff hescape).trans (and_iff_right hwritable).symm
  · rw [hspelling, hiff]
    exact isBody_plain_iff hquote hbackslash

/-- What the spelling of a text stands for. Induction on the text: it stands for the text itself if
all characters are writable, and for nothing else in any case. -/
theorem isBody_jsonEscape_iff {cs : List Char} {units : List Nat} :
    IsBody (Text.jsonEscape cs) units
      ↔ units = cs.flatMap codeUnits ∧ ∀ c ∈ cs, IsWritable c := by
  induction cs generalizing units with
  | nil =>
    rw [Text.jsonEscape, List.flatMap_nil, List.flatMap_nil, isBody_nil_iff]
    exact (and_iff_left (List.forall_mem_nil _)).symm
  | cons c cs ih =>
    have hstep : IsBody (Text.jsonEscape (c :: cs)) units
        ↔ IsWritable c ∧ ∃ more, IsBody (Text.jsonEscape cs) more ∧ units = codeUnits c ++ more :=
      isBody_jsonEscapeChar_iff
    rw [hstep, List.flatMap_cons, List.forall_mem_cons]
    constructor
    · rintro ⟨hc, more, hmore, rfl⟩
      obtain ⟨rfl, hcs⟩ := ih.mp hmore
      exact ⟨rfl, hc, hcs⟩
    · rintro ⟨rfl, hc, hcs⟩
      exact ⟨hc, _, ih.mpr ⟨rfl, hcs⟩, rfl⟩

end Json

namespace Pack

/-- The description as it stands in `pack.mcmeta`. -/
def descriptionLiteral (description : String) : String :=
  "\"" ++ String.ofList (Text.jsonEscape description.toList) ++ "\""

/-- The quotes are the ones around the body, since the escaped text has its own quotes escaped. -/
theorem isString_descriptionLiteral_iff {description : String} {units : List Nat} :
    Json.IsString (descriptionLiteral description) units
      ↔ units = description.toList.flatMap Json.codeUnits
        ∧ ∀ c ∈ description.toList, Json.IsWritable c := by
  have htext : (descriptionLiteral description).toList
      = '"' :: (Text.jsonEscape description.toList ++ ['"']) := by
    have hquote : "\"".toList = ['"'] := by decide
    rw [descriptionLiteral, String.toList_append, String.toList_append, hquote,
      String.toList_ofList]
    rfl
  rw [← Json.isBody_jsonEscape_iff]
  constructor
  · rintro ⟨body, hbody, hunits⟩
    rw [htext] at hbody
    rwa [List.append_cancel_right (List.cons.inj hbody).2]
  · intro h
    exact ⟨_, htext, h⟩

/-- **When a description is a JSON string.** What stands for the description in `pack.mcmeta` is a
JSON string just if the description has no control characters other than line breaks, carriage
returns and tabs. It stands for the description then, and never for another text. -/
theorem description_isString_iff (format : Nat) (description : String) :
    metadata format description = "\x7b\n  \"pack\": \x7b\n    \"pack_format\": " ++ toString format
        ++ ",\n    \"description\": " ++ descriptionLiteral description ++ "\n  \x7d\n\x7d\n"
      ∧ ((∃ units, Json.IsString (descriptionLiteral description) units)
        ↔ ∀ c ∈ description.toList, Json.IsWritable c)
      ∧ ∀ value, Json.Denotes (descriptionLiteral description) value
        ↔ value = description ∧ ∀ c ∈ description.toList, Json.IsWritable c := by
  refine ⟨?_, ?_, fun value => ?_⟩
  · have hopen : ",\n    \"description\": \"" = ",\n    \"description\": " ++ "\"" := by decide
    have hclose : "\"\n  \x7d\n\x7d\n" = "\"" ++ "\n  \x7d\n\x7d\n" := by decide
    unfold metadata descriptionLiteral
    simp only [hopen, hclose, String.append_assoc]
  · constructor
    · rintro ⟨units, hunits⟩
      exact (isString_descriptionLiteral_iff.mp hunits).2
    · intro h
      exact ⟨_, isString_descriptionLiteral_iff.mpr ⟨rfl, h⟩⟩
  · rw [Json.Denotes, isString_descriptionLiteral_iff]
    refine and_congr_left fun _ => ⟨fun h => ?_, fun h => by rw [h]⟩
    exact String.toList_inj.mp (Json.flatMap_codeUnits_injective h)

/-- **A control character breaks `pack.mcmeta`.** The character with the code point 1 is not
escaped, so a description with it is no JSON string. -/
theorem control_unescaped :
    descriptionLiteral "\x01" = "\"\x01\""
      ∧ ¬∃ units, Json.IsString (descriptionLiteral "\x01") units := by
  refine ⟨by decide, ?_⟩
  rintro ⟨units, hunits⟩
  have hmem : '\x01' ∈ "\x01".toList := by decide
  exact absurd ((isString_descriptionLiteral_iff.mp hunits).2 '\x01' hmem) (by decide)

end Pack

end Reskin
