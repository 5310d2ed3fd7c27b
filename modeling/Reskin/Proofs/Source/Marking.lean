import Reskin.Proofs.Reader.Nesting
import Reskin.Proofs.Reader.Tokens
import Reskin.Proofs.Source.Stretch
import Reskin.Proofs.Token.Fault

/-!
# Reports mark the text that they are about

A report on a source text comes from the division into tokens, from the reader, or from the scoping
rules. Its location is a stretch of one line of the text, and what stands there is what the report
is about: the quote or the comment start where the text breaks off, or a token.

* **`Reports`** — the reports on a source text.
* **`PointsAt`** — what a report is about, with its location.
* **`exists_pointsAt`** — every report is about something.
* **`PointsAt.isStretch`** — that is a stretch of the text, which stays on its line.
* **`Reports.covers`** — the headline: the marked part of the line is just what the report is about.
-/

namespace Reskin

/-- The reports on a source text. -/
inductive Reports (source : String) (file : Option FileId) (diagnostic : Diagnostic) : Prop where
  | scan (hscan : Token.scan source file = .error diagnostic)
  | read {tokens : List Token} (hscan : Token.scan source file = .ok tokens)
      (hread : Statement.read tokens = .error diagnostic)
  | check {tokens : List Token} {statements : List Statement}
      (hscan : Token.scan source file = .ok tokens) (hread : Statement.read tokens = .ok statements)
      (hcheck : diagnostic ∈ Statement.check statements)

/-- What a report on a source text is about, and where that is: the opening quote of a literal that
is not ended, the start of a comment that is not closed, the keyword of the innermost scope that is
left open, or for all other faults of arrangement and scope some token. -/
inductive PointsAt (source : String) (file : Option FileId) (diagnostic : Diagnostic)
    (location : Location) : String → Prop where
  | quote {before rest : List Char} {quote : Char} {fault : LexicalFault}
      (hsource : source.toList = before ++ quote :: rest)
      (hplace : ⟨location.line, location.column⟩ = Position.after before)
      (hbefore : IsDivision (quote :: rest) before) (hquote : isQuote quote = true)
      (hrest : IsUnended quote fault rest) (hcause : diagnostic.cause = .lexical fault) :
      PointsAt source file diagnostic location (String.singleton quote)
  | comment {before rest : List Char} (hsource : source.toList = before ++ '/' :: '*' :: rest)
      (hplace : ⟨location.line, location.column⟩ = Position.after before)
      (hbefore : IsDivision ('/' :: '*' :: rest) before) (hopen : ¬['*', '/'] <:+: rest)
      (hcause : diagnostic.cause = .lexical .unterminatedComment) :
      PointsAt source file diagnostic location "/*"
  | keyword {tokens : List Token} {keyword : Token} (hscan : Token.scan source file = .ok tokens)
      (hunclosed : IsUnclosedAt tokens diagnostic keyword)
      (hlocation : location = keyword.location) :
      PointsAt source file diagnostic location keyword.text
  | arrangement {tokens : List Token} {token : Token} {fault : GrammarFault}
      (hscan : Token.scan source file = .ok tokens) (htoken : token ∈ tokens)
      (hlocation : location = token.location) (hcause : diagnostic.cause = .grammar fault)
      (hclosed : ∀ opener, fault ≠ .unclosedScope opener) :
      PointsAt source file diagnostic location token.text
  | scope {tokens : List Token} {token : Token} {fault : ScopeFault}
      (hscan : Token.scan source file = .ok tokens) (htoken : token ∈ tokens)
      (hlocation : location = token.location) (hcause : diagnostic.cause = .scope fault) :
      PointsAt source file diagnostic location token.text

variable {source : String} {file : Option FileId} {diagnostic : Diagnostic} {location : Location}
  {tokens : List Token} {token : Token} {marked : String}

/-! ## Tokens in their text -/

theorem file_of_mem_place {position : Position} {pieces : List Piece}
    (h : token ∈ (Token.place file position pieces).1) : token.file = file := by
  induction pieces generalizing position with
  | nil => cases h
  | cons piece pieces ih =>
    cases piece with
    | gap text => exact ih h
    | lexeme text =>
      rw [place_lexeme] at h
      rcases List.mem_cons.mp h with rfl | h
      · rfl
      · exact ih h

/-- All tokens of a text name the file that the text was scanned for. -/
theorem file_of_mem_scan (h : Token.scan source file = .ok tokens) (htoken : token ∈ tokens) :
    token.file = file := by
  obtain ⟨pieces, -, rfl⟩ := exists_split_of_scan h
  exact file_of_mem_place htoken

/-- A token is a stretch of its text, at the place that it carries. Both are read off the tile that
it belongs to. -/
theorem exists_stretch_of_mem_scan (h : Token.scan source file = .ok tokens)
    (htoken : token ∈ tokens) :
    ∃ before rest, source.toList = before ++ (token.text.toList ++ rest)
      ∧ ⟨token.line, token.column⟩ = Position.after before ∧ IsLexeme token.text.toList := by
  obtain ⟨tiles, last, htiling, tile, htile, rfl⟩ := exists_tile_of_mem_scan h htoken
  obtain ⟨before, after, rfl⟩ := List.append_of_mem htile
  have hplace := htiling.place_eq before tile after rfl
  rw [List.nil_append] at hplace
  refine ⟨_, Tile.textAll after ++ last, ?_, hplace, htiling.isLexeme tile htile⟩
  rw [htiling.text_eq]
  simp only [Tile.textAll, List.flatMap_append, List.flatMap_cons, List.append_assoc]
  rfl

/-! ## What reports are about -/

/-- A text that is not divided into tokens is reported where the faulty piece starts. Only an escape
is reported further inside, and is left out here. -/
theorem exists_pointsAt_of_scan (h : Token.scan source file = .error diagnostic)
    (hescape : ∀ sequence, diagnostic.cause ≠ .lexical (.invalidEscape sequence)) :
    ∃ location marked, diagnostic.location = some location ∧ location.file = file
      ∧ location.length = marked.length ∧ PointsAt source file diagnostic location marked := by
  obtain ⟨before, rest, fault, hsource, hbefore, hfault, rfl⟩ := scan_eq_error h
  -- The fault lies at the very start of its piece, unless it is an escape.
  cases hfault with
  | literal hquote hrest =>
    exact ⟨_, _, rfl, rfl, String.length_singleton.symm,
      .quote hsource rfl hbefore hquote hrest rfl⟩
  | @escape sequence => exact absurd rfl (hescape sequence)
  | comment hopen => exact ⟨_, _, rfl, rfl, rfl, .comment hsource rfl hbefore hopen rfl⟩

/-- A fault of the grammar is at a token, and a scope that is left open at its keyword. -/
theorem exists_pointsAt_of_read (hscan : Token.scan source file = .ok tokens)
    (h : Statement.read tokens = .error diagnostic) :
    ∃ location marked, diagnostic.location = some location ∧ location.file = file
      ∧ location.length = marked.length ∧ PointsAt source file diagnostic location marked := by
  rcases Statement.read_error_cases h with
    ⟨token, htoken, fault, rfl, hat⟩ | ⟨token, htoken, expected, rfl⟩ | ⟨keyword, hunclosed⟩
  · have hclosed : ∀ opener, fault ≠ .unclosedScope opener := by
      rintro opener rfl
      exact hat
    exact ⟨_, _, rfl, file_of_mem_scan hscan htoken, rfl, .arrangement hscan htoken rfl rfl hclosed⟩
  · have hclosed : ∀ opener, GrammarFault.unexpectedEnd expected ≠ .unclosedScope opener := by simp
    exact ⟨_, _, rfl, file_of_mem_scan hscan htoken, rfl, .arrangement hscan htoken rfl rfl hclosed⟩
  · refine ⟨keyword.location, _, ?_, file_of_mem_scan hscan hunclosed.mem, rfl, ?_⟩
    · rw [hunclosed.diagnostic_eq]
      rfl
    · exact .keyword hscan hunclosed rfl

theorem exists_pointsAt_of_check {statements : List Statement}
    (hscan : Token.scan source file = .ok tokens) (hread : Statement.read tokens = .ok statements)
    (h : diagnostic ∈ Statement.check statements) :
    ∃ location marked, diagnostic.location = some location ∧ location.file = file
      ∧ location.length = marked.length ∧ PointsAt source file diagnostic location marked := by
  obtain ⟨token, htoken, fault, rfl⟩ := Statement.exists_token_of_mem_check hread h
  exact ⟨_, _, rfl, file_of_mem_scan hscan htoken, rfl, .scope hscan htoken rfl rfl⟩

/-- Every report on a source text is about something, unless it is about an escape. The three stages
of reading are taken one by one. -/
theorem exists_pointsAt (h : Reports source file diagnostic)
    (hescape : ∀ sequence, diagnostic.cause ≠ .lexical (.invalidEscape sequence)) :
    ∃ location marked, diagnostic.location = some location ∧ location.file = file
      ∧ location.length = marked.length ∧ PointsAt source file diagnostic location marked := by
  cases h with
  | scan hscan => exact exists_pointsAt_of_scan hscan hescape
  | read hscan hread => exact exists_pointsAt_of_read hscan hread
  | check hscan hread hcheck => exact exists_pointsAt_of_check hscan hread hcheck

/-! ## Stretches of the text -/

/-- A stretch of text that is found on its line. -/
structure IsStretch (source : String) (location : Location) (marked : String) : Prop where
  exists_text : ∃ before rest, source.toList = before ++ (marked.toList ++ rest)
    ∧ ⟨location.line, location.column⟩ = Position.after before
  ne_empty : marked ≠ ""
  newline_not_mem : '\n' ∉ marked.toList
  getLast?_ne_return : marked.toList.getLast? ≠ some '\r'

/-- A token can be marked on its line: no lexeme is empty, has a line break in it or ends in a
carriage return. -/
theorem isStretch_of_mem_scan (h : Token.scan source file = .ok tokens) (htoken : token ∈ tokens) :
    IsStretch source token.location token.text := by
  obtain ⟨before, rest, hsource, hplace, hlexeme⟩ := exists_stretch_of_mem_scan h htoken
  refine ⟨⟨before, rest, hsource, hplace⟩, ?_, hlexeme.newline_not_mem, hlexeme.getLast?_ne_return⟩
  intro hempty
  exact hlexeme.ne_nil (String.toList_eq_nil_iff.mpr hempty)

/-- What a report is about is a stretch of the text. For a quote and for the start of a comment this
is seen from their characters, for all else from the token. -/
theorem PointsAt.isStretch (h : PointsAt source file diagnostic location marked) :
    IsStretch source location marked := by
  cases h with
  | @quote before rest quote _ hsource hplace _ hquote =>
    have hquotes : quote ≠ '\n' ∧ quote ≠ '\r' := by
      constructor
      · rintro rfl
        cases hquote
      · rintro rfl
        cases hquote
    have htoList : (String.singleton quote).toList = [quote] := String.toList_singleton quote
    refine ⟨⟨before, rest, ?_, hplace⟩, ?_, ?_, ?_⟩
    · rw [htoList]
      exact hsource
    · rw [ne_eq, ← String.toList_eq_nil_iff, htoList]
      exact List.cons_ne_nil _ _
    · rw [htoList, List.mem_singleton]
      exact hquotes.1.symm
    · rw [htoList, List.getLast?_singleton, ne_eq, Option.some.injEq]
      exact hquotes.2
  | @comment before rest hsource hplace =>
    exact ⟨⟨before, rest, hsource, hplace⟩, by decide, by decide, by decide⟩
  | keyword hscan hunclosed hlocation =>
    subst hlocation
    exact isStretch_of_mem_scan hscan hunclosed.mem
  | arrangement hscan htoken hlocation =>
    subst hlocation
    exact isStretch_of_mem_scan hscan htoken
  | scope hscan htoken hlocation =>
    subst hlocation
    exact isStretch_of_mem_scan hscan htoken

/-! ## Reports on registered files -/

/-- **Reports mark the text that they are about.** The location of a report on a registered text
names that text and one of its lines, it lies on that line from its first to its last character, and
what stands there is what the report is about. -/
theorem Reports.covers {sources registered : Sources} {path : Option Path} {id : FileId}
    (hregister : sources.register ⟨source, path⟩ = (registered, id))
    (h : Reports source (some id) diagnostic)
    (hescape : ∀ sequence, diagnostic.cause ≠ .lexical (.invalidEscape sequence)) :
    ∃ location line marked, diagnostic.location = some location ∧ location.file = some id
      ∧ ((registered.get? id).bind fun file => file.line? location.line) = some line
      ∧ location.Covers line marked ∧ PointsAt source (some id) diagnostic location marked := by
  obtain ⟨location, marked, hlocation, hfile, hlength, hpoints⟩ := exists_pointsAt h hescape
  have hstretch := hpoints.isStretch
  obtain ⟨before, rest, hsource, hplace⟩ := hstretch.exists_text
  have hregistered : registered.get? id = some ⟨source, path⟩ := by
    cases hregister
    exact List.getElem?_concat_length
  obtain ⟨line, hline, hcovers⟩ := SourceFile.covers_stretch ⟨source, path⟩ hsource hplace
    hlength hstretch.ne_empty hstretch.newline_not_mem hstretch.getLast?_ne_return
  refine ⟨location, line, marked, hlocation, hfile, ?_, hcovers, hpoints⟩
  rw [hregistered]
  exact hline

/-- A listing that is left open, with carriage returns at the ends of the lines. -/
def openListing : String :=
  "any for \x7b\r\n\titems \x7b\r\n\t\ta b\r\n"

def openListingTokens : List Token :=
  [⟨"any", 1, 1, some 0⟩, ⟨"for", 1, 5, some 0⟩, ⟨"\x7b", 1, 9, some 0⟩, ⟨"items", 2, 2, some 0⟩,
    ⟨"\x7b", 2, 8, some 0⟩, ⟨"a", 3, 3, some 0⟩, ⟨"b", 3, 5, some 0⟩]

theorem Reports.covers_openListing :
    ((Sources.register {} ⟨openListing, none⟩).1.get? 0).bind (fun file => file.line? 2)
        = some "\titems \x7b"
      ∧ Location.Covers ⟨some 0, 2, 2, 5⟩ "\titems \x7b" "items"
      ∧ PointsAt openListing (some 0)
        (.located (.grammar (.unclosedScope "items")) ⟨some 0, 2, 2, 5⟩) ⟨some 0, 2, 2, 5⟩
        "items" := by
  have hscan : Token.scan openListing (some 0) = .ok openListingTokens := by decide +kernel
  have hread : Statement.read openListingTokens
      = .error (.located (.grammar (.unclosedScope "items")) ⟨some 0, 2, 2, 5⟩) := by rfl
  have hregister : Sources.register {} ⟨openListing, none⟩ = (⟨[⟨openListing, none⟩]⟩, 0) := rfl
  have hfound : ((Sources.register {} ⟨openListing, none⟩).1.get? 0).bind
      (fun file => file.line? 2) = some "\titems \x7b" := by
    decide +kernel
  obtain ⟨location, line, marked, hlocation, -, hline, hcovers, hpoints⟩ :=
    Reports.covers hregister (.read hscan hread) (by simp [Diagnostic.located])
  cases hlocation
  cases hline.symm.trans hfound
  have hmarked : marked = "items" := String.toList_inj.mp (hcovers.text_eq.symm.trans (by decide))
  subst hmarked
  exact ⟨hfound, hcovers, hpoints⟩

end Reskin
