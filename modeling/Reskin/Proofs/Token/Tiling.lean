import Reskin.Proofs.Token.Lexeme
import Reskin.Token.Scan

/-!
# Tokens tile their source

A source text is read back from its tokens and the gaps around them: gap, token, gap, …, token, gap.
A tile is a token with the gap in front of it, and one gap is left at the end.

* **`Position.after`**: the place after a text, counted by its line breaks. The reader keeps its
  place character by character, and **`Position.advanceAll_after`** says that the two agree.
* **`IsTiling`**: what tiles are. Each clause speaks of a tile where it stands, that is, of every
  way to write the tiles as some tiles, the tile, and some more.
* **`exists_isTiling`**: what the reader has left to do tiles what it has left to read. The gap in
  front of the next token is carried along, since a gap is taken piece by piece.
* **`scan_isTiling`**: the tokens of a source text tile it.
-/

namespace Reskin

open Piece (startsComment isWordChar)

/-! ## Places -/

namespace Position

/-- The place after a text: one line further for each line break, and one column further for each
character of the last line. -/
def after (text : List Char) : Position :=
  ⟨text.count '\n' + 1, (text.reverse.takeWhile (· ≠ '\n')).length + 1⟩

theorem after_snoc (text : List Char) (c : Char) :
    after (text ++ [c]) = (after text).advance c := by
  unfold after advance
  by_cases hc : c = '\n'
  · subst hc
    simp
  · simp [hc]

/-- Going on over a text from the place after `start` leads to the place after both. So the places
that are counted character by character are those that the texts in front of them have. -/
theorem advanceAll_after (start text : List Char) :
    (after start).advanceAll text = after (start ++ text) := by
  induction text generalizing start with
  | nil => rw [List.append_nil]; rfl
  | cons c text ih =>
    have hstep : (after start).advanceAll (c :: text) = (after (start ++ [c])).advanceAll text := by
      rw [after_snoc]
      rfl
    rw [hstep, ih, List.append_assoc]
    rfl

end Position

/-! ## Tilings -/

/-- A token with the gap in front of it. -/
structure Tile where
  gap : List Char
  token : Token

namespace Tile

/-- The characters of the token of a tile. -/
def lexeme (tile : Tile) : List Char :=
  tile.token.text.toList

/-- The characters of tiles. -/
def textAll (tiles : List Tile) : List Char :=
  tiles.flatMap fun tile => tile.gap ++ tile.lexeme

@[simp] theorem textAll_nil : textAll [] = [] := rfl

@[simp] theorem textAll_cons (tile : Tile) (tiles : List Tile) :
    textAll (tile :: tiles) = tile.gap ++ tile.lexeme ++ textAll tiles := rfl

end Tile

open Tile (textAll)

/-- Whether two tokens with nothing between them would be read as two. -/
def Separate (a b : List Char) : Prop :=
  ¬(IsWord a ∧ IsWord b) ∧ ¬(a = ['='] ∧ b = ['>'])

/-- The text `source`, which stands after `start`, is that of tiles and a last gap. -/
structure IsTiling (start source : List Char) (tiles : List Tile) (last : List Char) : Prop where
  text_eq : source = textAll tiles ++ last
  isGap : ∀ before tile after, tiles = before ++ tile :: after →
    IsGap (tile.lexeme ++ (textAll after ++ last)) tile.gap
  isGap_last : IsGap [] last
  isLexeme : ∀ tile ∈ tiles, IsLexeme tile.lexeme
  separate : ∀ before tile next after, tiles = before ++ tile :: next :: after → next.gap = [] →
    Separate tile.lexeme next.lexeme
  place_eq : ∀ before tile after, tiles = before ++ tile :: after →
    ⟨tile.token.line, tile.token.column⟩ = Position.after (start ++ (textAll before ++ tile.gap))

theorem isTiling_nil {start last : List Char} (h : IsGap [] last) :
    IsTiling start last [] last where
  text_eq := rfl
  isGap before tile after heq := by simp at heq
  isGap_last := h
  isLexeme tile htile := absurd htile List.not_mem_nil
  separate before tile next after heq := by simp at heq
  place_eq before tile after heq := by simp at heq

/-- One more tile in front. What holds of a tile may depend on what stands in front of it or behind
it, so each condition says which tiles it is about. -/
theorem IsTiling.cons {start source last : List Char} {tile : Tile} {tiles : List Tile}
    (h : IsTiling (start ++ (tile.gap ++ tile.lexeme)) source tiles last)
    (hgap : IsGap (tile.lexeme ++ source) tile.gap) (hlexeme : IsLexeme tile.lexeme)
    (hseparate : ∀ next ∈ tiles.head?, next.gap = [] → Separate tile.lexeme next.lexeme)
    (hplace : ⟨tile.token.line, tile.token.column⟩ = Position.after (start ++ tile.gap)) :
    IsTiling start (tile.gap ++ tile.lexeme ++ source) (tile :: tiles) last where
  text_eq := by rw [Tile.textAll_cons, List.append_assoc _ _ last, ← h.text_eq]
  isGap before other after heq := by
    rcases List.cons_eq_append_iff.mp heq with ⟨rfl, hcons⟩ | ⟨before, rfl, htiles⟩
    · cases hcons
      rw [← h.text_eq]
      exact hgap
    · exact h.isGap before other after htiles
  isGap_last := h.isGap_last
  isLexeme other hother := by
    rcases List.mem_cons.mp hother with rfl | hother
    · exact hlexeme
    · exact h.isLexeme other hother
  separate before other next after heq := by
    rcases List.cons_eq_append_iff.mp heq with ⟨rfl, hcons⟩ | ⟨before, rfl, htiles⟩
    · cases hcons
      exact hseparate next rfl
    · exact h.separate before other next after htiles
  place_eq before other after heq := by
    rcases List.cons_eq_append_iff.mp heq with ⟨rfl, hcons⟩ | ⟨before, rfl, htiles⟩
    · cases hcons
      exact hplace
    · rw [h.place_eq before other after htiles, Tile.textAll_cons]
      simp only [List.append_assoc]

/-! ## One lexeme -/

theorem IsPiece.isLexeme {text after : List Char} (h : IsPiece after (.lexeme text)) :
    IsLexeme text := by
  cases h with
  | literal htext => exact .literal htext
  | mark htext _ => exact .mark htext
  | word htext _ => exact .word htext

theorem not_isWord_of_mem {text : List Char} {c : Char} (hmem : c ∈ text)
    (hc : isWordChar c = false) : ¬IsWord text := fun h =>
  absurd (h.isWordChar c hmem) (ne_true_of_eq_false hc)

theorem IsLiteral.not_isWord {text : List Char} (h : IsLiteral text) : ¬IsWord text := by
  obtain ⟨quote, body, hquote, -, rfl⟩ := h
  refine not_isWord_of_mem List.mem_cons_self ?_
  rw [isWordChar, hquote, Bool.or_true]
  rfl

theorem not_isWord_of_mem_marks {text : List Char} (h : text ∈ marks) : ¬IsWord text := by
  simp only [marks, List.mem_cons, List.not_mem_nil, or_false] at h
  rcases h with rfl | rfl | rfl | rfl | rfl | rfl | rfl | rfl <;>
    exact not_isWord_of_mem List.mem_cons_self (by decide)

/-- What a lexeme is read in front of does not go on with it, unless a comment starts there. A word
was read as far as it goes, and `=` in front of `>` is read as an arrow. -/
theorem IsPiece.separate {text after next : List Char} (h : IsPiece after (.lexeme text))
    (hnext : next <+: after) (hcomment : startsComment after = false) : Separate text next := by
  constructor
  · rintro ⟨htext, hword⟩
    cases h with
    | literal hliteral => exact hliteral.not_isWord htext
    | mark hmark _ => exact not_isWord_of_mem_marks hmark htext
    | word _ hafter =>
      obtain ⟨d, more, rfl⟩ := List.exists_cons_of_ne_nil hword.ne_nil
      obtain ⟨rest, rfl⟩ := hnext
      have hd : isWordChar d = true := hword.isWordChar d List.mem_cons_self
      have hcontinues : continuesWord (d :: more ++ rest) = true := by
        rw [continuesWord, hcomment]
        simpa using hd
      rw [hcontinues] at hafter
      cases hafter
  · rintro ⟨rfl, rfl⟩
    obtain ⟨rest, rfl⟩ := hnext
    cases h with
    | literal hliteral =>
      obtain ⟨quote, body, hquote, -, heq⟩ := hliteral
      cases List.head_eq_of_cons_eq heq
      cases hquote
    | mark _ harrow => exact harrow rfl rfl
    | word hword _ => exact not_isWord_of_mem_marks (by decide) hword

/-! ## All pieces -/

theorem place_gap (file : Option FileId) (position : Position) (text : List Char)
    (pieces : List Piece) :
    (Token.place file position (.gap text :: pieces)).1
      = (Token.place file (position.advanceAll text) pieces).1 := rfl

theorem place_lexeme (file : Option FileId) (position : Position) (text : List Char)
    (pieces : List Piece) :
    (Token.place file position (.lexeme text :: pieces)).1
      = ⟨String.ofList text, position.line, position.column, file⟩
        :: (Token.place file (position.advanceAll text) pieces).1 := rfl

/-- The pieces of an unread text tile it, together with the gap that was read in front of it. The
first tile starts with that gap, and if it has no other, no comment starts the text. The induction
follows the division of the text. -/
theorem exists_isTiling {file : Option FileId} {cs : List Char} {pieces : List Piece}
    (hsplit : Piece.split cs = (pieces, none)) (start : List Char) {gap : List Char}
    (hgap : IsGap cs gap) :
    ∃ tiles last,
      tiles.map Tile.token = (Token.place file (.after (start ++ gap)) pieces).1
        ∧ IsTiling start (gap ++ cs) tiles last
        ∧ ∀ tile ∈ tiles.head?, ∃ more, tile.gap = gap ++ more
          ∧ (more = [] → startsComment cs = false) := by
  fun_induction Piece.split cs generalizing pieces start gap with
  | case1 =>
    cases hsplit
    refine ⟨[], gap, rfl, ?_, fun tile htile => by cases htile⟩
    rw [List.append_nil]
    exact isTiling_nil hgap
  | case2 => cases hsplit
  | case3 c rest piece after hnext pieces' fault hpieces ih =>
    cases hsplit
    have htext : piece.text ++ after = c :: rest := Piece.next_text hnext
    have hpiece : IsPiece after piece := next_isPiece hnext
    cases piece with
    | gap text =>
      -- The piece joins the gap in front of it.
      obtain ⟨hne, hnew⟩ : text ≠ [] ∧ IsGap after text := by
        cases hpiece with
        | gap hne hnew => exact ⟨hne, hnew⟩
      have hjoined : IsGap after (gap ++ text) := by
        refine IsGap.append ?_ hnew
        rwa [← htext] at hgap
      obtain ⟨tiles, last, htokens, htiling, hfirst⟩ := ih hpieces start hjoined
      refine ⟨tiles, last, ?_, ?_, ?_⟩
      · rw [htokens, place_gap, Position.advanceAll_after, List.append_assoc]
      · rw [← htext]
        rwa [List.append_assoc] at htiling
      · intro tile htile
        obtain ⟨more, hmore, -⟩ := hfirst tile htile
        refine ⟨text ++ more, by rw [hmore, List.append_assoc], fun hnil => ?_⟩
        exact absurd (List.append_eq_nil_iff.mp hnil).1 hne
    | lexeme text =>
      -- The piece closes a tile, and the gap in front of the next one is still empty.
      obtain ⟨tiles, last, htokens, htiling, hfirst⟩ :=
        ih hpieces (start ++ (gap ++ text)) (IsGap.nil : IsGap after [])
      have hcomment : startsComment (c :: rest) = false :=
        eq_false_of_ne_true fun hcomment => next_ne_lexeme hcomment hnext
      have hseparate : ∀ next ∈ tiles.head?, next.gap = [] → Separate text next.lexeme := by
        intro next hmem hempty
        obtain ⟨more, hmore, hclear⟩ := hfirst next hmem
        have hnil : more = [] := hmore.symm.trans hempty
        obtain ⟨others, rfl⟩ := List.head?_eq_some_iff.mp hmem
        have hafter : after = next.lexeme ++ (textAll others ++ last) := by
          simpa [hempty] using htiling.text_eq
        exact hpiece.separate (hafter ▸ List.prefix_append _ _) (hclear hnil)
      let position := Position.after (start ++ gap)
      let tile : Tile := ⟨gap, ⟨String.ofList text, position.line, position.column, file⟩⟩
      have hlexeme : tile.lexeme = text := String.toList_ofList
      have hcons : IsTiling start (tile.gap ++ tile.lexeme ++ after) (tile :: tiles) last := by
        refine IsTiling.cons ?_ ?_ ?_ ?_ rfl
        · rw [hlexeme]
          exact htiling
        · rw [hlexeme]
          rwa [← htext] at hgap
        · rw [hlexeme]
          exact hpiece.isLexeme
        · rw [hlexeme]
          exact hseparate
      refine ⟨tile :: tiles, last, ?_, ?_, ?_⟩
      · rw [List.map_cons, htokens, place_lexeme, Position.advanceAll_after, List.append_nil,
          List.append_assoc]
      · rw [hlexeme, List.append_assoc] at hcons
        rw [← htext]
        exact hcons
      · intro first hmem
        cases hmem
        exact ⟨[], (List.append_nil gap).symm, fun _ => hcomment⟩

/-! ## Tokens of a text -/

/-- The tokens of a text are the lexemes among its pieces, none of which is faulty. -/
theorem exists_split_of_scan {source : String} {file : Option FileId} {tokens : List Token}
    (h : Token.scan source file = .ok tokens) :
    ∃ pieces, Piece.split source.toList = (pieces, none)
      ∧ (Token.place file (.after []) pieces).1 = tokens := by
  unfold Token.scan at h
  generalize hsplit : Piece.split source.toList = split at h
  obtain ⟨pieces, fault⟩ := split
  cases fault with
  | none => exact ⟨pieces, rfl, Except.ok.inj h⟩
  | some fault => cases h

/-- Every token of a text belongs to a tile of it. What is known about tiles, such as what stands in
front of them, can be used for single tokens by this. -/
theorem exists_tile_of_mem_scan {source : String} {file : Option FileId} {tokens : List Token}
    (h : Token.scan source file = .ok tokens) {token : Token} (htoken : token ∈ tokens) :
    ∃ tiles last, IsTiling [] source.toList tiles last ∧ ∃ tile ∈ tiles, tile.token = token := by
  obtain ⟨pieces, hsplit, htokens⟩ := exists_split_of_scan h
  obtain ⟨tiles, last, hmap, htiling, -⟩ :=
    exists_isTiling hsplit [] (IsGap.nil : IsGap source.toList [])
  rw [← htokens] at htoken
  exact ⟨tiles, last, htiling, List.mem_map.mp (hmap.symm ▸ htoken)⟩

/-- The tokens of a source text tile it: the text is that of the tokens with gaps between them,
every token is a lexeme and no two that touch could be read as one, and the place of a token is that
of its first character. -/
theorem scan_isTiling {source : String} {file : Option FileId} {tokens : List Token}
    (h : Token.scan source file = .ok tokens) :
    ∃ tiles last, tiles.map Tile.token = tokens ∧ IsTiling [] source.toList tiles last := by
  obtain ⟨pieces, hsplit, htokens⟩ := exists_split_of_scan h
  obtain ⟨tiles, last, hmap, htiling, -⟩ :=
    exists_isTiling hsplit [] (IsGap.nil : IsGap source.toList [])
  exact ⟨tiles, last, hmap.trans htokens, htiling⟩

/-- A source text in which words touch comments and quotes, and an arrow stands in front of `>`. -/
def glued : String :=
  "a/*\n*/b='x\\'y'//c\n=> >"

def gluedTokens : List Token :=
  [⟨"a", 1, 1, none⟩, ⟨"b", 2, 3, none⟩, ⟨"=", 2, 4, none⟩, ⟨"'x\\'y'", 2, 5, none⟩,
    ⟨"=>", 3, 1, none⟩, ⟨">", 3, 4, none⟩]

theorem scan_isTiling_glued :
    Token.scan glued none = .ok gluedTokens
      ∧ ∃ tiles last, tiles.map Tile.token = gluedTokens
        ∧ IsTiling [] glued.toList tiles last := by
  have hscan : Token.scan glued none = .ok gluedTokens := by decide +kernel
  exact ⟨hscan, scan_isTiling hscan⟩

end Reskin
