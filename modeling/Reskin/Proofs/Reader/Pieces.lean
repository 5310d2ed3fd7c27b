import Reskin.Proofs.Reader.Printing

/-!
# Files that are put together from files

The statements in front of a statement have no influence on how it is read, so a file can be cut
into pieces that are files themselves, and its statements are those of the pieces. There is one
exception: a list of identifiers takes the identifiers of the next piece, if that starts with some.

* **`Reader.behind`** — a reader with more statements in front of all those it holds;
  **`Reader.step_behind`** and **`Reader.run_behind`** — it takes the same moves.
* **`Reader.Gives`** — the statements that a reader comes to at the end of the file.
* **`Reader.gives_iff_of_finish`** — what follows a file is read as if it stood alone.
* **`Statement.ofTokens`** — the statements of tokens that can be read.
* **`Statement.read_flatten`**, **`Statement.eq_flatMap_of_read`** — the statements of a file are
  those of its pieces.
* **`Statement.exists_pieces`** — a file can be cut into its statements.
-/

namespace Reskin

open Grammar

namespace Reader

/-! ## Statements in front of all others -/

/-- Open scopes and the statements of the innermost one, with more statements in front. These belong
to the outermost scope, which is that of the file. -/
def putBehind (front : List Statement) :
    List (Opener × List Statement) → List Statement →
      List (Opener × List Statement) × List Statement
  | [], current => ([], front ++ current)
  | (opener, before) :: outer, current =>
    ((opener, (putBehind front outer before).2) :: (putBehind front outer before).1, current)

/-- A reader with more statements in front of all those it holds. -/
def behind (front : List Statement) (reader : Reader) : Reader :=
  ⟨(putBehind front reader.scopes reader.current).1,
    (putBehind front reader.scopes reader.current).2, reader.pending⟩

variable (front : List Statement)

/-- What is added to the innermost scope stands behind what is put in front of the outermost one. -/
theorem putBehind_append (scopes : List (Opener × List Statement)) (a b : List Statement) :
    putBehind front scopes (a ++ b)
      = ((putBehind front scopes a).1, (putBehind front scopes a).2 ++ b) := by
  cases scopes with
  | nil => rw [putBehind, putBehind, List.append_assoc]
  | cons scope outer => rfl

theorem add_behind (reader : Reader) (statement : Statement) :
    (reader.behind front).add statement = (reader.add statement).behind front := by
  unfold add behind
  rw [putBehind_append]

theorem settle_behind (reader : Reader) :
    (reader.behind front).settle = reader.settle.behind front := by
  unfold settle behind
  rw [putBehind_append]

/-- A closing brace is taken alike. The statement that it completes goes to the end of the next
outer scope, and what was put in front stays there. -/
theorem leave_behind (reader : Reader) (brace : Token) :
    (reader.behind front).leave brace = (reader.leave brace).map (behind front) := by
  obtain ⟨scopes, current, pending⟩ := reader
  cases scopes with
  | nil => rfl
  | cons scope outer =>
    obtain ⟨opener, before⟩ := scope
    cases opener with
    | matchBlock keyword => rfl
    | listing target keyword => rfl
    | forScope head keyword =>
      show Except.ok _ = Except.ok _
      unfold behind
      rw [putBehind_append]
      rfl

theorem start_behind (reader : Reader) (token : Token) :
    (reader.behind front).start token = (reader.start token).map (behind front) := by
  unfold start
  cases token.kind with
  | rightBrace => exact leave_behind front reader token
  | _ => rfl

theorem settle_start_behind (reader : Reader) (token : Token) :
    (reader.behind front).settle.start token
      = (reader.settle.start token).map (behind front) := by
  rw [settle_behind, start_behind]

theorem add_start_behind (reader : Reader) (statement : Statement) (token : Token) :
    ((reader.behind front).add statement).start token
      = ((reader.add statement).start token).map (behind front) := by
  rw [add_behind, start_behind]

/-- Statements in front of all others do not change how a token is taken: it is taken by looking at
the pending statement and the open scopes, never at statements that are complete. -/
theorem step_behind (reader : Reader) (token : Token) :
    (reader.behind front).step token = (reader.step token).map (behind front) := by
  obtain ⟨scopes, current, pending⟩ := reader
  unfold step
  -- Where the token becomes part of the pending statement, both sides are the same by definition.
  cases pending with
  | nothing => exact start_behind front _ token
  | equals kind key equals =>
    cases token.kind with
    | text => exact congrArg Except.ok (add_behind front _ (kind.statement ⟨key, equals, token⟩))
    | _ => rfl
  | identifier first =>
    cases token.kind with
    | rightBrace => exact add_start_behind front _ (.identifiers first []) token
    | model => exact add_start_behind front _ (.identifiers first []) token
    | _ => rfl
  | identifiers first rest =>
    cases token.kind with
    | identifier => rfl
    | _ => exact settle_start_behind front _ token
  | block head =>
    cases token.kind with
    | forKeyword => rfl
    | _ => exact settle_start_behind front _ token
  | listing target keyword body =>
    cases token.kind with
    | equals =>
      show (if _ then Except.ok _ else Except.error _) = Except.map _ (if _ then _ else _)
      split <;> rfl
    | _ => exact settle_start_behind front _ token
  | mapAll target keyword body equals =>
    cases token.kind with
    | text =>
      exact congrArg Except.ok
        (add_behind front _ (.listing target keyword body (some ⟨equals, token⟩)))
    | _ => rfl
  | copyPairs keyword pairs =>
    cases token.kind with
    | rightBrace => exact congrArg Except.ok (add_behind front _ (.copy keyword pairs))
    | _ => rfl
  | copyNext keyword pairs =>
    cases token.kind with
    | rightBrace => exact congrArg Except.ok (add_behind front _ (.copy keyword pairs))
    | _ => rfl
  | _ => cases token.kind <;> rfl

/-- Nor do they change how a list of tokens is taken, by induction on it. -/
theorem run_behind (reader : Reader) (tokens : List Token) :
    (reader.behind front).run tokens = (reader.run tokens).map (behind front) := by
  induction tokens generalizing reader with
  | nil => rfl
  | cons token rest ih =>
    rw [run, run, step_behind]
    cases reader.step token with
    | error diagnostic => rfl
    | ok next => exact ih next

/-- At the end of a file they are the first statements of the file. A report does not change, since
it is about the pending statement or the innermost scope. -/
theorem finish_behind (reader : Reader) (last : Option Token) :
    (reader.behind front).finish last = (reader.finish last).map (front ++ ·) := by
  obtain ⟨scopes, current, pending⟩ := reader
  have hpending : (behind front ⟨scopes, current, pending⟩).pending = pending := rfl
  rw [finish.eq_def, finish.eq_def, hpending]
  dsimp only
  cases pending.expected with
  | nil =>
    cases scopes with
    | nil =>
      show Except.ok (front ++ current ++ pending.complete)
        = Except.ok (front ++ (current ++ pending.complete))
      rw [List.append_assoc]
    | cons scope outer => rfl
  | cons kind kinds => rfl

/-! ## What a reader comes to -/

/-- The statements of a file that a reader comes to at its end. -/
def Gives (reader : Reader) (tokens : List Token) (statements : List Statement) : Prop :=
  ∃ after, reader.run tokens = .ok after ∧ after.finish none = .ok statements

variable {front} {reader : Reader} {tokens : List Token} {statements : List Statement}

/-- The last token of a file is only of use for reports. -/
theorem finish_of_finish {last : Option Token} (h : reader.finish last = .ok statements)
    (other : Option Token) : reader.finish other = .ok statements := by
  obtain ⟨hscopes, -⟩ := finish_eq_ok h
  obtain ⟨scopes, current, pending⟩ := reader
  cases hscopes
  cases pending <;> cases h <;> rfl

theorem gives_nil_iff : reader.Gives [] statements ↔ reader.finish none = .ok statements := by
  refine ⟨?_, fun h => ⟨reader, rfl, h⟩⟩
  rintro ⟨after, hrun, hfinish⟩
  cases hrun
  exact hfinish

/-- A reader with statements in front comes to those statements, and behind them to what it comes to
without them. -/
theorem gives_behind_iff :
    (reader.behind front).Gives tokens statements
      ↔ ∃ rest, reader.Gives tokens rest ∧ statements = front ++ rest := by
  constructor
  · rintro ⟨after, hrun, hfinish⟩
    rw [run_behind] at hrun
    cases hread : reader.run tokens with
    | error diagnostic =>
      rw [hread] at hrun
      cases hrun
    | ok middle =>
      rw [hread] at hrun
      cases hrun
      rw [finish_behind] at hfinish
      cases hend : middle.finish none with
      | error diagnostic =>
        rw [hend] at hfinish
        cases hfinish
      | ok rest =>
        rw [hend] at hfinish
        cases hfinish
        exact ⟨rest, ⟨middle, hread, hend⟩, rfl⟩
  · rintro ⟨rest, ⟨after, hrun, hfinish⟩, rfl⟩
    refine ⟨after.behind front, ?_, ?_⟩
    · rw [run_behind, hrun]
      rfl
    · rw [finish_behind, hfinish]
      rfl

theorem gives_append_iff {a b : List Token} {middle : Reader} (h : reader.run a = .ok middle) :
    reader.Gives (a ++ b) statements ↔ middle.Gives b statements := by
  rw [Gives, Gives, run_append_of_ok h]

/-! ## Behind a file -/

/-- A token that no statement takes from the one in front of it ends whatever a file ends with,
unless it is an identifier behind a list of them. -/
theorem endsBefore_of_separates {pending : Pending} {kind : TokenKind}
    (hends : pending.EndsBefore none) (hkind : Separates (some kind))
    (hlist : ∀ first rest, pending = .identifiers first rest → kind ≠ .identifier) :
    pending.EndsBefore (some kind) := by
  cases pending with
  | nothing => trivial
  | identifiers first rest => exact fun h => hlist first rest rfl (Option.some.inj h)
  | block head => exact hkind.1
  | listing target keyword body => exact hkind.2
  | identifier first => rcases hends with h | h <;> cases h
  | _ => exact hends.elim

/-- A token that ends the pending statement may as well stand behind what is complete. -/
theorem gives_cons_iff_of_endsBefore {token : Token}
    (h : reader.pending.EndsBefore (some token.kind)) :
    reader.Gives (token :: tokens) statements
      ↔ reader.ended.Gives (token :: tokens) statements := by
  have hstep : reader.step token = reader.ended.step token := by
    rw [step_of_endsBefore h]
    rfl
  rw [Gives, Gives, run, run, hstep]

/-- **What follows a file is read as if it stood alone**, behind the statements of the file. The
next token ends the pending statement, and then the reader is a new one with all those statements in
front. -/
theorem gives_iff_of_finish {before : List Statement} (h : reader.finish none = .ok before)
    (hnext : Separates (tokens.head?.map Token.kind))
    (hlist : ∀ first rest, reader.pending = .identifiers first rest →
      tokens.head?.map Token.kind ≠ some .identifier) :
    reader.Gives tokens statements
      ↔ ∃ rest, Gives {} tokens rest ∧ statements = before ++ rest := by
  obtain ⟨hscopes, hends⟩ := finish_eq_ok h
  have hended : reader.ended = behind before {} := by
    rw [statements_of_finish h]
    unfold ended
    rw [hscopes]
    simp [behind, putBehind]
  cases tokens with
  | nil =>
    rw [gives_nil_iff, h]
    constructor
    · intro heq
      exact ⟨[], gives_nil_iff.mpr rfl, by rw [List.append_nil, Except.ok.inj heq]⟩
    · rintro ⟨rest, hrest, rfl⟩
      have hnone : rest = [] := (Except.ok.inj (gives_nil_iff.mp hrest)).symm
      rw [hnone, List.append_nil]
  | cons token tokens =>
    have hends' := endsBefore_of_separates hends hnext
      fun first rest hpending hkind => hlist first rest hpending (congrArg some hkind)
    rw [gives_cons_iff_of_endsBefore hends', hended, gives_behind_iff]

theorem mem_of_finish_identifiers {first : Token} {rest : List Token}
    (h : reader.finish none = .ok statements)
    (hpending : reader.pending = .identifiers first rest) :
    .identifiers first rest ∈ statements := by
  rw [statements_of_finish h, ended, hpending]
  exact List.mem_append_right _ List.mem_cons_self

/-- A list of identifiers is there in the end, whatever it takes of what follows. The induction is
on the tokens: an identifier makes the list longer, any other token ends it. -/
theorem exists_isIdentifiers_of_gives {current : List Statement} {first : Token}
    {rest : List Token}
    (h : Gives ⟨[], current, .identifiers first rest⟩ tokens statements) :
    ∃ statement ∈ statements, statement.isIdentifiers = true := by
  induction tokens generalizing rest with
  | nil =>
    cases gives_nil_iff.mp h
    exact ⟨.identifiers first rest, by simp [settle, Pending.complete], rfl⟩
  | cons token tokens ih =>
    by_cases hkind : token.kind = .identifier
    · obtain ⟨after, hrun, hfinish⟩ := h
      rw [run] at hrun
      simp only [step, hkind] at hrun
      exact ih ⟨after, hrun, hfinish⟩
    · have hends : (Pending.identifiers first rest).EndsBefore (some token.kind) :=
        fun h => hkind (Option.some.inj h)
      rw [gives_cons_iff_of_endsBefore hends] at h
      have hended : ended ⟨[], current, .identifiers first rest⟩
          = behind (current ++ [.identifiers first rest]) {} := by
        simp [ended, behind, putBehind, Pending.ended, Pending.complete]
      rw [hended, gives_behind_iff] at h
      obtain ⟨others, -, rfl⟩ := h
      exact ⟨.identifiers first rest, by simp, rfl⟩

end Reader

/-! ## Pieces of a file -/

namespace Statement

variable {tokens : List Token} {statements : List Statement}

theorem read_eq_ok_iff_gives :
    Statement.read tokens = .ok statements ↔ Reader.Gives {} tokens statements := by
  rw [Statement.read]
  cases hrun : Reader.run {} tokens with
  | error diagnostic => simp [Reader.Gives, hrun]
  | ok reader =>
    dsimp only
    constructor
    · intro h
      exact ⟨reader, hrun, Reader.finish_of_finish h none⟩
    · rintro ⟨after, hafter, hfinish⟩
      cases hrun.symm.trans hafter
      exact Reader.finish_of_finish hfinish _

/-- The first token of a file starts a statement. -/
theorem separates_of_isFile (h : IsFile (tokens.map Token.kind)) :
    Separates (tokens.head?.map Token.kind) := by
  have hfollow := Derives.separates h ⟨by simp, by simp⟩
  cases tokens <;> exact hfollow

/-- Also the first token of files that are put together starts a statement. Empty files are passed
over, by induction on the files. -/
theorem separates_flatten {pieces : List (List Token)}
    (h : ∀ piece ∈ pieces, IsFile (piece.map Token.kind)) :
    Separates (pieces.flatten.head?.map Token.kind) := by
  induction pieces with
  | nil => exact ⟨by simp, by simp⟩
  | cons piece pieces ih =>
    rw [List.forall_mem_cons] at h
    cases piece with
    | nil => exact ih h.2
    | cons token rest =>
      have hfirst : Separates ((token :: rest).head?.map Token.kind) := separates_of_isFile h.1
      exact hfirst

/-- The statements of tokens that can be read. -/
def ofTokens (tokens : List Token) : List Statement :=
  (Statement.read tokens).toOption.getD []

theorem ofTokens_of_read (h : Statement.read tokens = .ok statements) :
    ofTokens tokens = statements := by
  rw [ofTokens, h]
  rfl

/-- What belongs to the grammar can be read, so the default of `ofTokens` is never used for it. -/
theorem read_eq_ofTokens (h : IsFile (tokens.map Token.kind)) :
    Statement.read tokens = .ok (ofTokens tokens) := by
  obtain ⟨statements, hread⟩ := read_of_isFile h
  rw [ofTokens_of_read hread, hread]

variable {pieces : List (List Token)}

/-- **The statements of a file that is put together from files** are those of its pieces, if these
have no list of identifiers. Induction on the pieces: the first one is read, and what follows it as
if it stood alone. -/
theorem read_flatten (hpieces : ∀ piece ∈ pieces, IsFile (piece.map Token.kind))
    (hlist : ∀ statement ∈ pieces.flatMap ofTokens, statement.isIdentifiers = false) :
    Statement.read pieces.flatten = .ok (pieces.flatMap ofTokens) := by
  induction pieces with
  | nil => rfl
  | cons piece pieces ih =>
    rw [List.flatMap_cons, List.forall_mem_append] at hlist
    rw [List.forall_mem_cons] at hpieces
    have hrest := ih hpieces.2 hlist.2
    obtain ⟨reader, hrun, hfinish⟩ := read_eq_ok_iff_gives.mp (read_eq_ofTokens hpieces.1)
    rw [read_eq_ok_iff_gives] at hrest ⊢
    rw [List.flatten_cons, List.flatMap_cons, Reader.gives_append_iff hrun,
      Reader.gives_iff_of_finish hfinish (separates_flatten hpieces.2)]
    · exact ⟨pieces.flatMap ofTokens, hrest, rfl⟩
    · intro first rest hpending
      have hmem := Reader.mem_of_finish_identifiers hfinish hpending
      exact absurd (hlist.1 _ hmem) Bool.noConfusion

/-- What stands behind a piece of a file without a list of identifiers is read as if it stood alone.
It is enough that the file has no list, as a list at the end of the piece would be one of the
file. -/
theorem exists_rest_of_read {a b : List Token} (ha : IsFile (a.map Token.kind))
    (hb : Separates (b.head?.map Token.kind)) (h : Statement.read (a ++ b) = .ok statements)
    (hlist : ∀ statement ∈ statements, statement.isIdentifiers = false) :
    ∃ rest, Statement.read b = .ok rest ∧ statements = ofTokens a ++ rest := by
  obtain ⟨reader, hrun, hfinish⟩ := read_eq_ok_iff_gives.mp (read_eq_ofTokens ha)
  rw [read_eq_ok_iff_gives, Reader.gives_append_iff hrun] at h
  -- A list of identifiers at the end of the piece would be one of the file.
  have hnone : ∀ first rest, reader.pending ≠ .identifiers first rest := by
    intro first rest hpending
    obtain ⟨scopes, current, pending⟩ := reader
    cases hpending
    cases (Reader.finish_eq_ok hfinish).1
    obtain ⟨statement, hmem, hidentifiers⟩ := Reader.exists_isIdentifiers_of_gives h
    rw [hlist statement hmem] at hidentifiers
    cases hidentifiers
  rw [Reader.gives_iff_of_finish hfinish hb
    fun first rest hpending => absurd hpending (hnone first rest)] at h
  obtain ⟨rest, hrest, heq⟩ := h
  exact ⟨rest, read_eq_ok_iff_gives.mpr hrest, heq⟩

/-- **The statements of a file are those of its pieces**, also if it is not known that the pieces
have no list of identifiers, as long as the file has none. -/
theorem eq_flatMap_of_read (hpieces : ∀ piece ∈ pieces, IsFile (piece.map Token.kind))
    (h : Statement.read pieces.flatten = .ok statements)
    (hlist : ∀ statement ∈ statements, statement.isIdentifiers = false) :
    statements = pieces.flatMap ofTokens := by
  induction pieces generalizing statements with
  | nil =>
    cases h
    rfl
  | cons piece pieces ih =>
    rw [List.forall_mem_cons] at hpieces
    rw [List.flatten_cons] at h
    obtain ⟨rest, hrest, rfl⟩ :=
      exists_rest_of_read hpieces.1 (separates_flatten hpieces.2) h hlist
    rw [List.forall_mem_append] at hlist
    rw [List.flatMap_cons, ← ih hpieces.2 hrest hlist.2]

/-! ## One piece for each statement -/

/-- A list of identifiers at the start of a file is one of its statements. By completeness the
reader holds the list after its tokens, and it keeps what it holds. -/
theorem exists_isIdentifiers_of_read {a b : List Token}
    (ha : IdentifierList (a.map Token.kind) (follow (b.map Token.kind) none))
    (hb : IsFile (b.map Token.kind)) (h : Statement.read (a ++ b) = .ok statements) :
    ∃ statement ∈ statements, statement.isIdentifiers = true := by
  have hreads : Reader.Reads {} (a.map Token.kind) fun middle => ∃ first rest,
      Reader.Extends [] [.identifiers first rest] (follow (b.map Token.kind) none) middle :=
    Reader.reads_identifierList _ ha trivial
  obtain ⟨middle, hrunA, first, rest, hmiddle⟩ := hreads a rfl
  obtain ⟨after, hrunB, hafter⟩ :=
    Reader.accepts_of_derives hb ⟨by simp, by simp⟩ middle hmiddle.endsBefore b rfl
  obtain ⟨reader, hrun, hfinish⟩ := read_eq_ok_iff_gives.mp h
  rw [Reader.run_append_of_ok hrunA, hrunB] at hrun
  cases hrun
  have hkept := (hmiddle.trans hafter).keeps
  rw [← Reader.statements_of_finish hfinish] at hkept
  exact ⟨.identifiers first rest, hkept.subset (by simp), rfl⟩

/-- A statement that is no list of identifiers does not look at what follows it: it can be derived
at the end of a file as well. -/
theorem derives_alone_or_list {word : List TokenKind} {next : Option TokenKind}
    (h : Derives .statement word next) :
    Derives .statement word none ∨ IdentifierList word next := by
  have huses : ∀ uses, Derives .uses uses next → Derives .uses uses none := by
    intro uses h
    cases h with
    | noUses => exact .noUses
    | uses hbody => exact .uses hbody
  cases h with
  | definition scope => exact .inl (.definition scope)
  | matchBlock hbody hchain => exact .inl (.matchBlock hbody (huses _ hchain))
  | anyBlock hchain => exact .inl (.anyBlock (huses _ hchain))
  | setAll target => exact .inl (.setAll target)
  | listing target hbody => exact .inl (.listing target hbody)
  | mapAll target hfirst hrest => exact .inl (.mapAll target hfirst hrest)
  | predicate => exact .inl .predicate
  | model => exact .inl .model
  | weight => exact .inl .weight
  | identifiers hlist => exact .inr hlist
  | copy hbody => exact .inl (.copy hbody)

/-- **A file can be cut into its statements**, if there is no list of identifiers among them: each
piece is a statement of the grammar, and a file of its own. The induction is on the derivation of
the file. -/
theorem exists_pieces (h : Statement.read tokens = .ok statements)
    (hlist : ∀ statement ∈ statements, statement.isIdentifiers = false) :
    ∃ pieces : List (List Token), pieces.flatten = tokens
      ∧ ∀ piece ∈ pieces, Derives .statement (piece.map Token.kind) none
        ∧ IsFile (piece.map Token.kind) := by
  have hfile : Derives .statements (tokens.map Token.kind) none := isFile_of_read h
  generalize hword : tokens.map Token.kind = word at hfile
  generalize hsymbol : Nonterminal.statements = symbol at hfile
  generalize hend : (none : Option TokenKind) = next at hfile
  induction hfile generalizing tokens statements with
  | nil =>
    cases List.map_eq_nil_iff.mp hword
    exact ⟨[], rfl, List.forall_mem_nil _⟩
  | cons hfirst hrest _ ih =>
    subst hend
    obtain ⟨a, b, rfl, rfl, rfl⟩ := List.map_eq_append_iff.mp hword
    rcases derives_alone_or_list hfirst with halone | hidentifiers
    · have ha : IsFile (a.map Token.kind) := by
        have hone : Derives .statements (a.map Token.kind ++ []) none := .cons halone .nil
        rwa [List.append_nil] at hone
      obtain ⟨rest, hread, rfl⟩ := exists_rest_of_read ha (separates_of_isFile hrest) h hlist
      rw [List.forall_mem_append] at hlist
      obtain ⟨pieces, rfl, hpieces⟩ := ih hread hlist.2 rfl rfl rfl
      exact ⟨a :: pieces, rfl, List.forall_mem_cons.mpr ⟨⟨halone, ha⟩, hpieces⟩⟩
    · obtain ⟨statement, hmem, hidentifiers⟩ := exists_isIdentifiers_of_read hidentifiers hrest h
      rw [hlist statement hmem] at hidentifiers
      cases hidentifiers
  | _ => cases hsymbol

end Statement

end Reskin
