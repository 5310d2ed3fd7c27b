import Reskin.Proofs.Reader.Completeness

/-!
# The reader accepts exactly the grammar

The reader is not built like the grammar: it keeps a stack of open scopes and one pending statement.
The invariant `Reader.Consumed` says that the tokens taken so far are a derivation that breaks off
where the reader is: for each open scope the statements in front of it and its opening tokens, then
the statements of the innermost scope, then the tokens of the pending statement.

* **`Contents`** — a list of statements with a word for it; **`Pending.Word`** — the same for a
  pending statement. They are all that the invariant is made of.
* **`Consumed.step`** — every move keeps the invariant.
* **`Statement.isFile_of_read`** — hence what is read up to its end follows the grammar.
* **`Statement.read_eq_ok_iff_isFile`** — the headline: together with `Statement.read_of_isFile`,
  the reader accepts the words of the grammar and no others.
-/

namespace Reskin

open Grammar

/-! ## Words of the parts of a reader -/

/-- A list of statements with a word that it can be read from. The reader tells by the first
statement whether a listing starts with a list of identifiers, the grammar by the word. -/
structure Contents (statements : List Statement) (word : List TokenKind)
    (next : Option TokenKind) : Prop where
  derives : Derives .statements word next
  nil_of_nil : statements = [] → word = []
  listed : statements.head?.any Statement.isIdentifiers = true → Listed word next

theorem Contents.nil (next : Option TokenKind) : Contents [] [] next :=
  ⟨.nil, fun _ => rfl, nofun⟩

/-- One more statement behind the others. If it is the first one, whether the contents start with a
list of identifiers is decided by it. -/
theorem Contents.snoc {statements : List Statement} {word last : List TokenKind}
    {next : Option TokenKind} (h : Contents statements word (follow last next))
    (statement : Statement) (hlast : Derives .statement last next)
    (hidentifiers : statement.isIdentifiers = true → IdentifierList last next) :
    Contents (statements ++ [statement]) (word ++ last) next := by
  refine ⟨h.derives.snoc hlast, fun hnil => by simp at hnil, ?_⟩
  intro hlisted
  cases statements with
  | nil =>
    -- The new statement is the first one, and there is nothing in front of it.
    rw [h.nil_of_nil rfl, List.nil_append]
    exact ⟨last, [], (List.append_nil last).symm, hidentifiers hlisted, .nil⟩
  | cons first rest => exact (h.listed hlisted).snoc hlast

/-- The words of a block without its `for` scope. -/
inductive BlockHead.Word : BlockHead → List TokenKind → Prop where
  | any (keyword : Token) : Word (.any keyword) [.anyKeyword]
  | matching {body : List TokenKind} (keyword : Token) (contents : List Statement)
      (hbody : Derives .statements body (some .rightBrace)) :
      Word (.matching keyword contents) (.matchKeyword :: .leftBrace :: (body ++ [.rightBrace]))

/-- A block is a statement with a `for` scope behind it and without one. -/
theorem BlockHead.Word.derives {head : BlockHead} {word uses : List TokenKind}
    {next : Option TokenKind} (h : head.Word word) (huses : Derives .uses uses next) :
    Derives .statement (word ++ uses) next := by
  cases h with
  | any keyword => exact .anyBlock huses
  | matching keyword contents hbody => simpa using Derives.matchBlock hbody huses

theorem BlockHead.isIdentifiers_statement (head : BlockHead) (uses : ForScope) :
    (head.statement uses).isIdentifiers = false := by
  cases head <;> rfl

/-- The words in front of the brace of a scope. -/
inductive Opener.Word : Opener → List TokenKind → Prop where
  | matchBlock (keyword : Token) : Word (.matchBlock keyword) [.matchKeyword]
  | listing (target : Target) (keyword : Token) : Word (.listing target keyword) [.target target]
  | forScope {head : BlockHead} {word : List TokenKind} (keyword : Token) (hhead : head.Word word) :
      Word (.forScope head keyword) (word ++ [.forKeyword])

/-- The word of an assignment up to its key. -/
def AssignmentKind.word : AssignmentKind → List TokenKind
  | .definition scope _ => [definitionKeyword scope, .identifier]
  | .setAll target => [.target target]
  | .predicate => [.identifier]
  | .model => [.model]
  | .weight => [.weight]

/-- Every kind of assignment is a statement, whatever follows it. -/
theorem AssignmentKind.derives (kind : AssignmentKind) (next : Option TokenKind) :
    Derives .statement (kind.word ++ [.equals, .text]) next := by
  cases kind with
  | definition scope keyword => exact .definition scope
  | setAll target => exact .setAll target
  | predicate => exact .predicate
  | model => exact .model
  | weight => exact .weight

theorem AssignmentKind.isIdentifiers_statement (kind : AssignmentKind) (assignment : Assignment) :
    (kind.statement assignment).isIdentifiers = false := by
  cases kind <;> rfl

/-- The inside of a `copy` scope in front of a pair. -/
inductive CopyFront : List TokenKind → Prop where
  | start : CopyFront []
  | comma {pairs : List TokenKind} (hpairs : CopyPairs pairs) : CopyFront (pairs ++ [.comma])

theorem CopyFront.body {word : List TokenKind} (h : CopyFront word) : CopyBody word := by
  cases h with
  | start => exact .empty
  | comma hpairs => exact .trailingComma hpairs

/-- One more pair can be read behind any front of a `copy` scope. -/
theorem CopyFront.pair {word : List TokenKind} (h : CopyFront word) :
    CopyPairs (word ++ [.text, .arrow, .text]) := by
  cases h with
  | start => exact .one
  | comma hpairs => simpa using CopyPairs.more hpairs

/-- The words of a pending statement. -/
inductive Pending.Word : Pending → List TokenKind → Prop where
  | nothing : Word .nothing []
  | definition (scope : DefinitionScope) (keyword : Token) :
      Word (.definition scope keyword) [definitionKeyword scope]
  | key (kind : AssignmentKind) (key : Token) : Word (.key kind key) kind.word
  | equals (kind : AssignmentKind) (key equals : Token) :
      Word (.equals kind key equals) (kind.word ++ [.equals])
  | opening {opener : Opener} {word : List TokenKind} (hopener : opener.Word word) :
      Word (.opening opener) word
  | target (target : Target) (keyword : Token) : Word (.target target keyword) [.target target]
  | identifier (first : Token) : Word (.identifier first) [.identifier]
  | identifiers (first : Token) (rest : List Token) (n : Nat) :
      Word (.identifiers first rest) (List.replicate (n + 2) .identifier)
  | block {head : BlockHead} {word : List TokenKind} (hhead : head.Word word) :
      Word (.block head) word
  | listing {body : List Statement} {word : List TokenKind} (target : Target) (keyword : Token)
      (hbody : Contents body word (some .rightBrace)) :
      Word (.listing target keyword body) (.target target :: .leftBrace :: (word ++ [.rightBrace]))
  | mapAll {word : List TokenKind} (target : Target) (keyword : Token) (body : List Statement)
      (equals : Token) (hlisted : Listed word (some .rightBrace)) :
      Word (.mapAll target keyword body equals)
        (.target target :: .leftBrace :: (word ++ [.rightBrace, .equals]))
  | copy (keyword : Token) : Word (.copy keyword) [.copy]
  | copyPairs {word : List TokenKind} (keyword : Token) (pairs : List CopyPair)
      (hfront : CopyFront word) : Word (.copyPairs keyword pairs) (.copy :: .leftBrace :: word)
  | copySource {word : List TokenKind} (keyword : Token) (pairs : List CopyPair) (source : Token)
      (hfront : CopyFront word) :
      Word (.copySource keyword pairs source) (.copy :: .leftBrace :: (word ++ [.text]))
  | copyArrow {word : List TokenKind} (keyword : Token) (pairs : List CopyPair)
      (source arrow : Token) (hfront : CopyFront word) :
      Word (.copyArrow keyword pairs source arrow)
        (.copy :: .leftBrace :: (word ++ [.text, .arrow]))
  | copyNext {word : List TokenKind} (keyword : Token) (pairs : List CopyPair)
      (hpairs : CopyPairs word) : Word (.copyNext keyword pairs) (.copy :: .leftBrace :: word)

namespace Reader

/-! ## The invariant -/

/-- The words of the open scopes, up to the brace of the innermost one. -/
inductive ScopesWord : List (Opener × List Statement) → List TokenKind → Prop where
  | nil : ScopesWord [] []
  | cons {outer : List (Opener × List Statement)} {opener : Opener} {before : List Statement}
      {front word opening : List TokenKind} (houter : ScopesWord outer front)
      (hbefore : Contents before word (follow opening none)) (hopening : opener.Word opening) :
      ScopesWord ((opener, before) :: outer) (front ++ word ++ opening ++ [.leftBrace])

/-- The words of the open scopes and of the statements in the innermost one. -/
def Front (scopes : List (Opener × List Statement)) (current : List Statement)
    (kinds : List TokenKind) (next : Option TokenKind) : Prop :=
  ∃ front word, kinds = front ++ word ∧ ScopesWord scopes front ∧ Contents current word next

/-- The tokens that a reader has taken are those of the open scopes, of the statements in the
innermost one and of the pending statement. While nothing is pending, anything may follow. -/
def Consumed (reader : Reader) (kinds : List TokenKind) : Prop :=
  ∃ front word, kinds = front ++ word ∧ reader.pending.Word word
    ∧ ∀ next, Front reader.scopes reader.current front (follow word next)

variable {scopes : List (Opener × List Statement)} {current : List Statement}
  {kinds front word : List TokenKind}

/-- One more statement in the innermost scope. -/
theorem Front.snoc {last : List TokenKind} {next : Option TokenKind}
    (h : Front scopes current kinds (follow last next)) (statement : Statement)
    (hlast : Derives .statement last next)
    (hidentifiers : statement.isIdentifiers = true → IdentifierList last next) :
    Front scopes (current ++ [statement]) (kinds ++ last) next := by
  obtain ⟨front, word, rfl, hscopes, hcontents⟩ := h
  exact ⟨front, word ++ last, List.append_assoc .., hscopes,
    hcontents.snoc statement hlast hidentifiers⟩

/-- A token that goes to the pending statement keeps the invariant if the pending word is still one.
Most moves of the reader are of this form. -/
theorem Consumed.grow {pending : Pending} {kind : TokenKind}
    (hfront : ∀ next, Front scopes current front (follow word next))
    (hword : pending.Word (word ++ [kind])) :
    Consumed ⟨scopes, current, pending⟩ (front ++ word ++ [kind]) := by
  refine ⟨front, word ++ [kind], List.append_assoc .., hword, ?_⟩
  intro next
  rw [follow_append]
  exact hfront _

/-- A token that completes the pending statement adds it to the innermost scope. -/
theorem Consumed.complete {statement : Statement} {kind : TokenKind}
    (hfront : ∀ next, Front scopes current front (follow word next))
    (hword : ∀ next, Derives .statement (word ++ [kind]) next)
    (hidentifiers : statement.isIdentifiers = false) :
    Consumed ⟨scopes, current ++ [statement], .nothing⟩ (front ++ word ++ [kind]) := by
  refine ⟨front ++ word ++ [kind], [], (List.append_nil _).symm, .nothing, ?_⟩
  intro next
  rw [List.append_assoc]
  have hbefore := hfront (follow [kind] next)
  rw [← follow_append] at hbefore
  exact hbefore.snoc statement (hword next) fun h => by rw [hidentifiers] at h; cases h

/-- A brace opens a scope, and what was pending becomes its opening. -/
theorem Consumed.enter {opener : Opener}
    (hfront : ∀ next, Front scopes current front (follow word next)) (hword : opener.Word word) :
    Consumed ⟨(opener, current) :: scopes, [], .nothing⟩ (front ++ word ++ [.leftBrace]) := by
  refine ⟨front ++ word ++ [.leftBrace], [], (List.append_nil _).symm, .nothing, ?_⟩
  intro next
  obtain ⟨outer, before, rfl, hscopes, hcontents⟩ := hfront none
  exact ⟨_, [], (List.append_nil _).symm, .cons hscopes hcontents hword, .nil _⟩

/-! ## Starting a statement -/

/-- An opening word is not empty, so what stands behind it does not show in front of it. -/
theorem follow_opening {opener : Opener} {opening : List TokenKind} (h : opener.Word opening)
    (rest : List TokenKind) (next : Option TokenKind) :
    follow (opening ++ rest) next = follow opening none := by
  cases h with
  | matchBlock keyword => rfl
  | listing target keyword => rfl
  | forScope keyword hhead => cases hhead <;> rfl

/-- Closing a scope keeps the invariant. The statements in it become a part of the statement that
opened it, one case for each kind of scope. -/
theorem Consumed.leave {pending : Pending} {brace : Token} {after : Reader}
    (h : Front scopes current kinds (some .rightBrace))
    (hleave : Reader.leave ⟨scopes, current, pending⟩ brace = .ok after) :
    after.Consumed (kinds ++ [.rightBrace]) := by
  obtain ⟨_, word, rfl, hscopes, hcontents⟩ := h
  cases hscopes with
  | nil => cases hleave
  | @cons outer opener before front wordBefore opening houter hbefore hopening =>
    have hfront : ∀ rest next, Front outer before (front ++ wordBefore)
        (follow (opening ++ rest) next) := by
      intro rest next
      rw [follow_opening hopening]
      exact ⟨front, wordBefore, rfl, houter, hbefore⟩
    cases hopening with
    | matchBlock keyword =>
      cases hleave
      exact ⟨front ++ wordBefore, .matchKeyword :: .leftBrace :: (word ++ [.rightBrace]), by simp,
        .block (.matching keyword current hcontents.derives), hfront _⟩
    | listing target keyword =>
      cases hleave
      exact ⟨front ++ wordBefore, .target target :: .leftBrace :: (word ++ [.rightBrace]), by simp,
        .listing target keyword hcontents, hfront _⟩
    | @forScope head headWord keyword hhead =>
      cases hleave
      -- Nothing can continue a block behind its `for` scope, so it is a statement at once.
      refine ⟨_, [], (List.append_nil _).symm, .nothing, ?_⟩
      intro next
      have huses : Derives .uses (.forKeyword :: .leftBrace :: (word ++ [.rightBrace])) next :=
        .uses hcontents.derives
      have hlast := hfront (.leftBrace :: (word ++ [.rightBrace])) next
      rw [List.append_assoc] at hlast
      have hblock := hlast.snoc (head.statement (.present keyword current)) (hhead.derives huses)
        fun h => by rw [head.isIdentifiers_statement] at h; cases h
      simpa using hblock

/-- The first token of a statement is pending on its own. -/
theorem Consumed.await {pending : Pending} {kind : TokenKind}
    (h : Front scopes current kinds (some kind)) (hword : pending.Word [kind]) :
    Consumed ⟨scopes, current, pending⟩ (kinds ++ [kind]) :=
  ⟨kinds, [kind], rfl, hword, fun _ => h⟩

/-- Starting a statement keeps the invariant. One case for each kind of token that can start one,
and for the brace that closes a scope. -/
theorem Consumed.start {pending : Pending} {token : Token} {after : Reader}
    (h : Front scopes current kinds (some token.kind))
    (hstart : Reader.start ⟨scopes, current, pending⟩ token = .ok after) :
    after.Consumed (kinds ++ [token.kind]) := by
  cases hkind : token.kind <;> simp only [Reader.start, hkind, reduceCtorEq] at h hstart
  case letKeyword =>
    cases hstart
    exact .await h (.definition .file token)
  case globalKeyword =>
    cases hstart
    exact .await h (.definition .global token)
  case matchKeyword =>
    cases hstart
    exact .await h (.opening (.matchBlock token))
  case anyKeyword =>
    cases hstart
    exact .await h (.block (.any token))
  case target target =>
    cases hstart
    exact .await h (.target target token)
  case identifier =>
    cases hstart
    exact .await h (.identifier token)
  case model =>
    cases hstart
    exact .await h (.key .model token)
  case weight =>
    cases hstart
    exact .await h (.key .weight token)
  case copy =>
    cases hstart
    exact .await h (.copy token)
  case rightBrace => exact .leave h hstart

/-! ## Ending a statement -/

/-- A pending statement that is over in front of `next` is one of the statements in front of it.
Only here it matters what follows, since an identifier alone is a list in front of some tokens
only. -/
theorem Consumed.front_ended {reader : Reader} {next : Option TokenKind}
    (h : reader.Consumed kinds) (hends : reader.pending.EndsBefore next) :
    Front reader.scopes reader.ended.current kinds next := by
  obtain ⟨scopes, current, pending⟩ := reader
  obtain ⟨front, word, rfl, hword, hfront⟩ := h
  cases hword with
  | nothing => simpa [ended, Pending.ended, Pending.complete] using hfront next
  | identifier first =>
    exact (hfront next).snoc _ (.identifiers (.single hends)) fun _ => .single hends
  | identifiers first rest n =>
    exact (hfront next).snoc _ (.identifiers (.several n hends)) fun _ => .several n hends
  | block hhead =>
    have hblock : Derives .statement (word ++ []) next := hhead.derives .noUses
    rw [List.append_nil] at hblock
    refine (hfront next).snoc _ hblock fun h => ?_
    rw [BlockHead.isIdentifiers_statement] at h
    cases h
  | listing target keyword hbody =>
    exact (hfront next).snoc _ (.listing target hbody.derives) fun h => by cases h
  | _ => exact hends.elim

/-! ## Every step -/

/-- Every move keeps the invariant. The moves of the reader are those of `Move`, and each one grows
the pending word, completes it, opens or closes a scope, or ends a statement and starts another. -/
theorem Consumed.step {reader after : Reader} {token : Token} (h : reader.Consumed kinds)
    (hstep : reader.step token = .ok after) : after.Consumed (kinds ++ [token.kind]) := by
  have hmove := move_of_step hstep
  have hended : reader.pending.EndsBefore (some token.kind) →
      Front reader.scopes reader.ended.current kinds (some token.kind) := h.front_ended
  obtain ⟨scopes, current, pending⟩ := reader
  obtain ⟨front, word, rfl, hword, hfront⟩ := h
  cases hmove with
  | ends hends hstart => exact .start (hended hends) hstart
  | name hkind =>
    cases hword
    rw [hkind]
    exact .grow hfront (.key (.definition _ _) token)
  | equals hkind =>
    cases hword
    rw [hkind]
    exact .grow hfront (.equals _ _ token)
  | @value kind _ _ hkind =>
    cases hword
    rw [hkind]
    refine .complete hfront (fun next => ?_) (kind.isIdentifiers_statement _)
    rw [List.append_assoc]
    exact kind.derives next
  | enter hkind =>
    cases hword with | opening hopener =>
    rw [hkind]
    exact .enter hfront hopener
  | setAll hkind =>
    cases hword
    rw [hkind]
    exact .grow hfront (.equals (.setAll _) _ token)
  | enterListing hkind =>
    cases hword
    rw [hkind]
    exact .enter hfront (.listing _ _)
  | predicate hkind =>
    cases hword
    rw [hkind]
    exact .grow hfront (.equals .predicate _ token)
  | second hkind =>
    cases hword
    rw [hkind]
    exact .grow hfront (.identifiers _ [token] 0)
  | @further first rest hkind =>
    cases hword with | identifiers _ _ n =>
    rw [hkind]
    refine .grow hfront ?_
    -- The word does not tell which identifiers these are, only how many.
    rw [← List.replicate_succ']
    exact .identifiers first (rest ++ [token]) (n + 1)
  | uses hkind =>
    cases hword with | block hhead =>
    rw [hkind]
    exact .grow hfront (.opening (.forScope token hhead))
  | @mapAll target keyword body hkind hlisted =>
    cases hword with | listing _ _ hbody =>
    rw [hkind]
    refine .grow hfront ?_
    simpa using Pending.Word.mapAll target keyword body token (hbody.listed hlisted)
  | @mapAllValue target _ _ _ hkind =>
    cases hword with | mapAll _ _ _ _ hlisted =>
    rw [hkind]
    refine .complete hfront (fun next => ?_) rfl
    obtain ⟨first, rest, rfl, hfirst, hrest⟩ := hlisted
    simpa using Derives.mapAll target hfirst hrest
  | enterCopy hkind =>
    cases hword
    rw [hkind]
    exact .grow hfront (.copyPairs _ [] .start)
  | copySource hkind =>
    cases hword with | copyPairs _ _ hbody =>
    rw [hkind]
    exact .grow hfront (.copySource _ _ token hbody)
  | @copyArrow keyword source pairs hkind =>
    cases hword with | copySource _ _ _ hbody =>
    rw [hkind]
    refine .grow hfront ?_
    simpa using Pending.Word.copyArrow keyword pairs source token hbody
  | @copyDestination keyword source arrow pairs hkind =>
    cases hword with | copyArrow _ _ _ _ hbody =>
    rw [hkind]
    refine .grow hfront ?_
    simpa using Pending.Word.copyNext keyword (pairs ++ [⟨source, arrow, token⟩]) hbody.pair
  | copyComma hkind =>
    cases hword with | copyNext _ _ hpairs =>
    rw [hkind]
    exact .grow hfront (.copyPairs _ _ (.comma hpairs))
  | leaveCopy hkind =>
    cases hword with | copyPairs _ _ hbody =>
    rw [hkind]
    exact .complete hfront (fun _ => .copy hbody.body) rfl
  | leaveCopyPair hkind =>
    cases hword with | copyNext _ _ hpairs =>
    rw [hkind]
    exact .complete hfront (fun _ => .copy (.pairs hpairs)) rfl

/-- Every run keeps the invariant, since every step does. -/
theorem Consumed.run {reader after : Reader} {tokens : List Token} (h : reader.Consumed kinds)
    (hrun : reader.run tokens = .ok after) :
    after.Consumed (kinds ++ tokens.map Token.kind) := by
  have hstart : reader.Consumed (kinds ++ ([] : List Token).map Token.kind) := by simpa using h
  refine run_induction
    (motive := fun front reader => reader.Consumed (kinds ++ front.map Token.kind)) hrun hstart ?_
  intro front reader token next hfront hstep
  rw [List.map_append, ← List.append_assoc]
  exact hfront.step hstep

theorem consumed_initial : Consumed {} [] :=
  ⟨[], [], rfl, .nothing, fun next => ⟨[], [], rfl, .nil, .nil next⟩⟩

/-- Where a file can end, no scope is open and the pending statement is over. -/
theorem finish_eq_ok {reader : Reader} {last : Option Token} {statements : List Statement}
    (h : reader.finish last = .ok statements) :
    reader.scopes = [] ∧ reader.pending.EndsBefore none := by
  obtain ⟨scopes, current, pending⟩ := reader
  cases scopes with
  | nil =>
    refine ⟨rfl, ?_⟩
    cases pending with
    | nothing => trivial
    | identifiers first rest => exact nofun
    | block head => exact nofun
    | listing target keyword body => exact nofun
    | _ => cases h
  | cons scope outer => cases pending <;> cases h

end Reader

/-- What is read to its end follows the grammar. At the end no scope is open, so what was consumed
is a run of statements. -/
theorem Statement.isFile_of_read {tokens : List Token} {statements : List Statement}
    (h : Statement.read tokens = .ok statements) : IsFile (tokens.map Token.kind) := by
  rw [Statement.read] at h
  cases hrun : Reader.run {} tokens with
  | error diagnostic =>
    rw [hrun] at h
    cases h
  | ok reader =>
    rw [hrun] at h
    obtain ⟨hscopes, hends⟩ := Reader.finish_eq_ok h
    have hconsumed := Reader.consumed_initial.run hrun
    obtain ⟨front, word, hkinds, hfront, hcontents⟩ := hconsumed.front_ended hends
    -- No scope is open, so all tokens belong to the statements of the file.
    rw [hscopes] at hfront
    cases hfront
    rw [List.nil_append] at hkinds
    subst hkinds
    exact hcontents.derives

/-- **A list of tokens is read if and only if their kinds follow the grammar.** -/
theorem Statement.read_eq_ok_iff_isFile (tokens : List Token) :
    (∃ statements, Statement.read tokens = .ok statements) ↔ IsFile (tokens.map Token.kind) := by
  constructor
  · rintro ⟨statements, h⟩
    exact isFile_of_read h
  · intro h
    exact read_of_isFile h

end Reskin
