import Reskin.Proofs.Grammar
import Reskin.Proofs.Reader.Move

/-!
# The reader accepts every word of the grammar

A word of the grammar is read from any state whose pending statement is over in front of it
(`Pending.EndsBefore`), and it leaves such a state behind.

* **`Reads`** — every list of tokens of a word takes the reader to a state with a property. Words
  are read piece by piece with `Reads.step` and `Reads.append`.
* **`Extends`** — the property that reading a statement establishes: the same scopes are open, the
  held statement is over, and the statements that were there still are.
* **`accepts_of_derives`** — every derived word is read so, by induction on the derivation.
* **`Statement.read_of_isFile`** — hence every file of the grammar is read.
-/

namespace Reskin

open Grammar

namespace Reader

/-! ## Reading a word -/

/-- All lists of tokens of the kinds `word` take the reader to a state with the property `goal`. -/
def Reads (reader : Reader) (word : List TokenKind) (goal : Reader → Prop) : Prop :=
  ∀ tokens : List Token, tokens.map Token.kind = word →
    ∃ after, reader.run tokens = .ok after ∧ goal after

theorem Reads.nil {reader : Reader} {goal : Reader → Prop} (h : goal reader) :
    reader.Reads [] goal := by
  intro tokens htokens
  rw [List.map_eq_nil_iff] at htokens
  subst htokens
  exact ⟨reader, rfl, h⟩

/-- One token of the given kind is read, and then the rest of the word from wherever that token
leads. -/
theorem Reads.step {reader : Reader} {kind : TokenKind} {word : List TokenKind}
    {goal : Reader → Prop} (after : Token → Reader)
    (hstep : ∀ token : Token, token.kind = kind → reader.step token = .ok (after token))
    (hrest : ∀ token : Token, (after token).Reads word goal) :
    reader.Reads (kind :: word) goal := by
  intro tokens htokens
  obtain ⟨token, rest, rfl, hkind, hrestKinds⟩ := List.map_eq_cons_iff.mp htokens
  obtain ⟨last, hrun, hgoal⟩ := hrest token rest hrestKinds
  refine ⟨last, ?_, hgoal⟩
  rw [run, hstep token hkind]
  exact hrun

/-- The tokens behind those that were read are read from where the reader is then. -/
theorem run_append_of_ok {reader after : Reader} {a b : List Token}
    (h : reader.run a = .ok after) : reader.run (a ++ b) = after.run b := by
  induction a generalizing reader with
  | nil =>
    cases h
    rfl
  | cons token rest ih =>
    rw [List.cons_append, run]
    rw [run] at h
    cases hstep : reader.step token with
    | ok middle =>
      rw [hstep] at h
      exact ih h
    | error diagnostic =>
      rw [hstep] at h
      cases h

/-- Two words in a row are read one after the other. -/
theorem Reads.append {reader : Reader} {a b : List TokenKind} {middle goal : Reader → Prop}
    (ha : reader.Reads a middle) (hb : ∀ after, middle after → after.Reads b goal) :
    reader.Reads (a ++ b) goal := by
  intro tokens htokens
  obtain ⟨tokensA, tokensB, rfl, hkindsA, hkindsB⟩ := List.map_eq_append_iff.mp htokens
  obtain ⟨after, hrunA, hmiddle⟩ := ha tokensA hkindsA
  obtain ⟨last, hrunB, hgoal⟩ := hb after hmiddle tokensB hkindsB
  exact ⟨last, (run_append_of_ok hrunA).trans hrunB, hgoal⟩

theorem Reads.mono {reader : Reader} {word : List TokenKind} {goal weaker : Reader → Prop}
    (h : reader.Reads word goal) (himp : ∀ after, goal after → weaker after) :
    reader.Reads word weaker := by
  intro tokens htokens
  obtain ⟨after, hrun, hgoal⟩ := h tokens htokens
  exact ⟨after, hrun, himp after hgoal⟩

/-! ## Reading a statement

A statement is read from any state whose pending statement is over, and leaves such a state behind.
The statements in front of it stay, which is all that later checks need: a listing is asked whether
its first statement is a list of identifiers. -/

/-- What reading statements leaves behind. -/
structure Extends (scopes : List (Opener × List Statement)) (before : List Statement)
    (next : Option TokenKind) (reader : Reader) : Prop where
  scopes_eq : reader.scopes = scopes
  endsBefore : reader.pending.EndsBefore next
  keeps : before <+: reader.ended.current

theorem Extends.trans {scopes : List (Opener × List Statement)} {before : List Statement}
    {between next : Option TokenKind} {middle reader : Reader}
    (hmiddle : Extends scopes before between middle)
    (h : Extends middle.scopes middle.ended.current next reader) :
    Extends scopes before next reader :=
  ⟨h.scopes_eq.trans hmiddle.scopes_eq, h.endsBefore, hmiddle.keeps.trans h.keeps⟩

/-- A statement that needs nothing behind it has been added. -/
theorem extends_add (scopes : List (Opener × List Statement)) (before : List Statement)
    (statement : Statement) (next : Option TokenKind) :
    Extends scopes before next ⟨scopes, before ++ [statement], .nothing⟩ :=
  ⟨rfl, trivial, by simp [ended, Pending.ended, Pending.complete]⟩

/-- The first token of a statement ends the pending one, and is then read as if nothing had been
pending. -/
theorem Reads.start {reader : Reader} {kind : TokenKind} {word : List TokenKind}
    {goal : Reader → Prop} (hends : reader.pending.EndsBefore (some kind)) (after : Token → Reader)
    (hstart : ∀ token : Token, token.kind = kind → reader.ended.start token = .ok (after token))
    (hrest : ∀ token : Token, (after token).Reads word goal) :
    reader.Reads (kind :: word) goal := by
  refine .step after ?_ hrest
  intro token hkind
  rw [step_of_endsBefore (hkind ▸ hends)]
  exact hstart token hkind

variable (scopes : List (Opener × List Statement)) (before : List Statement)
  (next : Option TokenKind)

theorem reads_value (kind : AssignmentKind) (key equals : Token) :
    Reads ⟨scopes, before, .equals kind key equals⟩ [.text] (Extends scopes before next) :=
  .step _ (fun _ hkind => by simp only [step, hkind]; rfl) fun value =>
    .nil (extends_add scopes before (kind.statement ⟨key, equals, value⟩) next)

/-- Behind its key, an assignment is read whatever follows it. -/
theorem reads_assignment (kind : AssignmentKind) (key : Token) :
    Reads ⟨scopes, before, .key kind key⟩ [.equals, .text] (Extends scopes before next) :=
  .step _ (fun _ hkind => by simp only [step, hkind]; rfl) fun equals =>
    reads_value scopes before next kind key equals

/-! ### Lists of identifiers -/

/-- Further identifiers belong to the list that is being read, up to a token that is none. Induction
on their number. -/
theorem reads_moreIdentifiers (first : Token) (rest : List Token) (n : Nat)
    (hnext : next ≠ some .identifier) :
    Reads ⟨scopes, before, .identifiers first rest⟩ (List.replicate n .identifier)
      fun after => ∃ all, Extends scopes (before ++ [.identifiers first all]) next after := by
  induction n generalizing rest with
  | zero => exact .nil ⟨rest, rfl, hnext, List.prefix_rfl⟩
  | succ n ih => exact .step _ (fun _ hkind => by simp only [step, hkind]; rfl) fun token => ih _

/-- A list of identifiers is read as a statement of that form, so a listing that starts with one can
be told. -/
theorem reads_identifierList {reader : Reader} {word : List TokenKind}
    (hlist : IdentifierList word next) (hends : reader.pending.EndsBefore (some .identifier)) :
    reader.Reads word fun after => ∃ first rest,
      Extends reader.scopes (reader.ended.current ++ [.identifiers first rest]) next after := by
  cases hlist with
  | single hnext =>
    refine .start hends _ (fun _ hkind => by simp only [start, hkind]; rfl) fun first => ?_
    exact .nil ⟨first, [], rfl, hnext, List.prefix_rfl⟩
  | several n hnext =>
    refine .start hends _ (fun _ hkind => by simp only [start, hkind]; rfl) fun first => ?_
    refine .step _ (fun _ hkind => by simp only [step, hkind, await]; rfl) fun second => ?_
    refine (reads_moreIdentifiers _ _ next first [second] n hnext).mono ?_
    rintro after ⟨rest, h⟩
    exact ⟨first, rest, h⟩

/-! ### Files to copy -/

/-- The pairs of a `copy` scope, up to what follows the last one. Induction on the pairs, of which
the last one is read last. -/
theorem reads_copyPairs {pairs : List TokenKind} (hpairs : CopyPairs pairs) (keyword : Token) :
    Reads ⟨scopes, before, .copyPairs keyword []⟩ pairs
      fun after => ∃ known, after = ⟨scopes, before, .copyNext keyword known⟩ := by
  have hpair : ∀ known, Reads ⟨scopes, before, .copyPairs keyword known⟩ [.text, .arrow, .text]
      fun after => ∃ known, after = ⟨scopes, before, .copyNext keyword known⟩ := by
    intro known
    refine .step _ (fun _ hkind => by simp only [step, hkind]; rfl) fun source => ?_
    refine .step _ (fun _ hkind => by simp only [step, hkind, await]; rfl) fun arrow => ?_
    refine .step _ (fun _ hkind => by simp only [step, hkind, await]; rfl) fun destination => ?_
    exact .nil ⟨_, rfl⟩
  induction hpairs with
  | one => exact hpair []
  | more _ ih =>
    refine ih.append ?_
    rintro after ⟨known, rfl⟩
    exact .step _ (fun _ hkind => by simp only [step, hkind]; rfl) fun comma => hpair known

/-- The inside of a `copy` scope is read up to its closing brace, with or without a comma at its
end. -/
theorem reads_copyBody {body : List TokenKind} (hbody : CopyBody body) (keyword : Token) :
    Reads ⟨scopes, before, .copyPairs keyword []⟩ (body ++ [.rightBrace])
      (Extends scopes before next) := by
  have hend : ∀ known, Reads ⟨scopes, before, .copyPairs keyword known⟩ [.rightBrace]
      (Extends scopes before next) := fun known =>
    .step _ (fun _ hkind => by simp only [step, hkind]; rfl) fun _ =>
      .nil (extends_add scopes before (.copy keyword known) next)
  cases hbody with
  | empty => exact hend []
  | pairs hpairs =>
    refine (reads_copyPairs scopes before hpairs keyword).append ?_
    rintro after ⟨known, rfl⟩
    exact .step _ (fun _ hkind => by simp only [step, hkind]; rfl) fun _ =>
      .nil (extends_add scopes before (.copy keyword known) next)
  | trailingComma hpairs =>
    rw [List.append_assoc]
    refine (reads_copyPairs scopes before hpairs keyword).append ?_
    rintro after ⟨known, rfl⟩
    exact .step _ (fun _ hkind => by simp only [step, hkind]; rfl) fun _ => hend known

/-! ### Scopes -/

/-- The reader behind the brace that closes a scope. -/
def closed (opener : Opener) (contents : List Statement) : Reader :=
  match opener with
  | .matchBlock keyword => ⟨scopes, before, .block (.matching keyword contents)⟩
  | .listing target keyword => ⟨scopes, before, .listing target keyword contents⟩
  | .forScope head keyword =>
    ⟨scopes, before ++ [head.statement (.present keyword contents)], .nothing⟩

/-- If the statements of a scope are read, its closing brace is. What is known about them is known
about the contents of the scope. -/
theorem reads_closing {opener : Opener} {body : List TokenKind} (good : List Statement → Prop)
    (hbody : Reads ⟨(opener, before) :: scopes, [], .nothing⟩ body fun after =>
      Extends ((opener, before) :: scopes) [] (some .rightBrace) after ∧ good after.ended.current) :
    Reads ⟨(opener, before) :: scopes, [], .nothing⟩ (body ++ [.rightBrace])
      fun after => ∃ contents, good contents ∧ after = closed scopes before opener contents := by
  refine hbody.append ?_
  -- The brace ends the last statement of the scope and is then read as if it stood alone.
  rintro middle ⟨hmiddle, hgood⟩
  refine .start hmiddle.endsBefore (fun _ => closed scopes before opener middle.ended.current) ?_
    fun _ => .nil ⟨_, hgood, rfl⟩
  intro token hkind
  have hscopes : middle.ended.scopes = (opener, before) :: scopes := hmiddle.scopes_eq
  simp only [Reader.start, hkind, leave, hscopes]
  cases opener <;> rfl

/-! ## Reading derived words

The induction is on the derivation. Its statement differs for the `for` scope of a block, which is
read while the block is pending and not from a state in which the pending statement is over. -/

/-- What it means that the reader accepts a word of a nonterminal. -/
def Accepts (word : List TokenKind) : Nonterminal → Prop
  | .statement | .statements => ∀ reader : Reader, reader.pending.EndsBefore (follow word next) →
      reader.Reads word (Extends reader.scopes reader.ended.current next)
  | .uses => ∀ scopes before head,
      Reads ⟨scopes, before, .block head⟩ word (Extends scopes before next)

/-- A scope whose inside is accepted is read up to its closing brace. -/
theorem reads_scope {body : List TokenKind} (opener : Opener)
    (hbody : Accepts (some .rightBrace) body .statements) :
    Reads ⟨(opener, before) :: scopes, [], .nothing⟩ (body ++ [.rightBrace])
      fun after => ∃ contents, after = closed scopes before opener contents := by
  have hread := hbody ⟨(opener, before) :: scopes, [], .nothing⟩ trivial
  refine (reads_closing scopes before (fun _ => True) (hread.mono fun _ h => ⟨h, trivial⟩)).mono ?_
  rintro after ⟨contents, _, rfl⟩
  exact ⟨contents, rfl⟩

/-- A listing that starts with a list of identifiers is read up to its closing brace as one. -/
theorem reads_listedScope {first rest : List TokenKind} (opener : Opener)
    (hfirst : IdentifierList first (follow rest (some .rightBrace)))
    (hrest : Accepts (some .rightBrace) rest .statements) :
    Reads ⟨(opener, before) :: scopes, [], .nothing⟩ (first ++ rest ++ [.rightBrace])
      fun after => ∃ contents, contents.head?.any Statement.isIdentifiers = true
        ∧ after = closed scopes before opener contents := by
  refine reads_closing scopes before _ ?_
  have hopened : (⟨(opener, before) :: scopes, [], .nothing⟩ : Reader).pending.EndsBefore
      (some .identifier) := trivial
  refine (reads_identifierList _ hfirst hopened).append ?_
  rintro middle ⟨name, names, hmiddle⟩
  refine (hrest middle hmiddle.endsBefore).mono ?_
  intro after hafter
  have htrans := hmiddle.trans hafter
  refine ⟨⟨htrans.scopes_eq, htrans.endsBefore, List.nil_prefix⟩, ?_⟩
  obtain ⟨others, hothers⟩ := htrans.keeps
  rw [← hothers]
  rfl

/-- Every derived word is accepted, unless it is followed by a token that continues it. Induction on
the derivation, one case for each rule of the grammar. The condition excludes `for` behind a block
and `=` behind a listing. -/
theorem accepts_of_derives {symbol : Nonterminal} {word : List TokenKind}
    {next : Option TokenKind} (h : Derives symbol word next) (hnext : Separates next) :
    Accepts next word symbol := by
  have hbrace : Separates (some .rightBrace) := ⟨by decide, by decide⟩
  induction h with
  | definition scope =>
    intro reader hends
    refine .start hends (fun token => reader.ended.await (.definition scope token)) ?_
      fun keyword => ?_
    · intro token hkind
      cases scope <;> simp only [Reader.start, hkind, definitionKeyword]
    · refine .step _ (fun _ hkind => by simp only [Reader.step, hkind, await]; rfl) fun name => ?_
      exact reads_assignment _ _ _ _ _
  | matchBlock hbody huses ihbody ihuses =>
    intro reader hends
    refine .start hends _ (fun _ hkind => by simp only [Reader.start, hkind]; rfl) fun keyword => ?_
    refine .step _ (fun _ hkind => by simp only [Reader.step, hkind, await]; rfl) fun brace => ?_
    rw [List.append_cons]
    -- Behind its closing brace the block is pending, which is where `uses` starts.
    refine (reads_scope _ _ (.matchBlock keyword) (ihbody hbrace)).append ?_
    rintro after ⟨contents, rfl⟩
    exact ihuses hnext _ _ _
  | anyBlock huses ihuses =>
    intro reader hends
    refine .start hends _ (fun _ hkind => by simp only [Reader.start, hkind]; rfl) fun keyword => ?_
    exact ihuses hnext _ _ _
  | setAll target =>
    intro reader hends
    refine .start hends _ (fun _ hkind => by simp only [Reader.start, hkind]; rfl) fun keyword => ?_
    refine .step _ (fun _ hkind => by simp only [Reader.step, hkind, await]; rfl) fun equals => ?_
    exact reads_value _ _ _ _ _ _
  | listing target hbody ihbody =>
    intro reader hends
    refine .start hends _ (fun _ hkind => by simp only [Reader.start, hkind]; rfl) fun keyword => ?_
    refine .step _ (fun _ hkind => by simp only [Reader.step, hkind, await]; rfl) fun brace => ?_
    refine (reads_scope _ _ (.listing target keyword) (ihbody hbrace)).mono ?_
    rintro after ⟨contents, rfl⟩
    exact ⟨rfl, hnext.2, List.prefix_append _ _⟩
  | @mapAll first rest next target hfirst hrest ihrest =>
    intro reader hends
    refine .start hends _ (fun _ hkind => by simp only [Reader.start, hkind]; rfl) fun keyword => ?_
    refine .step _ (fun _ hkind => by simp only [Reader.step, hkind, await]; rfl) fun brace => ?_
    rw [show first ++ rest ++ [TokenKind.rightBrace, .equals, .text]
          = first ++ rest ++ [.rightBrace] ++ [.equals, .text] from by simp]
    refine (reads_listedScope _ _ (.listing target keyword) hfirst (ihrest hbrace)).append ?_
    rintro after ⟨contents, hlisted, rfl⟩
    -- The reader takes the `=` only because it saw a list of identifiers first.
    refine .step _ (fun _ hkind => by simp only [Reader.step, hkind, closed, if_pos hlisted]; rfl)
      fun equals => ?_
    refine .step _ (fun _ hkind => by simp only [Reader.step, hkind, await]; rfl) fun value => ?_
    exact .nil (extends_add _ _ _ _)
  | predicate =>
    intro reader hends
    refine .start hends _ (fun _ hkind => by simp only [Reader.start, hkind]; rfl) fun key => ?_
    refine .step _ (fun _ hkind => by simp only [Reader.step, hkind, await]; rfl) fun equals => ?_
    exact reads_value _ _ _ _ _ _
  | model =>
    intro reader hends
    refine .start hends _ (fun _ hkind => by simp only [Reader.start, hkind]; rfl) fun key => ?_
    exact reads_assignment _ _ _ _ _
  | weight =>
    intro reader hends
    refine .start hends _ (fun _ hkind => by simp only [Reader.start, hkind]; rfl) fun key => ?_
    exact reads_assignment _ _ _ _ _
  | @identifiers word next hlist =>
    intro reader hends
    have hstart : follow word next = some .identifier := by cases hlist <;> rfl
    refine (reads_identifierList next hlist (hstart ▸ hends)).mono ?_
    rintro after ⟨name, names, h⟩
    exact ⟨h.scopes_eq, h.endsBefore, (List.prefix_append _ _).trans h.keeps⟩
  | copy hbody =>
    intro reader hends
    refine .start hends _ (fun _ hkind => by simp only [Reader.start, hkind]; rfl) fun keyword => ?_
    refine .step _ (fun _ hkind => by simp only [Reader.step, hkind, await]; rfl) fun brace => ?_
    exact reads_copyBody _ _ _ hbody keyword
  | nil =>
    intro reader hends
    exact .nil ⟨rfl, hends, List.prefix_rfl⟩
  | cons hfirst hrest ihfirst ihrest =>
    intro reader hends
    rw [follow_append] at hends
    -- What follows the first statement starts the others or ends them all, so it separates.
    refine (ihfirst (hrest.separates hnext) reader hends).append ?_
    intro middle hmiddle
    refine (ihrest hnext middle hmiddle.endsBefore).mono ?_
    intro after hafter
    exact hmiddle.trans hafter
  | noUses =>
    intro scopes before head
    exact .nil ⟨rfl, hnext.1, List.prefix_append _ _⟩
  | uses hbody ihbody =>
    intro scopes before head
    refine .step _ (fun _ hkind => by simp only [Reader.step, hkind]; rfl) fun keyword => ?_
    refine .step _ (fun _ hkind => by simp only [Reader.step, hkind, await]; rfl) fun brace => ?_
    refine (reads_scope _ _ (.forScope head keyword) (ihbody hbrace)).mono ?_
    rintro after ⟨contents, rfl⟩
    exact extends_add _ _ _ _

/-- A file can end where all scopes are closed and the pending statement is over. -/
theorem finish_of_extends {reader : Reader} {before : List Statement}
    (h : Extends [] before none reader) (last : Option Token) :
    ∃ statements, reader.finish last = .ok statements := by
  obtain ⟨scopes, current, pending⟩ := reader
  obtain ⟨hscopes, hends, _⟩ := h
  cases hscopes
  cases pending with
  | nothing => exact ⟨_, rfl⟩
  | identifiers first rest => exact ⟨_, rfl⟩
  | block head => exact ⟨_, rfl⟩
  | listing target keyword body => exact ⟨_, rfl⟩
  | identifier first => rcases hends with hends | hends <;> cases hends
  | _ => exact hends.elim

end Reader

/-- Every file of the grammar is read. The end of the file continues nothing, so
`accepts_of_derives` applies. -/
theorem Statement.read_of_isFile {tokens : List Token} (h : IsFile (tokens.map Token.kind)) :
    ∃ statements, Statement.read tokens = .ok statements := by
  have hend : Separates none := ⟨by decide, by decide⟩
  obtain ⟨reader, hrun, hextends⟩ := Reader.accepts_of_derives h hend {} trivial tokens rfl
  rw [Statement.read, hrun]
  exact Reader.finish_of_extends hextends tokens.getLast?

end Reskin
