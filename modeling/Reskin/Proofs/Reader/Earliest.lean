import Reskin.Proofs.Reader.Completeness

/-!
# Faults are reported at the first token that cannot go on

The reader stops at a token if and only if no file starts with the tokens up to it. One half is that
the reader never looks ahead: what it makes of a token does not depend on the tokens behind it. The
other half is that it never holds a state from which no file can be reached.

* **`Pending.completion`** — what is missing from a pending statement.
* **`exists_completion`** — every state of the reader is completed by some tokens: those that
  are missing from the pending statement, and a brace for each open scope.
* **`Statement.read_error_earliest`** — the headline, for faults at a token and at the end.
-/

namespace Reskin

/-! ## Faults at a token and at the end -/

/-- The faults that are raised at a token, which they name. -/
def GrammarFault.IsAt (token : Token) : GrammarFault → Prop
  | .unexpectedToken got _ => got = token.text
  | .misplacedChain keyword _ => keyword = token.text
  | .valuesInMappedListing => token.kind = .equals
  | .unexpectedEnd _ | .unclosedScope _ => False

def IsFaultAt (token : Token) (diagnostic : Diagnostic) : Prop :=
  ∃ fault, diagnostic = .located (.grammar fault) token.location ∧ fault.IsAt token

/-- The faults that are raised at the end of a file. -/
def GrammarFault.IsAtEnd : GrammarFault → Prop
  | .unexpectedEnd _ | .unclosedScope _ => True
  | .unexpectedToken _ _ | .misplacedChain _ _ | .valuesInMappedListing => False

def IsFaultAtEnd (diagnostic : Diagnostic) : Prop :=
  ∃ fault, diagnostic.cause = .grammar fault ∧ fault.IsAtEnd

/-! ## Completing what was read -/

/-- Kinds of tokens that make a pending statement complete. A single identifier needs a second one,
since alone it is no statement at the end of a file. -/
def Pending.completion : Pending → List TokenKind
  | .nothing | .identifiers _ _ | .block _ | .listing _ _ _ => []
  | .definition _ _ => [.identifier, .equals, .text]
  | .key _ _ => [.equals, .text]
  | .equals _ _ _ | .mapAll _ _ _ _ => [.text]
  | .opening _ | .target _ _ => [.leftBrace]
  | .identifier _ => [.identifier]
  | .copy _ => [.leftBrace, .rightBrace]
  | .copyPairs _ _ | .copyNext _ _ => [.rightBrace]
  | .copySource _ _ _ => [.arrow, .text, .rightBrace]
  | .copyArrow _ _ _ _ => [.text, .rightBrace]

/-! ### Tokens of all kinds -/

def TokenKind.sample (kind : TokenKind) : Token :=
  match kind with
  | .identifier => ⟨"x", 1, 1, none⟩
  | .text => ⟨"''", 1, 1, none⟩
  | kind => ⟨kind.fixedText?.getD "", 1, 1, none⟩

theorem TokenKind.kind_sample (kind : TokenKind) : kind.sample.kind = kind := by
  cases kind with
  | target target => cases target <;> rfl
  | _ => rfl

theorem map_kind_sample (word : List TokenKind) :
    (word.map TokenKind.sample).map Token.kind = word := by
  rw [List.map_map]
  exact List.map_id'' TokenKind.kind_sample word

/-! ### States of the reader -/

namespace Reader

/-- The pending statement is over if the file ends here. -/
def Rests (reader : Reader) : Prop :=
  reader.pending.EndsBefore none

/-- What the end of a file ends, a closing brace ends. So an open scope can be closed as soon as the
statement in it is over. -/
theorem Rests.endsBefore_rightBrace {reader : Reader} (h : reader.Rests) :
    reader.pending.EndsBefore (some .rightBrace) := by
  obtain ⟨scopes, current, pending⟩ := reader
  cases pending with
  | nothing => trivial
  | identifier first => exact .inl rfl
  | identifiers first rest => simp [Pending.EndsBefore]
  | block head => simp [Pending.EndsBefore]
  | listing target keyword body => simp [Pending.EndsBefore]
  | _ => exact h.elim

theorem rests_nothing (scopes : List (Opener × List Statement)) (current : List Statement) :
    Rests ⟨scopes, current, .nothing⟩ :=
  trivial

theorem rests_closed (scopes : List (Opener × List Statement)) (before : List Statement)
    (opener : Opener) (contents : List Statement) :
    (closed scopes before opener contents).Rests := by
  cases opener with
  | matchBlock keyword => exact (Option.some_ne_none _).symm
  | listing target keyword => exact (Option.some_ne_none _).symm
  | forScope head keyword => trivial

/-- The completion of a pending statement is read, and leaves a state in which the file or the scope
can end. One case for each pending statement. -/
theorem reads_pendingCompletion (reader : Reader) :
    reader.Reads reader.pending.completion Rests := by
  obtain ⟨scopes, current, pending⟩ := reader
  -- The last token of an assignment or of a `copy` leaves nothing pending.
  have hvalue : ∀ kind key equals,
      Reads ⟨scopes, current, .equals kind key equals⟩ [.text] Rests := fun kind key equals =>
    (reads_value scopes current none kind key equals).mono fun _ h => h.endsBefore
  have hassignment : ∀ kind key,
      Reads ⟨scopes, current, .key kind key⟩ [.equals, .text] Rests := fun kind key =>
    (reads_assignment scopes current none kind key).mono fun _ h => h.endsBefore
  have hcopied : ∀ keyword pairs,
      Reads ⟨scopes, current, .copyNext keyword pairs⟩ [.rightBrace] Rests := fun keyword pairs =>
    .step _ (fun _ hkind => by simp only [step, hkind]; rfl) fun _ => .nil (rests_nothing _ _)
  have hdestination : ∀ keyword pairs source arrow,
      Reads ⟨scopes, current, .copyArrow keyword pairs source arrow⟩ [.text, .rightBrace] Rests :=
    fun keyword pairs source arrow =>
      .step _ (fun _ hkind => by simp only [step, hkind]; rfl) fun _ => hcopied _ _
  cases pending with
  | nothing => exact .nil trivial
  | identifiers first rest => exact .nil (Option.some_ne_none _).symm
  | block head => exact .nil (Option.some_ne_none _).symm
  | listing target keyword body => exact .nil (Option.some_ne_none _).symm
  | definition scope keyword =>
    exact .step _ (fun _ hkind => by simp only [step, hkind]; rfl) fun name => hassignment _ name
  | key kind key => exact hassignment kind key
  | equals kind key equals => exact hvalue kind key equals
  | copy keyword =>
    refine .step _ (fun _ hkind => by simp only [step, hkind]; rfl) fun brace => ?_
    exact (reads_copyBody scopes current none .empty keyword).mono fun _ h => h.endsBefore
  | copySource keyword pairs source =>
    exact .step _ (fun _ hkind => by simp only [step, hkind]; rfl) fun arrow => hdestination _ _ _ _
  | copyArrow keyword pairs source arrow => exact hdestination keyword pairs source arrow
  | copyNext keyword pairs => exact hcopied keyword pairs
  | identifier first =>
    refine .step (fun second => ⟨scopes, current, .identifiers first [second]⟩) ?_
      fun _ => .nil (Option.some_ne_none _).symm
    intro token hkind
    simp only [step, hkind, await]
  | _ =>
    exact .step _ (fun _ hkind => by simp only [step, hkind]; rfl) fun _ => .nil (rests_nothing _ _)

/-- A brace for each open scope ends the file. The induction is on the scopes: a brace closes the
innermost one and leaves a state that rests again. -/
theorem reads_closingBraces (scopes : List (Opener × List Statement)) (current : List Statement)
    (pending : Pending) (h : Rests ⟨scopes, current, pending⟩) :
    Reads ⟨scopes, current, pending⟩ (List.replicate scopes.length .rightBrace)
      (Extends [] [] none) := by
  induction scopes generalizing current pending with
  | nil => exact .nil ⟨rfl, h, List.nil_prefix⟩
  | cons scope outer ih =>
    obtain ⟨opener, before⟩ := scope
    let contents := current ++ pending.ended
    refine .start h.endsBefore_rightBrace (fun _ => closed outer before opener contents) ?_
      fun _ => ?_
    · intro token hkind
      simp only [Reader.start, hkind, leave, ended]
      cases opener <;> rfl
    · have hrests := rests_closed outer before opener contents
      cases opener <;> exact ih _ _ hrests

/-- Every state of the reader is completed by some tokens: those that end the pending statement, and
a brace for each open scope. -/
theorem exists_completion (reader : Reader) :
    ∃ tokens after, reader.run tokens = .ok after ∧ Extends [] [] none after := by
  obtain ⟨middle, hmiddle, hrests⟩ :=
    reads_pendingCompletion reader _ (map_kind_sample reader.pending.completion)
  -- Only now is it known how many scopes are open.
  obtain ⟨scopes, current, pending⟩ := middle
  obtain ⟨after, hafter, hextends⟩ :=
    reads_closingBraces scopes current pending hrests _ (map_kind_sample _)
  exact ⟨_, after, (run_append_of_ok hmiddle).trans hafter, hextends⟩

/-! ## Where the reader stops -/

theorem leave_eq_error {reader : Reader} {brace : Token} {diagnostic : Diagnostic}
    (h : reader.leave brace = .error diagnostic) : diagnostic = unexpected brace [] := by
  unfold leave at h
  split at h
  · exact (Except.error.inj h).symm
  all_goals cases h

/-- Where no statement can start, the token is reported. -/
theorem start_eq_error {reader : Reader} {token : Token} {diagnostic : Diagnostic}
    (h : reader.start token = .error diagnostic) : IsFaultAt token diagnostic := by
  unfold start at h
  split at h
  all_goals try cases h
  · exact ⟨_, rfl, rfl⟩
  · exact ⟨_, rfl, rfl⟩
  · rw [leave_eq_error h]
    exact ⟨_, rfl, rfl⟩
  all_goals exact ⟨_, rfl, rfl⟩

/-- The reader names the token that it does not take, in each of its faults. -/
theorem step_eq_error {reader : Reader} {token : Token} {diagnostic : Diagnostic}
    (h : reader.step token = .error diagnostic) : IsFaultAt token diagnostic := by
  unfold step at h
  split at h
  all_goals try cases h
  all_goals try exact start_eq_error h
  · next hkind =>
    split at h
    · cases h
    · cases h
      exact ⟨_, rfl, hkind⟩
  · exact ⟨_, rfl, rfl⟩

/-- A reader that stops has read all tokens in front of one that it does not take. Induction on the
tokens. -/
theorem run_eq_error {reader : Reader} {tokens : List Token} {diagnostic : Diagnostic}
    (h : reader.run tokens = .error diagnostic) :
    ∃ before token after middle, tokens = before ++ token :: after
      ∧ reader.run before = .ok middle ∧ middle.step token = .error diagnostic := by
  induction tokens generalizing reader with
  | nil => cases h
  | cons token rest ih =>
    rw [run] at h
    cases hstep : reader.step token with
    | error other =>
      rw [hstep] at h
      cases h
      exact ⟨[], token, rest, reader, rfl, rfl, hstep⟩
    | ok next =>
      rw [hstep] at h
      obtain ⟨before, stop, after, middle, rfl, hrun, hstop⟩ := ih h
      refine ⟨token :: before, stop, after, middle, rfl, ?_, hstop⟩
      rw [run, hstep]
      exact hrun

/-- The tokens behind one that the reader does not take are not looked at, so they make no
difference to the report. -/
theorem run_append_of_error {reader : Reader} {a : List Token} {diagnostic : Diagnostic}
    (h : reader.run a = .error diagnostic) (b : List Token) :
    reader.run (a ++ b) = .error diagnostic := by
  obtain ⟨before, token, after, middle, rfl, hrun, hstep⟩ := run_eq_error h
  rw [List.append_assoc, run_append_of_ok hrun, List.cons_append, run, hstep]

/-- At the end of a file only an open scope or an open statement is reported. -/
theorem finish_eq_error {reader : Reader} {last : Option Token} {diagnostic : Diagnostic}
    (h : reader.finish last = .error diagnostic) : IsFaultAtEnd diagnostic := by
  unfold finish at h
  split at h
  · split at h
    · cases h
    · cases h
      exact ⟨_, rfl, trivial⟩
  · cases h
    exact ⟨_, rfl, trivial⟩

end Reader

/-! ## The earliest fault -/

namespace Statement

/-- Whether some list of tokens that starts with `tokens` is read. -/
def Viable (tokens : List Token) : Prop :=
  ∃ rest statements, read (tokens ++ rest) = .ok statements

/-- A fault that is reported as early as it can be. -/
inductive IsEarliest (tokens : List Token) (diagnostic : Diagnostic) : Prop where
  /-- The tokens in front of the one that the fault is at could go on, and with it they cannot. What
  stands behind it makes no difference to the report. -/
  | atToken {before after : List Token} {token : Token}
      (htokens : tokens = before ++ token :: after) (hfault : IsFaultAt token diagnostic)
      (hviable : Viable before) (hstuck : ¬Viable (before ++ [token]))
      (hsame : ∀ rest, read (before ++ token :: rest) = .error diagnostic)
  /-- The tokens are the beginning of a longer list that is read. -/
  | atEnd (hfault : IsFaultAtEnd diagnostic)
      (hlonger : ∃ next rest statements, read (tokens ++ next :: rest) = .ok statements)

/-- Tokens that were all taken can go on to a file that is read, by `exists_completion`. -/
theorem viable_of_run {tokens : List Token} {reader : Reader}
    (h : Reader.run {} tokens = .ok reader) : Viable tokens := by
  obtain ⟨rest, after, hrun, hextends⟩ := reader.exists_completion
  obtain ⟨statements, hfinish⟩ := Reader.finish_of_extends hextends (tokens ++ rest).getLast?
  refine ⟨rest, statements, ?_⟩
  rw [read, Reader.run_append_of_ok h, hrun]
  exact hfinish

theorem read_of_run_eq_error {tokens : List Token} {diagnostic : Diagnostic}
    (h : Reader.run {} tokens = .error diagnostic) : read tokens = .error diagnostic := by
  rw [read, h]

/-- **A fault is reported at the first token that cannot go on**, or at the end if all can. -/
theorem read_error_earliest {tokens : List Token} {diagnostic : Diagnostic}
    (h : read tokens = .error diagnostic) : IsEarliest tokens diagnostic := by
  cases hrun : Reader.run {} tokens with
  | error other =>
    rw [read_of_run_eq_error hrun] at h
    cases h
    obtain ⟨before, token, after, middle, htokens, hbefore, hstep⟩ := Reader.run_eq_error hrun
    have hstop : Reader.run {} (before ++ [token]) = .error diagnostic := by
      rw [Reader.run_append_of_ok hbefore, Reader.run, hstep]
    have hsame : ∀ rest, read (before ++ [token] ++ rest) = .error diagnostic := fun rest =>
      read_of_run_eq_error (Reader.run_append_of_error hstop rest)
    refine .atToken htokens (Reader.step_eq_error hstep) (viable_of_run hbefore) ?_ ?_
    · rintro ⟨rest, statements, hread⟩
      rw [hsame rest] at hread
      cases hread
    · simpa using hsame
  | ok reader =>
    have hfinish : reader.finish tokens.getLast? = .error diagnostic := by
      rwa [read, hrun] at h
    refine .atEnd (Reader.finish_eq_error hfinish) ?_
    obtain ⟨rest, statements, hread⟩ := viable_of_run hrun
    cases rest with
    | nil =>
      -- Without another token the file is the one that was refused.
      rw [List.append_nil, h] at hread
      cases hread
    | cons next rest => exact ⟨next, rest, statements, hread⟩

/-- `items { a = 'x' } = 'y' }`: a listing with values that is assigned to, and a brace too many. -/
def mappedValues : List Token :=
  ["items", "\x7b", "a", "=", "'x'", "\x7d", "=", "'y'", "\x7d"].zipIdx.map fun (text, column) =>
    ⟨text, 1, column, none⟩

/-- `match { a`: an open scope and an open statement in it. -/
def openMatch : List Token :=
  ["match", "\x7b", "a"].zipIdx.map fun (text, column) => ⟨text, 1, column, none⟩

theorem read_error_earliest_twoFaults :
    IsEarliest mappedValues (.located (.grammar .valuesInMappedListing) ⟨none, 1, 6, 1⟩)
      ∧ IsEarliest openMatch (.located (.grammar (.unexpectedEnd ["'='"])) ⟨none, 1, 2, 1⟩) :=
  ⟨read_error_earliest (by rfl), read_error_earliest (by rfl)⟩

end Statement

end Reskin
