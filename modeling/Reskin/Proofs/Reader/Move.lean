import Reskin.Statement.Reader

/-!
# The moves of the reader

The reader holds a statement back while the next token could still continue it, so "the reader has
read a statement" is not an equation between states. `Pending.EndsBefore` says in front of which
tokens a held statement is over, and `Reader.ended` is the state in which it has been put down.

* **`Reader.step_of_endsBefore`** — a token that ends the held statement is read as if that
  statement had been put down before.
* **`Reader.move_of_step`** — everything else that a token can do is one of a few moves, each of
  which takes a token of one kind. Whatever holds of all moves holds of all steps.
* **`Reader.run_induction`** — and whatever all steps keep, a run keeps.
-/

namespace Reskin

/-! ## Statements that are held back -/

/-- Whether the pending statement is over if `next` is what follows. -/
def Pending.EndsBefore : Pending → Option TokenKind → Prop
  | .nothing, _ => True
  | .identifier _, next => next = some .rightBrace ∨ next = some .model
  | .identifiers _ _, next => next ≠ some .identifier
  | .block _, next => next ≠ some .forKeyword
  | .listing _ _ _, next => next ≠ some .equals
  | _, _ => False

/-- The statement that a pending one is once it is over. -/
def Pending.ended : Pending → List Statement
  | .identifier first => [.identifiers first []]
  | pending => pending.complete

namespace Reader

/-- The reader after the pending statement is over. -/
def ended (reader : Reader) : Reader :=
  ⟨reader.scopes, reader.current ++ reader.pending.ended, .nothing⟩

/-- A token that ends the pending statement is the first one of the next statement. The proof goes
through the statements that can be over; all others wait for more tokens. -/
theorem step_of_endsBefore {reader : Reader} {token : Token}
    (h : reader.pending.EndsBefore (some token.kind)) :
    reader.step token = reader.ended.start token := by
  obtain ⟨scopes, current, pending⟩ := reader
  cases pending with
  | nothing => simp [step, ended, Pending.ended, Pending.complete]
  | identifier first =>
    rcases h with h | h
    · rw [Option.some.injEq] at h
      simp [step, h, add, ended, Pending.ended]
    · rw [Option.some.injEq] at h
      simp [step, h, add, ended, Pending.ended]
  | identifiers first rest =>
    have hkind : token.kind ≠ .identifier := fun hk => h (congrArg some hk)
    simp [step, settle, ended, Pending.ended]
  | block head =>
    have hkind : token.kind ≠ .forKeyword := fun hk => h (congrArg some hk)
    simp [step, settle, ended, Pending.ended]
  | listing target keyword body =>
    have hkind : token.kind ≠ .equals := fun hk => h (congrArg some hk)
    simp [step, settle, ended, Pending.ended]
  | _ => exact h.elim

/-! ## All successful steps -/

/-- The ways in which the reader takes a token, seen from what was pending. -/
inductive Move (scopes : List (Opener × List Statement)) (current : List Statement)
    (token : Token) : Pending → Reader → Prop where
  /-- The token ends what was pending and starts a statement or closes a scope. -/
  | ends {pending : Pending} {after : Reader} (hends : pending.EndsBefore (some token.kind))
      (hstart : start ⟨scopes, current ++ pending.ended, .nothing⟩ token = .ok after) :
      Move scopes current token pending after
  | name {scope : DefinitionScope} {keyword : Token} (hkind : token.kind = .identifier) :
      Move scopes current token (.definition scope keyword)
        ⟨scopes, current, .key (.definition scope keyword) token⟩
  | equals {kind : AssignmentKind} {key : Token} (hkind : token.kind = .equals) :
      Move scopes current token (.key kind key) ⟨scopes, current, .equals kind key token⟩
  | value {kind : AssignmentKind} {key equals : Token} (hkind : token.kind = .text) :
      Move scopes current token (.equals kind key equals)
        ⟨scopes, current ++ [kind.statement ⟨key, equals, token⟩], .nothing⟩
  | enter {opener : Opener} (hkind : token.kind = .leftBrace) :
      Move scopes current token (.opening opener) ⟨(opener, current) :: scopes, [], .nothing⟩
  | setAll {target : Target} {keyword : Token} (hkind : token.kind = .equals) :
      Move scopes current token (.target target keyword)
        ⟨scopes, current, .equals (.setAll target) keyword token⟩
  | enterListing {target : Target} {keyword : Token} (hkind : token.kind = .leftBrace) :
      Move scopes current token (.target target keyword)
        ⟨(.listing target keyword, current) :: scopes, [], .nothing⟩
  | predicate {first : Token} (hkind : token.kind = .equals) :
      Move scopes current token (.identifier first)
        ⟨scopes, current, .equals .predicate first token⟩
  | second {first : Token} (hkind : token.kind = .identifier) :
      Move scopes current token (.identifier first) ⟨scopes, current, .identifiers first [token]⟩
  | further {first : Token} {rest : List Token} (hkind : token.kind = .identifier) :
      Move scopes current token (.identifiers first rest)
        ⟨scopes, current, .identifiers first (rest ++ [token])⟩
  | uses {head : BlockHead} (hkind : token.kind = .forKeyword) :
      Move scopes current token (.block head) ⟨scopes, current, .opening (.forScope head token)⟩
  | mapAll {target : Target} {keyword : Token} {body : List Statement}
      (hkind : token.kind = .equals) (hlisted : body.head?.any Statement.isIdentifiers = true) :
      Move scopes current token (.listing target keyword body)
        ⟨scopes, current, .mapAll target keyword body token⟩
  | mapAllValue {target : Target} {keyword equals : Token} {body : List Statement}
      (hkind : token.kind = .text) :
      Move scopes current token (.mapAll target keyword body equals)
        ⟨scopes, current ++ [.listing target keyword body (some ⟨equals, token⟩)], .nothing⟩
  | enterCopy {keyword : Token} (hkind : token.kind = .leftBrace) :
      Move scopes current token (.copy keyword) ⟨scopes, current, .copyPairs keyword []⟩
  | copySource {keyword : Token} {pairs : List CopyPair} (hkind : token.kind = .text) :
      Move scopes current token (.copyPairs keyword pairs)
        ⟨scopes, current, .copySource keyword pairs token⟩
  | copyArrow {keyword source : Token} {pairs : List CopyPair} (hkind : token.kind = .arrow) :
      Move scopes current token (.copySource keyword pairs source)
        ⟨scopes, current, .copyArrow keyword pairs source token⟩
  | copyDestination {keyword source arrow : Token} {pairs : List CopyPair}
      (hkind : token.kind = .text) :
      Move scopes current token (.copyArrow keyword pairs source arrow)
        ⟨scopes, current, .copyNext keyword (pairs ++ [⟨source, arrow, token⟩])⟩
  | copyComma {keyword : Token} {pairs : List CopyPair} (hkind : token.kind = .comma) :
      Move scopes current token (.copyNext keyword pairs)
        ⟨scopes, current, .copyPairs keyword pairs⟩
  | leaveCopy {keyword : Token} {pairs : List CopyPair} (hkind : token.kind = .rightBrace) :
      Move scopes current token (.copyPairs keyword pairs)
        ⟨scopes, current ++ [.copy keyword pairs], .nothing⟩
  | leaveCopyPair {keyword : Token} {pairs : List CopyPair} (hkind : token.kind = .rightBrace) :
      Move scopes current token (.copyNext keyword pairs)
        ⟨scopes, current ++ [.copy keyword pairs], .nothing⟩

/-- Every successful step is a move. Later proofs about the reader go through the moves and not
through the definition of `step`, so that no case that fails is left in them. -/
theorem move_of_step {reader after : Reader} {token : Token} (h : reader.step token = .ok after) :
    Move reader.scopes reader.current token reader.pending after := by
  by_cases hends : reader.pending.EndsBefore (some token.kind)
  · exact .ends hends (step_of_endsBefore hends ▸ h)
  · obtain ⟨scopes, current, pending⟩ := reader
    -- The pending statement goes on, so the kind of the token is one that it waits for.
    cases pending with
    | nothing => exact (hends trivial).elim
    | definition scope keyword =>
      by_cases hkind : token.kind = .identifier
      · simp only [step, hkind] at h
        cases h
        exact .name hkind
      · simp [step, hkind] at h
    | key kind key =>
      by_cases hkind : token.kind = .equals
      · simp only [step, hkind] at h
        cases h
        exact .equals hkind
      · simp [step, hkind] at h
    | equals kind key equals =>
      by_cases hkind : token.kind = .text
      · simp only [step, hkind] at h
        cases h
        exact .value hkind
      · simp [step, hkind] at h
    | opening opener =>
      by_cases hkind : token.kind = .leftBrace
      · simp only [step, hkind] at h
        cases h
        exact .enter hkind
      · simp [step, hkind] at h
    | target target keyword =>
      by_cases hequals : token.kind = .equals
      · simp only [step, hequals] at h
        cases h
        exact .setAll hequals
      · by_cases hleftBrace : token.kind = .leftBrace
        · simp only [step, hleftBrace] at h
          cases h
          exact .enterListing hleftBrace
        · simp [step, hequals, hleftBrace] at h
    | identifier first =>
      by_cases hequals : token.kind = .equals
      · simp only [step, hequals] at h
        cases h
        exact .predicate hequals
      · by_cases hidentifier : token.kind = .identifier
        · simp only [step, hidentifier] at h
          cases h
          exact .second hidentifier
        · have hbrace : token.kind ≠ .rightBrace := fun hk => hends (.inl (congrArg some hk))
          have hmodel : token.kind ≠ .model := fun hk => hends (.inr (congrArg some hk))
          simp [step, hequals, hidentifier, hbrace, hmodel] at h
    | identifiers first rest =>
      have hkind : token.kind = .identifier := Option.some.inj (Classical.not_not.mp hends)
      simp only [step, hkind] at h
      cases h
      exact .further hkind
    | block head =>
      have hkind : token.kind = .forKeyword := Option.some.inj (Classical.not_not.mp hends)
      simp only [step, hkind] at h
      cases h
      exact .uses hkind
    | listing target keyword body =>
      have hkind : token.kind = .equals := Option.some.inj (Classical.not_not.mp hends)
      simp only [step, hkind] at h
      split at h
      · next hlisted =>
        cases h
        exact .mapAll hkind hlisted
      · cases h
    | mapAll target keyword body equals =>
      by_cases hkind : token.kind = .text
      · simp only [step, hkind] at h
        cases h
        exact .mapAllValue hkind
      · simp [step, hkind] at h
    | copy keyword =>
      by_cases hkind : token.kind = .leftBrace
      · simp only [step, hkind] at h
        cases h
        exact .enterCopy hkind
      · simp [step, hkind] at h
    | copyPairs keyword pairs =>
      by_cases htext : token.kind = .text
      · simp only [step, htext] at h
        cases h
        exact .copySource htext
      · by_cases hrightBrace : token.kind = .rightBrace
        · simp only [step, hrightBrace] at h
          cases h
          exact .leaveCopy hrightBrace
        · simp [step, htext, hrightBrace] at h
    | copySource keyword pairs source =>
      by_cases hkind : token.kind = .arrow
      · simp only [step, hkind] at h
        cases h
        exact .copyArrow hkind
      · simp [step, hkind] at h
    | copyArrow keyword pairs source arrow =>
      by_cases hkind : token.kind = .text
      · simp only [step, hkind] at h
        cases h
        exact .copyDestination hkind
      · simp [step, hkind] at h
    | copyNext keyword pairs =>
      by_cases hcomma : token.kind = .comma
      · simp only [step, hcomma] at h
        cases h
        exact .copyComma hcomma
      · by_cases hrightBrace : token.kind = .rightBrace
        · simp only [step, hrightBrace] at h
          cases h
          exact .leaveCopyPair hrightBrace
        · simp [step, hcomma, hrightBrace] at h

/-! ## Runs -/

/-- What every step keeps is kept by a run. It may be about the tokens that were taken, to which
each step adds its own. The invariants of the reader are all proved with this, from their steps. -/
theorem run_induction {motive : List Token → Reader → Prop} {reader after : Reader}
    {front tokens : List Token} (hrun : reader.run tokens = .ok after) (h : motive front reader)
    (step : ∀ front reader token next, motive front reader → reader.step token = .ok next →
      motive (front ++ [token]) next) :
    motive (front ++ tokens) after := by
  induction tokens generalizing front reader with
  | nil =>
    cases hrun
    rwa [List.append_nil]
  | cons token tokens ih =>
    rw [run] at hrun
    cases hstep : reader.step token with
    | error diagnostic =>
      rw [hstep] at hrun
      cases hrun
    | ok next =>
      rw [hstep] at hrun
      have hafter := ih hrun (step front reader token next h hstep)
      rwa [List.append_assoc] at hafter

end Reader

end Reskin
