import Reskin.Proofs.Reader.Acceptance
import Reskin.Statement.Node

/-!
# The tree of a file loses nothing

A tree is printed back to the texts of its tokens. Braces and commas are no leaves of the tree; they
are put where the kinds of the nodes ask for them. What is printed is what was read, except for a
comma behind the last pair of a `copy` scope, which is not in the tree.

* **`Node.print`** — the texts of a tree.
* **`Reader.print`** — the texts of what a reader holds. A scope that is still open is printed up to
  where it breaks off, so that each token adds its text at the end.
* **`Reader.Shows`** — the invariant: what a reader holds is printed as the tokens it has taken.
  **`Shows.step`** and **`Shows.run`** keep it.
* **`Node.ChainedLast`** — nothing stands behind what is chained to a closing brace.
* **`Statement.print_ofFile_read`** — the headline.
-/

namespace Reskin

/-! ## Printing a tree -/

namespace NodeKind

/-- Whether nodes of a kind stand behind the closing brace of the scope they belong to. -/
def isChained : NodeKind → Bool
  | forScope | mapAll => true
  | _ => false

/-- What stands between the contents of a scope. Other nodes have no braces. -/
def separator? : NodeKind → Option (List String)
  | matchBlock | forScope | listing _ => some []
  | copy => some [","]
  | _ => none

end NodeKind

namespace Node

/-- The texts of a node, from the kinds and texts of its children. The first child of a scope is its
keyword. -/
def arrange (kind : NodeKind) (children : List (NodeKind × List String)) : List String :=
  match kind.separator?, children with
  | some separator, keyword :: rest =>
    let contents := rest.filter fun child => !child.1.isChained
    let chained := rest.filter fun child => child.1.isChained
    keyword.2 ++ "\x7b" :: (separator.intercalate (contents.map Prod.snd)
      ++ "\x7d" :: chained.flatMap Prod.snd)
  | _, children => children.flatMap Prod.snd

mutual

/-- The texts of a tree: its leaves in order, braces around the contents of scopes, and commas
between copied files. -/
def print : Node → List String
  | leaf token => [token.text]
  | branch kind children => arrange kind (printEach children)

/-- The texts of sibling trees, each with its kind. -/
def printEach : List Node → List (NodeKind × List String)
  | [] => []
  | node :: rest => (node.kind, node.print) :: printEach rest

end

@[simp] theorem print_leaf (token : Token) : (leaf token).print = [token.text] := rfl

theorem printEach_eq_map (nodes : List Node) :
    printEach nodes = nodes.map fun node => (node.kind, node.print) := by
  induction nodes with
  | nil => rfl
  | cons node rest ih => rw [printEach, ih, List.map_cons]

/-- A node that is no scope is printed as its children, one behind the other. -/
theorem print_branch {kind : NodeKind} (hkind : kind.separator? = none) (children : List Node) :
    (branch kind children).print = children.flatMap print := by
  rw [print, printEach_eq_map, arrange.eq_def, hkind]
  simp [List.flatMap_map]

/-- A scope is printed as its keyword, its contents in braces, and what is chained to it. The kinds
of the children tell the contents from what is chained. -/
theorem print_scope {kind : NodeKind} {separator : List String}
    (hkind : kind.separator? = some separator) (keyword : Token) {contents chained : List Node}
    (hcontents : ∀ node ∈ contents, node.kind.isChained = false)
    (hchained : ∀ node ∈ chained, node.kind.isChained = true) :
    (branch kind (leaf keyword :: (contents ++ chained))).print
      = keyword.text :: "\x7b" :: (separator.intercalate (contents.map print)
        ++ "\x7d" :: chained.flatMap print) := by
  have hinside : (contents ++ chained).filter (fun node => !node.kind.isChained) = contents := by
    rw [List.filter_append, List.filter_eq_self.mpr (by simpa using hcontents),
      List.filter_eq_nil_iff.mpr (by simpa using hchained), List.append_nil]
  have hbehind : (contents ++ chained).filter (fun node => node.kind.isChained) = chained := by
    rw [List.filter_append, List.filter_eq_nil_iff.mpr (by simpa using hcontents),
      List.filter_eq_self.mpr hchained, List.nil_append]
  rw [print, printEach, printEach_eq_map, arrange.eq_def, hkind]
  simp only [List.filter_map, Function.comp_def, hinside, hbehind, List.map_map, List.flatMap_map,
    print_leaf, List.singleton_append]

end Node

/-! ## Printing statements -/

theorem intercalate_nil_left {α : Type} (parts : List (List α)) :
    ([] : List α).intercalate parts = parts.flatten := by
  induction parts with
  | nil => rfl
  | cons first rest ih => cases rest <;> simp_all [List.intercalate]

theorem intercalate_snoc {α : Type} (separator : List α) (parts : List (List α)) (last : List α) :
    separator.intercalate (parts ++ [last]) = parts.flatMap (· ++ separator) ++ last := by
  induction parts with
  | nil => simp [List.intercalate]
  | cons first rest ih => cases rest <;> simp_all [List.intercalate]

def Assignment.texts (assignment : Assignment) : List String :=
  [assignment.key.text, assignment.equals.text, assignment.value.text]

def CopyPair.texts (pair : CopyPair) : List String :=
  [pair.source.text, pair.arrow.text, pair.destination.text]

def MapAll.texts (mapAll : MapAll) : List String :=
  [mapAll.equals.text, mapAll.value.text]

theorem Statement.kind_node (statement : Statement) :
    statement.node.kind = statement.kind := by
  cases statement <;> rfl

theorem Statement.nodes_eq_map (statements : List Statement) :
    Statement.nodes statements = statements.map Statement.node := by
  induction statements with
  | nil => rfl
  | cons statement rest ih => rw [Statement.nodes, ih, List.map_cons]

/-- The texts of a list of statements. -/
def Statement.texts (statements : List Statement) : List String :=
  statements.flatMap fun statement => statement.node.print

/-- The texts of a `for` scope, if it is there. -/
def ForScope.texts : ForScope → List String
  | missing => []
  | present keyword body =>
    keyword.text :: "\x7b" :: (Statement.texts body ++ ["\x7d"])

@[simp] theorem Statement.texts_nil : Statement.texts [] = [] := rfl

@[simp] theorem Statement.texts_append (a b : List Statement) :
    Statement.texts (a ++ b) = Statement.texts a ++ Statement.texts b :=
  List.flatMap_append

namespace Statement

/-- No statement is chained to another one, so all statements of a body stand inside of the
braces. -/
theorem isChained_nodes (statements : List Statement) :
    ∀ node ∈ Statement.nodes statements, node.kind.isChained = false := by
  rw [nodes_eq_map]
  simp only [List.forall_mem_map]
  intro statement _
  rw [kind_node]
  cases statement <;> rfl

theorem flatMap_print_nodes (statements : List Statement) :
    (Statement.nodes statements).flatMap Node.print = texts statements := by
  rw [nodes_eq_map, List.flatMap_map, texts]

theorem intercalate_print_nodes (statements : List Statement) :
    ([] : List String).intercalate ((Statement.nodes statements).map Node.print)
      = texts statements := by
  rw [intercalate_nil_left, ← List.flatMap_def, flatMap_print_nodes]

theorem print_leaves (assignment : Assignment) :
    assignment.leaves.flatMap Node.print = assignment.texts := by
  simp [Assignment.leaves, Assignment.texts]

/-- A scope with statements in it. -/
theorem print_body {kind : NodeKind} (hkind : kind.separator? = some []) (keyword : Token)
    (body : List Statement) {chained : List Node}
    (hchained : ∀ node ∈ chained, node.kind.isChained = true) :
    (Node.branch kind (.leaf keyword :: (Statement.nodes body ++ chained))).print
      = keyword.text :: "\x7b" :: (texts body ++ "\x7d" :: chained.flatMap Node.print) := by
  rw [Node.print_scope hkind keyword (isChained_nodes body) hchained, intercalate_print_nodes]

theorem isChained_forScope (uses : ForScope) :
    ∀ node ∈ uses.nodes, node.kind.isChained = true := by
  cases uses <;> simp [ForScope.nodes, Node.kind, NodeKind.isChained]

theorem isChained_mapAll (mapAll : Option MapAll) :
    ∀ node ∈ (mapAll.map MapAll.node).toList, node.kind.isChained = true := by
  cases mapAll <;> simp [MapAll.node, Node.kind, NodeKind.isChained]

theorem print_forScope (uses : ForScope) : uses.nodes.flatMap Node.print = uses.texts := by
  cases uses with
  | missing => rfl
  | present keyword body =>
    have hkind : NodeKind.forScope.separator? = some [] := rfl
    have hscope := print_body hkind keyword body (List.forall_mem_nil _)
    rw [List.append_nil] at hscope
    simp [ForScope.nodes, hscope, ForScope.texts]

theorem print_copyPair (pair : CopyPair) : pair.node.print = pair.texts := by
  rw [CopyPair.node, Node.print_branch rfl]
  simp [CopyPair.texts]

theorem print_mapAll (mapAll : MapAll) : mapAll.node.print = mapAll.texts := by
  rw [MapAll.node, Node.print_branch rfl]
  simp [MapAll.texts]

/-! One equation for each kind of statement. -/

@[simp] theorem texts_matchBlock (keyword : Token) (body : List Statement) (uses : ForScope) :
    texts [.matchBlock keyword body uses]
      = keyword.text :: "\x7b" :: (texts body ++ "\x7d" :: uses.texts) := by
  rw [texts, List.flatMap_singleton, Statement.node,
    print_body rfl keyword body (isChained_forScope uses), print_forScope]

@[simp] theorem texts_anyBlock (keyword : Token) (uses : ForScope) :
    texts [.anyBlock keyword uses] = keyword.text :: uses.texts := by
  rw [texts, List.flatMap_singleton, Statement.node, Node.print_branch rfl, List.flatMap_cons,
    print_forScope, Node.print_leaf, List.singleton_append]

@[simp] theorem texts_listing (target : Target) (keyword : Token) (body : List Statement)
    (mapAll : Option MapAll) :
    texts [.listing target keyword body mapAll]
      = keyword.text :: "\x7b" :: (texts body
        ++ "\x7d" :: mapAll.toList.flatMap MapAll.texts) := by
  rw [texts, List.flatMap_singleton, Statement.node,
    print_body rfl keyword body (isChained_mapAll mapAll)]
  cases mapAll <;> simp [print_mapAll]

@[simp] theorem texts_identifiers (first : Token) (rest : List Token) :
    texts [.identifiers first rest] = first.text :: rest.map Token.text := by
  rw [texts, List.flatMap_singleton, Statement.node, Node.print_branch rfl, List.flatMap_map]
  simp [← List.map_eq_flatMap]

@[simp] theorem texts_copy (keyword : Token) (pairs : List CopyPair) :
    texts [.copy keyword pairs]
      = keyword.text :: "\x7b" :: ([","].intercalate (pairs.map CopyPair.texts) ++ ["\x7d"]) := by
  have hpairs : ∀ node ∈ pairs.map CopyPair.node, node.kind.isChained = false := by
    simp [CopyPair.node, Node.kind, NodeKind.isChained]
  have hkind : NodeKind.copy.separator? = some [","] := rfl
  have hscope := Node.print_scope hkind keyword hpairs (List.forall_mem_nil _)
  rw [List.append_nil] at hscope
  rw [texts, List.flatMap_singleton, Statement.node, hscope]
  simp [Function.comp_def, print_copyPair]

end Statement

/-- The texts in front of the key of an assignment. -/
def AssignmentKind.front : AssignmentKind → List String
  | definition _ keyword => [keyword.text]
  | _ => []

@[simp] theorem Statement.texts_assignment (kind : AssignmentKind) (assignment : Assignment) :
    Statement.texts [kind.statement assignment] = kind.front ++ assignment.texts := by
  rw [Statement.texts, List.flatMap_singleton]
  cases kind with
  | definition scope keyword =>
    show (Node.branch _ (.leaf keyword :: assignment.leaves)).print = _
    rw [Node.print_branch rfl, List.flatMap_cons, print_leaves]
    rfl
  | setAll target => exact (Node.print_branch rfl _).trans (print_leaves assignment)
  | predicate => exact (Node.print_branch rfl _).trans (print_leaves assignment)
  | model => exact (Node.print_branch rfl _).trans (print_leaves assignment)
  | weight => exact (Node.print_branch rfl _).trans (print_leaves assignment)

/-! ## Printing what a reader holds -/

/-- The texts of a block without its `for` scope. -/
def BlockHead.texts : BlockHead → List String
  | matching keyword body => keyword.text :: "\x7b" :: (Statement.texts body ++ ["\x7d"])
  | any keyword => [keyword.text]

@[simp] theorem Statement.texts_block (head : BlockHead) (uses : ForScope) :
    Statement.texts [head.statement uses] = head.texts ++ uses.texts := by
  cases head with
  | matching keyword body => simp [BlockHead.statement, BlockHead.texts]
  | any keyword => simp [BlockHead.statement, BlockHead.texts]

/-- The texts in front of the brace of a scope. -/
def Opener.texts : Opener → List String
  | matchBlock keyword | listing _ keyword => [keyword.text]
  | forScope head keyword => head.texts ++ [keyword.text]

/-- The texts of a `copy` scope in front of its next pair. -/
def copyFront (keyword : Token) (pairs : List CopyPair) : List String :=
  keyword.text :: "\x7b" :: (pairs.map CopyPair.texts).flatMap (· ++ [","])

/-- The texts of a pending statement. -/
def Pending.texts : Pending → List String
  | nothing => []
  | definition _ keyword | target _ keyword | copy keyword => [keyword.text]
  | key kind name => kind.front ++ [name.text]
  | equals kind name sign => kind.front ++ [name.text, sign.text]
  | opening opener => opener.texts
  | identifier first => [first.text]
  | identifiers first rest => first.text :: rest.map Token.text
  | block head => head.texts
  | listing _ keyword body => keyword.text :: "\x7b" :: (Statement.texts body ++ ["\x7d"])
  | mapAll _ keyword body sign =>
    keyword.text :: "\x7b" :: (Statement.texts body ++ ["\x7d", sign.text])
  | copyPairs keyword pairs => copyFront keyword pairs
  | copySource keyword pairs source => copyFront keyword pairs ++ [source.text]
  | copyArrow keyword pairs source arrow => copyFront keyword pairs ++ [source.text, arrow.text]
  | copyNext keyword pairs =>
    keyword.text :: "\x7b" :: [","].intercalate (pairs.map CopyPair.texts)

namespace Reader

/-- The texts of the open scopes, up to the brace of the innermost one. -/
def scopeTexts : List (Opener × List Statement) → List String
  | [] => []
  | (opener, before) :: outer =>
    scopeTexts outer ++ Statement.texts before ++ opener.texts ++ ["\x7b"]

/-- The texts of what a reader holds. -/
def print (reader : Reader) : List String :=
  scopeTexts reader.scopes ++ Statement.texts reader.current ++ reader.pending.texts

/-- A pending statement that is over is printed as before. Ending it adds no text, since what is
missing of it is optional. -/
theorem texts_ended {pending : Pending} {next : Option TokenKind} (h : pending.EndsBefore next) :
    Statement.texts pending.ended = pending.texts := by
  cases pending with
  | nothing => rfl
  | identifier first => simp [Pending.ended, Pending.texts]
  | identifiers first rest => simp [Pending.ended, Pending.complete, Pending.texts]
  | block head => simp [Pending.ended, Pending.complete, Pending.texts, ForScope.texts]
  | listing target keyword body => simp [Pending.ended, Pending.complete, Pending.texts]
  | _ => exact h.elim

end Reader

/-! ## Fixed texts -/

/-- A kind with a fixed text belongs to tokens with that text only. The kind was found by looking
for the text in the list of keywords and marks. -/
theorem Token.text_of_kind {token : Token} {kind : TokenKind} {text : String}
    (hkind : token.kind = kind) (htext : kind.fixedText? = some text) : token.text = text := by
  rw [Token.kind, TokenKind.ofText] at hkind
  split at hkind
  · subst hkind
    cases htext
  · cases hfind : (TokenKind.keywords ++ TokenKind.marks).find?
        fun kind => kind.fixedText? == some token.text with
    | none =>
      rw [hfind] at hkind
      subst hkind
      cases htext
    | some found =>
      rw [hfind] at hkind
      have hfound := List.find?_some hfind
      subst hkind
      rw [Option.getD_some] at htext
      rw [htext, beq_iff_eq, Option.some.injEq] at hfound
      exact hfound.symm

theorem Token.text_leftBrace {token : Token} (h : token.kind = .leftBrace) : token.text = "\x7b" :=
  text_of_kind h rfl

theorem Token.text_rightBrace {token : Token} (h : token.kind = .rightBrace) :
    token.text = "\x7d" :=
  text_of_kind h rfl

theorem Token.text_comma {token : Token} (h : token.kind = .comma) : token.text = "," :=
  text_of_kind h rfl

/-! ## Trailing commas -/

/-- Tokens without the commas that a closing brace follows. Where the tokens can be read, these are
the commas behind the last pairs of `copy` scopes. -/
def withoutTrailingCommas : List Token → List Token
  | [] => []
  | [token] => [token]
  | token :: next :: rest =>
    if token.kind = .comma ∧ next.kind = .rightBrace then withoutTrailingCommas (next :: rest)
    else token :: withoutTrailingCommas (next :: rest)

def endsWithComma (tokens : List Token) : Bool :=
  tokens.getLast?.any fun token => token.kind == .comma

theorem endsWithComma_snoc (tokens : List Token) (token : Token) :
    endsWithComma (tokens ++ [token]) = (token.kind == .comma) := by
  simp [endsWithComma]

theorem withoutTrailingCommas_ne_nil (token : Token) (rest : List Token) :
    withoutTrailingCommas (token :: rest) ≠ [] := by
  induction rest generalizing token with
  | nil => exact List.cons_ne_nil _ _
  | cons next rest ih =>
    rw [withoutTrailingCommas]
    split
    · exact ih next
    · exact List.cons_ne_nil _ _

/-- Only a closing brace removes a token, and then the comma in front of it. This is the equation
for a list that grows at its end, as the tokens of a reader do. -/
theorem withoutTrailingCommas_snoc (tokens : List Token) (token : Token) :
    withoutTrailingCommas (tokens ++ [token])
      = (if endsWithComma tokens ∧ token.kind = .rightBrace then
          (withoutTrailingCommas tokens).dropLast
        else withoutTrailingCommas tokens) ++ [token] := by
  induction tokens with
  | nil => simp [withoutTrailingCommas, endsWithComma]
  | cons first rest ih =>
    cases rest with
    | nil =>
      simp only [List.cons_append, List.nil_append, withoutTrailingCommas, endsWithComma,
        List.getLast?_singleton, Option.any_some, beq_iff_eq, List.dropLast_singleton]
      split <;> rfl
    | cons second rest =>
      have hends : endsWithComma (first :: second :: rest) = endsWithComma (second :: rest) := by
        simp [endsWithComma]
      have hne := withoutTrailingCommas_ne_nil second rest
      rw [List.cons_append] at ih
      rw [hends, List.cons_append, List.cons_append, withoutTrailingCommas, withoutTrailingCommas,
        ih]
      -- The first two tokens are treated alike on both sides.
      by_cases hfirst : first.kind = .comma ∧ second.kind = .rightBrace
      · simp only [hfirst, and_self, if_true]
      · simp only [hfirst, if_false, List.dropLast_cons_of_ne_nil hne, ← List.cons_append]
        split <;> rfl

/-! ## Every token adds its text -/

/-- Whether the last token of a pending statement is a comma. -/
def Pending.isAfterComma : Pending → Bool
  | copyPairs _ pairs => !pairs.isEmpty
  | _ => false

/-- Behind a pair of a `copy` scope there is a pair. -/
def Pending.HasPair : Pending → Prop
  | copyNext _ pairs => pairs ≠ []
  | _ => True

theorem copyFront_of_ne_nil (keyword : Token) {pairs : List CopyPair} (h : pairs ≠ []) :
    copyFront keyword pairs
      = keyword.text :: "\x7b" :: [","].intercalate (pairs.map CopyPair.texts) ++ [","] := by
  obtain ⟨front, last, hlast⟩ := pairs.eq_nil_or_concat.resolve_left h
  rw [List.concat_eq_append] at hlast
  rw [hlast, copyFront, List.map_append, List.map_singleton, intercalate_snoc]
  simp

theorem copyFront_append (keyword : Token) (pairs : List CopyPair) (pair : CopyPair) :
    copyFront keyword pairs ++ pair.texts
      = keyword.text :: "\x7b" :: [","].intercalate ((pairs ++ [pair]).map CopyPair.texts) := by
  rw [copyFront, List.map_append, List.map_singleton, intercalate_snoc]
  rfl

namespace Reader

variable {scopes : List (Opener × List Statement)} {current : List Statement} {token : Token}
  {after : Reader}

/-- The first token of a statement is pending on its own, or it closes a scope. In both cases no
comma is taken. -/
theorem start_cases {reader : Reader} (h : reader.start token = .ok after) :
    (∃ pending : Pending, after = reader.await pending ∧ pending.texts = [token.text]
        ∧ pending.isAfterComma = false ∧ pending.HasPair ∧ token.kind ≠ .comma)
      ∨ token.kind = .rightBrace ∧ reader.leave token = .ok after := by
  cases hkind : token.kind <;> simp only [Reader.start, hkind, reduceCtorEq] at h
  case rightBrace => exact .inr ⟨rfl, h⟩
  all_goals
    cases h
    exact .inl ⟨_, rfl, rfl, rfl, trivial, by simp⟩

/-- A closing brace ends the texts of the scope: they were the scope's keyword, brace and
statements, and become those of the statement that the scope belongs to. -/
theorem print_leave {pending : Pending}
    (h : Reader.leave ⟨scopes, current, pending⟩ token = .ok after) :
    after.print = scopeTexts scopes ++ Statement.texts current ++ ["\x7d"]
      ∧ after.pending.isAfterComma = false ∧ after.pending.HasPair := by
  cases scopes with
  | nil => cases h
  | cons scope outer =>
    obtain ⟨opener, before⟩ := scope
    cases opener with
    | matchBlock keyword =>
      cases h
      refine ⟨?_, rfl, trivial⟩
      simp [print, scopeTexts, Opener.texts, Pending.texts, BlockHead.texts]
    | listing target keyword =>
      cases h
      refine ⟨?_, rfl, trivial⟩
      simp [print, scopeTexts, Opener.texts, Pending.texts]
    | forScope head keyword =>
      cases h
      refine ⟨?_, rfl, trivial⟩
      simp [print, scopeTexts, Opener.texts, Pending.texts, ForScope.texts]

/-! ## The invariant -/

/-- What a reader holds is printed as the tokens it has taken. -/
structure Shows (reader : Reader) (tokens : List Token) : Prop where
  print_eq : reader.print = (withoutTrailingCommas tokens).map Token.text
  isAfterComma_eq : reader.pending.isAfterComma = endsWithComma tokens
  hasPair : reader.pending.HasPair

variable {pending : Pending} {tokens : List Token}

theorem shows_initial : Shows {} [] :=
  ⟨rfl, rfl, trivial⟩

/-- A token that removes no comma adds its text. Most moves of the reader are of this kind. -/
theorem Shows.snoc {reader : Reader} (h : reader.Shows tokens)
    (hprint : after.print = reader.print ++ [token.text])
    (hkeeps : reader.pending.isAfterComma = false ∨ token.kind ≠ .rightBrace)
    (hcomma : after.pending.isAfterComma = (token.kind == .comma))
    (hpair : after.pending.HasPair) : after.Shows (tokens ++ [token]) := by
  refine ⟨?_, hcomma.trans (endsWithComma_snoc tokens token).symm, hpair⟩
  have hnot : ¬(endsWithComma tokens = true ∧ token.kind = .rightBrace) := by
    rw [← h.isAfterComma_eq]
    rintro ⟨hafter, hkind⟩
    rcases hkeeps with hkeeps | hkeeps
    · rw [hkeeps] at hafter
      cases hafter
    · exact hkeeps hkind
  rw [withoutTrailingCommas_snoc, if_neg hnot, hprint, h.print_eq, List.map_append,
    List.map_singleton]

/-- A closing brace of a `copy` scope behind a comma replaces the comma. No other move takes away a
text that was there. -/
theorem Shows.replace {reader : Reader} {front : List String} (h : reader.Shows tokens)
    (hfront : reader.print = front ++ [","]) (hcomma : reader.pending.isAfterComma = true)
    (hkind : token.kind = .rightBrace) (hprint : after.print = front ++ [token.text])
    (hafter : after.pending = .nothing) : after.Shows (tokens ++ [token]) := by
  refine ⟨?_, ?_, hafter ▸ trivial⟩
  · have hends : endsWithComma tokens = true := h.isAfterComma_eq ▸ hcomma
    have hdrop : ((withoutTrailingCommas tokens).dropLast).map Token.text = front := by
      rw [List.map_dropLast, ← h.print_eq, hfront, List.dropLast_concat]
    rw [withoutTrailingCommas_snoc, if_pos ⟨hends, hkind⟩, List.map_append, hdrop, hprint,
      List.map_singleton]
  · rw [endsWithComma_snoc, hafter, hkind]
    rfl

/-- A statement that is over leaves no comma behind. -/
theorem isAfterComma_of_endsBefore {next : Option TokenKind} (h : pending.EndsBefore next) :
    pending.isAfterComma = false := by
  cases pending with
  | copyPairs keyword pairs => exact h.elim
  | _ => rfl

/-- Every move keeps the invariant. A move that completes a statement puts the same texts in another
place, so both sides are computed and compared. -/
theorem Shows.step {reader : Reader} (h : reader.Shows tokens)
    (hstep : reader.step token = .ok after) : after.Shows (tokens ++ [token]) := by
  have hmove := move_of_step hstep
  obtain ⟨scopes, current, pending⟩ := reader
  cases hmove with
  | ends hends hstart =>
    have hkeeps := isAfterComma_of_endsBefore hends
    rcases start_cases hstart with ⟨next, rfl, htexts, hcomma, hpair, hkind⟩ | ⟨hkind, hleave⟩
    · refine h.snoc ?_ (.inl hkeeps) (hcomma.trans (beq_false_of_ne hkind).symm) hpair
      simp only [await, print, Statement.texts_append, texts_ended hends, htexts,
        List.append_assoc]
    · obtain ⟨hafter, hcomma, hpair⟩ := print_leave hleave
      refine h.snoc ?_ (.inl hkeeps) (hcomma.trans (by rw [hkind]; rfl)) hpair
      rw [hafter]
      simp only [print, Statement.texts_append, texts_ended hends, Token.text_rightBrace hkind,
        List.append_assoc]
  | name hkind =>
    refine h.snoc ?_ (.inl rfl) (by rw [hkind]; rfl) trivial
    simp [print, Pending.texts, AssignmentKind.front]
  | equals hkind =>
    refine h.snoc ?_ (.inl rfl) (by rw [hkind]; rfl) trivial
    simp [print, Pending.texts]
  | value hkind =>
    refine h.snoc ?_ (.inl rfl) (by rw [hkind]; rfl) trivial
    simp [print, Pending.texts, Assignment.texts]
  | enter hkind =>
    refine h.snoc ?_ (.inl rfl) (by rw [hkind]; rfl) trivial
    simp [print, Pending.texts, scopeTexts, Token.text_leftBrace hkind]
  | setAll hkind =>
    refine h.snoc ?_ (.inl rfl) (by rw [hkind]; rfl) trivial
    simp [print, Pending.texts, AssignmentKind.front]
  | enterListing hkind =>
    refine h.snoc ?_ (.inl rfl) (by rw [hkind]; rfl) trivial
    simp [print, Pending.texts, scopeTexts, Opener.texts, Token.text_leftBrace hkind]
  | predicate hkind =>
    refine h.snoc ?_ (.inl rfl) (by rw [hkind]; rfl) trivial
    simp [print, Pending.texts, AssignmentKind.front]
  | second hkind =>
    refine h.snoc ?_ (.inl rfl) (by rw [hkind]; rfl) trivial
    simp [print, Pending.texts]
  | further hkind =>
    refine h.snoc ?_ (.inl rfl) (by rw [hkind]; rfl) trivial
    simp [print, Pending.texts]
  | uses hkind =>
    refine h.snoc ?_ (.inl rfl) (by rw [hkind]; rfl) trivial
    simp [print, Pending.texts, Opener.texts]
  | mapAll hkind hlisted =>
    refine h.snoc ?_ (.inl rfl) (by rw [hkind]; rfl) trivial
    simp [print, Pending.texts]
  | mapAllValue hkind =>
    refine h.snoc ?_ (.inl rfl) (by rw [hkind]; rfl) trivial
    simp [print, Pending.texts, MapAll.texts]
  | enterCopy hkind =>
    refine h.snoc ?_ (.inl rfl) (by rw [hkind]; rfl) trivial
    simp [print, Pending.texts, copyFront, Token.text_leftBrace hkind]
  | copySource hkind =>
    refine h.snoc ?_ (.inr (by simp [hkind])) (by rw [hkind]; rfl) trivial
    simp [print, Pending.texts]
  | copyArrow hkind =>
    refine h.snoc ?_ (.inl rfl) (by rw [hkind]; rfl) trivial
    simp [print, Pending.texts]
  | @copyDestination keyword source arrow pairs hkind =>
    refine h.snoc ?_ (.inl rfl) (by rw [hkind]; rfl) (by simp [Pending.HasPair])
    have hfront := copyFront_append keyword pairs ⟨source, arrow, token⟩
    simp only [print, Pending.texts, ← hfront, List.append_assoc]
    rfl
  | @copyComma keyword pairs hkind =>
    have hpairs : pairs ≠ [] := h.hasPair
    refine h.snoc ?_ (.inl rfl) (by simp [Pending.isAfterComma, hpairs, hkind]) trivial
    simp [print, Pending.texts, copyFront_of_ne_nil keyword hpairs, Token.text_comma hkind]
  | @leaveCopy keyword pairs hkind =>
    by_cases hpairs : pairs = []
    · -- An empty scope: there is no comma in front of the brace.
      subst hpairs
      refine h.snoc ?_ (.inl rfl) (by rw [hkind]; rfl) trivial
      simp [print, Pending.texts, copyFront, Token.text_rightBrace hkind, List.intercalate]
    · have hfront : print ⟨scopes, current, .copyPairs keyword pairs⟩
          = (scopeTexts scopes ++ Statement.texts current ++ keyword.text :: "\x7b"
            :: [","].intercalate (pairs.map CopyPair.texts)) ++ [","] := by
        rw [print, Pending.texts, copyFront_of_ne_nil keyword hpairs, ← List.append_assoc]
      refine h.replace hfront (by simp [Pending.isAfterComma, hpairs]) hkind ?_ rfl
      simp [print, Pending.texts, Token.text_rightBrace hkind]
  | leaveCopyPair hkind =>
    refine h.snoc ?_ (.inl rfl) (by rw [hkind]; rfl) trivial
    simp [print, Pending.texts, Token.text_rightBrace hkind]

/-- Every run keeps the invariant, since every step does. -/
theorem Shows.run {reader : Reader} {rest : List Token} (h : reader.Shows tokens)
    (hrun : reader.run rest = .ok after) : after.Shows (tokens ++ rest) :=
  run_induction (motive := fun tokens reader => reader.Shows tokens) hrun h
    fun _ _ _ _ hshows hstep => hshows.step hstep

end Reader

/-! ## Chained nodes come last -/

/-- Only the last child of a node can be a `for` scope or an assignment to a whole listing. -/
def Node.ChainedLast (node : Node) : Prop :=
  ∀ child ∈ node.children.dropLast, child.kind.isChained = false

/-- A node is in order if the children in front are not chained, and at most one child stands behind
them. -/
theorem Node.chainedLast_branch (kind : NodeKind) {front chained : List Node}
    (hfront : ∀ node ∈ front, node.kind.isChained = false) (hchained : chained.length ≤ 1) :
    (branch kind (front ++ chained)).ChainedLast := by
  intro child hchild
  apply hfront
  match chained, hchained with
  | [], _ => exact List.dropLast_subset _ (by simpa [Node.children] using hchild)
  | [last], _ => simpa [Node.children] using hchild

theorem Node.chainedLast_of_forall {kind : NodeKind} {children : List Node}
    (h : ∀ node ∈ children, node.kind.isChained = false) : (branch kind children).ChainedLast :=
  fun child hchild => h child (List.dropLast_subset _ hchild)

mutual

/-- A property of a node and of everything below it. -/
def Node.Everywhere (property : Node → Prop) : Node → Prop
  | .leaf token => property (.leaf token)
  | .branch kind children => property (.branch kind children) ∧ Node.EverywhereIn property children

/-- A property of sibling nodes and of everything below them. -/
def Node.EverywhereIn (property : Node → Prop) : List Node → Prop
  | [] => True
  | node :: rest => node.Everywhere property ∧ Node.EverywhereIn property rest

end

theorem Node.everywhereIn_iff {property : Node → Prop} {nodes : List Node} :
    EverywhereIn property nodes ↔ ∀ node ∈ nodes, node.Everywhere property := by
  induction nodes with
  | nil => simp [EverywhereIn]
  | cons node rest ih => simp [EverywhereIn, ih]

mutual

/-- The rows of the table of a tree are nodes of the tree, so what holds everywhere in the tree
holds of every row. The induction follows the table. -/
theorem Node.forall_rowsFrom {property : Node → Prop} (parent : Option Nat) (id : Nat) :
    ∀ node : Node, node.Everywhere property → ∀ row ∈ rowsFrom parent id node, property row.node
  | .leaf token, h, row, hrow => by
    rw [rowsFrom, List.mem_singleton] at hrow
    subst hrow
    exact h
  | .branch kind children, h, row, hrow => by
    rw [rowsFrom, List.mem_cons] at hrow
    rcases hrow with rfl | hrow
    · exact h.1
    · exact Node.forall_rowsAll id (id + 1) children h.2 row hrow

theorem Node.forall_rowsAll {property : Node → Prop} (parent id : Nat) :
    ∀ nodes : List Node, EverywhereIn property nodes →
      ∀ row ∈ rowsAll parent id nodes, property row.node
  | [], _, row, hrow => by
    rw [rowsAll] at hrow
    cases hrow
  | node :: rest, h, row, hrow => by
    rw [rowsAll, List.mem_append] at hrow
    rcases hrow with hrow | hrow
    · exact Node.forall_rowsFrom (some parent) id node h.1 row hrow
    · exact Node.forall_rowsAll parent (id + node.size) rest h.2 row hrow

end

theorem Node.everywhere_leaves (kind : NodeKind) (tokens : List Token) :
    (branch kind (tokens.map .leaf)).Everywhere ChainedLast := by
  refine ⟨chainedLast_of_forall ?_, everywhereIn_iff.mpr ?_⟩
  · simp [Node.kind, NodeKind.isChained]
  · simp [Everywhere, ChainedLast, Node.children]

/-- A scope is in order if its contents and what is chained to it are. -/
theorem Node.everywhere_scope (kind : NodeKind) (keyword : Token) {contents chained : List Node}
    (hcontents : ∀ node ∈ contents, node.kind.isChained = false) (hchained : chained.length ≤ 1)
    (hinside : EverywhereIn ChainedLast contents) (hbehind : EverywhereIn ChainedLast chained) :
    (branch kind (leaf keyword :: (contents ++ chained))).Everywhere ChainedLast := by
  refine ⟨?_, List.forall_mem_nil _, ?_⟩
  · rw [← List.cons_append]
    refine chainedLast_branch kind ?_ hchained
    exact List.forall_mem_cons.mpr ⟨rfl, hcontents⟩
  · rw [everywhereIn_iff] at hinside hbehind ⊢
    exact List.forall_mem_append.mpr ⟨hinside, hbehind⟩

mutual

/-- The tree of a statement is in order, by induction on the statement. Only blocks and listings
have something chained to them, and it is put behind their contents. -/
theorem Statement.everywhere_chainedLast : ∀ statement : Statement,
    statement.node.Everywhere Node.ChainedLast
  | .definition scope keyword ⟨key, equals, value⟩ =>
    Node.everywhere_leaves (.definition scope) [keyword, key, equals, value]
  | .setAll target ⟨key, equals, value⟩ =>
    Node.everywhere_leaves (.setAll target) [key, equals, value]
  | .predicate ⟨key, equals, value⟩ => Node.everywhere_leaves .predicate [key, equals, value]
  | .model ⟨key, equals, value⟩ => Node.everywhere_leaves .model [key, equals, value]
  | .weight ⟨key, equals, value⟩ => Node.everywhere_leaves .weight [key, equals, value]
  | .identifiers first rest => Node.everywhere_leaves .identifiers (first :: rest)
  | .matchBlock keyword body uses => by
    rw [Statement.node]
    refine Node.everywhere_scope _ keyword (Statement.isChained_nodes body) ?_
      (Statement.everywhereIn_chainedLast body) (ForScope.everywhereIn_chainedLast uses)
    cases uses <;> simp [ForScope.nodes]
  | .anyBlock keyword uses => by
    rw [Statement.node]
    refine Node.everywhere_scope _ keyword (List.forall_mem_nil _) ?_ trivial
      (ForScope.everywhereIn_chainedLast uses)
    cases uses <;> simp [ForScope.nodes]
  | .listing target keyword body mapAll => by
    rw [Statement.node]
    refine Node.everywhere_scope _ keyword (Statement.isChained_nodes body) ?_
      (Statement.everywhereIn_chainedLast body) ?_
    · cases mapAll <;> simp
    · cases mapAll with
      | none => trivial
      | some assignment =>
        exact ⟨Node.everywhere_leaves .mapAll [assignment.equals, assignment.value], trivial⟩
  | .copy keyword pairs => by
    have hpairs : ∀ node ∈ pairs.map CopyPair.node, node.kind.isChained = false := by
      simp [CopyPair.node, Node.kind, NodeKind.isChained]
    have hinside : Node.EverywhereIn Node.ChainedLast (pairs.map CopyPair.node) := by
      rw [Node.everywhereIn_iff, List.forall_mem_map]
      intro pair _
      exact Node.everywhere_leaves .copyPair [pair.source, pair.arrow, pair.destination]
    have hnone : ([] : List Node).length ≤ 1 := Nat.zero_le 1
    have hscope := Node.everywhere_scope .copy keyword hpairs hnone hinside trivial
    rwa [List.append_nil] at hscope

theorem Statement.everywhereIn_chainedLast : ∀ statements : List Statement,
    Node.EverywhereIn Node.ChainedLast (Statement.nodes statements)
  | [] => trivial
  | statement :: rest =>
    ⟨Statement.everywhere_chainedLast statement, Statement.everywhereIn_chainedLast rest⟩

theorem ForScope.everywhereIn_chainedLast : ∀ uses : ForScope,
    Node.EverywhereIn Node.ChainedLast uses.nodes
  | .missing => trivial
  | .present keyword body => by
    have hnone : ([] : List Node).length ≤ 1 := Nat.zero_le 1
    have hscope := Node.everywhere_scope .forScope keyword (Statement.isChained_nodes body) hnone
      (Statement.everywhereIn_chainedLast body) trivial
    rw [List.append_nil] at hscope
    exact ⟨hscope, trivial⟩

end

theorem Statement.everywhere_ofFile (statements : List Statement) :
    (Node.ofFile statements).Everywhere Node.ChainedLast :=
  ⟨Node.chainedLast_of_forall (isChained_nodes statements), everywhereIn_chainedLast statements⟩

/-! ## Files -/

/-- The statements of a file are those that the reader held at its end, the pending one among
them. -/
theorem Reader.statements_of_finish {reader : Reader} {last : Option Token}
    {statements : List Statement} (h : reader.finish last = .ok statements) :
    statements = reader.ended.current := by
  obtain ⟨scopes, current, pending⟩ := reader
  obtain ⟨hscopes, -⟩ := finish_eq_ok h
  cases hscopes
  cases pending <;> cases h <;> rfl

/-- The statements of a file are printed as its tokens. At the end no scope is open, and the
invariant of the reader says just this. -/
theorem Statement.texts_of_read {tokens : List Token} {statements : List Statement}
    (h : Statement.read tokens = .ok statements) :
    Statement.texts statements = (withoutTrailingCommas tokens).map Token.text := by
  rw [Statement.read] at h
  cases hrun : Reader.run {} tokens with
  | error diagnostic =>
    rw [hrun] at h
    cases h
  | ok reader =>
    rw [hrun] at h
    obtain ⟨hscopes, hends⟩ := Reader.finish_eq_ok h
    have hshows := Reader.shows_initial.run hrun
    rw [List.nil_append] at hshows
    -- No scope is open, so what the reader prints are the statements of the file.
    rw [← hshows.print_eq, Reader.statements_of_finish h, Reader.ended, Reader.print, hscopes,
      Statement.texts_append, Reader.texts_ended hends]
    rfl

/-- **The tree of a file loses nothing.** It is printed as the tokens that it was read from, without
the commas behind the last pairs of `copy` scopes. A `for` scope and an assignment to a whole
listing are the last child of their statement. -/
theorem Statement.print_ofFile_read {tokens : List Token} {statements : List Statement}
    (h : Statement.read tokens = .ok statements) :
    (Node.ofFile statements).print = (withoutTrailingCommas tokens).map Token.text
      ∧ ∀ row ∈ (Node.ofFile statements).rows, row.node.ChainedLast := by
  constructor
  · rw [Node.ofFile, Node.print_branch rfl, flatMap_print_nodes, texts_of_read h]
  · exact Node.forall_rowsFrom none 0 _ (everywhere_ofFile statements)

/-- Every kind of scope, each with what can follow it, and a comma behind the last copied file. -/
def everyScope : List Token :=
  ["match", "\x7b", "nbt", "=", "'a'", "\x7d", "for", "\x7b", "items", "\x7b", "bow", "axe", "\x7d",
    "=", "'b'", "\x7d", "any", "for", "\x7b", "armor", "=", "'c'", "\x7d", "copy", "\x7b", "'d'",
    "=>", "'e'", ",", "'f'", "=>", "'g'", ",", "\x7d", "copy", "\x7b", "\x7d", "let", "h", "=",
    "'i'"].zipIdx.map fun (text, column) => ⟨text, 0, column, none⟩

theorem Statement.print_ofFile_read_everyScope :
    ∃ statements, Statement.read everyScope = .ok statements
      ∧ (Node.ofFile statements).print = (everyScope.eraseIdx 32).map Token.text
      ∧ ∀ row ∈ (Node.ofFile statements).rows, row.node.ChainedLast := by
  have hok : (Statement.read everyScope).isOk = true := by decide +kernel
  have hwithout : withoutTrailingCommas everyScope = everyScope.eraseIdx 32 := by decide +kernel
  cases h : Statement.read everyScope with
  | error diagnostic =>
    rw [h] at hok
    cases hok
  | ok statements =>
    have hprint := Statement.print_ofFile_read h
    rw [hwithout] at hprint
    exact ⟨statements, rfl, hprint⟩

end Reskin
