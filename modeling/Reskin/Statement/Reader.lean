import Reskin.Statement
import Reskin.Token.Scan

/-!
# From tokens to statements

The reader takes one token at a time. Its state holds the scopes that are still open, the
statements of the innermost one so far, and the statement that is being read. Some statements are
complete before the reader knows that they are: a block may still be followed by `for`, a listing
by an assignment, a run of identifiers by one more. Such a statement stays pending until a token
arrives that cannot continue it.

`Pending.expected` lists what has to follow an incomplete statement. It is the source of all hints
about missing tokens.
-/

namespace Reskin

/-- A block whose `for` scope has not been read. -/
inductive BlockHead where
  | matching (keyword : Token) (body : List Statement)
  | any (keyword : Token)

def BlockHead.statement (head : BlockHead) (uses : ForScope) : Statement :=
  match head with
  | matching keyword body => .matchBlock keyword body uses
  | any keyword => .anyBlock keyword uses

/-- The statements that are a key, an equals sign and a text. -/
inductive AssignmentKind where
  | definition (scope : DefinitionScope) (keyword : Token)
  | setAll (target : Target)
  | predicate
  | model
  | weight

def AssignmentKind.statement (kind : AssignmentKind) (assignment : Assignment) : Statement :=
  match kind with
  | definition scope keyword => .definition scope keyword assignment
  | setAll target => .setAll target assignment
  | predicate => .predicate assignment
  | model => .model assignment
  | weight => .weight assignment

/-- What opened a scope. -/
inductive Opener where
  | matchBlock (keyword : Token)
  | forScope (head : BlockHead) (keyword : Token)
  | listing (target : Target) (keyword : Token)

def Opener.keyword : Opener → Token
  | matchBlock keyword | forScope _ keyword | listing _ keyword => keyword

/-- The statement that is being read. -/
inductive Pending where
  | nothing
  /-- A `let` or `global`, before the name. -/
  | definition (scope : DefinitionScope) (keyword : Token)
  /-- An assignment after its key. -/
  | key (kind : AssignmentKind) (key : Token)
  /-- An assignment after its equals sign. -/
  | equals (kind : AssignmentKind) (key equals : Token)
  /-- A keyword that is followed by a scope. -/
  | opening (opener : Opener)
  /-- A target, before `=` or a scope. -/
  | target (target : Target) (keyword : Token)
  /-- An identifier that may start a list or an assignment. -/
  | identifier (first : Token)
  /-- A list of at least two identifiers, which another one may continue. -/
  | identifiers (first : Token) (rest : List Token)
  /-- A block, which a `for` scope may follow. -/
  | block (head : BlockHead)
  /-- A listing, which an assignment may follow. -/
  | listing (target : Target) (keyword : Token) (body : List Statement)
  /-- An assignment to a listing after its equals sign. -/
  | mapAll (target : Target) (keyword : Token) (body : List Statement) (equals : Token)
  /-- A `copy`, before its scope. -/
  | copy (keyword : Token)
  /-- A `copy` scope, before a pair or its end. -/
  | copyPairs (keyword : Token) (pairs : List CopyPair)
  /-- A `copy` scope after the source of a pair. -/
  | copySource (keyword : Token) (pairs : List CopyPair) (source : Token)
  /-- A `copy` scope after the arrow of a pair. -/
  | copyArrow (keyword : Token) (pairs : List CopyPair) (source arrow : Token)
  /-- A `copy` scope after a pair. -/
  | copyNext (keyword : Token) (pairs : List CopyPair)

/-- What has to follow an incomplete statement. A statement that can end here expects nothing. -/
def Pending.expected : Pending → List TokenKind
  | nothing | identifiers _ _ | block _ | listing _ _ _ => []
  | definition _ _ => [.identifier]
  | key _ _ | identifier _ => [.equals]
  | equals _ _ _ | mapAll _ _ _ _ | copyArrow _ _ _ _ => [.text]
  | opening _ | copy _ => [.leftBrace]
  | target _ _ => [.equals, .leftBrace]
  | copyPairs _ _ => [.text, .rightBrace]
  | copySource _ _ _ => [.arrow]
  | copyNext _ _ => [.comma, .rightBrace]

/-- The statement that ends here, if the pending one can. -/
def Pending.complete : Pending → List Statement
  | identifiers first rest => [.identifiers first rest]
  | block head => [head.statement .missing]
  | listing kind keyword body => [.listing kind keyword body none]
  | _ => []

/-- The state of the reader. -/
structure Reader where
  /-- The open scopes, innermost first, each with the statements in front of it. -/
  scopes : List (Opener × List Statement) := []
  /-- The statements of the innermost scope so far. -/
  current : List Statement := []
  pending : Pending := .nothing

namespace Reader

/-! ## Diagnostics -/

/-- A token that cannot stand here. -/
def unexpected (token : Token) (expected : List TokenKind) : Diagnostic :=
  .located (.grammar (.unexpectedToken token.text (expected.map TokenKind.expectedName)))
    token.location

/-- A token that has to follow something else. -/
def misplaced (token : Token) (after : String) : Diagnostic :=
  .located (.grammar (.misplacedChain token.text after)) token.location

/-! ## Moves -/

def await (reader : Reader) (pending : Pending) : Reader :=
  { reader with pending := pending }

def add (reader : Reader) (statement : Statement) : Reader :=
  { reader with current := reader.current ++ [statement], pending := .nothing }

def settle (reader : Reader) : Reader :=
  { reader with current := reader.current ++ reader.pending.complete, pending := .nothing }

def enter (reader : Reader) (opener : Opener) : Reader :=
  ⟨(opener, reader.current) :: reader.scopes, [], .nothing⟩

/-- Closes the innermost scope. A block or listing that was closed may still be continued. -/
def leave (reader : Reader) (brace : Token) : Except Diagnostic Reader :=
  match reader.scopes with
  | [] => .error (unexpected brace [])
  | (.matchBlock keyword, before) :: outer =>
    .ok ⟨outer, before, .block (.matching keyword reader.current)⟩
  | (.listing target keyword, before) :: outer =>
    .ok ⟨outer, before, .listing target keyword reader.current⟩
  | (.forScope head keyword, before) :: outer =>
    .ok ⟨outer, before ++ [head.statement (.present keyword reader.current)], .nothing⟩

def start (reader : Reader) (token : Token) : Except Diagnostic Reader :=
  match token.kind with
  | .letKeyword => .ok (reader.await (.definition .file token))
  | .globalKeyword => .ok (reader.await (.definition .global token))
  | .matchKeyword => .ok (reader.await (.opening (.matchBlock token)))
  | .anyKeyword => .ok (reader.await (.block (.any token)))
  | .forKeyword => .error (misplaced token "match or any scope")
  | .target target => .ok (reader.await (.target target token))
  | .identifier => .ok (reader.await (.identifier token))
  | .model => .ok (reader.await (.key .model token))
  | .weight => .ok (reader.await (.key .weight token))
  | .equals => .error (misplaced token "listing scope")
  | .copy => .ok (reader.await (.copy token))
  | .rightBrace => reader.leave token
  | .text | .leftBrace | .leftParen | .rightParen | .arrow | .comma =>
    .error (unexpected token [])

def step (reader : Reader) (token : Token) : Except Diagnostic Reader :=
  match reader.pending, token.kind with
  | .nothing, _ => reader.start token
  | .definition scope keyword, .identifier =>
    .ok (reader.await (.key (.definition scope keyword) token))
  | .key kind key, .equals => .ok (reader.await (.equals kind key token))
  | .equals kind key equals, .text => .ok (reader.add (kind.statement ⟨key, equals, token⟩))
  | .opening opener, .leftBrace => .ok (reader.enter opener)
  | .target target keyword, .equals => .ok (reader.await (.equals (.setAll target) keyword token))
  | .target target keyword, .leftBrace => .ok (reader.enter (.listing target keyword))
  | .identifier first, .equals => .ok (reader.await (.equals .predicate first token))
  | .identifier first, .identifier => .ok (reader.await (.identifiers first [token]))
  | .identifier first, .rightBrace | .identifier first, .model =>
    (reader.add (.identifiers first [])).start token
  | .identifiers first rest, .identifier =>
    .ok (reader.await (.identifiers first (rest ++ [token])))
  | .identifiers _ _, _ => reader.settle.start token
  | .block head, .forKeyword => .ok (reader.await (.opening (.forScope head token)))
  | .block _, _ => reader.settle.start token
  | .listing target keyword body, .equals =>
    if body.head?.any Statement.isIdentifiers then
      .ok (reader.await (.mapAll target keyword body token))
    else .error (.located (.grammar .valuesInMappedListing) token.location)
  | .listing _ _ _, _ => reader.settle.start token
  | .mapAll target keyword body equals, .text =>
    .ok (reader.add (.listing target keyword body (some ⟨equals, token⟩)))
  | .copy keyword, .leftBrace => .ok (reader.await (.copyPairs keyword []))
  | .copyPairs keyword pairs, .text => .ok (reader.await (.copySource keyword pairs token))
  | .copyPairs keyword pairs, .rightBrace => .ok (reader.add (.copy keyword pairs))
  | .copySource keyword pairs source, .arrow =>
    .ok (reader.await (.copyArrow keyword pairs source token))
  | .copyArrow keyword pairs source arrow, .text =>
    .ok (reader.await (.copyNext keyword (pairs ++ [⟨source, arrow, token⟩])))
  | .copyNext keyword pairs, .comma => .ok (reader.await (.copyPairs keyword pairs))
  | .copyNext keyword pairs, .rightBrace => .ok (reader.add (.copy keyword pairs))
  | pending, _ => .error (unexpected token pending.expected)

def run (reader : Reader) : List Token → Except Diagnostic Reader
  | [] => .ok reader
  | token :: tokens =>
    match reader.step token with
    | .ok next => next.run tokens
    | .error diagnostic => .error diagnostic

/-- The statements of a file that ends here, after the token `last`. -/
def finish (reader : Reader) (last : Option Token) : Except Diagnostic (List Statement) :=
  match reader.pending.expected with
  | [] =>
    match reader.scopes with
    | [] => .ok reader.settle.current
    | (opener, _) :: _ =>
      .error (.located (.grammar (.unclosedScope opener.keyword.text)) opener.keyword.location)
  | expected =>
    let cause := Cause.grammar (.unexpectedEnd (expected.map TokenKind.expectedName))
    .error ⟨cause, last.map Token.location, cause.hints⟩

end Reader

/-- The statements of a list of tokens. -/
def Statement.read (tokens : List Token) : Except Diagnostic (List Statement) :=
  match Reader.run {} tokens with
  | .ok reader => reader.finish tokens.getLast?
  | .error diagnostic => .error diagnostic

/-- The statements of a source text. -/
def Statement.readSource (source : String) (file : Option FileId) :
    Except Diagnostic (List Statement) :=
  match Token.scan source file with
  | .ok tokens => Statement.read tokens
  | .error diagnostic => .error diagnostic

end Reskin
