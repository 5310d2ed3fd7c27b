import Reskin.Target

/-!
# Kinds of tokens

A token that starts with a quote is a text literal. Otherwise its text is looked up among the fixed
texts of keywords and marks; whatever is not found there is an identifier.
-/

namespace Reskin

inductive TokenKind where
  | identifier
  | text
  | matchKeyword
  | forKeyword
  | letKeyword
  | globalKeyword
  | anyKeyword
  | target (target : Target)
  | copy
  | model
  | weight
  | leftBrace
  | rightBrace
  | leftParen
  | rightParen
  | equals
  | arrow
  | comma
deriving DecidableEq, Inhabited, Repr

/-- The characters that open and close a text literal. -/
def isQuote (c : Char) : Bool :=
  c = '"' || c = '\''

namespace TokenKind

def keywords : List TokenKind :=
  [matchKeyword, forKeyword, letKeyword, globalKeyword, anyKeyword, target .items, target .armor,
    target .armorLayer1, target .armorLayer2, target .elytras, copy, model, weight]

def marks : List TokenKind :=
  [leftBrace, rightBrace, leftParen, rightParen, equals, arrow, comma]

def all : List TokenKind :=
  [identifier, text] ++ keywords ++ marks

/-- The fixed text of a kind. Identifiers and text literals have none. -/
def fixedText? : TokenKind → Option String
  | identifier | text => none
  | matchKeyword => some "match"
  | forKeyword => some "for"
  | letKeyword => some "let"
  | globalKeyword => some "global"
  | anyKeyword => some "any"
  | target t => some t.keyword
  | copy => some "copy"
  | model => some "model"
  | weight => some "#weight"
  | leftBrace => some "\x7b"
  | rightBrace => some "\x7d"
  | leftParen => some "("
  | rightParen => some ")"
  | equals => some "="
  | arrow => some "=>"
  | comma => some ","

def ofText (s : String) : TokenKind :=
  if s.toList.head?.any isQuote then text
  else ((keywords ++ marks).find? fun kind => kind.fixedText? == some s).getD identifier

def isKeyword (kind : TokenKind) : Bool :=
  keywords.contains kind

/-- The name of a kind in the dump of a file. -/
def name : TokenKind → String
  | identifier => "IDENTIFIER"
  | text => "STRING_LITERAL"
  | matchKeyword => "LITERAL_MATCH"
  | forKeyword => "LITERAL_FOR"
  | letKeyword => "LITERAL_LET"
  | globalKeyword => "LITERAL_GLOBAL"
  | anyKeyword => "LITERAL_ANY"
  | target .items => "LITERAL_ITEMS"
  | target .armor => "LITERAL_ARMOR"
  | target .armorLayer1 => "LITERAL_ARMOR_L1"
  | target .armorLayer2 => "LITERAL_ARMOR_L2"
  | target .elytras => "LITERAL_ELYTRAS"
  | copy => "LITERAL_COPY"
  | model => "LITERAL_MODEL"
  | weight => "LITERAL_WEIGHT"
  | leftBrace => "LBRACE"
  | rightBrace => "RBRACE"
  | leftParen => "LPAREN"
  | rightParen => "RPAREN"
  | equals => "SET"
  | arrow => "ARROW"
  | comma => "COMMA"

/-- How an expected token of this kind is described to the user. -/
def expectedName : TokenKind → String
  | identifier => "an identifier"
  | text => "a text literal"
  | kind =>
    match kind.fixedText? with
    | some s => "'" ++ s ++ "'"
    | none => kind.name

end TokenKind

end Reskin
