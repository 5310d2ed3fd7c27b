import Reskin.Source
import Reskin.Token.Kind

/-!
# Tokens

A token keeps the text it was read from, quotes and escapes included, and the place of its first
character. Two tokens are equal to the compiler if their texts are, wherever they stand.
-/

namespace Reskin

/-- A token with the place of its first character. -/
structure Token where
  text : String
  line : Nat := 0
  column : Nat := 0
  file : Option FileId := none
deriving DecidableEq, Inhabited, Repr

namespace Token

def sameText (a b : Token) : Bool :=
  a.text == b.text

/-- The kind of a token follows from its text. -/
def kind (token : Token) : TokenKind :=
  TokenKind.ofText token.text

def location (token : Token) : Location :=
  ⟨token.file, token.line, token.column, token.text.length⟩

/-- Adds the tokens whose text does not occur yet, in their order. -/
def addNew (known : List Token) (tokens : List Token) : List Token :=
  tokens.foldl
    (fun known token => if known.any token.sameText then known else known ++ [token]) known

end Token

end Reskin
