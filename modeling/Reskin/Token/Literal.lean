import Reskin.Token

/-!
# The value of a text literal

The quotes are dropped and the escapes are replaced. One table says which single characters may
follow a backslash and what they stand for; the lexer admits exactly the escapes of that table and
`\uXXXX`.
-/

namespace Reskin.Literal

/-- The character that a backslash and `c` stand for, if the pair is an escape. -/
def escape? (c : Char) : Option Char :=
  match c with
  | 'n' => some '\n'
  | 't' => some '\t'
  | 'b' => some '\x08'
  | 'f' => some '\x0c'
  | 'r' => some '\r'
  | '"' => some '"'
  | '\'' => some '\''
  | '\\' => some '\\'
  | c => if c.isDigit then some (Char.ofNat (c.toNat - 48)) else none

def hexDigit? (c : Char) : Option Nat :=
  if c.isDigit then some (c.toNat - 48)
  else if 'a' ≤ c ∧ c ≤ 'f' then some (c.toNat - 87)
  else if 'A' ≤ c ∧ c ≤ 'F' then some (c.toNat - 55)
  else none

def isHexDigit (c : Char) : Bool :=
  (hexDigit? c).isSome

/-- The number that a run of hexadecimal digits after `value` stands for. -/
def hexValue? (value : Nat) : List Char → Option Nat
  | [] => some value
  | c :: cs => (hexDigit? c).bind fun digit => hexValue? (value * 16 + digit) cs

/-- The number in a code point escape: a sign is allowed in front of the digits, and at least one
digit is needed. -/
def codePoint? (digits : List Char) : Option Nat :=
  match digits with
  | [] | ['+'] => none
  | '+' :: digits => hexValue? 0 digits
  | digits => hexValue? 0 digits

/-- The character with the given code point. Surrogates name no character. -/
def charOfCodePoint? (n : Nat) : Option Char :=
  if n.isValidChar then some (Char.ofNat n) else none

/-- The value of a code point escape with the given digits, which stays as it is if it names no
character. -/
def unescapeCodePoint (digits : List Char) : List Char :=
  match (codePoint? digits).bind charOfCodePoint? with
  | some c => [c]
  | none => '\\' :: 'u' :: digits

/-- A text with its escapes replaced. A backslash in front of any other character is dropped, one at
the end is kept. -/
def unescape : List Char → List Char
  | [] => []
  | ['\\'] => ['\\']
  | '\\' :: 'u' :: rest => unescapeCodePoint (rest.take 4) ++ unescape (rest.drop 4)
  | '\\' :: c :: rest => (escape? c).getD c :: unescape rest
  | c :: rest => c :: unescape rest
termination_by cs => cs.length
decreasing_by all_goals simp <;> omega

/-- The inside of a text in matching quotes. -/
def unquote? (cs : List Char) : Option (List Char) :=
  match cs with
  | [] => none
  | quote :: rest =>
    if isQuote quote && rest.getLast? == some quote then some rest.dropLast else none

end Reskin.Literal

namespace Reskin.Token

/-- The value of a token: the text that a literal stands for, and the token's own text for
everything else. -/
def value (token : Token) : String :=
  match Literal.unquote? token.text.toList with
  | some inner => String.ofList (Literal.unescape inner)
  | none => token.text

end Reskin.Token
