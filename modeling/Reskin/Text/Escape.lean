/-!
# Escaped texts

Two spellings of a text with backslashes: one for the inside of a JSON string, and one that keeps
to printable ASCII.
-/

namespace Reskin.Text

/-- The spelling of a character inside a JSON string: quotes, backslashes and the three layout
characters are escaped, everything else stays. -/
def jsonEscapeChar (c : Char) : List Char :=
  if c = '"' then ['\\', '"']
  else if c = '\\' then ['\\', '\\']
  else if c = '\n' then ['\\', 'n']
  else if c = '\r' then ['\\', 'r']
  else if c = '\t' then ['\\', 't']
  else [c]

def jsonEscape (cs : List Char) : List Char :=
  cs.flatMap jsonEscapeChar

/-- The spelling of a character in printable ASCII. A character without a short escape is named by
its code point in braces. -/
def printableChar (c : Char) : List Char :=
  if c = '\t' then ['\\', 't']
  else if c = '\r' then ['\\', 'r']
  else if c = '\n' then ['\\', 'n']
  else if c = '\'' || c = '"' || c = '\\' then ['\\', c]
  else if 0x20 ≤ c.toNat && c.toNat < 0x7f then [c]
  else ['\\', 'u', '\x7b'] ++ Nat.toDigits 16 c.toNat ++ ['\x7d']

def printable (cs : List Char) : List Char :=
  cs.flatMap printableChar

end Reskin.Text
