import Reskin.Diagnostic
import Reskin.Token.Piece

/-!
# From a source text to its tokens

The pieces of the text are given their places; the lexemes among them are the tokens. A fault lies
in the piece after the last complete one, so its place is where that piece starts.
-/

namespace Reskin.Token

/-- The tokens among the pieces that start at `position`, and the place after the last piece. -/
def place (file : Option FileId) (position : Position) : List Piece → List Token × Position
  | [] => ([], position)
  | piece :: pieces =>
    let (tokens, final) := place file (position.advanceAll piece.text) pieces
    match piece with
    | .gap _ => (tokens, final)
    | .lexeme text => (⟨String.ofList text, position.line, position.column, file⟩ :: tokens, final)

/-- The diagnostic of a fault in a piece that starts at `position`. -/
def faultAt (file : Option FileId) (position : Position) (fault : Piece.Fault) : Diagnostic :=
  .located (.lexical fault.cause)
    ⟨file, position.line, position.column + fault.offset, fault.length⟩

def scan (source : String) (file : Option FileId) : Except Diagnostic (List Token) :=
  let (pieces, fault) := Piece.split source.toList
  let (tokens, final) := place file {} pieces
  match fault with
  | none => .ok tokens
  | some fault => .error (faultAt file final fault)

end Reskin.Token
