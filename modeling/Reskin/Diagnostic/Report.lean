import Reskin.Diagnostic
import Reskin.Text.Width

/-!
# Reports

A diagnostic is shown with the source line it points at and its hints. A report is a list of lines,
each made of spans of text with a style; `render` writes it with or without colours.

If the source line is shown, the frame around it is as wide as its line number, and the hints are
aligned with that frame.
-/

namespace Reskin.Report

/-- The ways a text can stand out. -/
inductive Style where
  | error
  | warning
  | help
  | frame
  | bold
deriving DecidableEq, Inhabited, Repr

def Style.codes : Style → String
  | error => "1;38;5;9"
  | warning => "1;38;5;11"
  | help => "1;38;5;14"
  | frame => "1;38;5;12"
  | bold => "1"

/-- A text in one style. -/
structure Span where
  text : String
  style : Option Style := none
deriving DecidableEq, Inhabited, Repr

/-- A span as it is sent to a terminal with or without colours. -/
def Span.render (colored : Bool) (span : Span) : String :=
  match span.style with
  | some style =>
    if colored then "\x1b[" ++ style.codes ++ "m" ++ span.text ++ "\x1b[0m" else span.text
  | none => span.text

abbrev Line := List Span

def blanks (n : Nat) : String :=
  "".pushn ' ' n

def severityStyle : Severity → Style
  | .error => .error
  | .warning => .warning

/-- The character that marks the text a diagnostic points at. -/
def severityMark : Severity → Char
  | .error => '^'
  | .warning => '-'

def heading (diagnostic : Diagnostic) : Line :=
  [⟨diagnostic.severity.name ++ "[" ++ diagnostic.cause.stage ++ "]",
      some (severityStyle diagnostic.severity)⟩,
    ⟨": ", none⟩, ⟨diagnostic.cause.message, some .bold⟩]

/-! ## The source line -/

/-- The source line that a location lies in, with its file. -/
def sourceLine? (sources : Sources) (location : Location) : Option (SourceFile × String) := do
  let id ← location.file
  let file ← sources.get? id
  let line ← file.line? location.line
  return (file, line)

/-- The width of the frame: that of the line number, unless the line is empty. -/
def frameWidth (location : Location) (text : String) : Nat :=
  if text.isEmpty then 0 else (toString location.line).length

def frameLine (width : Nat) : Line :=
  [⟨blanks width ++ " |", some .frame⟩]

def origin (width : Nat) (location : Location) (text : String) (path : Path) : Line :=
  let place :=
    if text.isEmpty then path.text
    else
      let column := (location.markedRange text.length).1 + 1
      path.text ++ ":" ++ toString location.line ++ ":" ++ toString column
  [⟨blanks width, none⟩, ⟨"-->", some .frame⟩, ⟨" " ++ place, none⟩]

/-- A source line with the marked range below it. -/
def excerpt (severity : Severity) (width : Nat) (location : Location) (text : String) :
    List Line :=
  let cs := text.toList
  let (start, stop) := location.markedRange cs.length
  let before := Text.width (cs.take start)
  let through := Text.width (cs.take stop)
  let marks := "".pushn (severityMark severity) (through - before)
  [[⟨toString location.line ++ " |", some .frame⟩, ⟨" " ++ text, none⟩],
    [⟨blanks width ++ " |", some .frame⟩,
      ⟨blanks (1 + before) ++ marks, some (severityStyle severity)⟩]]

/-- The source line with its frame. -/
def snippet (severity : Severity) (location : Location) (file : SourceFile) (text : String) :
    List Line :=
  let width := frameWidth location text
  (file.path.map (origin width location text)).toList ++ [frameLine width]
    ++ (if text.isEmpty then [] else excerpt severity width location text) ++ [frameLine width]

/-! ## Notes and hints -/

/-- A text below the source line, introduced by a label. The label takes six columns, so further
lines of the text are moved in by nine. -/
def footer (width : Nat) (label : Span) (text : String) : List Line :=
  match Text.messageLines text.toList with
  | [] => []
  | first :: rest =>
    [⟨blanks width ++ " ", none⟩, ⟨"=", some .frame⟩, ⟨" ", none⟩, label,
        ⟨": " ++ String.ofList first, none⟩]
      :: rest.map fun line => [⟨blanks (width + 9) ++ String.ofList line, none⟩]

/-- The place of a diagnostic whose source line is not known. -/
def placeNote (location : Location) : List Line :=
  footer 0 ⟨"note", some .bold⟩
    ("at line " ++ toString location.line ++ ", column " ++ toString location.column)

def lines (sources : Sources) (diagnostic : Diagnostic) : List Line :=
  let hints (width : Nat) := diagnostic.hints.flatMap (footer width ⟨"help", some .help⟩)
  let body :=
    match diagnostic.location with
    | none => hints 0
    | some location =>
      match sourceLine? sources location with
      | some (file, text) =>
        snippet diagnostic.severity location file text ++ hints (frameWidth location text)
      | none => placeNote location ++ hints 0
  heading diagnostic :: body

/-- A diagnostic as text. -/
def render (colored : Bool) (sources : Sources) (diagnostic : Diagnostic) : String :=
  "\n".intercalate ((lines sources diagnostic).map fun line =>
    String.join (line.map (Span.render colored)))

/-- A list of diagnostics as text, with an empty line between them. -/
def renderAll (colored : Bool) (sources : Sources) (diagnostics : List Diagnostic) : String :=
  "\n\n".intercalate (diagnostics.map (render colored sources))

end Reskin.Report
