import Reskin.Statement
import Reskin.Text.Escape

/-!
# The tree of a file

Statements are shown as a tree of nodes. `Node.dump` writes the tree as indented text;
`Node.rows` numbers the nodes from the root, a node before its children and the children in order,
and lists them in a table.
-/

namespace Reskin

/-- A node of the tree: a token, or a statement or scope with its children. -/
inductive Node where
  | leaf (token : Token)
  | branch (kind : NodeKind) (children : List Node)

namespace Node

def kind : Node → NodeKind
  | leaf token => .token token.kind
  | branch kind _ => kind

def token? : Node → Option Token
  | leaf token => some token
  | branch _ _ => none

def children : Node → List Node
  | leaf _ => []
  | branch _ children => children

end Node

/-! ## From statements to nodes -/

def Assignment.leaves (assignment : Assignment) : List Node :=
  [.leaf assignment.key, .leaf assignment.equals, .leaf assignment.value]

def CopyPair.node (pair : CopyPair) : Node :=
  .branch .copyPair [.leaf pair.source, .leaf pair.arrow, .leaf pair.destination]

def MapAll.node (mapAll : MapAll) : Node :=
  .branch .mapAll [.leaf mapAll.equals, .leaf mapAll.value]

mutual

def Statement.node : Statement → Node
  | .definition scope keyword assignment =>
    .branch (.definition scope) (.leaf keyword :: assignment.leaves)
  | .matchBlock keyword body uses =>
    .branch .matchBlock (.leaf keyword :: (Statement.nodes body ++ uses.nodes))
  | .anyBlock keyword uses => .branch .anyBlock (.leaf keyword :: uses.nodes)
  | .listing target keyword body mapAll =>
    .branch (.listing target)
      (.leaf keyword :: (Statement.nodes body ++ (mapAll.map MapAll.node).toList))
  | .setAll target assignment => .branch (.setAll target) assignment.leaves
  | .predicate assignment => .branch .predicate assignment.leaves
  | .model assignment => .branch .model assignment.leaves
  | .weight assignment => .branch .weight assignment.leaves
  | .identifiers first rest => .branch .identifiers ((first :: rest).map .leaf)
  | .copy keyword pairs => .branch .copy (.leaf keyword :: pairs.map CopyPair.node)

def Statement.nodes : List Statement → List Node
  | [] => []
  | statement :: rest => statement.node :: Statement.nodes rest

/-- The node of a `for` scope, if it is there. -/
def ForScope.nodes : ForScope → List Node
  | .missing => []
  | .present keyword body => [.branch .forScope (.leaf keyword :: Statement.nodes body)]

end

/-- The tree of a file. -/
def Node.ofFile (statements : List Statement) : Node :=
  .branch .file (Statement.nodes statements)

/-! ## The dump -/

namespace Node

/-- The line of a node: its kind, and place and text of a token. -/
def label : Node → String
  | leaf token =>
    token.kind.name ++ "@" ++ toString token.line ++ ":" ++ toString token.column ++ " '"
      ++ String.ofList (Text.printable token.text.toList) ++ "'"
  | branch kind _ => kind.name

mutual

/-- The lines of a node and of everything below it, two blanks further in for each level. -/
def lines (depth : Nat) : Node → List String
  | leaf token => ["".pushn ' ' (2 * depth) ++ (leaf token).label]
  | branch kind children =>
    ("".pushn ' ' (2 * depth) ++ kind.name) :: linesAll (depth + 1) children

def linesAll (depth : Nat) : List Node → List String
  | [] => []
  | node :: rest => node.lines depth ++ linesAll depth rest

end

/-- The tree as text, one node a line. -/
def dump (node : Node) : String :=
  String.join ((node.lines 0).map (· ++ "\n"))

/-! ## The table of nodes -/

mutual

def size : Node → Nat
  | leaf _ => 1
  | branch _ children => sizeAll children + 1

def sizeAll : List Node → Nat
  | [] => 0
  | node :: rest => node.size + sizeAll rest

end

mutual

/-- The leftmost token of a tree. -/
def firstToken? : Node → Option Token
  | leaf token => some token
  | branch _ children => firstTokenOf? children

/-- The leftmost token of a list of trees. -/
def firstTokenOf? : List Node → Option Token
  | [] => none
  | node :: rest => node.firstToken? <|> firstTokenOf? rest

end

/-- The numbers of sibling trees of which the first one has the number `id`. -/
def siblingIds (id : Nat) : List Node → List Nat
  | [] => []
  | node :: rest => id :: siblingIds (id + node.size) rest

/-- A row of the table: a node with its number and the numbers around it. -/
structure Row where
  id : Nat
  parent : Option Nat
  children : List Nat
  node : Node

namespace Row

/-- The numbers of the children that are content, which is all of them but the keyword. -/
def content (row : Row) : List Nat :=
  if row.node.kind = .file then row.children else row.children.drop 1

/-- The tokens of the children that are leaves. -/
def leafTokens (row : Row) : List Token :=
  row.node.children.filterMap token?

def childOfKind? (row : Row) (kind : NodeKind) : Option Nat :=
  ((row.children.zip row.node.children).find? fun (_, child) => child.kind == kind).map Prod.fst

end Row

mutual

/-- The rows of a tree whose root has the number `id`. -/
def rowsFrom (parent : Option Nat) (id : Nat) : Node → List Row
  | leaf token => [⟨id, parent, [], leaf token⟩]
  | branch kind children =>
    ⟨id, parent, siblingIds (id + 1) children, branch kind children⟩
      :: rowsAll id (id + 1) children

/-- The rows of sibling trees of which the first one has the number `id`. -/
def rowsAll (parent : Nat) (id : Nat) : List Node → List Row
  | [] => []
  | node :: rest => rowsFrom (some parent) id node ++ rowsAll parent (id + node.size) rest

end

/-- The table of a tree. -/
def rows (node : Node) : List Row :=
  rowsFrom none 0 node

end Node

end Reskin
