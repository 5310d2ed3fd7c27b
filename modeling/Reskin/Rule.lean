import Reskin.Statement.Kind
import Reskin.Token

/-!
# Rules

A rule says which texture or model is put on which items. A block holds the rules that apply to
items which fulfil its conditions. Copied files are rules too, since they stand beside the blocks
of a file.
-/

namespace Reskin

/-- What a rule concerns: a target, or the items that a block matches. -/
inductive RuleKind where
  | target (target : Target)
  | condition
deriving DecidableEq, Inhabited, Repr

namespace RuleKind

def name : RuleKind → String
  | target t => t.keyword
  | condition => "match"

/-- The rule kind that a node gives rise to. -/
def ofNode? : NodeKind → Option RuleKind
  | .listing t | .setAll t => some (target t)
  | .matchBlock | .anyBlock => some condition
  | _ => none

/-- Whether the rule concerns worn armor. -/
def isArmor : RuleKind → Bool
  | target t => t.isArmor
  | condition => false

end RuleKind

/-- A key with its value: a condition of a block, or an item with its texture. -/
structure Entry where
  key : Token
  value : String
  kind : RuleKind
deriving DecidableEq, Inhabited, Repr

/-- A file to copy, seen from the input directory, and its place in the pack. -/
structure CopyEntry where
  source : String
  destination : String
  token : Token
deriving DecidableEq, Inhabited, Repr

/-- The file that a rule puts on items. -/
inductive Asset where
  | texture (path : String)
  | model (path : String)
deriving DecidableEq, Inhabited, Repr

inductive Rule where
  /-- One item with its texture. -/
  | entry (entry : Entry)
  /-- A texture for everything of its kind. -/
  | setAll (kind : RuleKind) (texture : String) (token : Token)
  /-- A texture for several items. -/
  | mapAll (kind : RuleKind) (keys : List Token) (texture : String) (token : Token)
  /-- A model for several items. -/
  | model (keys : List Token) (model : String) (token : Token)
  /-- Rules for the items that fulfil conditions. -/
  | block (conditions : List Entry) (rules : List Rule) (weight : Int) (token : Token)
  /-- Files to copy. -/
  | copy (entries : List CopyEntry)

instance : Inhabited Rule := ⟨.copy []⟩

namespace Rule

def keys : Rule → List Token
  | entry e => [e.key]
  | mapAll _ keys _ _ | model keys _ _ => keys
  | setAll _ _ _ | block _ _ _ _ | copy _ => []

/-- What a rule concerns. Models are put on items. -/
def kind : Rule → RuleKind
  | entry e => e.kind
  | setAll kind _ _ | mapAll kind _ _ _ => kind
  | model _ _ _ => .target .items
  | block _ _ _ _ | copy _ => .condition

def asset? : Rule → Option Asset
  | entry e => some (.texture e.value)
  | setAll _ texture _ | mapAll _ _ texture _ => some (.texture texture)
  | model _ path _ => some (.model path)
  | block _ _ _ _ | copy _ => none

/-- Whether a rule concerns everything of its kind. -/
def isSetAll : Rule → Bool
  | setAll _ _ _ => true
  | _ => false

end Rule

/-- A block with its conditions and rules. -/
structure Block where
  conditions : List Entry
  rules : List Rule
  weight : Int
  token : Token

namespace Block

def toRule (block : Block) : Rule :=
  .block block.conditions block.rules block.weight block.token

def ofRule? : Rule → Option Block
  | .block conditions rules weight token => some ⟨conditions, rules, weight, token⟩
  | _ => none

def keys (block : Block) : List Token :=
  block.rules.flatMap Rule.keys

end Block

end Reskin
