import Reskin.Token.Kind

/-!
# Kinds of nodes

A file is shown to the user as a tree. Its inner nodes are statements and scopes, its leaves are
tokens. `NodeKind.allowedParents` is the table of scoping rules.
-/

namespace Reskin

/-- Where a variable can be used: in its own file, or in every file. -/
inductive DefinitionScope where
  | file
  | global
deriving DecidableEq, Inhabited, Repr

inductive NodeKind where
  | file
  | definition (scope : DefinitionScope)
  | matchBlock
  | forScope
  | anyBlock
  | identifiers
  | listing (target : Target)
  | setAll (target : Target)
  | mapAll
  | predicate
  | model
  | copy
  | copyPair
  | weight
  | token (kind : TokenKind)
deriving DecidableEq, Inhabited, Repr

namespace NodeKind

/-- The kinds of inner nodes. -/
def statements : List NodeKind :=
  [file, definition .file, definition .global, matchBlock, forScope, anyBlock, identifiers]
    ++ Target.all.map listing ++ Target.all.map setAll
    ++ [mapAll, predicate, model, copy, copyPair, weight]

def all : List NodeKind :=
  statements ++ TokenKind.all.map token

/-- The name of a kind in messages and in the dump of a file. -/
def name : NodeKind → String
  | file => "PARENT"
  | definition .file => "LET_STATEMENT"
  | definition .global => "GLOBAL_STATEMENT"
  | matchBlock => "MATCH_STATEMENT"
  | forScope => "FOR_STATEMENT"
  | anyBlock => "ANY_STATEMENT"
  | identifiers => "IDENTIFIER_LIST"
  | listing .items => "ITEM_LISTING_PREDICATE"
  | listing .armor => "ARMOR_LISTING_PREDICATE"
  | listing .armorLayer1 => "ARMOR_L1_LISTING_PREDICATE"
  | listing .armorLayer2 => "ARMOR_L2_LISTING_PREDICATE"
  | listing .elytras => "ELYTRA_LISTING_PREDICATE"
  | setAll .items => "ITEM_SETALL_PREDICATE"
  | setAll .armor => "ARMOR_SETALL_PREDICATE"
  | setAll .armorLayer1 => "ARMOR_L1_SETALL_PREDICATE"
  | setAll .armorLayer2 => "ARMOR_L2_SETALL_PREDICATE"
  | setAll .elytras => "ELYTRA_SETALL_PREDICATE"
  | mapAll => "MAPALL_PREDICATE"
  | predicate => "PREDICATE_STATEMENT"
  | model => "MODEL_STATEMENT"
  | copy => "COPY_STATEMENT"
  | copyPair => "COPY_FROM_TO_STATEMENT"
  | weight => "WEIGHT_STATEMENT"
  | token kind => kind.name

/-- How an expected node of this kind is described to the user. -/
def expectedName : NodeKind → String
  | token kind => kind.expectedName
  | kind => kind.name

def listings : List NodeKind :=
  Target.all.map listing

/-- The scopes that a node may stand directly in. -/
def allowedParents : NodeKind → List NodeKind
  | definition _ | matchBlock | anyBlock | copy => [file]
  | forScope => [matchBlock, anyBlock]
  | listing _ | setAll _ => [forScope]
  | predicate => matchBlock :: listings
  | weight => [matchBlock]
  | identifiers | mapAll | model => listings
  | copyPair => [copy]
  | file | token _ => []

end NodeKind

end Reskin
