import Reskin.Catalog
import Reskin.Config
import Reskin.Diagnostic
import Reskin.PackTree
import Reskin.PropertyFile
import Reskin.Text.Escape
import Reskin.Workspace

/-!
# From a workspace to a pack

The rules of each block are grouped by what they put on items; a group becomes a property file for
all items that its keys stand for. Property files with the same identity are merged, also across
blocks and files. Each of them that lists any item is written with a copy of its texture or model
beside it, under a name that nothing else in the pack has.
-/

namespace Reskin.Pack

/-! ## Keys -/

/-- Whether a rule of the given kind can be put on an item: armor textures go on armor only. -/
def accepts (kind : RuleKind) (item : String) : Bool :=
  !kind.isArmor || ItemId.isArmorPiece item

/-- The items that a key stands for. For armor, a key may also be a material. -/
def matchingItems (catalog : Catalog) (kind : RuleKind) (key : String) : List String :=
  let found := (catalog.family key).filter (accepts kind)
  if found.isEmpty && kind.isArmor && !Glob.hasWildcard key then
    (catalog.family (key ++ "_*")).filter (accepts kind)
  else found

/-- The items that a key stands for, with a warning if there are none. Ids of modifications are
kept as they are. -/
def expandKey (catalog : Catalog) (kind : RuleKind) (key : Token) : Reported (List String) :=
  if catalog.modded key.text then ⟨[key.text], []⟩
  else
    let items := matchingItems catalog kind key.text
    ⟨items, if items.isEmpty then [.located (.noItemMatches key.text) key.location] else []⟩

/-- The items that some keys stand for. -/
def expandKeys (catalog : Catalog) (kind : RuleKind) (keys : List Token) :
    Reported ItemSelection :=
  let results := keys.map (expandKey catalog kind)
  ⟨.ofList (results.flatMap Reported.value), results.flatMap Reported.diagnostics⟩

/-! ## Groups -/

/-- The rules of a block that put the same file on the same kind of things. -/
structure Group where
  asset : Asset
  kind : RuleKind
  rules : List Rule

namespace Group

/-- Adds a rule to the group it belongs to, or to a new one at the end. -/
def addTo (asset : Asset) (rule : Rule) : List Group → List Group
  | [] => [⟨asset, rule.kind, [rule]⟩]
  | group :: rest =>
    if group.asset = asset ∧ group.kind = rule.kind then
      { group with rules := group.rules ++ [rule] } :: rest
    else group :: addTo asset rule rest

/-- The groups of a list of rules, in the order of their first rules. -/
def ofRules (rules : List Rule) : List Group :=
  rules.foldl
    (fun groups rule =>
      match rule.asset? with
      | some asset => addTo asset rule groups
      | none => groups)
    []

def keys (group : Group) : List Token :=
  group.rules.flatMap Rule.keys

/-- Whether a group applies to everything of its kind: it has no keys, one of its rules does, or one
of its keys is `*`. -/
def matchesAll (group : Group) : Bool :=
  group.keys.isEmpty || group.rules.any Rule.isSetAll || group.keys.any fun key => key.text == "*"

def items (catalog : Catalog) (group : Group) : Reported ItemSelection :=
  if group.matchesAll then ⟨.all, []⟩ else expandKeys catalog group.kind group.keys

end Group

/-! ## Property files -/

/-- The property file of a group of a block. -/
def propertyFile (block : Block) (group : Group) (items : ItemSelection) : PropertyFile :=
  match group.asset with
  | .texture path => ⟨.texture, group.kind, path, items, block.conditions, block.weight⟩
  | .model path => ⟨.model, group.kind, path, items, block.conditions, block.weight⟩

/-- Complaints about rules that put nothing on items. -/
def invalidRules (block : Block) : List Diagnostic :=
  (block.rules.filter fun rule => rule.asset?.isNone).map fun _ =>
    .located
      (.invalidWorkspace ("the block at '" ++ block.token.text
        ++ "' contains a predicate without texture or model"))
      block.token.location

/-- The property files of a block. -/
def blockFiles (catalog : Catalog) (block : Block) : Reported (List PropertyFile) :=
  let results := (Group.ofRules block.rules).map fun group =>
    let items := group.items catalog
    (propertyFile block group items.value, items.diagnostics)
  ⟨results.map Prod.fst, invalidRules block ++ results.flatMap Prod.snd⟩

/-- The property files of a workspace, merged. -/
def propertyFiles (catalog : Catalog) (workspace : Workspace) : Reported (List PropertyFile) :=
  let results := workspace.blocks.map (blockFiles catalog)
  ⟨(results.flatMap Reported.value).foldl (fun files file => file.addTo files) [],
    results.flatMap Reported.diagnostics⟩

/-! ## Layout -/

def propertyDirectory : String :=
  "assets/minecraft/optifine/cit"

def metadata (format : Nat) (description : String) : String :=
  "\x7b\n  \"pack\": \x7b\n    \"pack_format\": " ++ toString format
    ++ ",\n    \"description\": \"" ++ String.ofList (Text.jsonEscape description.toList)
    ++ "\"\n  \x7d\n\x7d\n"

/-- A pack without property files and copies. -/
def skeleton (config : Config) : PackTree :=
  let tree := PackTree.empty.createDirectory propertyDirectory
  match config.packFormat with
  | some format => tree.insertAt "pack.mcmeta" (.text (metadata format config.description))
  | none => tree

def insertCopies (root : Path) (copies : List CopyEntry) (tree : PackTree) : PackTree :=
  copies.foldl
    (fun tree entry => tree.insertAt entry.destination (.copy (root.join entry.source))) tree

def propertyPath (name extension : String) : String :=
  propertyDirectory ++ "/" ++ name ++ "." ++ extension

/-- Whether a name is used by no property file and by no file with the extension. -/
def isFree (tree : PackTree) (extension name : String) : Bool :=
  !(tree.contains (propertyPath name "properties") || tree.contains (propertyPath name extension))

/-- The names that are tried for a property file: the base name, then the base name with numbers. -/
def candidate (base : String) : Nat → String
  | 0 => base
  | n + 1 => base ++ toString (n + 1)

/-- The first candidate that is free. Each one that is not takes a file of its own, so there is a
free one among as many candidates as there are files, and one more. -/
def freeName (tree : PackTree) (base extension : String) : String :=
  (((List.range (tree.fileCount + 1)).map (candidate base)).find? (isFree tree extension)).getD base

/-- Puts a property file and the file it refers to into the property directory of a pack. -/
def insertProperty (root : Path) (tree : PackTree) (file : PropertyFile) : PackTree :=
  let extension := file.variant.extension
  let name := freeName tree file.baseName extension
  PackTree.modifyDirectory
    (fun directory =>
      (directory.insertAt (name ++ ".properties") (.text (file.render name))).insertAt
        (name ++ "." ++ extension) (.copy (root.join file.target)))
    (PackTree.segments propertyDirectory) tree

/-- The pack of a workspace. Property files without items are left out. -/
def ofWorkspace (catalog : Catalog) (config : Config) (workspace : Workspace) :
    Reported PackTree := do
  let files ← propertyFiles catalog workspace
  let base := insertCopies workspace.root workspace.copies (skeleton config)
  return (files.filter fun file => !file.items.isEmpty).foldl (insertProperty workspace.root) base

end Reskin.Pack
