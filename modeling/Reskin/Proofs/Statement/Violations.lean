import Reskin.Proofs.Reader.Tokens
import Reskin.Statement.Node

/-!
# Every violation is reported once

The scoping rules are stated here a second time, on the tree of a file and without the statements it
is made of: a node with children stands somewhere (`Node.Site`), its parent has to be one that the
table allows, and some kinds of nodes need a child of some other kind. A violation is reported at
the leftmost token below its node. The check of a file walks over its statements, and meets `for`
scopes, assignments to listings and copied files only as parts of them; still it reports just what
the rules say about every node of the tree.

* **`Node.sites`** — the nodes with children below a node, in the order of the file.
* **`Node.Site.reports`** — what is reported about one of them.
* **`Node.Site.Accounts`** — the nodes of a stretch of the tree, the tokens they start with and all
  that is reported about them; **`Statement.accounts`** goes over the statements.
* **`Statement.check_eq_reports`** — the headline.
* **`Statement.completions_of_check`** — what completes a list of identifiers.
-/

namespace Reskin

/-! ## Nodes and their rules -/

namespace Node

/-- A node with children, and the kind of the node it is a child of. -/
structure Site where
  parent : NodeKind
  node : Node

mutual

/-- The nodes with children below a node. A node comes before those below it. -/
def sites : Node → List Site
  | leaf _ => []
  | branch kind children => sitesIn kind children

/-- The nodes with children among siblings and below them. -/
def sitesIn (parent : NodeKind) : List Node → List Site
  | [] => []
  | node :: rest =>
    (if node.children.isEmpty then [] else [⟨parent, node⟩]) ++ node.sites ++ sitesIn parent rest

end

/-- The number of children of a kind. -/
def count (node : Node) (kind : NodeKind) : Nat :=
  node.children.countP fun child => child.kind = kind

def hasChild (node : Node) (kind : NodeKind) : Bool :=
  node.children.any fun child => child.kind = kind

theorem hasChild_iff {node : Node} {kind : NodeKind} :
    node.hasChild kind = true ↔ 0 < node.count kind := by
  rw [hasChild, count, List.countP_pos_iff, List.any_eq_true]

theorem hasChild_eq_false_iff {node : Node} {kind : NodeKind} :
    node.hasChild kind = false ↔ node.count kind = 0 := by
  rw [← Bool.not_eq_true, hasChild_iff, Nat.pos_iff_ne_zero, Decidable.not_not]

/-- What is chained to a closing brace comes once, since it comes last and there is one last
child. -/
theorem ChainedLast.count_le_one {node : Node} {kind : NodeKind} (h : node.ChainedLast)
    (hkind : kind.isChained = true) : node.count kind ≤ 1 := by
  have hfront : node.children.dropLast.countP (fun child => child.kind = kind) = 0 := by
    rw [List.countP_eq_zero]
    intro child hchild heq
    rw [← of_decide_eq_true heq, h child hchild] at hkind
    cases hkind
  by_cases hnil : node.children = []
  · rw [count, hnil, List.countP_nil]
    exact Nat.zero_le 1
  · rw [count, ← List.dropLast_concat_getLast hnil, List.countP_append, hfront, Nat.zero_add]
    exact List.countP_le_length

namespace Site

/-- What is reported about a node in a scope that is not allowed for it. -/
def misplacement (site : Site) (token : Token) : List Diagnostic :=
  if site.parent ∈ site.node.kind.allowedParents then []
  else
    [.located
      (.scope (.wrongScope token.text site.node.kind.name
        (site.node.kind.allowedParents.map NodeKind.name)))
      token.location]

/-- What is reported about a node that lacks a child, or has one too many: a block needs a `for`
scope, and a listing with a list of identifiers needs an assignment to all of them or a model. -/
def incompleteness (site : Site) (token : Token) : List Diagnostic :=
  match site.node.kind with
  | .matchBlock | .anyBlock =>
    if site.node.hasChild .forScope then []
    else
      [.located (.scope (.missingChain site.node.kind.name NodeKind.forScope.name)) token.location]
  | .listing _ =>
    if site.node.hasChild .identifiers then
      match site.node.hasChild .mapAll, site.node.hasChild .model with
      | false, false => [.located (.scope .missingTexture) token.location]
      | true, true => [.located (.scope .ambiguousIdentifiers) token.location]
      | _, _ => []
    else []
  | _ => []

/-- What is reported about a node, at the leftmost token below it. -/
def reports (site : Site) : List Diagnostic :=
  match site.node.firstToken? with
  | some token => site.misplacement token ++ site.incompleteness token
  | none => []

end Site

/-! ## Walking over nodes -/

theorem sitesIn_append (parent : NodeKind) (a b : List Node) :
    sitesIn parent (a ++ b) = sitesIn parent a ++ sitesIn parent b := by
  induction a with
  | nil => rfl
  | cons node rest ih => simp only [List.cons_append, sitesIn, ih, List.append_assoc]

@[simp] theorem sitesIn_leaf (parent : NodeKind) (token : Token) (rest : List Node) :
    sitesIn parent (leaf token :: rest) = sitesIn parent rest := rfl

theorem sitesIn_leaves (parent : NodeKind) (tokens : List Token) :
    sitesIn parent (tokens.map leaf) = [] := by
  induction tokens with
  | nil => rfl
  | cons token rest ih => rw [List.map_cons, sitesIn_leaf, ih]

/-- A node that starts with a token comes first, and then what is behind the token. -/
theorem sitesIn_singleton (parent kind : NodeKind) (token : Token) (children : List Node) :
    sitesIn parent [branch kind (leaf token :: children)]
      = ⟨parent, branch kind (leaf token :: children)⟩ :: sitesIn kind children := by
  simp [sitesIn, sites, Node.children]

theorem Everywhere.self {property : Node → Prop} {node : Node} (h : node.Everywhere property) :
    property node := by
  cases node with
  | leaf token => exact h
  | branch kind children => exact h.1

mutual

/-- What holds everywhere in a tree holds of its sites. The induction is over trees and lists of
them together. -/
theorem forall_sites {property : Node → Prop} : ∀ node : Node, node.Everywhere property →
    ∀ site ∈ node.sites, property site.node
  | .leaf _, _, _, hsite => absurd hsite List.not_mem_nil
  | .branch kind children, h, site, hsite => forall_sitesIn kind children h.2 site hsite

theorem forall_sitesIn {property : Node → Prop} (parent : NodeKind) :
    ∀ nodes : List Node, EverywhereIn property nodes →
      ∀ site ∈ sitesIn parent nodes, property site.node
  | [], _, _, hsite => absurd hsite List.not_mem_nil
  | node :: rest, h, site, hsite => by
    rw [sitesIn, List.mem_append, List.mem_append] at hsite
    rcases hsite with (hnode | hbelow) | hrest
    · split at hnode
      · cases hnode
      · cases List.mem_singleton.mp hnode
        exact h.1.self
    · exact forall_sites node h.1 site hbelow
    · exact forall_sitesIn parent rest h.2 site hrest

end

end Node

/-! ## Nodes of statements -/

namespace Statement

/-- The leftmost token below the node of a statement is the first token of the statement. -/
theorem firstToken?_node (statement : Statement) :
    statement.node.firstToken? = some statement.firstToken := by
  cases statement <;> rfl

variable (keyword : Token) (body : List Statement) (uses : ForScope)

theorem any_kind_nodes {kind : NodeKind} {p : Statement → Bool}
    (h : ∀ statement : Statement, decide (statement.kind = kind) = p statement)
    (statements : List Statement) :
    (Statement.nodes statements).any (fun node => node.kind = kind) = statements.any p := by
  rw [nodes_eq_map, List.any_map]
  refine List.any_congr rfl fun statement => ?_
  rw [Function.comp_apply, kind_node, h]

/-- The children of a scope are found among its statements and what is chained to it. Its keyword is
a token and never asked for. -/
theorem hasChild_scope {kind child : NodeKind} {p : Statement → Bool}
    (h : ∀ statement : Statement, decide (statement.kind = child) = p statement)
    (htoken : child ≠ .token keyword.kind) (chained : List Node) :
    (Node.branch kind (.leaf keyword :: (Statement.nodes body ++ chained))).hasChild child
      = (body.any p || chained.any fun node => node.kind = child) := by
  have hkeyword : decide ((Node.leaf keyword).kind = child) = false :=
    decide_eq_false htoken.symm
  rw [Node.hasChild, Node.children, List.any_cons, hkeyword, Bool.false_or, List.any_append,
    any_kind_nodes h]

theorem hasChild_forScope :
    (Statement.matchBlock keyword body uses).node.hasChild .forScope = uses.isPresent := by
  have hnone : ∀ statement : Statement, decide (statement.kind = .forScope) = false := by
    intro statement
    cases statement <;> rfl
  rw [Statement.node, hasChild_scope keyword body hnone (by simp)]
  cases uses <;> simp [ForScope.nodes, ForScope.isPresent, Node.kind]

variable (target : Target) (mapAll : Option MapAll)

theorem hasChild_identifiers :
    (Statement.listing target keyword body mapAll).node.hasChild .identifiers
      = body.any isIdentifiers := by
  have hkind : ∀ statement : Statement,
      decide (statement.kind = .identifiers) = statement.isIdentifiers := by
    intro statement
    cases statement <;> rfl
  rw [Statement.node, hasChild_scope keyword body hkind (by simp)]
  cases mapAll <;> simp [MapAll.node, Node.kind]

theorem hasChild_model :
    (Statement.listing target keyword body mapAll).node.hasChild .model = body.any isModel := by
  have hkind : ∀ statement : Statement, decide (statement.kind = .model) = statement.isModel := by
    intro statement
    cases statement <;> rfl
  rw [Statement.node, hasChild_scope keyword body hkind (by simp)]
  cases mapAll <;> simp [MapAll.node, Node.kind]

theorem hasChild_mapAll :
    (Statement.listing target keyword body mapAll).node.hasChild .mapAll = mapAll.isSome := by
  have hnone : ∀ statement : Statement, decide (statement.kind = .mapAll) = false := by
    intro statement
    cases statement <;> rfl
  rw [Statement.node, hasChild_scope keyword body hnone (by simp)]
  cases mapAll <;> simp [MapAll.node, Node.kind]

/-- The rules for nodes, at the node of a statement, are those that the check goes by. The check
asks for parts of the statement where the rules ask for children of the node. -/
theorem reports_node (scope : NodeKind) (statement : Statement) :
    Node.Site.reports ⟨scope, statement.node⟩
      = statement.misplacement scope ++ statement.incompleteness := by
  have hplace : Node.Site.misplacement ⟨scope, statement.node⟩ statement.firstToken
      = statement.misplacement scope := by
    simp only [Node.Site.misplacement, misplacement, kind_node, List.contains_iff_mem]
  have hparts : Node.Site.incompleteness ⟨scope, statement.node⟩ statement.firstToken
      = statement.incompleteness := by
    rw [Node.Site.incompleteness, kind_node]
    cases statement with
    | matchBlock keyword body uses =>
      dsimp only [kind]
      rw [hasChild_forScope]
      rfl
    | anyBlock keyword uses => cases uses <;> rfl
    | listing target keyword body mapAll =>
      dsimp only [kind]
      rw [hasChild_identifiers, hasChild_model, hasChild_mapAll]
      rfl
    | _ => rfl
  rw [Node.Site.reports, firstToken?_node]
  dsimp only
  rw [hplace, hparts]

end Statement

/-! ## All nodes of a file -/

namespace Node.Site

/-- The nodes `sites` start with different tokens, in the order of `tokens`, and `reports` is all
that is reported about them. -/
structure Accounts (sites : List Site) (tokens : List Token) (reports : List Diagnostic) :
    Prop where
  isSome_firstToken? : ∀ site ∈ sites, site.node.firstToken?.isSome
  starts_sublist : (sites.filterMap fun site => site.node.firstToken?).Sublist tokens
  reports_eq : reports = sites.flatMap Site.reports

theorem Accounts.nil (tokens : List Token) : Accounts [] tokens [] :=
  ⟨List.forall_mem_nil _, List.nil_sublist tokens, rfl⟩

/-- What accounts for two lists of nodes accounts for both together, if their tokens stand in this
order. -/
theorem Accounts.append {a b : List Site} {tokensA tokensB : List Token}
    {reportsA reportsB : List Diagnostic} (ha : Accounts a tokensA reportsA)
    (hb : Accounts b tokensB reportsB) :
    Accounts (a ++ b) (tokensA ++ tokensB) (reportsA ++ reportsB) where
  isSome_firstToken? := List.forall_mem_append.mpr ⟨ha.isSome_firstToken?, hb.isSome_firstToken?⟩
  starts_sublist := by
    rw [List.filterMap_append]
    exact ha.starts_sublist.append hb.starts_sublist
  reports_eq := by rw [List.flatMap_append, ha.reports_eq, hb.reports_eq]

/-- A node comes with the token that it starts with, and with what is inside of it behind that. So
the nodes inside start with later tokens. -/
theorem Accounts.cons {site : Site} {token : Token} {inside : List Site} {tokens : List Token}
    {own reports : List Diagnostic} (htoken : site.node.firstToken? = some token)
    (hown : site.reports = own) (h : Accounts inside tokens reports) :
    Accounts (site :: inside) (token :: tokens) (own ++ reports) where
  isSome_firstToken? :=
    List.forall_mem_cons.mpr ⟨by rw [htoken, Option.isSome_some], h.isSome_firstToken?⟩
  starts_sublist := by
    rw [List.filterMap_cons, htoken]
    exact h.starts_sublist.cons_cons token
  reports_eq := by rw [List.flatMap_cons, hown, h.reports_eq]

end Node.Site

open Node.Site (Accounts)

theorem CopyPair.accounts (pairs : List CopyPair) :
    Accounts (Node.sitesIn .copy (pairs.map CopyPair.node)) (pairs.flatMap CopyPair.tokens) [] := by
  induction pairs with
  | nil => exact .nil []
  | cons pair rest ih =>
    have hpair : Accounts (Node.sitesIn .copy [pair.node]) pair.tokens [] :=
      .cons rfl rfl (.nil [pair.arrow, pair.destination])
    rw [List.map_cons, ← List.singleton_append, Node.sitesIn_append, List.flatMap_cons]
    exact hpair.append ih

theorem MapAll.accounts (target : Target) (mapAll : Option MapAll) :
    Accounts (Node.sitesIn (.listing target) (mapAll.map MapAll.node).toList)
      (mapAll.toList.flatMap MapAll.tokens) [] := by
  cases mapAll with
  | none => exact .nil []
  | some mapAll => cases target <;> exact .cons rfl rfl (.nil [mapAll.value])

namespace Statement

/-- A statement is accounted for as soon as everything behind its first token is. Each kind of
statement needs this once. -/
theorem accounts_of_children {statement : Statement} {children : List Node} {tokens : List Token}
    {reports : List Diagnostic} (scope : NodeKind)
    (hnode : statement.node = .branch statement.kind (.leaf statement.firstToken :: children))
    (htokens : statement.tokens = statement.firstToken :: tokens)
    (h : Accounts (Node.sitesIn statement.kind children) tokens reports) :
    Accounts (Node.sitesIn scope [statement.node]) statement.tokens
      (statement.misplacement scope ++ statement.incompleteness ++ reports) := by
  have hreports := statement.reports_node scope
  have hfirst := statement.firstToken?_node
  rw [hnode] at hreports hfirst
  rw [hnode, Node.sitesIn_singleton, htokens]
  exact .cons hfirst hreports h

mutual

/-- The nodes of a statement start with different tokens of it, and what the rules say about them is
what the check finds. Induction on the statement. -/
theorem accounts (scope : NodeKind) : ∀ statement : Statement,
    Accounts (Node.sitesIn scope [statement.node]) statement.tokens (statement.violations scope)
  | .matchBlock keyword body uses => by
    have hinside := (accountsAll .matchBlock body).append
      (accounts_forScope .matchBlock (.inl rfl) uses)
    rw [← Node.sitesIn_append] at hinside
    exact accounts_of_children scope rfl rfl hinside
  | .anyBlock keyword uses =>
    accounts_of_children scope rfl rfl (accounts_forScope .anyBlock (.inr rfl) uses)
  | .listing target keyword body mapAll => by
    have hinside := (accountsAll (.listing target) body).append (MapAll.accounts target mapAll)
    rw [← Node.sitesIn_append, List.append_nil] at hinside
    exact accounts_of_children scope rfl rfl hinside
  | .copy keyword pairs => accounts_of_children scope rfl rfl (CopyPair.accounts pairs)
  | .identifiers first rest => by
    have hinside := Accounts.nil rest
    rw [← Node.sitesIn_leaves .identifiers rest] at hinside
    exact accounts_of_children scope rfl rfl hinside
  | .definition _ _ assignment =>
    accounts_of_children scope rfl rfl (.nil assignment.tokens)
  | .setAll _ assignment | .predicate assignment | .model assignment | .weight assignment =>
    accounts_of_children scope rfl rfl (.nil [assignment.equals, assignment.value])

theorem accountsAll (scope : NodeKind) : ∀ statements : List Statement,
    Accounts (Node.sitesIn scope (Statement.nodes statements)) (Statement.tokensAll statements)
      (Statement.violationsAll scope statements)
  | [] => .nil []
  | statement :: rest => by
    rw [Statement.nodes, ← List.singleton_append, Node.sitesIn_append]
    exact (accounts scope statement).append (accountsAll scope rest)

/-- A `for` scope stands in a block, where it is allowed, and lacks nothing. So nothing is reported
about it but what is inside of it. -/
theorem accounts_forScope (parent : NodeKind)
    (hparent : parent = .matchBlock ∨ parent = .anyBlock) :
    ∀ uses : ForScope, Accounts (Node.sitesIn parent uses.nodes) uses.tokens uses.violations
  | .missing => .nil []
  | .present keyword body => by
    have hown : Node.Site.reports
        ⟨parent, .branch .forScope (.leaf keyword :: Statement.nodes body)⟩ = [] := by
      rcases hparent with rfl | rfl <;> rfl
    rw [ForScope.nodes, Node.sitesIn_singleton]
    exact .cons rfl hown (accountsAll .forScope body)

end

/-- What is reported about the nodes of a file is all that the check reports. -/
theorem accounts_ofFile (statements : List Statement) :
    Accounts (Node.ofFile statements).sites (Statement.tokensAll statements)
      (Statement.check statements) :=
  accountsAll .file statements

end Statement

/-! ## Files without violations -/

namespace Node.Site

variable {site : Site}

/-- Where nothing is reported, the node stands where it may and has what it needs. -/
theorem of_reports_eq_nil (hstart : site.node.firstToken?.isSome) (h : site.reports = []) :
    ∃ token, site.misplacement token = [] ∧ site.incompleteness token = [] := by
  obtain ⟨token, htoken⟩ := Option.isSome_iff_exists.mp hstart
  rw [reports, htoken] at h
  exact ⟨token, List.append_eq_nil_iff.mp h⟩

theorem parent_mem_of_misplacement {token : Token} (h : site.misplacement token = []) :
    site.parent ∈ site.node.kind.allowedParents := by
  refine Decidable.byContradiction fun hnot => ?_
  rw [misplacement, if_neg hnot] at h
  cases h

theorem hasChild_forScope_of_incompleteness {token : Token}
    (h : site.incompleteness token = [])
    (hkind : site.node.kind = .matchBlock ∨ site.node.kind = .anyBlock) :
    site.node.hasChild .forScope = true := by
  refine Decidable.byContradiction fun hnot => ?_
  rcases hkind with hkind | hkind <;>
  · rw [incompleteness, hkind] at h
    dsimp only at h
    rw [if_neg hnot] at h
    cases h

/-- A listing with a list of identifiers has an assignment to all of them or a model, not both. -/
theorem hasChild_model_of_incompleteness {token : Token} {target : Target}
    (h : site.incompleteness token = []) (hkind : site.node.kind = .listing target)
    (hlist : site.node.hasChild .identifiers = true) :
    site.node.hasChild .model = !site.node.hasChild .mapAll := by
  rw [incompleteness, hkind] at h
  dsimp only at h
  rw [if_pos hlist] at h
  cases hmap : site.node.hasChild .mapAll with
  | true =>
    refine Bool.eq_false_iff.mpr fun hmodel => ?_
    rw [hmap, hmodel] at h
    cases h
  | false =>
    refine (Bool.not_eq_false _).mp fun hmodel => ?_
    rw [hmap, hmodel] at h
    cases h

end Node.Site

namespace Statement

/-- The nodes of a file without violations have nothing reported about them, neither about where
they stand nor about what they lack. -/
theorem incompleteness_of_check {statements : List Statement}
    (h : Statement.check statements = []) :
    ∀ site ∈ (Node.ofFile statements).sites,
      ∃ token, site.misplacement token = [] ∧ site.incompleteness token = [] := by
  intro site hsite
  have haccounts := accounts_ofFile statements
  rw [haccounts.reports_eq, List.flatMap_eq_nil_iff] at h
  exact Node.Site.of_reports_eq_nil (haccounts.isSome_firstToken? site hsite) (h site hsite)

theorem count_chained_le_one {statements : List Statement} {site : Node.Site} {kind : NodeKind}
    (hsite : site ∈ (Node.ofFile statements).sites) (hkind : kind.isChained = true) :
    site.node.count kind ≤ 1 :=
  (Node.forall_sites _ (everywhere_ofFile statements) site hsite).count_le_one hkind

/-- **Every violation is reported once.** The nodes of a file start with different tokens of it, in
its order, and the check is the list of what the rules say about one node after the other. Where it
is empty, every node has a parent that is allowed and every block has one `for` scope. -/
theorem check_eq_reports {tokens : List Token} {statements : List Statement}
    (h : Statement.read tokens = .ok statements) :
    (∀ site ∈ (Node.ofFile statements).sites, site.node.firstToken?.isSome)
      ∧ ((Node.ofFile statements).sites.filterMap fun site => site.node.firstToken?).Sublist tokens
      ∧ Statement.check statements = (Node.ofFile statements).sites.flatMap Node.Site.reports
      ∧ (Statement.check statements = [] → ∀ site ∈ (Node.ofFile statements).sites,
          site.parent ∈ site.node.kind.allowedParents
            ∧ (site.node.kind = .matchBlock ∨ site.node.kind = .anyBlock →
                site.node.count .forScope = 1)) := by
  have haccounts := accounts_ofFile statements
  refine ⟨haccounts.isSome_firstToken?, ?_, haccounts.reports_eq, ?_⟩
  · rw [tokensAll_read h] at haccounts
    exact haccounts.starts_sublist.trans List.filter_sublist
  · intro hcheck site hsite
    obtain ⟨token, hplace, hparts⟩ := incompleteness_of_check hcheck site hsite
    refine ⟨Node.Site.parent_mem_of_misplacement hplace, fun hkind => ?_⟩
    have hsome := Node.hasChild_iff.mp
      (Node.Site.hasChild_forScope_of_incompleteness hparts hkind)
    exact Nat.le_antisymm (count_chained_le_one hsite rfl) hsome

/-- A fact about the statements of given tokens, found by reading them. -/
theorem exists_read_of_decide {tokens : List Token} {p : List Statement → Prop} [DecidablePred p]
    (h : (Statement.read tokens).toOption.any (fun statements => decide (p statements)) = true) :
    ∃ statements, Statement.read tokens = .ok statements ∧ p statements := by
  cases hread : Statement.read tokens with
  | error diagnostic =>
    rw [hread] at h
    cases h
  | ok statements =>
    rw [hread] at h
    exact ⟨statements, rfl, of_decide_eq_true h⟩

/-- A predicate outside of a block, and a block without its `for` scope. -/
def strayPredicate : List Token :=
  ["nbt", "=", "'a'", "match", "\x7b", "\x7d"].zipIdx.map fun (text, column) =>
    ⟨text, 0, column, none⟩

theorem check_eq_reports_strayPredicate :
    ∃ statements, Statement.read strayPredicate = .ok statements
      ∧ (Node.ofFile statements).sites.map (fun site => (site.parent, site.node.kind))
        = [(.file, .predicate), (.file, .matchBlock)]
      ∧ (Statement.check statements).length = 2
      ∧ Statement.check statements
        = (Node.ofFile statements).sites.flatMap Node.Site.reports := by
  obtain ⟨statements, hread, hsites, hlength⟩ : ∃ statements,
      Statement.read strayPredicate = .ok statements
        ∧ (Node.ofFile statements).sites.map (fun site => (site.parent, site.node.kind))
          = [(.file, .predicate), (.file, .matchBlock)]
        ∧ (Statement.check statements).length = 2 :=
    exists_read_of_decide (by decide +kernel)
  exact ⟨statements, hread, hsites, hlength, (check_eq_reports hread).2.2.1⟩

/-- **A list of identifiers is completed.** Where nothing is reported, a listing with a list of
identifiers has one assignment to all of them and no model, or no such assignment and at least one
model. Nothing limits the number of models, and only a second one makes the completion ambiguous. -/
theorem completions_of_check {statements : List Statement}
    (h : Statement.check statements = []) {site : Node.Site}
    (hsite : site ∈ (Node.ofFile statements).sites) {target : Target}
    (hkind : site.node.kind = .listing target) (hlist : 0 < site.node.count .identifiers) :
    (site.node.count .mapAll = 1 ∧ site.node.count .model = 0
        ∨ site.node.count .mapAll = 0 ∧ 1 ≤ site.node.count .model)
      ∧ (site.node.count .mapAll + site.node.count .model = 1 ↔ site.node.count .model ≤ 1) := by
  obtain ⟨token, -, hparts⟩ := incompleteness_of_check h site hsite
  have hmodel := Node.Site.hasChild_model_of_incompleteness hparts hkind
    (Node.hasChild_iff.mpr hlist)
  have hcases : site.node.count .mapAll = 1 ∧ site.node.count .model = 0
      ∨ site.node.count .mapAll = 0 ∧ 1 ≤ site.node.count .model := by
    cases hmap : site.node.hasChild .mapAll with
    | true =>
      have hsome := Node.hasChild_iff.mp hmap
      rw [hmap, Bool.not_true, Node.hasChild_eq_false_iff] at hmodel
      exact .inl ⟨Nat.le_antisymm (count_chained_le_one hsite rfl) hsome, hmodel⟩
    | false =>
      rw [hmap, Bool.not_false, Node.hasChild_iff] at hmodel
      exact .inr ⟨Node.hasChild_eq_false_iff.mp hmap, hmodel⟩
  refine ⟨hcases, ?_⟩
  omega

theorem completions_of_check_everyScope :
    ∃ statements, Statement.read everyScope = .ok statements
      ∧ ∃ site ∈ (Node.ofFile statements).sites, site.node.kind = .listing .items
        ∧ site.node.count .mapAll + site.node.count .model = 1 := by
  obtain ⟨statements, hread, hcheck, site, hsite, hkind, hlist, hmodel⟩ : ∃ statements,
      Statement.read everyScope = .ok statements
        ∧ Statement.check statements = []
        ∧ ∃ site ∈ (Node.ofFile statements).sites, site.node.kind = .listing .items
          ∧ 0 < site.node.count .identifiers ∧ site.node.count .model ≤ 1 :=
    exists_read_of_decide (by decide +kernel)
  exact ⟨statements, hread, site, hsite, hkind,
    (completions_of_check hcheck hsite hkind hlist).2.mpr hmodel⟩

/-- A list of one identifier with two models. -/
def twoModels : List Token :=
  ["any", "for", "\x7b", "items", "\x7b", "bow", "model", "=", "'a'", "model", "=", "'b'", "\x7d",
    "\x7d"].zipIdx.map fun (text, column) => ⟨text, 0, column, none⟩

/-- Nothing is reported about two models for one list of identifiers. -/
theorem twoModels_complete_twice :
    ∃ statements, Statement.read twoModels = .ok statements
      ∧ Statement.check statements = []
      ∧ ∃ site ∈ (Node.ofFile statements).sites, site.node.kind = .listing .items
        ∧ 0 < site.node.count .identifiers
        ∧ site.node.count .mapAll + site.node.count .model = 2 :=
  exists_read_of_decide (by decide +kernel)

end Statement
end Reskin
