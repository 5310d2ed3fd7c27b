import Reskin.Proofs.List
import Reskin.Proofs.Statement.Arena

/-!
# The numbers of the nodes of a tree

The table of a tree numbers its nodes from the root, a node before its children and the children in
order. That is the arena which is built by putting in the nodes in this order.

* **`Node.insertionsAll`** — the insertions for sibling trees.
* **`Arena.insertAll?_insertionsAll`** — what they add to an arena.
* **`Node.build?_insertionsAll`** — the arena of a file is the table of its tree.
* **`Node.firstTokenAt?_id`** — walks over the table are walks over the tree.
* **`Insertion.graft`** — insertions with more trees behind them, by which trees are put together
  from the front.
-/

namespace Reskin

/-! ## Sibling trees -/

namespace Node

mutual

/-- The insertions for a tree whose root gets the number `id`. -/
def insertions (parent id : Nat) : Node → List Insertion
  | leaf token => [.leaf token parent]
  | branch kind children => .branch kind parent :: insertionsAll id (id + 1) children

/-- The insertions for sibling trees of which the first one gets the number `id`. -/
def insertionsAll (parent id : Nat) : List Node → List Insertion
  | [] => []
  | node :: rest => node.insertions parent id ++ insertionsAll parent (id + node.size) rest

end

def insertion (parent : Nat) : Node → Insertion
  | leaf token => .leaf token parent
  | branch kind _ => .branch kind parent

/-- A row without the tree below it. -/
def Row.cell (row : Row) : Cell :=
  ⟨row.node.kind, row.node.token?, row.parent, row.children⟩

theorem cell_insertion (node : Node) (parent : Nat) :
    (node.insertion parent).cell = ⟨node.kind, node.token?, some parent, []⟩ := by
  cases node <;> rfl

theorem parent_insertion (node : Node) (parent : Nat) :
    (node.insertion parent).parent = parent := by
  cases node <;> rfl

/-! One equation for each function that goes over sibling trees. -/

theorem size_eq (node : Node) : node.size = sizeAll node.children + 1 := by
  cases node <;> rfl

theorem insertionsAll_cons (parent id : Nat) (node : Node) (rest : List Node) :
    insertionsAll parent id (node :: rest)
      = node.insertion parent :: (insertionsAll id (id + 1) node.children
        ++ insertionsAll parent (id + node.size) rest) := by
  cases node <;> rfl

theorem rowsAll_cons (parent id : Nat) (node : Node) (rest : List Node) :
    rowsAll parent id (node :: rest)
      = ⟨id, some parent, siblingIds (id + 1) node.children, node⟩
        :: (rowsAll id (id + 1) node.children ++ rowsAll parent (id + node.size) rest) := by
  cases node <;> rfl

theorem firstToken?_eq (node : Node) :
    node.firstToken? = (node.token? <|> firstTokenOf? node.children) := by
  cases node <;> rfl

/-- Every node of sibling trees is inserted once. -/
theorem length_insertionsAll (parent id : Nat) (nodes : List Node) :
    (insertionsAll parent id nodes).length = sizeAll nodes := by
  induction nodes using forestRec generalizing parent id with
  | nil => rfl
  | cons node rest ihChildren ihRest =>
    rw [insertionsAll_cons, List.length_cons, List.length_append, ihChildren, ihRest, sizeAll,
      size_eq]
    omega

theorem length_rowsAll (parent id : Nat) (nodes : List Node) :
    (rowsAll parent id nodes).length = sizeAll nodes := by
  induction nodes using forestRec generalizing parent id with
  | nil => rfl
  | cons node rest ihChildren ihRest =>
    rw [rowsAll_cons, List.length_cons, List.length_append, ihChildren, ihRest, sizeAll, size_eq]
    omega

end Node

/-! ## Building the table -/

namespace Arena

open Node

theorem insertAll?_append (arena : Arena) (a b : List Insertion) :
    arena.insertAll? (a ++ b) = (arena.insertAll? a).bind (·.insertAll? b) := by
  rw [insertAll?, List.foldlM_append]
  rfl

theorem insertAll?_cons (arena : Arena) (insertion : Insertion) (rest : List Insertion) :
    arena.insertAll? (insertion :: rest)
      = (arena.insert? insertion).bind (·.insertAll? rest) := by
  rw [insertAll?, List.foldlM_cons]
  rfl

/-- Sibling trees that are put below a node become its last children, and their rows the last rows.
Induction over the trees: first the root, then its children below it, then the trees behind. -/
theorem insertAll?_insertionsAll (cells : List Cell) {parent : Nat}
    (hparent : parent < cells.length) (nodes : List Node) :
    insertAll? ⟨cells⟩ (insertionsAll parent cells.length nodes)
      = some ⟨cells.modify parent (·.addChildren (siblingIds cells.length nodes))
        ++ (rowsAll parent cells.length nodes).map Row.cell⟩ := by
  induction nodes using forestRec generalizing cells parent with
  | nil =>
    have hsame : cells.modify parent (·.addChildren []) = cells := by
      simpa [Function.id_def] using List.modify_id parent cells
    rw [siblingIds, hsame]
    simp [insertionsAll, insertAll?, rowsAll]
  | cons node rest ihChildren ihRest =>
    -- The arena with the root of the first tree, and then with all of that tree.
    let front := cells.modify parent (·.addChildren [cells.length])
    let first : Row :=
      ⟨cells.length, some parent, siblingIds (cells.length + 1) node.children, node⟩
    let inner := (rowsAll cells.length (cells.length + 1) node.children).map Row.cell
    have hfront : front.length = cells.length := List.length_modify _ _ _
    have hroot : insert? ⟨cells⟩ (node.insertion parent)
        = some ⟨front ++ [(node.insertion parent).cell]⟩ := by
      rw [insert?, node.parent_insertion]
      exact if_pos hparent
    have hlast : front.length < (front ++ [(node.insertion parent).cell]).length := by simp
    have hchildren := ihChildren _ hlast
    rw [modify_concat, List.length_append, List.length_singleton, hfront] at hchildren
    have hcell : (node.insertion parent).cell.addChildren
        (siblingIds (cells.length + 1) node.children) = first.cell := by
      rw [node.cell_insertion]
      rfl
    rw [hcell] at hchildren
    have hlength : (front ++ [first.cell] ++ inner).length = cells.length + node.size := by
      rw [List.length_append, List.length_append, List.length_map, length_rowsAll, hfront, size_eq,
        List.length_singleton]
      omega
    have hkept : parent < (front ++ [first.cell] ++ inner).length := by omega
    have hrest := ihRest _ hkept
    rw [hlength, List.append_assoc front, modify_append_of_lt (by omega),
      List.modify_modify_eq] at hrest
    rw [insertionsAll_cons, insertAll?_cons, hroot, Option.bind_some, insertAll?_append, hchildren,
      Option.bind_some, List.append_assoc, hrest, rowsAll_cons, siblingIds]
    simp [Function.comp_def, inner, first]

end Arena

namespace Node

/-- **The table of a tree is the arena of its nodes**, inserted in the order of the file. -/
theorem build?_insertionsAll (nodes : List Node) :
    Arena.build? (insertionsAll 0 1 nodes) = some ⟨(branch .file nodes).rows.map Row.cell⟩ :=
  Arena.insertAll?_insertionsAll Arena.root.cells Nat.one_pos nodes

/-! ## Walks over the table -/

/-- The rows of sibling trees are numbered one by one, from the number of the first tree on. -/
theorem map_id_rowsAll (parent id : Nat) (nodes : List Node) :
    (rowsAll parent id nodes).map Row.id = List.range' id (sizeAll nodes) := by
  induction nodes using forestRec generalizing parent id with
  | nil => rfl
  | cons node rest ihChildren ihRest =>
    rw [rowsAll_cons, List.map_cons, List.map_append, ihChildren, ihRest, sizeAll, size_eq,
      ← Nat.add_assoc, Nat.add_right_comm id, List.range'_append_1, Nat.add_right_comm]
    rfl

/-- A row has the number of its place in the table, so looking it up by its number finds it. -/
theorem get?_id_of_mem_rows {nodes : List Node} {row : Row} (h : row ∈ (branch .file nodes).rows) :
    Arena.get? ⟨(branch .file nodes).rows.map Row.cell⟩ row.id = some row.cell := by
  have hids : (branch .file nodes).rows.map Row.id = List.range' 0 (sizeAll nodes + 1) := by
    rw [rows, rowsFrom, List.map_cons, map_id_rowsAll, List.range'_succ]
  obtain ⟨n, hn⟩ := List.mem_iff_getElem?.mp h
  have hid : some row.id = (List.range' 0 (sizeAll nodes + 1))[n]? := by
    rw [← hids, List.getElem?_map, hn, Option.map_some]
  have hsame : row.id = n := by
    obtain ⟨hlt, heq⟩ := List.getElem?_eq_some_iff.mp hid.symm
    simpa using heq.symm
  rw [hsame, Arena.get?, List.getElem?_map, hn, Option.map_some]

/-- Walks over rows that are all in an arena are walks over their trees. The second part, about the
list of the siblings, is what the induction needs for the node above them. -/
theorem firstTokenAt?_rowsAll {arena : Arena} (hwell : arena.IsWellFormed) {parent id : Nat}
    {nodes : List Node}
    (hrows : ∀ row ∈ rowsAll parent id nodes, arena.get? row.id = some row.cell) :
    (∀ row ∈ rowsAll parent id nodes, hwell.firstTokenAt? row.id = row.node.firstToken?)
      ∧ (siblingIds id nodes).findSome? hwell.firstTokenAt? = firstTokenOf? nodes := by
  induction nodes using forestRec generalizing parent id with
  | nil => exact ⟨List.forall_mem_nil _, rfl⟩
  | cons node rest ihChildren ihRest =>
    rw [rowsAll_cons, List.forall_mem_cons, List.forall_mem_append] at hrows ⊢
    obtain ⟨hroot, hchildren, hrest⟩ := hrows
    obtain ⟨hinner, hbelow⟩ := ihChildren hchildren
    obtain ⟨hbehind, hsiblings⟩ := ihRest hrest
    have hnode : hwell.firstTokenAt? id = node.firstToken? := by
      rw [hwell.firstTokenAt?_eq hroot]
      show (node.token? <|> (siblingIds (id + 1) node.children).findSome? hwell.firstTokenAt?) = _
      rw [hbelow, firstToken?_eq]
    refine ⟨⟨hnode, hinner, hbehind⟩, ?_⟩
    rw [siblingIds, List.findSome?_cons, hnode, hsiblings, firstTokenOf?]
    cases node.firstToken? <;> rfl

/-- **Walks over the table are walks over the tree**: for every row they find the first token of its
node. -/
theorem firstTokenAt?_id {nodes : List Node} {row : Row}
    (hwell : Arena.IsWellFormed ⟨(branch .file nodes).rows.map Row.cell⟩)
    (h : row ∈ (branch .file nodes).rows) :
    hwell.firstTokenAt? row.id = row.node.firstToken? := by
  have hrows : ∀ row ∈ (branch .file nodes).rows,
      Arena.get? ⟨(branch .file nodes).rows.map Row.cell⟩ row.id = some row.cell :=
    fun row hrow => get?_id_of_mem_rows hrow
  have hinner : ∀ row ∈ rowsAll 0 1 nodes, _ := fun row hrow =>
    hrows row (List.mem_cons_of_mem _ hrow)
  obtain ⟨hbelow, hsiblings⟩ := firstTokenAt?_rowsAll hwell hinner
  rcases List.mem_cons.mp h with rfl | h
  · exact (hwell.firstTokenAt?_eq (hrows _ List.mem_cons_self)).trans hsiblings
  · exact hbelow row h

end Node

/-! ## Trees behind other trees -/

theorem Node.insertionsAll_append (parent id : Nat) (a b : List Node) :
    Node.insertionsAll parent id (a ++ b)
      = Node.insertionsAll parent id a ++ Node.insertionsAll parent (id + Node.sizeAll a) b := by
  induction a generalizing id with
  | nil => rfl
  | cons node rest ih =>
    rw [List.cons_append, Node.insertionsAll, Node.insertionsAll, ih, Node.sizeAll,
      List.append_assoc, Nat.add_assoc]

namespace Insertion

/-- Insertions with more behind them, for sibling trees that are put below a node. -/
def graft (insertions : List Insertion) (parent : Nat) (nodes : List Node) : List Insertion :=
  insertions ++ Node.insertionsAll parent (insertions.length + 1) nodes

variable (insertions : List Insertion) (parent : Nat)

@[simp] theorem graft_nil : graft insertions parent [] = insertions :=
  List.append_nil insertions

theorem graft_append (a b : List Node) :
    graft insertions parent (a ++ b) = graft (graft insertions parent a) parent b := by
  rw [graft, graft, graft, Node.insertionsAll_append, List.append_assoc, List.length_append,
    Node.length_insertionsAll, Nat.add_right_comm]

/-- A tree is its root with its children below. -/
theorem graft_branch (kind : NodeKind) (children : List Node) :
    graft insertions parent [.branch kind children]
      = graft (insertions ++ [.branch kind parent]) (insertions.length + 1) children := by
  rw [graft, graft, Node.insertionsAll_cons, Node.insertionsAll, List.append_nil, List.append_assoc,
    List.length_append, List.length_singleton]
  rfl

/-- More children of a tree are put below its root. This is how a node grows while its file is
read. -/
theorem graft_branch_append (kind : NodeKind) (a b : List Node) :
    graft insertions parent [.branch kind (a ++ b)]
      = graft (graft insertions parent [.branch kind a]) (insertions.length + 1) b := by
  rw [graft_branch, graft_branch, graft_append]

theorem graft_leaves (tokens : List Token) :
    graft insertions parent (tokens.map .leaf)
      = insertions ++ tokens.map fun token => .leaf token parent := by
  have hleaves : ∀ id, Node.insertionsAll parent id (tokens.map .leaf)
      = tokens.map fun token => .leaf token parent := by
    induction tokens with
    | nil => exact fun id => rfl
    | cons token rest ih =>
      intro id
      rw [List.map_cons, Node.insertionsAll, ih]
      rfl
  rw [graft, hleaves]

end Insertion

end Reskin
