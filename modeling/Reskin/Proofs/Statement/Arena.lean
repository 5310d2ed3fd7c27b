import Mathlib.Data.List.Induction
import Reskin.Proofs.Statement.Dump

/-!
# Trees in an arena

A tree can be kept as a list of nodes that refer to each other by number. The list starts as the
root of a file. A new node goes to its end, and its number to the end of the children of its parent.
So numbers are never given twice, and a node has a larger number than its parent.

* **`Arena.insert?`** — one insertion. It fails if the parent is not there.
* **`Arena.IsWellFormed`** — what holds of the numbers in an arena. **`IsWellFormed.insert?`** is
  the step, **`Arena.exists_build?`** the run: nodes that are always put below nodes without a token
  build a well-formed arena.
* **`Arena.IsWellFormed.firstToken?`** — a walk down an arena. It ends, and finds all nodes that it
  asks for, since the arena is well formed.
* **`Arena.Records.exists_firstTokenAt?`** — where every node without a token was followed by its
  first child, a walk from such a node finds a token.
-/

namespace Reskin

/-! ## Nodes with numbers -/

/-- A node of an arena. It refers to the nodes around it by their numbers. -/
structure Cell where
  kind : NodeKind
  token : Option Token
  parent : Option Nat
  children : List Nat

/-- The node with more children. -/
def Cell.addChildren (cell : Cell) (ids : List Nat) : Cell :=
  { cell with children := cell.children ++ ids }

@[simp] theorem Cell.addChildren_nil (cell : Cell) : cell.addChildren [] = cell := by
  rw [addChildren, List.append_nil]

@[simp] theorem Cell.addChildren_addChildren (cell : Cell) (a b : List Nat) :
    (cell.addChildren a).addChildren b = cell.addChildren (a ++ b) := by
  rw [addChildren, addChildren, addChildren, List.append_assoc]

/-- A new node below the one with the number `parent`. -/
inductive Insertion where
  | branch (kind : NodeKind) (parent : Nat)
  | leaf (token : Token) (parent : Nat)

namespace Insertion

def parent : Insertion → Nat
  | branch _ parent | leaf _ parent => parent

/-- The new node. -/
def cell : Insertion → Cell
  | branch kind parent => ⟨kind, none, some parent, []⟩
  | leaf token parent => ⟨.token token.kind, some token, some parent, []⟩

@[simp] theorem parent_cell (insertion : Insertion) :
    insertion.cell.parent = some insertion.parent := by
  cases insertion <;> rfl

@[simp] theorem children_cell (insertion : Insertion) : insertion.cell.children = [] := by
  cases insertion <;> rfl

theorem token_cell_eq_some_iff {insertion : Insertion} {token : Token} :
    insertion.cell.token = some token ↔ insertion = .leaf token insertion.parent := by
  cases insertion <;> simp [cell, parent]

end Insertion

/-- The nodes of a file by their numbers. -/
structure Arena where
  cells : List Cell

namespace Arena

/-- The arena of an empty file. -/
def root : Arena :=
  ⟨[⟨.file, none, none, []⟩]⟩

/-- The number of nodes, which is also the number of the next node. -/
def size (arena : Arena) : Nat :=
  arena.cells.length

/-- The node with the given number. -/
def get? (arena : Arena) (id : Nat) : Option Cell :=
  arena.cells[id]?

/-- The node with a number that was given. -/
def get (arena : Arena) (id : Fin arena.size) : Cell :=
  arena.cells.get id

/-- Puts a node into an arena. There is no result if its parent is not there. -/
def insert? (arena : Arena) (insertion : Insertion) : Option Arena :=
  if insertion.parent < arena.size then
    some ⟨arena.cells.modify insertion.parent (·.addChildren [arena.size]) ++ [insertion.cell]⟩
  else none

/-- Puts nodes into an arena, one after the other. -/
def insertAll? (arena : Arena) (insertions : List Insertion) : Option Arena :=
  insertions.foldlM insert? arena

/-- The arena of a file after the given insertions. -/
def build? (insertions : List Insertion) : Option Arena :=
  root.insertAll? insertions

variable {arena next : Arena} {insertion : Insertion} {id : Nat} {cell : Cell}

theorem lt_size_of_get? (h : arena.get? id = some cell) : id < arena.size :=
  (List.getElem?_eq_some_iff.mp h).1

theorem get_eq (h : arena.get? id = some cell) : arena.get ⟨id, lt_size_of_get? h⟩ = cell :=
  (List.getElem?_eq_some_iff.mp h).2

theorem get?_eq (arena : Arena) (id : Fin arena.size) : arena.get? id = some (arena.get id) :=
  List.getElem?_eq_getElem id.isLt

theorem size_insert? (h : arena.insert? insertion = some next) : next.size = arena.size + 1 := by
  rw [insert?] at h
  split at h
  · cases h
    simp [size]
  · cases h

/-- What an insertion changes: the new node is there, and its parent has it for a child. All else
that is said about insertions is read off this equation. -/
theorem get?_insert? (h : arena.insert? insertion = some next) (id : Nat) :
    next.get? id = if id = arena.size then some insertion.cell
      else (arena.get? id).map
        (·.addChildren (if id = insertion.parent then [arena.size] else [])) := by
  rw [insert?] at h
  split at h
  · cases h
    rw [get?, get?, List.getElem?_append, List.length_modify, List.getElem?_modify]
    by_cases hid : id = arena.size
    · rw [if_pos hid, if_neg (by simp [hid, size]), hid]
      simp [size]
    · rw [if_neg hid]
      by_cases hlt : id < arena.cells.length
      · rw [if_pos hlt]
        by_cases hparent : id = insertion.parent
        · simp [hparent]
        · simp [hparent, Ne.symm hparent]
      · have hbeyond : [insertion.cell][id - arena.cells.length]? = none := by
          rw [List.getElem?_eq_none_iff, List.length_singleton]
          rw [size] at hid
          omega
        rw [if_neg hlt, hbeyond, List.getElem?_eq_none (Nat.le_of_not_lt hlt), Option.map_none]
  · cases h

/-- A node is there after an insertion if it was there before. -/
theorem get?_insert?_of_get? (h : arena.insert? insertion = some next)
    (hcell : arena.get? id = some cell) :
    next.get? id
      = some (cell.addChildren (if id = insertion.parent then [arena.size] else [])) := by
  rw [get?_insert? h, if_neg (Nat.ne_of_lt (lt_size_of_get? hcell)), hcell, Option.map_some]

/-- The nodes after an insertion are the new one and those that were there before. -/
theorem get?_insert?_cases (h : arena.insert? insertion = some next)
    (hcell : next.get? id = some cell) :
    (id = arena.size ∧ cell = insertion.cell)
      ∨ ∃ old, arena.get? id = some old
        ∧ cell = old.addChildren (if id = insertion.parent then [arena.size] else []) := by
  rw [get?_insert? h] at hcell
  split at hcell
  · next hid => exact .inl ⟨hid, (Option.some.inj hcell).symm⟩
  · obtain ⟨old, hold, rfl⟩ := Option.map_eq_some_iff.mp hcell
    exact .inr ⟨old, hold, rfl⟩

/-! ## Well-formed arenas -/

/-- What holds of the numbers in the arena of a file. -/
structure IsWellFormed (arena : Arena) : Prop where
  /-- The first node is the root of the file. -/
  root : ∃ cell, arena.get? 0 = some cell ∧ cell.kind = .file ∧ cell.token = none
    ∧ cell.parent = none
  /-- Every other node has a parent, which has a smaller number and lists it once. -/
  parent : ∀ id cell, 0 < id → arena.get? id = some cell →
    ∃ above, ∃ number < id, cell.parent = some number ∧ arena.get? number = some above
      ∧ above.children.count id = 1
  /-- A node lists nothing but nodes that it is the parent of. -/
  child : ∀ id cell, arena.get? id = some cell → ∀ number ∈ cell.children,
    ∃ below, arena.get? number = some below ∧ below.parent = some id
  ascending : ∀ id cell, arena.get? id = some cell → cell.children.Pairwise (· < ·)
  /-- A node with a token has no children, and the kind of the token. -/
  leaf : ∀ id cell token, arena.get? id = some cell → cell.token = some token →
    cell.children = [] ∧ cell.kind = .token token.kind

theorem isWellFormed_root : root.IsWellFormed := by
  have hget : ∀ id cell, root.get? id = some cell → id = 0 ∧ cell = ⟨.file, none, none, []⟩ := by
    intro id cell hcell
    have hid : id = 0 := Nat.lt_one_iff.mp (lt_size_of_get? hcell)
    subst hid
    exact ⟨rfl, (Option.some.inj hcell).symm⟩
  refine ⟨⟨_, rfl, rfl, rfl, rfl⟩, ?_, ?_, ?_, ?_⟩
  · intro id cell hpos hcell
    exact absurd (hget id cell hcell).1 (Nat.ne_of_gt hpos)
  · intro id cell hcell number hnumber
    rw [(hget id cell hcell).2] at hnumber
    cases hnumber
  · intro id cell hcell
    rw [(hget id cell hcell).2]
    exact .nil
  · intro id cell token hcell htoken
    rw [(hget id cell hcell).2] at htoken
    cases htoken

namespace IsWellFormed

/-- A child has a larger number than its parent, and is there. This makes walks down an arena
end. -/
theorem lt_of_mem_children (h : arena.IsWellFormed) (hcell : arena.get? id = some cell)
    {number : Nat} (hnumber : number ∈ cell.children) : id < number ∧ number < arena.size := by
  obtain ⟨below, hbelow, hparent⟩ := h.child id cell hcell number hnumber
  refine ⟨?_, lt_size_of_get? hbelow⟩
  rcases Nat.eq_zero_or_pos number with rfl | hpos
  · -- The root has no parent.
    obtain ⟨first, hfirst, -, -, hnone⟩ := h.root
    cases hfirst.symm.trans hbelow
    rw [hnone] at hparent
    cases hparent
  · obtain ⟨-, above, hlt, habove, -, -⟩ := h.parent number below hpos hbelow
    cases habove.symm.trans hparent
    exact hlt

/-- **The step.** A node that is put below a node without a token keeps an arena well formed. The
number of the new node was not in use, so no other node lists it. -/
theorem insert? (h : arena.IsWellFormed) (hinsert : arena.insert? insertion = some next)
    {above : Cell} (habove : arena.get? insertion.parent = some above)
    (htoken : above.token = none) : next.IsWellFormed := by
  -- No node lists a number that was not given yet.
  have hnew : ∀ id cell, arena.get? id = some cell → arena.size ∉ cell.children :=
    fun id cell hcell hmem => Nat.lt_irrefl _ (h.lt_of_mem_children hcell hmem).2
  refine ⟨?_, ?_, ?_, ?_, ?_⟩
  · obtain ⟨first, hfirst, hkind, hnone, hparent⟩ := h.root
    exact ⟨_, get?_insert?_of_get? hinsert hfirst, hkind, hnone, hparent⟩
  · intro id cell hpos hcell
    rcases get?_insert?_cases hinsert hcell with ⟨rfl, rfl⟩ | ⟨old, hold, rfl⟩
    · refine ⟨_, insertion.parent, lt_size_of_get? habove, insertion.parent_cell,
        get?_insert?_of_get? hinsert habove, ?_⟩
      simp [Cell.addChildren, List.count_eq_zero.mpr (hnew _ _ habove)]
    · obtain ⟨before, number, hlt, hnumber, hbefore, hcount⟩ := h.parent id old hpos hold
      refine ⟨_, number, hlt, hnumber, get?_insert?_of_get? hinsert hbefore, ?_⟩
      have hne : arena.size ≠ id := Nat.ne_of_gt (lt_size_of_get? hold)
      split <;> simp [Cell.addChildren, hcount, hne]
  · intro id cell hcell number hnumber
    rcases get?_insert?_cases hinsert hcell with ⟨rfl, rfl⟩ | ⟨old, hold, rfl⟩
    · rw [insertion.children_cell] at hnumber
      cases hnumber
    · rcases List.mem_append.mp hnumber with hnumber | hnumber
      · obtain ⟨below, hbelow, hparent⟩ := h.child id old hold number hnumber
        exact ⟨_, get?_insert?_of_get? hinsert hbelow, hparent⟩
      · -- The new number is listed by the parent of the new node only.
        split at hnumber
        · next hid =>
          rw [List.mem_singleton.mp hnumber, hid]
          exact ⟨insertion.cell, by rw [get?_insert? hinsert, if_pos rfl], insertion.parent_cell⟩
        · cases hnumber
  · intro id cell hcell
    rcases get?_insert?_cases hinsert hcell with ⟨rfl, rfl⟩ | ⟨old, hold, rfl⟩
    · rw [insertion.children_cell]
      exact .nil
    · refine List.pairwise_append.mpr ⟨h.ascending id old hold, by split <;> simp, ?_⟩
      intro number hnumber added hadded
      have hlt := (h.lt_of_mem_children hold hnumber).2
      split at hadded
      · rwa [List.mem_singleton.mp hadded]
      · cases hadded
  · intro id cell token hcell hsome
    rcases get?_insert?_cases hinsert hcell with ⟨rfl, rfl⟩ | ⟨old, hold, rfl⟩
    · refine ⟨insertion.children_cell, ?_⟩
      rw [Insertion.token_cell_eq_some_iff.mp hsome]
      rfl
    · obtain ⟨hnil, hkind⟩ := h.leaf id old token hold hsome
      have hne : id ≠ insertion.parent := by
        rintro rfl
        cases habove.symm.trans hold
        rw [Cell.addChildren, htoken] at hsome
        cases hsome
      rw [if_neg hne]
      exact ⟨by rw [Cell.addChildren, hnil]; rfl, hkind⟩

/-- **Walks down an arena end**: one cannot go from a node to a child forever, since numbers grow
along the way and stay below the size. -/
theorem wellFounded_child (h : arena.IsWellFormed) :
    WellFounded fun number id => ∃ cell, arena.get? id = some cell ∧ number ∈ cell.children := by
  refine Subrelation.wf ?_ (measure fun id => arena.size - id).wf
  rintro number id ⟨cell, hcell, hnumber⟩
  have hlt := h.lt_of_mem_children hcell hnumber
  show arena.size - number < arena.size - id
  omega

/-- The leftmost token below a node, which is its own if it has one. -/
def firstToken? (h : arena.IsWellFormed) (id : Fin arena.size) : Option Token :=
  (arena.get id).token <|> (arena.get id).children.attach.findSome? fun number =>
    h.firstToken? ⟨number.1, (h.lt_of_mem_children (arena.get?_eq id) number.2).2⟩
termination_by arena.size - id
decreasing_by
  have hlt := h.lt_of_mem_children (arena.get?_eq id) number.2
  show arena.size - number.1 < arena.size - id
  omega

/-- The leftmost token below the node with a number. There is none if the number was not given. -/
def firstTokenAt? (h : arena.IsWellFormed) (number : Nat) : Option Token :=
  if hlt : number < arena.size then h.firstToken? ⟨number, hlt⟩ else none

theorem firstTokenAt?_of_lt (h : arena.IsWellFormed) {number : Nat} (hlt : number < arena.size) :
    h.firstTokenAt? number = h.firstToken? ⟨number, hlt⟩ :=
  dif_pos hlt

/-- A walk goes on at the children of a node without a token. The equation is the one that trees
have. -/
theorem firstTokenAt?_eq (h : arena.IsWellFormed) (hcell : arena.get? id = some cell) :
    h.firstTokenAt? id = (cell.token <|> cell.children.findSome? h.firstTokenAt?) := by
  have hlt : id < arena.size := lt_size_of_get? hcell
  have hget : arena.get ⟨id, hlt⟩ = cell := get_eq hcell
  have hwalk : ∀ number (hnumber : number ∈ (arena.get ⟨id, hlt⟩).children),
      h.firstToken? ⟨number, (h.lt_of_mem_children (arena.get?_eq ⟨id, hlt⟩) hnumber).2⟩
        = h.firstTokenAt? number := fun number hnumber => (h.firstTokenAt?_of_lt _).symm
  rw [h.firstTokenAt?_of_lt hlt, firstToken?, List.findSome?_subtype hwalk, List.unattach_attach,
    hget]

end IsWellFormed

end Arena

/-! ## Insertions in order -/

namespace Insertion

/-- What stands at a place after one more insertion stood there before, or is the new one. -/
theorem getElem?_concat_cases {insertions : List Insertion} {insertion found : Insertion} {n : Nat}
    (h : (insertions ++ [insertion])[n]? = some found) :
    (n < insertions.length ∧ insertions[n]? = some found)
      ∨ (n = insertions.length ∧ found = insertion) := by
  rw [List.getElem?_append] at h
  split at h
  · next hlt => exact .inl ⟨hlt, h⟩
  · obtain ⟨hlt, hfound⟩ := List.getElem?_eq_some_iff.mp h
    rw [List.length_singleton] at hlt
    simp only [List.getElem_singleton] at hfound
    exact .inr ⟨by omega, hfound.symm⟩

/-- Whether the node with the given number is the root or was inserted without a token. -/
def HasBranch (insertions : List Insertion) : Nat → Prop
  | 0 => True
  | n + 1 => ∃ kind parent, insertions[n]? = some (.branch kind parent)

theorem HasBranch.append {a : List Insertion} {id : Nat} (h : HasBranch a id) (b : List Insertion) :
    HasBranch (a ++ b) id := by
  cases id with
  | zero => trivial
  | succ n =>
    obtain ⟨kind, parent, hn⟩ := h
    have hlt : n < a.length := (List.getElem?_eq_some_iff.mp hn).1
    exact ⟨kind, parent, by rw [List.getElem?_append_left hlt, hn]⟩

/-- Insertions in which parents are there before their children and have no tokens. A node without a
token is followed by its first child, which is a leaf. -/
structure AreOrderly (insertions : List Insertion) : Prop where
  parent : ∀ n insertion, insertions[n]? = some insertion →
    HasBranch (insertions.take n) insertion.parent
  first : ∀ n kind parent next, insertions[n]? = some (.branch kind parent) →
    insertions[n + 1]? = some next → ∃ token, next = .leaf token (n + 1)

variable {insertions : List Insertion} {insertion : Insertion}

theorem areOrderly_nil : AreOrderly [] :=
  ⟨fun _ _ h => by simp at h, fun _ _ _ _ h => by simp at h⟩

/-- The first insertions of an orderly list are orderly. So what is proved of orderly lists holds at
every moment while a file is read. -/
theorem AreOrderly.take (h : AreOrderly insertions) (n : Nat) : AreOrderly (insertions.take n) := by
  have hget : ∀ m found, (insertions.take n)[m]? = some found →
      m < n ∧ insertions[m]? = some found := by
    intro m found hfound
    rw [List.getElem?_take] at hfound
    split at hfound
    · next hlt => exact ⟨hlt, hfound⟩
    · cases hfound
  refine ⟨?_, ?_⟩
  · intro m found hfound
    obtain ⟨hlt, hfound⟩ := hget m found hfound
    rw [List.take_take, Nat.min_eq_left (Nat.le_of_lt hlt)]
    exact h.parent m found hfound
  · intro m kind parent next hbranch hnext
    exact h.first m kind parent next (hget _ _ hbranch).2 (hget _ _ hnext).2

/-- One more insertion. Behind a node without a token it has to be the first child of that node. -/
theorem AreOrderly.concat (h : AreOrderly insertions)
    (hparent : HasBranch insertions insertion.parent)
    (hlast : ∀ kind parent, insertions.getLast? = some (.branch kind parent) →
      ∃ token, insertion = .leaf token insertions.length) :
    AreOrderly (insertions ++ [insertion]) := by
  refine ⟨?_, ?_⟩
  · intro n found hfound
    rcases getElem?_concat_cases hfound with ⟨hlt, hfound⟩ | ⟨rfl, rfl⟩
    · rw [List.take_append_of_le_length (Nat.le_of_lt hlt)]
      exact h.parent n found hfound
    · rw [List.take_left]
      exact hparent
  · intro n kind parent next hbranch hnext
    rcases getElem?_concat_cases hnext with ⟨hlt, hnext⟩ | ⟨hlength, rfl⟩
    · rcases getElem?_concat_cases hbranch with ⟨-, hbranch⟩ | ⟨heq, -⟩
      · exact h.first n kind parent next hbranch hnext
      · omega
    · rcases getElem?_concat_cases hbranch with ⟨-, hbranch⟩ | ⟨heq, -⟩
      · rw [hlength]
        refine hlast kind parent ?_
        rw [List.getLast?_eq_getElem?, ← hlength, Nat.add_sub_cancel, hbranch]
      · omega

/-- Orderly insertions after which every node without a token has its first child. -/
structure AreComplete (insertions : List Insertion) : Prop extends AreOrderly insertions where
  last : ∀ kind parent, insertions.getLast? ≠ some (.branch kind parent)

theorem areComplete_nil : AreComplete [] :=
  ⟨areOrderly_nil, by simp⟩

theorem AreComplete.lt_length (h : AreComplete insertions) {n parent : Nat} {kind : NodeKind}
    (hbranch : insertions[n]? = some (.branch kind parent)) : n + 1 < insertions.length := by
  have hlt : n < insertions.length := (List.getElem?_eq_some_iff.mp hbranch).1
  refine Nat.lt_of_le_of_ne hlt fun heq => h.last kind parent ?_
  rw [List.getLast?_eq_getElem?, ← heq, Nat.add_sub_cancel, hbranch]

/-- A leaf can be added below every node without a token, and so can any number of leaves. -/
theorem AreComplete.leaves {parent : Nat} (h : AreComplete insertions)
    (hparent : HasBranch insertions parent) (tokens : List Token) :
    AreComplete (insertions ++ tokens.map fun token => .leaf token parent) := by
  induction tokens generalizing insertions with
  | nil => simpa using h
  | cons token rest ih =>
    have hfirst : AreComplete (insertions ++ [.leaf token parent]) :=
      ⟨h.concat hparent fun kind above hlast => absurd hlast (h.last kind above), by simp⟩
    simpa using ih hfirst (hparent.append _)

/-- A node without a token can be added below every other one, together with leaves. There has to be
at least one, as the new node is not complete without its first child. -/
theorem AreComplete.statement {parent : Nat} (h : AreComplete insertions)
    (hparent : HasBranch insertions parent) (kind : NodeKind) {tokens : List Token}
    (htokens : tokens ≠ []) :
    AreComplete (insertions
      ++ .branch kind parent :: tokens.map fun token => .leaf token (insertions.length + 1)) := by
  cases tokens with
  | nil => exact absurd rfl htokens
  | cons first rest =>
    have hbranch : AreOrderly (insertions ++ [.branch kind parent]) :=
      h.concat hparent fun kind above hlast => absurd hlast (h.last kind above)
    have hnew : HasBranch (insertions ++ [.branch kind parent]) (insertions.length + 1) :=
      ⟨kind, parent, by simp⟩
    -- The first leaf is the one that a node without a token is followed by.
    have hleaf : AreComplete (insertions ++ [.branch kind parent]
        ++ [.leaf first (insertions.length + 1)]) :=
      ⟨hbranch.concat hnew fun _ _ _ => ⟨first, by simp⟩, by simp⟩
    simpa using hleaf.leaves (hnew.append _) rest

end Insertion

/-! ## Arenas and what was inserted -/

namespace Arena

open Insertion

/-- Whether the nodes of an arena behind the root are those that were inserted, in order. -/
structure Records (arena : Arena) (insertions : List Insertion) : Prop where
  size : arena.size = insertions.length + 1
  cell : ∀ n insertion, insertions[n]? = some insertion →
    ∃ children, arena.get? (n + 1) = some (insertion.cell.addChildren children)

variable {arena next : Arena} {insertions : List Insertion} {insertion : Insertion} {n : Nat}
  {cell : Cell}

theorem records_root : root.Records [] :=
  ⟨rfl, fun _ _ h => by simp at h⟩

/-- The insertion that is made is recorded as the last one. Nodes that were there keep their kind
and token, and may get one more child. -/
theorem Records.insert? (h : arena.Records insertions)
    (hinsert : arena.insert? insertion = some next) : next.Records (insertions ++ [insertion]) := by
  refine ⟨by rw [size_insert? hinsert, h.size, List.length_append, List.length_singleton], ?_⟩
  intro n found hfound
  rcases getElem?_concat_cases hfound with ⟨-, hfound⟩ | ⟨rfl, rfl⟩
  · obtain ⟨children, hchildren⟩ := h.cell n found hfound
    exact ⟨_, by rw [get?_insert?_of_get? hinsert hchildren, Cell.addChildren_addChildren]⟩
  · refine ⟨[], ?_⟩
    rw [get?_insert? hinsert, if_pos h.size.symm, Cell.addChildren_nil]

/-- The node with a number other than the root, and what it was inserted as. -/
theorem Records.exists_insertion (h : arena.Records insertions)
    (hcell : arena.get? (n + 1) = some cell) :
    ∃ insertion children, insertions[n]? = some insertion
      ∧ cell = insertion.cell.addChildren children := by
  have hlt : n < insertions.length := by
    have hsize := lt_size_of_get? hcell
    rw [h.size] at hsize
    omega
  obtain ⟨children, hchildren⟩ := h.cell n _ (List.getElem?_eq_getElem hlt)
  exact ⟨_, children, List.getElem?_eq_getElem hlt, Option.some.inj (hcell.symm.trans hchildren)⟩

/-- **A node has a token just if it was inserted as a leaf.** Later insertions only add children. -/
theorem Records.token_iff (h : arena.Records insertions) {token : Token} :
    (∃ cell, arena.get? (n + 1) = some cell ∧ cell.token = some token)
      ↔ ∃ parent, insertions[n]? = some (.leaf token parent) := by
  constructor
  · rintro ⟨cell, hcell, htoken⟩
    obtain ⟨insertion, children, hinsertion, rfl⟩ := h.exists_insertion hcell
    exact ⟨insertion.parent, by rw [hinsertion, ← token_cell_eq_some_iff.mp htoken]⟩
  · rintro ⟨parent, hleaf⟩
    obtain ⟨children, hchildren⟩ := h.cell n _ hleaf
    exact ⟨_, hchildren, rfl⟩

/-- Nodes that were inserted without a token are there and have none. -/
theorem Records.exists_of_hasBranch (h : arena.Records insertions) (hwell : arena.IsWellFormed)
    {id : Nat} (hid : HasBranch insertions id) :
    ∃ cell, arena.get? id = some cell ∧ cell.token = none := by
  cases id with
  | zero =>
    obtain ⟨cell, hcell, -, htoken, -⟩ := hwell.root
    exact ⟨cell, hcell, htoken⟩
  | succ n =>
    obtain ⟨kind, parent, hbranch⟩ := hid
    obtain ⟨children, hchildren⟩ := h.cell n _ hbranch
    exact ⟨_, hchildren, rfl⟩

theorem build?_concat (insertions : List Insertion) (insertion : Insertion) :
    build? (insertions ++ [insertion]) = (build? insertions).bind (·.insert? insertion) := by
  rw [build?, insertAll?, List.foldlM_append]
  simp [build?, insertAll?, Option.bind_eq_bind]

/-- **The run.** Orderly insertions build a well-formed arena. Induction from the end of the list:
the parent of the last node is among those in front of it, which are orderly too. -/
theorem exists_build? (h : AreOrderly insertions) :
    ∃ arena, build? insertions = some arena ∧ arena.IsWellFormed ∧ arena.Records insertions := by
  induction insertions using List.reverseRecOn with
  | nil => exact ⟨root, rfl, isWellFormed_root, records_root⟩
  | append_singleton front insertion ih =>
    have hfront : AreOrderly front := by simpa using h.take front.length
    obtain ⟨arena, hbuild, hwell, hrecords⟩ := ih hfront
    -- The parent of the last node is among the nodes in front of it.
    have hparent : HasBranch front insertion.parent := by
      simpa using h.parent front.length insertion (by simp)
    obtain ⟨above, habove, htoken⟩ := hrecords.exists_of_hasBranch hwell hparent
    have hinsert : arena.insert? insertion = some _ := if_pos (lt_size_of_get? habove)
    exact ⟨_, by rw [build?_concat, hbuild, Option.bind_some, hinsert],
      hwell.insert? hinsert habove htoken, hrecords.insert? hinsert⟩

/-- The first child of a node that was not inserted last. It is listed by the node, and as the
children ascend there is no number between the two. -/
theorem Records.exists_first (h : arena.Records insertions) (hwell : arena.IsWellFormed)
    (horderly : AreOrderly insertions) (hcell : arena.get? (n + 1) = some cell)
    (htoken : cell.token = none) (hlt : n + 1 < insertions.length) :
    cell.children.head? = some (n + 2)
      ∧ ∃ token, insertions[n + 1]? = some (.leaf token (n + 1)) := by
  obtain ⟨insertion, children, hinsertion, rfl⟩ := h.exists_insertion hcell
  have hnext : insertions[n + 1]? = some insertions[n + 1] := List.getElem?_eq_getElem hlt
  cases insertion with
  | leaf token parent => cases htoken
  | branch kind parent =>
    obtain ⟨token, hleaf⟩ := horderly.first n kind parent _ hinsertion hnext
    rw [hleaf] at hnext
    refine ⟨?_, token, hnext⟩
    -- The node lists the next one, and no number in front of it.
    obtain ⟨more, hbelow⟩ := h.cell (n + 1) _ hnext
    obtain ⟨above, number, -, hnumber, habove, hcount⟩ :=
      hwell.parent (n + 2) _ (Nat.succ_pos _) hbelow
    cases hnumber
    cases hcell.symm.trans habove
    have hmem : n + 2 ∈ children := List.count_pos_iff.mp (hcount ▸ Nat.one_pos)
    have hascending := hwell.ascending _ _ hcell
    have hlarger : ∀ number ∈ children, n + 1 < number := fun number hnumber =>
      (hwell.lt_of_mem_children hcell hnumber).1
    cases children with
    | nil => cases hmem
    | cons first rest =>
      have hfirst := hlarger first List.mem_cons_self
      rcases List.mem_cons.mp hmem with rfl | hmem
      · rfl
      · have hbefore := (List.pairwise_cons.mp hascending).1 (n + 2) hmem
        omega

/-- **A node without a token has a first child, and starts with the token of that child**, once it
was followed by other insertions. -/
theorem Records.firstTokenAt?_eq (h : arena.Records insertions) (hwell : arena.IsWellFormed)
    (horderly : AreOrderly insertions) (hcell : arena.get? (n + 1) = some cell)
    (htoken : cell.token = none) {token : Token} {parent : Nat}
    (hleaf : insertions[n + 1]? = some (.leaf token parent)) :
    hwell.firstTokenAt? (n + 1) = some token := by
  have hlt : n + 1 < insertions.length := (List.getElem?_eq_some_iff.mp hleaf).1
  obtain ⟨hfirst, -⟩ := h.exists_first hwell horderly hcell htoken hlt
  obtain ⟨rest, hrest⟩ := List.head?_eq_some_iff.mp hfirst
  obtain ⟨children, hbelow⟩ := h.cell (n + 1) _ hleaf
  have hown : hwell.firstTokenAt? (n + 2) = some token := by
    rw [hwell.firstTokenAt?_eq hbelow]
    rfl
  rw [hwell.firstTokenAt?_eq hcell, htoken, hrest, List.findSome?_cons, hown]
  rfl

/-- Complete insertions leave no node without a first token but the root. -/
theorem Records.exists_firstTokenAt? (h : arena.Records insertions) (hwell : arena.IsWellFormed)
    (hcomplete : AreComplete insertions) (hcell : arena.get? (n + 1) = some cell)
    (htoken : cell.token = none) :
    cell.children.head? = some (n + 2) ∧ ∃ token, hwell.firstTokenAt? (n + 1) = some token := by
  obtain ⟨insertion, children, hinsertion, hsame⟩ := h.exists_insertion hcell
  have hlt : n + 1 < insertions.length := by
    cases insertion with
    | leaf token parent =>
      rw [hsame] at htoken
      cases htoken
    | branch kind parent => exact hcomplete.lt_length hinsertion
  obtain ⟨hfirst, token, hleaf⟩ :=
    h.exists_first hwell hcomplete.toAreOrderly hcell htoken hlt
  exact ⟨hfirst, token, h.firstTokenAt?_eq hwell hcomplete.toAreOrderly hcell htoken hleaf⟩

/-- Whether an arena is what the insertions build, with all that holds of it while nodes are put in.
Only the node that was inserted last may lack its first child. -/
structure IsArenaOf (arena : Arena) (insertions : List Insertion) : Prop where
  built : build? insertions = some arena
  wellFormed : arena.IsWellFormed
  token_iff : ∀ n token, (∃ cell, arena.get? (n + 1) = some cell ∧ cell.token = some token)
    ↔ ∃ parent, insertions[n]? = some (.leaf token parent)
  first : ∀ id cell, 0 < id → id + 1 < arena.size → arena.get? id = some cell →
    cell.token = none → cell.children.head? = some (id + 1)

theorem exists_isArenaOf (h : AreOrderly insertions) : ∃ arena, IsArenaOf arena insertions := by
  obtain ⟨arena, hbuild, hwell, hrecords⟩ := exists_build? h
  refine ⟨arena, hbuild, hwell, fun n token => hrecords.token_iff, ?_⟩
  intro id cell hpos hlt hcell htoken
  obtain ⟨n, rfl⟩ := Nat.exists_eq_add_one.mpr hpos
  rw [hrecords.size] at hlt
  exact (hrecords.exists_first hwell h hcell htoken (by omega)).1

end Arena

end Reskin
