import Reskin.Proofs.Text.Escape
import Reskin.Proofs.Text.Lines
import Reskin.Statement.Node

/-!
# The dump of a tree

The dump shows everything about a tree but the files of its tokens. Each line shows one node: its
kind, and of a token the place and the text as well. How far a line is indented shows how deep its
node lies, so the children of a node end at the first line that is not indented further than it.

* **`NodeKind.name_inj`**, **`Node.unfiled_eq_of_label`** — what one line shows.
* **`Node.forestRec`** — induction over sibling trees, by first child and next sibling.
* **`Node.linesAll_inj`** — lines that start less far in do not belong to sibling trees, so the
  trees can be read off the lines.
* **`Node.dump_eq_iff`** — two trees have the same dump just if they differ in files only.
-/

namespace Reskin

/-! ## Names of kinds -/

namespace NodeKind

theorem mem_all (kind : NodeKind) : kind ∈ all := by
  cases kind with
  | definition scope => cases scope <;> decide
  | listing target => cases target <;> decide
  | setAll target => cases target <;> decide
  | token kind =>
    cases kind with
    | target target => cases target <;> decide
    | _ => decide
  | _ => decide

/-- Different kinds have different names. There are finitely many kinds, and their names are
compared. -/
theorem name_inj {a b : NodeKind} (h : a.name = b.name) : a = b := by
  have hnodup : (all.map name).Nodup := by decide +kernel
  exact List.inj_on_of_nodup_map hnodup (mem_all a) (mem_all b) h

/-- A name is one word. -/
theorem not_mem_name (kind : NodeKind) {c : Char} (h : c ∈ ['@', ' ', '\n']) :
    c ∉ kind.name.toList := by
  have hall : (all.all fun kind => ['@', ' ', '\n'].all fun c =>
      !kind.name.toByteArray.data.toList.contains c.toUInt8) = true := by
    decide +kernel
  have hkind := List.all_eq_true.mp (List.all_eq_true.mp hall kind (mem_all kind)) c h
  refine Text.not_mem_of_not_mem_bytes c.toUInt8 ?_ (by simpa using hkind)
  simp only [List.mem_cons, List.not_mem_nil, or_false] at h
  rcases h with rfl | rfl | rfl <;> decide

theorem name_ne_empty (kind : NodeKind) : kind.name ≠ "" := by
  have hall : (all.all fun kind => kind.name ≠ "") = true := by decide +kernel
  simpa using List.all_eq_true.mp hall kind (mem_all kind)

end NodeKind

/-! ## Trees without files -/

/-- A token without its file. -/
def Token.unfiled (token : Token) : Token :=
  { token with file := none }

namespace Node

mutual

/-- A tree without the files of its tokens. -/
def unfiled : Node → Node
  | leaf token => leaf token.unfiled
  | branch kind children => branch kind (unfiledAll children)

/-- Sibling trees without the files of their tokens. -/
def unfiledAll : List Node → List Node
  | [] => []
  | node :: rest => node.unfiled :: unfiledAll rest

end

/-- Induction over sibling trees: the first tree by its children, and the trees behind it. It stands
for two inductions, over trees and over lists of them. -/
@[elab_as_elim]
theorem forestRec {motive : List Node → Prop} (nil : motive [])
    (cons : ∀ node rest, motive node.children → motive rest → motive (node :: rest)) :
    ∀ nodes, motive nodes
  | [] => nil
  | leaf token :: rest => cons (leaf token) rest nil (forestRec nil cons rest)
  | branch kind children :: rest =>
    cons (branch kind children) rest (forestRec nil cons children) (forestRec nil cons rest)

@[simp] theorem children_unfiled (node : Node) :
    node.unfiled.children = unfiledAll node.children := by
  cases node <;> rfl

/-! ## What one line shows -/

theorem toList_label_leaf (token : Token) :
    (leaf token).label.toList
      = (NodeKind.token token.kind).name.toList ++ '@' :: ((toString token.line).toList
        ++ ':' :: ((toString token.column).toList
          ++ ' ' :: '\'' :: (Text.printable token.text.toList ++ ['\'']))) := by
  simp [label, NodeKind.name]

@[simp] theorem label_unfiled (node : Node) : node.unfiled.label = node.label := by
  cases node <;> rfl

/-- The line of a token shows its text, line and column. They can be told apart by the marks between
them, and the text is spelled in a way that can be read back. -/
theorem unfiled_eq_of_label_leaf {a b : Token} (h : (leaf a).label = (leaf b).label) :
    a.unfiled = b.unfiled := by
  have hparts := congrArg String.toList h
  rw [toList_label_leaf, toList_label_leaf] at hparts
  -- The parts are read off one after the other, each up to the mark behind it.
  have hname : ∀ kind : NodeKind, '@' ∉ kind.name.toList := fun kind =>
    kind.not_mem_name (by decide)
  obtain ⟨-, hparts⟩ := Text.append_separator_inj (hname _) (hname _) hparts
  obtain ⟨hline, hparts⟩ := Text.append_separator_inj (Text.not_mem_toString_nat rfl _)
    (Text.not_mem_toString_nat rfl _) hparts
  obtain ⟨hcolumn, hparts⟩ := Text.append_separator_inj (Text.not_mem_toString_nat rfl _)
    (Text.not_mem_toString_nat rfl _) hparts
  have htext := Text.printable_inj (List.append_cancel_right (List.cons.inj hparts).2)
  rw [Token.unfiled, Token.unfiled, String.toList_inj.mp htext, Text.toString_nat_inj hline,
    Text.toString_nat_inj hcolumn]

/-- The label of a token has a mark that no name of a kind has. -/
theorem label_leaf_ne_name (token : Token) (kind : NodeKind) : (leaf token).label ≠ kind.name := by
  intro h
  apply kind.not_mem_name (c := '@') (by decide)
  rw [← h, toList_label_leaf]
  simp

/-- A node is determined by its line and by its children. Other nodes than tokens show their kind
only. -/
theorem unfiled_eq_of_label {a b : Node} (h : a.label = b.label)
    (hchildren : unfiledAll a.children = unfiledAll b.children) : a.unfiled = b.unfiled := by
  cases a with
  | leaf token =>
    cases b with
    | leaf other => exact congrArg leaf (unfiled_eq_of_label_leaf h)
    | branch kind children => exact absurd h (label_leaf_ne_name token kind)
  | branch kind children =>
    cases b with
    | leaf other => exact absurd h.symm (label_leaf_ne_name other kind)
    | branch otherKind others => exact congrArg₂ branch (NodeKind.name_inj h) hchildren

theorem newline_not_mem_label (node : Node) : '\n' ∉ node.label.toList := by
  have hname : ∀ kind : NodeKind, '\n' ∉ kind.name.toList := fun kind =>
    kind.not_mem_name (by decide)
  have hnumber : ∀ n : Nat, '\n' ∉ (toString n).toList := Text.not_mem_toString_nat rfl
  cases node with
  | leaf token =>
    rw [toList_label_leaf]
    simp only [List.mem_append, List.mem_cons, List.not_mem_nil, or_false, not_or]
    exact ⟨hname _, by decide, hnumber _, by decide, hnumber _, by decide, by decide,
      Text.newline_not_mem_printable _, by decide⟩
  | branch kind children => exact hname kind

/-- A label does not start with a blank, so the blanks in front of it are the indentation. -/
theorem takeWhile_label (node : Node) : node.label.toList.takeWhile (· = ' ') = [] := by
  have hname : ∀ (kind : NodeKind) rest, (kind.name.toList ++ rest).takeWhile (· = ' ') = [] := by
    intro kind rest
    obtain ⟨c, cs, hcs⟩ :=
      List.exists_cons_of_ne_nil (mt String.toList_eq_nil_iff.mp kind.name_ne_empty)
    have hc : c ≠ ' ' := by
      rintro rfl
      exact kind.not_mem_name (c := ' ') (by decide) (by simp [hcs])
    rw [hcs, List.cons_append, List.takeWhile_cons_of_neg (by simpa using hc)]
  cases node with
  | leaf token => rw [toList_label_leaf, hname]
  | branch kind children =>
    show kind.name.toList.takeWhile (· = ' ') = []
    rw [← List.append_nil kind.name.toList, hname]

/-! ## Lines -/

def line (depth : Nat) (node : Node) : String :=
  "".pushn ' ' (2 * depth) ++ node.label

theorem toList_line (depth : Nat) (node : Node) :
    (node.line depth).toList = List.replicate (2 * depth) ' ' ++ node.label.toList := by
  rw [line, String.toList_append, Text.toList_pushn]
  simp

theorem lines_eq (depth : Nat) (node : Node) :
    node.lines depth = node.line depth :: linesAll (depth + 1) node.children := by
  cases node <;> simp [lines, line, label, children, linesAll]

theorem linesAll_cons (depth : Nat) (node : Node) (rest : List Node) :
    linesAll depth (node :: rest)
      = node.line depth :: (linesAll (depth + 1) node.children ++ linesAll depth rest) := by
  rw [linesAll, lines_eq, List.cons_append]

theorem label_eq_of_line {depth : Nat} {a b : Node} (h : a.line depth = b.line depth) :
    a.label = b.label := by
  have hlists := congrArg String.toList h
  rw [toList_line, toList_line] at hlists
  exact String.toList_inj.mp (List.append_cancel_left hlists)

/-- Every line of a tree is one line, as line breaks in texts are shown as escapes. -/
theorem isOneLine_of_mem_linesAll {nodes : List Node} {depth : Nat} {text : String}
    (h : text ∈ linesAll depth nodes) : Text.IsOneLine text := by
  induction nodes using forestRec generalizing depth with
  | nil => cases h
  | cons node rest ihChildren ihRest =>
    rw [linesAll_cons, List.mem_cons, List.mem_append] at h
    rcases h with rfl | h | h
    · rw [Text.IsOneLine, toList_line]
      simp [newline_not_mem_label]
    · exact ihChildren h
    · exact ihRest h

theorem linesAll_unfiledAll (depth : Nat) (nodes : List Node) :
    linesAll depth (unfiledAll nodes) = linesAll depth nodes := by
  induction nodes using forestRec generalizing depth with
  | nil => rfl
  | cons node rest ihChildren ihRest =>
    rw [unfiledAll, linesAll_cons, linesAll_cons, children_unfiled, ihChildren, ihRest, line, line,
      label_unfiled]

/-! ## Depths -/

def indentation (text : String) : Nat :=
  (text.toList.takeWhile (· = ' ')).length

theorem indentation_line (depth : Nat) (node : Node) :
    indentation (node.line depth) = 2 * depth := by
  have hblank : ∀ c ∈ List.replicate (2 * depth) ' ', decide (c = ' ') = true := by simp
  rw [indentation, toList_line, List.takeWhile_append_of_pos hblank, takeWhile_label,
    List.append_nil, List.length_replicate]

/-- Lines that do not start as far in as siblings at a depth. -/
def StartsBefore (depth : Nat) (texts : List String) : Prop :=
  ∀ text ∈ texts.head?, indentation text < 2 * depth

theorem not_startsBefore (depth : Nat) (node : Node) (rest : List Node) (texts : List String) :
    ¬StartsBefore depth (linesAll depth (node :: rest) ++ texts) := by
  intro h
  rw [linesAll_cons] at h
  have hline := h (node.line depth) rfl
  rw [indentation_line] at hline
  exact Nat.lt_irrefl _ hline

/-- What follows sibling trees does not start as far in as their children: either it is the next
sibling, or what follows all of them. -/
theorem StartsBefore.linesAll {depth : Nat} {texts : List String} (h : StartsBefore depth texts)
    (nodes : List Node) : StartsBefore (depth + 1) (linesAll depth nodes ++ texts) := by
  intro text htext
  cases nodes with
  | nil =>
    have hindentation := h text htext
    omega
  | cons node rest =>
    rw [linesAll_cons] at htext
    cases htext
    rw [indentation_line]
    omega

/-- **The trees can be read off the lines.** The lines of sibling trees end where a line does not
start as far in as they do. The induction is over the first trees, and goes through both lists at
once. -/
theorem linesAll_inj {xs ys : List Node} {depth : Nat} {r s : List String}
    (hr : StartsBefore depth r) (hs : StartsBefore depth s)
    (h : linesAll depth xs ++ r = linesAll depth ys ++ s) :
    unfiledAll xs = unfiledAll ys ∧ r = s := by
  induction xs using forestRec generalizing ys depth r s with
  | nil =>
    cases ys with
    | nil => exact ⟨rfl, h⟩
    | cons other others =>
      have hr : StartsBefore depth (linesAll depth (other :: others) ++ s) := h ▸ hr
      exact absurd hr (not_startsBefore depth other others s)
  | cons node rest ihChildren ihRest =>
    cases ys with
    | nil =>
      have hs : StartsBefore depth (linesAll depth (node :: rest) ++ r) := h ▸ hs
      exact absurd hs (not_startsBefore depth node rest r)
    | cons other others =>
      rw [linesAll_cons, linesAll_cons, List.cons_append, List.cons_append, List.append_assoc,
        List.append_assoc] at h
      obtain ⟨hline, hbehind⟩ := List.cons.inj h
      -- The children end where the next sibling starts, or what follows all of them.
      obtain ⟨hchildren, hbehind⟩ := ihChildren (hr.linesAll rest) (hs.linesAll others) hbehind
      obtain ⟨hrest, hrs⟩ := ihRest hr hs hbehind
      have hnode := unfiled_eq_of_label (label_eq_of_line hline) hchildren
      exact ⟨congrArg₂ List.cons hnode hrest, hrs⟩

/-! ## The dump -/

/-- The lines of a dump can be read off its text, as no line has a line break in it. -/
theorem splitAll_dump (node : Node) :
    Text.splitAll '\n' node.dump.toList = (linesAll 0 [node]).map String.toList ++ [[]] := by
  have hdump : node.dump.toList
      = ((linesAll 0 [node]).map String.toList).flatMap (· ++ ['\n']) := by
    rw [dump, String.toList_join, List.flatMap_map, List.flatMap_map, linesAll, linesAll,
      List.append_nil]
    simp
  have hlines : ∀ cs ∈ (linesAll 0 [node]).map String.toList, '\n' ∉ cs := by
    intro cs hcs
    obtain ⟨text, htext, rfl⟩ := List.mem_map.mp hcs
    exact isOneLine_of_mem_linesAll htext
  rw [hdump, Text.splitAll_flatMap_ended, Text.flatMap_splitAll_eq_iff.mpr hlines]

/-- **The dump identifies the tree.** Two trees have the same dump just if they are the same in
shape, kinds of nodes, and texts, lines and columns of tokens. -/
theorem dump_eq_iff (a b : Node) : a.dump = b.dump ↔ a.unfiled = b.unfiled := by
  constructor
  · intro h
    have hsplit := splitAll_dump a
    rw [h, splitAll_dump b] at hsplit
    have hlines : linesAll 0 [b] = linesAll 0 [a] :=
      List.map_injective_iff.mpr (fun _ _ => String.toList_inj.mp)
        (List.append_cancel_right hsplit)
    have hends : StartsBefore 0 [] := by simp [StartsBefore]
    obtain ⟨hnodes, -⟩ := linesAll_inj hends hends (congrArg (· ++ []) hlines.symm)
    exact (List.cons.inj hnodes).1
  · intro h
    have hlines : ∀ node : Node, node.unfiled.lines 0 = node.lines 0 := fun node => by
      rw [lines_eq, lines_eq, children_unfiled, linesAll_unfiledAll, line, line, label_unfiled]
    rw [dump, dump, ← hlines a, ← hlines b, h]

end Node

end Reskin
