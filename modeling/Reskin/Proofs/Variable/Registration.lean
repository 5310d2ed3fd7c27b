import Mathlib.Data.List.Induction
import Reskin.Proofs.Reported
import Reskin.Variable.Resolution

/-!
# Which definitions count

The first definition of a variable counts, in the order of the files and of the statements in them.
Every other one is reported. A name in a file means the variable of that file, or else the global
one. These rules are stated here without the list that the definitions are collected in:

* **`Registered`** — a definition is the first one of its variable; `mem_collect_iff` says that
  these are the collected ones, and `eq_of_sameVariable` that each variable is collected once.
* **`repeats`** — the other definitions; `diagnostics_collect` says that these are reported, each
  once and in order.
* **`PointsTo`** — a name in a definition means another definition; `lookup?_eq_some_iff` says that
  the look-up finds exactly that one.
-/

namespace Reskin.Definition

/-! ## The first definition of a variable -/

/-- Two definitions define the same variable. -/
def SameVariable (a b : Definition) : Prop :=
  a.scope = b.scope ∧ (a.scope = .global ∨ a.file = b.file) ∧ a.name.text = b.name.text

theorem SameVariable.symm {a b : Definition} (h : SameVariable a b) : SameVariable b a := by
  obtain ⟨hscope, hfile, hname⟩ := h
  exact ⟨hscope.symm, hfile.imp (hscope ▸ ·) Eq.symm, hname.symm⟩

theorem SameVariable.trans {a b c : Definition} (hab : SameVariable a b) (hbc : SameVariable b c) :
    SameVariable a c := by
  refine ⟨hab.1.trans hbc.1, ?_, hab.2.2.trans hbc.2.2⟩
  rcases hab.2.1 with hglobal | hfile
  · exact .inl hglobal
  · rcases hbc.2.1 with hglobal | hfile'
    · exact .inl (hab.1.trans hglobal)
    · exact .inr (hfile.trans hfile')

/-- Two definitions clash just if they define the same variable. -/
theorem clashes_iff {a b : Definition} : a.clashes b = true ↔ SameVariable a b := by
  simp only [clashes, belongsTo, SameVariable, Bool.and_eq_true, Bool.or_eq_true,
    decide_eq_true_eq, beq_iff_eq, and_assoc]
  refine and_congr_right fun hscope => ?_
  rw [hscope]

/-- A definition is the first one of its variable in a list. -/
def First (all : List Definition) (definition : Definition) : Prop :=
  ∃ before after, all = before ++ definition :: after
    ∧ ∀ earlier ∈ before, ¬SameVariable earlier definition

theorem First.mem {all : List Definition} {definition : Definition} (h : First all definition) :
    definition ∈ all := by
  obtain ⟨before, after, rfl, _⟩ := h
  exact List.mem_append_right before List.mem_cons_self

/-- The first ones in a longer list are those of the shorter one, and perhaps the new one. Lists of
definitions grow at their end, as they are read. -/
theorem first_snoc {all : List Definition} {last definition : Definition} :
    First (all ++ [last]) definition ↔ First all definition
      ∨ definition = last ∧ ∀ earlier ∈ all, ¬SameVariable earlier last := by
  constructor
  · rintro ⟨before, after, hall, hfirst⟩
    -- The definition is the last one of the longer list, or it is in the shorter one.
    rcases List.eq_nil_or_concat after with rfl | ⟨front, x, rfl⟩
    · obtain ⟨rfl, hlast⟩ := List.append_inj' hall rfl
      cases hlast
      exact .inr ⟨rfl, hfirst⟩
    · rw [List.concat_eq_append, ← List.cons_append, ← List.append_assoc] at hall
      obtain ⟨rfl, _⟩ := List.append_inj' hall rfl
      exact .inl ⟨before, front, rfl, hfirst⟩
  · rintro (⟨before, after, rfl, hfirst⟩ | ⟨rfl, hfirst⟩)
    · exact ⟨before, after ++ [last], by simp, hfirst⟩
    · exact ⟨all, [], rfl, hfirst⟩

/-! ## Collecting -/

/-- The definitions that are kept of a list. -/
def kept (all : List Definition) : List Definition :=
  (all.foldlM register []).value

theorem kept_snoc (all : List Definition) (last : Definition) :
    kept (all ++ [last])
      = if (kept all).any last.clashes then kept all else kept all ++ [last] := by
  rw [kept, kept, Reported.value_foldlM, Reported.value_foldlM, List.foldl_append, List.foldl_cons,
    List.foldl_nil, register]
  split <;> rfl

/-- Every variable of the list has a definition that is kept. A definition that is not kept clashes
with one that is. -/
theorem exists_kept {all : List Definition} {definition : Definition} (h : definition ∈ all) :
    ∃ known ∈ kept all, SameVariable known definition := by
  induction all using List.reverseRecOn with
  | nil => cases h
  | append_singleton all last ih =>
    rw [kept_snoc]
    rcases List.mem_append.mp h with h | h
    · obtain ⟨known, hknown, hsame⟩ := ih h
      refine ⟨known, ?_, hsame⟩
      split
      · exact hknown
      · exact List.mem_append_left _ hknown
    · cases List.mem_singleton.mp h
      split
      · next hany =>
        obtain ⟨known, hknown, hclash⟩ := List.any_eq_true.mp hany
        exact ⟨known, hknown, (clashes_iff.mp hclash).symm⟩
      · exact ⟨definition, by simp, rfl, .inr rfl, rfl⟩

/-- **What is kept is the first definition of each variable.** Induction from the end of the list,
as definitions are registered from its start. -/
theorem mem_kept_iff {all : List Definition} {definition : Definition} :
    definition ∈ kept all ↔ First all definition := by
  induction all using List.reverseRecOn generalizing definition with
  | nil =>
    refine ⟨nofun, ?_⟩
    rintro ⟨before, after, hall, _⟩
    simp at hall
  | append_singleton all last ih =>
    rw [kept_snoc, first_snoc, ← ih]
    split
    · next hany =>
      obtain ⟨known, hknown, hclash⟩ := List.any_eq_true.mp hany
      refine ⟨.inl, ?_⟩
      rintro (h | ⟨_, hfresh⟩)
      · exact h
      · -- The last one clashes with one that is kept, so it is not the first of its variable.
        exact absurd (clashes_iff.mp hclash).symm (hfresh known (ih.mp hknown).mem)
    · next hany =>
      rw [List.mem_append, List.mem_singleton]
      refine or_congr_right ⟨?_, And.left⟩
      rintro rfl
      -- An earlier definition of the variable would have left one that is kept.
      refine ⟨rfl, fun earlier hearlier hsame => hany ?_⟩
      obtain ⟨known, hknown, hknownSame⟩ := exists_kept hearlier
      exact List.any_eq_true.mpr ⟨known, hknown, clashes_iff.mpr (hknownSame.trans hsame).symm⟩

theorem kept_pairwise (all : List Definition) :
    (kept all).Pairwise fun a b => ¬SameVariable a b := by
  induction all using List.reverseRecOn with
  | nil => exact .nil
  | append_singleton all last ih =>
    rw [kept_snoc]
    split
    · exact ih
    · next hany =>
      refine List.pairwise_append.mpr ⟨ih, List.pairwise_singleton _ _, ?_⟩
      intro known hknown other hother hsame
      cases List.mem_singleton.mp hother
      exact hany (List.any_eq_true.mpr ⟨known, hknown, clashes_iff.mpr hsame.symm⟩)

/-! ## Reports about definitions that do not count -/

/-- The definitions of variables that were defined before, in order. -/
def repeats (all : List Definition) : List Definition :=
  (all.zipIdx.filter fun entry => (all.take entry.2).any entry.1.clashes).map Prod.fst

/-- The report about a definition of a variable that was defined before. -/
def redefinition (definition : Definition) : Diagnostic :=
  .located (.build (.variableRedefined definition.name.text)) definition.name.location

/-- One more definition is a repetition if it clashes with any of those before it. -/
theorem repeats_snoc (all : List Definition) (last : Definition) :
    repeats (all ++ [last]) = repeats all ++ if all.any last.clashes then [last] else [] := by
  -- What stands in front of an old definition has not changed.
  have hold : (all.zipIdx.filter fun entry => ((all ++ [last]).take entry.2).any entry.1.clashes)
      = all.zipIdx.filter fun entry => (all.take entry.2).any entry.1.clashes := by
    refine List.filter_congr fun entry hentry => ?_
    have hle : entry.2 ≤ all.length := by
      have hlt := List.snd_lt_of_mem_zipIdx hentry
      omega
    rw [List.take_append_of_le_length hle]
  rw [repeats, List.zipIdx_append, List.filter_append, List.map_append, hold]
  congr 1
  simp only [List.zipIdx_singleton, Nat.zero_add, List.filter_cons, List.take_left, List.filter_nil]
  split <;> rfl

theorem repeats_subset (all : List Definition) : repeats all ⊆ all := by
  intro definition hdefinition
  obtain ⟨entry, hentry, rfl⟩ := List.mem_map.mp hdefinition
  exact List.fst_mem_of_mem_zipIdx (List.mem_filter.mp hentry).1

/-- Nothing is repeated just if no two definitions are of the same variable. -/
theorem repeats_eq_nil_iff {all : List Definition} :
    repeats all = [] ↔ all.Pairwise fun a b => ¬SameVariable a b := by
  induction all using List.reverseRecOn with
  | nil => simp [repeats]
  | append_singleton all last ih =>
    have hlast : (if all.any last.clashes then [last] else []) = []
        ↔ ∀ earlier ∈ all, ¬SameVariable earlier last := by
      rw [ite_eq_right_iff, List.any_eq_true]
      constructor
      · intro h earlier hearlier hsame
        cases h ⟨earlier, hearlier, clashes_iff.mpr hsame.symm⟩
      · rintro h ⟨earlier, hearlier, hclash⟩
        exact absurd (clashes_iff.mp hclash).symm (h earlier hearlier)
    rw [repeats_snoc, List.append_eq_nil_iff, ih, hlast, List.pairwise_append]
    simp

/-- A definition clashes with one that is kept if it clashes with any. So it does not matter that
definitions are compared with those that were kept only. -/
theorem any_kept (all : List Definition) (definition : Definition) :
    (kept all).any definition.clashes = all.any definition.clashes := by
  rw [Bool.eq_iff_iff, List.any_eq_true, List.any_eq_true]
  constructor
  · rintro ⟨known, hknown, hclash⟩
    exact ⟨known, (mem_kept_iff.mp hknown).mem, hclash⟩
  · rintro ⟨earlier, hearlier, hclash⟩
    obtain ⟨known, hknown, hsame⟩ := exists_kept hearlier
    exact ⟨known, hknown, clashes_iff.mpr ((clashes_iff.mp hclash).trans hsame.symm)⟩

/-- Collecting reports each definition of a variable that was defined before, and nothing else. The
induction is the same as for what is kept. -/
theorem diagnostics_collect (files : List (List Statement)) :
    (collect files).diagnostics = (repeats (written files)).map redefinition := by
  rw [collect]
  induction written files using List.reverseRecOn with
  | nil => rfl
  | append_singleton all last ih =>
    rw [Reported.diagnostics_foldlM_snoc, ih, repeats_snoc, List.map_append]
    congr 1
    show (register (kept all) last).diagnostics = _
    rw [register, any_kept]
    split <;> rfl

variable {files : List (List Statement)}

/-- A definition counts in a list of files: it is the first one of its variable. -/
def Registered (files : List (List Statement)) (definition : Definition) : Prop :=
  First (written files) definition

theorem mem_collect_iff {definition : Definition} :
    definition ∈ (collect files).value ↔ Registered files definition :=
  mem_kept_iff

/-- Collected definitions of the same variable are at the same place, since only the first one of a
variable is collected. -/
theorem eq_of_sameVariable {i j : Fin (collect files).value.length}
    (h : SameVariable ((collect files).value.get i) ((collect files).value.get j)) : i = j := by
  have hpairwise := List.pairwise_iff_getElem.mp (kept_pairwise (written files))
  rcases Nat.lt_trichotomy i.val j.val with hlt | heq | hlt
  · exact absurd h (hpairwise i j i.isLt j.isLt hlt)
  · exact Fin.ext heq
  · exact absurd h.symm (hpairwise j i j.isLt i.isLt hlt)

/-- What is reported while definitions are collected is at the name of one of them. -/
theorem exists_definition_of_mem_collect {diagnostic : Diagnostic}
    (h : diagnostic ∈ (collect files).diagnostics) :
    ∃ definition ∈ written files, diagnostic
      = .located (.build (.variableRedefined definition.name.text)) definition.name.location := by
  rw [diagnostics_collect] at h
  obtain ⟨definition, hrepeat, rfl⟩ := List.mem_map.mp h
  exact ⟨definition, repeats_subset _ hrepeat, rfl⟩

theorem cause_of_mem_collect {diagnostic : Diagnostic}
    (h : diagnostic ∈ (collect files).diagnostics) :
    ∃ name, diagnostic.cause = .build (.variableRedefined name) := by
  obtain ⟨definition, -, rfl⟩ := exists_definition_of_mem_collect h
  exact ⟨definition.name.text, rfl⟩

/-- A definition is made by a statement of the file that it belongs to. -/
theorem exists_statement_of_mem_written {definition : Definition} (h : definition ∈ written files) :
    ∃ statements scope keyword assignment, files[definition.file]? = some statements
      ∧ .definition scope keyword assignment ∈ statements
      ∧ assignment.key = definition.name ∧ assignment.value = definition.value := by
  obtain ⟨⟨statements, file⟩, hfile, h⟩ := List.mem_flatMap.mp h
  obtain ⟨statement, hstatement, h⟩ := List.mem_filterMap.mp h
  cases statement <;> simp only [ofStatement?, Option.some.injEq, reduceCtorEq] at h
  next scope keyword assignment =>
    subst h
    have hget : files[file]? = some statements := List.mem_zipIdx_iff_getElem?.mp hfile
    exact ⟨statements, scope, keyword, assignment, hget, hstatement, rfl, rfl⟩

theorem registered_get (i : Fin (collect files).value.length) :
    Registered files ((collect files).value.get i) :=
  mem_collect_iff.mp (List.get_mem _ i)

/-- A definition stands in one of the files. -/
theorem file_get_lt (i : Fin (collect files).value.length) :
    ((collect files).value.get i).file < files.length := by
  obtain ⟨statements, _, _, _, hget, -⟩ := exists_statement_of_mem_written (registered_get i).mem
  exact (List.getElem?_eq_some_iff.mp hget).1

/-! ## What a name means -/

/-- A name in a definition means another definition: that of the same file, or else the global
one. -/
def PointsTo (files : List (List Statement)) (source : Definition) (name : String)
    (target : Definition) : Prop :=
  Registered files target ∧ target.name.text = name
    ∧ (target.scope = .file ∧ target.file = source.file
      ∨ target.scope = .global ∧ ∀ other, Registered files other → other.scope = .file →
          other.file = source.file → other.name.text ≠ name)

theorem belongsTo_iff {definition : Definition} {scope : DefinitionScope} {file : Nat} :
    definition.belongsTo scope file = true
      ↔ definition.scope = scope ∧ (scope = .global ∨ definition.file = file) := by
  simp [belongsTo]

/-- Two definitions of a name in one scope define the same variable. -/
theorem sameVariable_of_belongsTo {a b : Definition} {scope : DefinitionScope} {file : Nat}
    (ha : a.belongsTo scope file = true) (hb : b.belongsTo scope file = true)
    (hname : a.name.text = b.name.text) : SameVariable a b := by
  obtain ⟨hscope, hfile⟩ := belongsTo_iff.mp ha
  obtain ⟨hscope', hfile'⟩ := belongsTo_iff.mp hb
  refine ⟨hscope.trans hscope'.symm, ?_, hname⟩
  rcases hfile with hglobal | hfile
  · exact .inl (hscope.trans hglobal)
  · rcases hfile' with hglobal | hfile'
    · exact .inl (hscope.trans hglobal)
    · exact .inr (hfile.trans hfile'.symm)

/-- The definition of a name in one scope, by its place among the collected ones. -/
def findIn? (definitions : List Definition) (scope : DefinitionScope) (file : Nat)
    (name : String) : Option (Fin definitions.length) :=
  definitions.findFinIdx? fun definition =>
    definition.belongsTo scope file && definition.name.text == name

/-- The definition of a name that is found in a scope is the one that belongs to it. There is one at
most, so it does not matter that the first one is taken. -/
theorem findIn?_eq_some_iff {scope : DefinitionScope} {file : Nat} {name : String}
    {j : Fin (collect files).value.length} :
    findIn? (collect files).value scope file name = some j
      ↔ ((collect files).value.get j).belongsTo scope file = true
        ∧ ((collect files).value.get j).name.text = name := by
  rw [findIn?, List.findFinIdx?_eq_some_iff, Bool.and_eq_true, beq_iff_eq]
  refine ⟨And.left, fun h => ⟨h, ?_⟩⟩
  intro k hk hboth
  rw [Bool.and_eq_true, beq_iff_eq] at hboth
  -- Of two collected definitions of one name in one scope, the earlier one is the later one.
  have hsame := sameVariable_of_belongsTo hboth.1 h.1 (hboth.2.trans h.2.symm)
  have heq : k = j := eq_of_sameVariable hsame
  rw [heq] at hk
  exact Nat.lt_irrefl j hk

theorem findIn?_eq_none_iff {scope : DefinitionScope} {file : Nat} {name : String} :
    findIn? (collect files).value scope file name = none
      ↔ ∀ other, Registered files other → other.belongsTo scope file = true →
          other.name.text ≠ name := by
  rw [findIn?, List.findFinIdx?_eq_none_iff]
  refine forall_congr' fun other => ?_
  rw [mem_collect_iff, Bool.and_eq_true, beq_iff_eq, not_and]

theorem lookup?_eq_or (definitions : List Definition) (file : Nat) (name : String) :
    lookup? definitions file name
      = (findIn? definitions .file file name).or (findIn? definitions .global file name) := by
  rw [Option.or_eq_orElse]
  rfl

/-- The look-up finds what a name means: the definition of the same file, and the global one only if
there is none in the file. -/
theorem lookup?_eq_some_iff {source : Definition} {name : String}
    {j : Fin (collect files).value.length} :
    lookup? (collect files).value source.file name = some j
      ↔ PointsTo files source name ((collect files).value.get j) := by
  have hregistered := registered_get j
  rw [lookup?_eq_or, Option.or_eq_some_iff, findIn?_eq_some_iff, findIn?_eq_some_iff,
    findIn?_eq_none_iff]
  simp only [belongsTo_iff, reduceCtorEq, false_or, true_or, and_true]
  constructor
  · rintro (⟨⟨hscope, hfile⟩, hname⟩ | ⟨hnone, hscope, hname⟩)
    · exact ⟨hregistered, hname, .inl ⟨hscope, hfile⟩⟩
    · exact ⟨hregistered, hname,
        .inr ⟨hscope, fun other hother hs hf => hnone other hother ⟨hs, hf⟩⟩⟩
  · rintro ⟨_, hname, ⟨hscope, hfile⟩ | ⟨hscope, hnone⟩⟩
    · exact .inl ⟨⟨hscope, hfile⟩, hname⟩
    · exact .inr ⟨fun other hother h => hnone other hother h.1 h.2, hscope, hname⟩

/-- The look-up finds something if the name means something. -/
theorem isSome_lookup?_iff {source : Definition} {name : String} :
    (lookup? (collect files).value source.file name).isSome
      ↔ ∃ target, PointsTo files source name target := by
  constructor
  · intro h
    obtain ⟨j, hj⟩ := Option.isSome_iff_exists.mp h
    exact ⟨_, lookup?_eq_some_iff.mp hj⟩
  · rintro ⟨target, htarget⟩
    obtain ⟨j, rfl⟩ := List.get_of_mem (mem_collect_iff.mpr htarget.1)
    rw [lookup?_eq_some_iff.mpr htarget]
    rfl

end Reskin.Definition
