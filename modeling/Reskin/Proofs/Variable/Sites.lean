import Reskin.Proofs.List
import Reskin.Proofs.Variable.Registration

/-!
# Where definitions stand

A variable is defined by a `let` or `global` statement, which stands somewhere in the files. Here it
is said of the statements alone what they define, in which scope and in which order, and that the
list of definitions that the variables are collected from is just that.

* **`Site`**, **`Site.Before`** — a place for a statement, and the order of places.
* **`DefinesAt`** — a statement gives a name to a scope. **`DefinesFirst`**: no earlier one gives
  the name to the scope; **`Redefines`**: an earlier one does.
* **`sited`** — the definitions with their sites: `map_snd_sited` says that they are those that are
  written, `mem_sited_iff` that none is left out or added, and `pairwise_sited` that they are in
  order.
* **`exists_repeated`** — the definitions that repeat another one are those that redefine a name.
-/

namespace Reskin

/-- A place for a statement: the number of a file, and the number of statements of that file that
stand in front of it. -/
structure Site where
  file : Nat
  index : Nat

namespace Site

/-- Sites come in the order of the files, and in one file in the order of the statements. -/
def Before (a b : Site) : Prop :=
  a.file < b.file ∨ a.file = b.file ∧ a.index < b.index

instance (a b : Site) : Decidable (a.Before b) :=
  inferInstanceAs (Decidable (_ ∨ _))

theorem Before.asymm {a b : Site} (h : a.Before b) : ¬b.Before a := by
  unfold Before at h ⊢
  omega

/-- The statement that stands at a site. -/
def statement? (files : List (List Statement)) (site : Site) : Option Statement :=
  files[site.file]?.bind fun statements => statements[site.index]?

end Site

namespace Definition

variable {files : List (List Statement)} {scope : DefinitionScope} {file : Nat} {name : String}
  {site : Site} {token : Token} {definition : Definition}

theorem SameVariable.belongsTo {a b : Definition} (h : SameVariable a b)
    (hb : b.belongsTo scope file = true) : a.belongsTo scope file = true := by
  obtain ⟨hscope, hfile⟩ := belongsTo_iff.mp hb
  refine belongsTo_iff.mpr ⟨h.1.trans hscope, ?_⟩
  rcases h.2.1 with hglobal | hsame
  · exact .inl (hscope.symm.trans (h.1.symm.trans hglobal))
  · exact hfile.imp_right hsame.trans

/-! ## What statements define -/

/-- Whether the statement at a site gives a name to a scope, which is the global one or that of a
file. The token is the one that the statement has the name from. -/
def DefinesAt (files : List (List Statement)) (scope : DefinitionScope) (file : Nat)
    (name : String) (site : Site) (token : Token) : Prop :=
  (∃ keyword equals value,
      site.statement? files = some (.definition scope keyword ⟨token, equals, value⟩))
    ∧ token.text = name ∧ (scope = .global ∨ site.file = file)

/-- Whether a statement is the first one that gives a name to a scope. -/
def DefinesFirst (files : List (List Statement)) (scope : DefinitionScope) (file : Nat)
    (name : String) (site : Site) (token : Token) : Prop :=
  DefinesAt files scope file name site token
    ∧ ∀ earlier other, earlier.Before site → ¬DefinesAt files scope file name earlier other

/-- Whether a statement gives a name to a scope that an earlier one gave it to. -/
def Redefines (files : List (List Statement)) (site : Site) (token : Token) : Prop :=
  ∃ scope, DefinesAt files scope site.file token.text site token
    ∧ ∃ earlier other, earlier.Before site
      ∧ DefinesAt files scope site.file token.text earlier other

/-! ## The list of definitions -/

/-- The definitions that are written in some files, with their sites. -/
def sited (files : List (List Statement)) : List (Site × Definition) :=
  files.zipIdx.flatMap fun entry => entry.1.zipIdx.filterMap fun place =>
    (ofStatement? entry.2 place.1).map (⟨entry.2, place.2⟩, ·)

/-- Without their sites, the definitions are the written ones. -/
theorem map_snd_sited (files : List (List Statement)) :
    (sited files).map Prod.snd = written files := by
  -- In one file the numbers of the statements are not looked at.
  have hfile : ∀ entry : List Statement × Nat,
      ((entry.1.zipIdx.filterMap fun place =>
          (ofStatement? entry.2 place.1).map ((⟨entry.2, place.2⟩, ·) : _ → Site × Definition)).map
        Prod.snd) = entry.1.filterMap (ofStatement? entry.2) := by
    intro entry
    have hstatements : entry.1.zipIdx.map Prod.fst = entry.1 := List.zipIdx_map_fst 0 entry.1
    conv_rhs => rw [← hstatements, List.filterMap_map]
    rw [List.map_filterMap]
    refine congrArg (List.filterMap · _) (funext fun place => ?_)
    rw [Option.map_map]
    exact Option.map_id'
  rw [sited, List.map_flatMap, written]
  exact congrArg (List.flatMap · _) (funext hfile)

/-- **No definition is left out or added**: those with sites are the `let` and `global` statements
that stand there. This is where the list of definitions meets the statements of the files. -/
theorem mem_sited_iff :
    (site, definition) ∈ sited files
      ↔ site.file = definition.file ∧ ∃ keyword equals, site.statement? files
        = some (.definition definition.scope keyword
          ⟨definition.name, equals, definition.value⟩) := by
  simp only [sited, List.mem_flatMap, List.mem_filterMap, Option.map_eq_some_iff, Prod.exists,
    List.mem_zipIdx_iff_getElem?, Site.statement?, Option.bind_eq_some_iff]
  constructor
  · rintro ⟨statements, number, hfile, statement, index, hindex, found, hfound, heq⟩
    cases heq
    cases statement with
    | definition scope keyword assignment =>
      cases hfound
      exact ⟨rfl, keyword, assignment.equals, statements, hfile, hindex⟩
    | _ => cases hfound
  · rintro ⟨hfile, keyword, equals, statements, hstatements, hindex⟩
    refine ⟨statements, site.file, hstatements, _, site.index, hindex, definition, ?_, rfl⟩
    rw [ofStatement?, hfile]

/-- **Definitions are in the order of their sites**, since files and statements are numbered in
order. -/
theorem pairwise_sited (files : List (List Statement)) :
    (sited files).Pairwise fun a b => a.1.Before b.1 := by
  have hnumbered : ∀ {α : Type} (xs : List α), xs.zipIdx.Pairwise fun a b => a.2 < b.2 := by
    intro α xs
    rw [← List.pairwise_map, List.zipIdx_map_snd]
    exact List.pairwise_lt_range'
  refine List.pairwise_flatMap.mpr ⟨fun entry _ => ?_, (hnumbered files).imp ?_⟩
  · refine List.pairwise_filterMap.mpr ((hnumbered entry.1).imp ?_)
    intro place other hlt a ha b hb
    obtain ⟨_, -, rfl⟩ := Option.map_eq_some_iff.mp ha
    obtain ⟨_, -, rfl⟩ := Option.map_eq_some_iff.mp hb
    exact .inr ⟨rfl, hlt⟩
  · intro entry other hlt a ha b hb
    obtain ⟨_, -, ha⟩ := List.mem_filterMap.mp ha
    obtain ⟨_, -, hb⟩ := List.mem_filterMap.mp hb
    obtain ⟨_, -, rfl⟩ := Option.map_eq_some_iff.mp ha
    obtain ⟨_, -, rfl⟩ := Option.map_eq_some_iff.mp hb
    exact .inl hlt

/-- A name is given to a scope at a site just if a definition with this site belongs to the scope
and has the name. -/
theorem definesAt_iff :
    DefinesAt files scope file name site token
      ↔ ∃ definition, (site, definition) ∈ sited files ∧ definition.belongsTo scope file = true
        ∧ definition.name = token ∧ token.text = name := by
  simp only [mem_sited_iff, belongsTo_iff]
  constructor
  · rintro ⟨⟨keyword, equals, value, hstatement⟩, hname, hscope⟩
    exact ⟨⟨scope, site.file, token, value⟩, ⟨rfl, keyword, equals, hstatement⟩,
      ⟨rfl, hscope⟩, rfl, hname⟩
  · rintro ⟨definition, ⟨hfile, keyword, equals, hstatement⟩, ⟨rfl, hscope⟩, rfl, hname⟩
    exact ⟨⟨keyword, equals, definition.value, hstatement⟩, hname, hscope.imp_right hfile.trans⟩

/-! ## Definitions that repeat another one -/

/-- In a list of definitions with sites in order, the ones that repeat another one are found by
their sites: what stands in front of a definition is what has an earlier site. Induction from the
end of the list. -/
theorem repeats_map_snd {entries : List (Site × Definition)}
    (hsorted : entries.Pairwise fun a b => a.1.Before b.1) :
    repeats (entries.map Prod.snd)
      = (entries.filter fun entry => entries.any fun other =>
          decide (other.1.Before entry.1) && entry.2.clashes other.2).map Prod.snd := by
  induction entries using List.reverseRecOn with
  | nil => rfl
  | append_singleton entries last ih =>
    obtain ⟨hentries, -, hlast⟩ := List.pairwise_append.mp hsorted
    have hbefore : ∀ entry ∈ entries, entry.1.Before last.1 := fun entry hentry =>
      hlast entry hentry last List.mem_cons_self
    -- The last definition comes before none of the others, so it makes none of them a repetition.
    have hold : ∀ entry ∈ entries,
        ((entries ++ [last]).any fun other =>
            decide (other.1.Before entry.1) && entry.2.clashes other.2)
          = entries.any fun other =>
            decide (other.1.Before entry.1) && entry.2.clashes other.2 := by
      intro entry hentry
      simp [(hbefore entry hentry).asymm]
    -- All the others come before the last one, and it does not come before itself.
    have hnew : ((entries ++ [last]).any fun other =>
          decide (other.1.Before last.1) && last.2.clashes other.2)
        = (entries.map Prod.snd).any last.2.clashes := by
      have hirrefl : ¬last.1.Before last.1 := fun h => h.asymm h
      rw [List.any_append, List.any_map, Bool.eq_iff_iff]
      simp only [List.any_cons, List.any_nil, hirrefl, decide_false, Bool.false_and, Bool.or_false,
        List.any_eq_true]
      refine exists_congr fun other => and_congr_right fun hother => ?_
      rw [decide_eq_true (hbefore other hother), Bool.true_and]
      rfl
    rw [List.map_append, List.map_singleton, repeats_snoc, ih hentries, List.filter_append,
      List.map_append, List.filter_congr hold]
    congr 1
    rw [List.filter_singleton, hnew]
    cases (entries.map Prod.snd).any last.2.clashes <;> rfl

/-- **The definitions that repeat another one are those that redefine a name**, each once and in the
order of their sites. The list is made from the definitions with sites, but what is said of it is
about the statements of the files. -/
theorem exists_repeated (files : List (List Statement)) :
    ∃ repeated : List (Site × Token),
      repeated.Pairwise (fun a b => a.1.Before b.1)
        ∧ (∀ site token, (site, token) ∈ repeated ↔ Redefines files site token)
        ∧ (repeats (written files)).map Definition.name = repeated.map Prod.snd := by
  let isRepeated (entry : Site × Definition) : Bool := (sited files).any fun other =>
    decide (other.1.Before entry.1) && entry.2.clashes other.2
  refine ⟨((sited files).filter isRepeated).map fun entry => (entry.1, entry.2.name), ?_, ?_, ?_⟩
  · exact List.pairwise_map.mpr ((pairwise_sited files).filter _)
  · intro site token
    simp only [List.mem_map, List.mem_filter, Prod.mk.injEq, isRepeated, List.any_eq_true,
      Bool.and_eq_true, decide_eq_true_eq, clashes_iff]
    constructor
    · rintro ⟨⟨site, definition⟩, ⟨hmem, ⟨earlier, other⟩, hother, hbefore, hsame⟩, rfl, rfl⟩
      have hbelongs : definition.belongsTo definition.scope site.file = true :=
        belongsTo_iff.mpr ⟨rfl, .inr (mem_sited_iff.mp hmem).1.symm⟩
      exact ⟨definition.scope, definesAt_iff.mpr ⟨definition, hmem, hbelongs, rfl, rfl⟩, earlier,
        other.name, hbefore, definesAt_iff.mpr
          ⟨other, hother, hsame.symm.belongsTo hbelongs, rfl, hsame.2.2.symm⟩⟩
    · rintro ⟨scope, hdefines, earlier, other, hbefore, hearlier⟩
      obtain ⟨definition, hmem, hbelongs, rfl, -⟩ := definesAt_iff.mp hdefines
      obtain ⟨first, hfirst, hbelongs', rfl, hname⟩ := definesAt_iff.mp hearlier
      exact ⟨(site, definition), ⟨hmem, (earlier, first), hfirst, hbefore,
        sameVariable_of_belongsTo hbelongs hbelongs' hname.symm⟩, rfl, rfl⟩
  · rw [← map_snd_sited, repeats_map_snd (pairwise_sited files), List.map_map, List.map_map]
    rfl

end Definition

end Reskin
