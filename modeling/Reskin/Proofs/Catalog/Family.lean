import Mathlib.Data.List.Nodup
import Reskin.Catalog.Vanilla
import Reskin.Proofs.Catalog.Glob
import Reskin.Proofs.Text.Split

/-!
# The items of a key

A catalog answers a key in one of three ways: a pattern is matched against every item, an id is
looked up, and the name of a family is compared with the start and the end of every id. All three
are the same kind of query, since a name without wildcards is a pattern that matches only itself.

* **`Glob.splits_append`** — characters that stand for themselves are read off the text.
* **`Catalog.inFamily_eq`** — the family of a name is what the patterns `name_*` and `*_name` match.
* **`Catalog.withoutNamespace_cases`** — what is left of a key without its namespace.
* **`Catalog.exists_family_vanilla`** — the items of a key are found by patterns.
-/

namespace Reskin

/-! ## Patterns without wildcards -/

namespace Glob

variable {plain pattern text : List Char} {name item : String}

/-- Characters that stand for themselves. -/
def IsPlain (cs : List Char) : Prop :=
  ∀ c ∈ cs, c ≠ '*' ∧ c ≠ '?'

/-- The test for wildcards decides whether a name is plain, so the lemmas below apply to every key
that is not a pattern. -/
theorem isPlain_iff : IsPlain name.toList ↔ hasWildcard name = false := by
  simp [IsPlain, hasWildcard]

/-- A plain text in front of a pattern is matched by itself and by nothing else. Induction on the
plain text. -/
theorem splits_append (h : IsPlain plain) :
    Splits (plain ++ pattern) text ↔ ∃ rest, plain ++ rest = text ∧ Splits pattern rest := by
  induction plain generalizing text with
  | nil => simp
  | cons c plain ih =>
    obtain ⟨⟨hstar, hany⟩, hplain⟩ := List.forall_mem_cons.mp h
    rw [List.cons_append, splits_char hstar]
    constructor
    · rintro ⟨x, rest, rfl, hfits, hsplits⟩
      obtain ⟨rest, rfl, hrest⟩ := (ih hplain).mp hsplits
      exact ⟨rest, by rw [← hfits.resolve_left hany, List.cons_append], hrest⟩
    · rintro ⟨rest, rfl, hrest⟩
      exact ⟨c, plain ++ rest, rfl, .inr rfl, (ih hplain).mpr ⟨rest, rfl, hrest⟩⟩

theorem splits_plain (h : IsPlain plain) : Splits plain text ↔ plain = text := by
  rw [← List.append_nil plain, splits_append h]
  simp [splits_nil]

/-- A `*` at the end matches whatever is left, so such a pattern asks for a prefix. -/
theorem splits_plain_star (h : IsPlain plain) : Splits (plain ++ ['*']) text ↔ plain <+: text := by
  rw [splits_append h]
  refine exists_congr fun rest => and_iff_left ?_
  exact splits_star.mpr ⟨[], List.nil_suffix, splits_nil.mpr rfl⟩

/-- A `*` at the start matches whatever stands in front, so such a pattern asks for a suffix. -/
theorem splits_star_plain (h : IsPlain plain) : Splits ('*' :: plain) text ↔ plain <:+ text := by
  rw [splits_star]
  constructor
  · rintro ⟨rest, hrest, hsplits⟩
    rwa [(splits_plain h).mp hsplits]
  · intro hsuffix
    exact ⟨plain, hsuffix, (splits_plain h).mpr rfl⟩

theorem isMatch_plain (h : hasWildcard name = false) :
    isMatch name item = decide (item = name) := by
  rw [Bool.eq_iff_iff, isMatch, Outcome.isMatch_iff_allows, ← splits_iff_align,
    splits_plain (isPlain_iff.mpr h), String.toList_inj, decide_eq_true_iff, eq_comm]

end Glob

/-! ## Families -/

namespace Catalog

variable {name : String} {items : List String}

/-- The family of a name consists of what two patterns match. The name must be plain: a wildcard in
it would be one in the patterns too. -/
theorem inFamily_eq (h : Glob.hasWildcard name = false) (item : String) :
    inFamily name item
      = (Glob.isMatch (name ++ "_*") item || Glob.isMatch ("*_" ++ name) item) := by
  have hplain := Glob.isPlain_iff.mpr h
  have hbehind : Glob.IsPlain (name.toList ++ ['_']) := by
    simpa [Glob.IsPlain, or_imp, forall_and] using hplain
  have hfront : Glob.IsPlain ('_' :: name.toList) := by
    simpa [Glob.IsPlain, or_imp, forall_and] using hplain
  have hstart : (name ++ "_*").toList = name.toList ++ ['_'] ++ ['*'] := by simp
  have hend : ("*_" ++ name).toList = '*' :: '_' :: name.toList := by simp
  rw [Bool.eq_iff_iff, Bool.or_eq_true, inFamily, Bool.or_eq_true, List.isPrefixOf_iff_prefix,
    List.isSuffixOf_iff_suffix, Glob.isMatch, Glob.isMatch, Glob.Outcome.isMatch_iff_allows,
    Glob.Outcome.isMatch_iff_allows, ← Glob.splits_iff_align, ← Glob.splits_iff_align, hstart, hend,
    Glob.splits_plain_star hbehind, Glob.splits_star_plain hfront]

/-- An id stands for itself alone in a catalog without duplicates. -/
theorem filter_isMatch_of_mem (hnodup : items.Nodup) (hname : name ∈ items)
    (h : Glob.hasWildcard name = false) : items.filter (Glob.isMatch name) = [name] := by
  have hsame : items.filter (Glob.isMatch name) = items.filter (· = name) :=
    List.filter_congr fun item _ => Glob.isMatch_plain h
  rw [hsame, List.filter_eq, List.count_eq_one_of_mem hnodup hname, List.replicate_one]

/-- Every answer is a part of the catalog in its order, also that for an id, which is a list of one
item. -/
theorem family_ofItems_sublist (items : List String) (key : String) :
    ((ofItems items).family key).Sublist items := by
  simp only [ofItems]
  split_ifs with hempty hwild hitem
  · exact List.nil_sublist items
  · exact List.filter_sublist
  · exact List.singleton_sublist.mpr (List.contains_iff_mem.mp hitem)
  · exact List.filter_sublist

/-- The three ways to answer a key, as queries with patterns. The catalog must be free of
duplicates, since an id is answered once however often it is listed. -/
theorem family_ofItems (hnodup : items.Nodup) (key : String) :
    (ofItems items).family key
      = if withoutNamespace key = "" then []
        else if Glob.hasWildcard (withoutNamespace key) = true ∨ withoutNamespace key ∈ items then
          items.filter (Glob.isMatch (withoutNamespace key))
        else
          items.filter fun item =>
            Glob.isMatch (withoutNamespace key ++ "_*") item
              || Glob.isMatch ("*_" ++ withoutNamespace key) item := by
  simp only [ofItems]
  generalize withoutNamespace key = name
  by_cases hempty : name = ""
  · rw [if_pos hempty, if_pos hempty]
  · rw [if_neg hempty, if_neg hempty]
    by_cases hwild : Glob.hasWildcard name = true
    · rw [if_pos hwild, if_pos (.inl hwild)]
    · have hplain : Glob.hasWildcard name = false := Bool.eq_false_iff.mpr hwild
      rw [if_neg hwild]
      by_cases hitem : name ∈ items
      · rw [if_pos (List.contains_iff_mem.mpr hitem), if_pos (.inr hitem),
          filter_isMatch_of_mem hnodup hitem hplain]
      · rw [if_neg (mt List.contains_iff_mem.mp hitem), if_neg (by simp [hwild, hitem])]
        exact List.filter_congr fun item _ => inFamily_eq hplain item

/-! ## Namespaces -/

theorem toList_namespace : "minecraft:".toList = vanillaNamespace ++ [':'] := by
  decide +kernel

theorem splitFirst_append (name : String) :
    Text.splitFirst ':' ("minecraft:" ++ name).toList = some (vanillaNamespace, name.toList) := by
  rw [String.toList_append, toList_namespace, List.append_assoc, List.singleton_append,
    Text.splitFirst_append (by decide)]

/-- The namespace of the unmodified game is dropped, whatever follows it. -/
theorem withoutNamespace_append (name : String) :
    withoutNamespace ("minecraft:" ++ name) = name := by
  rw [withoutNamespace, splitFirst_append]
  simp

/-- What is left of a key is what follows the namespace of the unmodified game, or the whole key.
The second case is that of other namespaces, and of keys without one. -/
theorem withoutNamespace_cases (key : String) :
    key = "minecraft:" ++ withoutNamespace key
      ∨ key = withoutNamespace key ∧ ¬"minecraft:".toList <+: key.toList := by
  by_cases hprefix : "minecraft:".toList <+: key.toList
  · obtain ⟨rest, hrest⟩ := hprefix
    have hkey : key = "minecraft:" ++ String.ofList rest := by
      rw [← String.toList_inj, ← hrest]
      simp
    rw [hkey, withoutNamespace_append]
    exact .inl rfl
  · refine .inr ⟨?_, hprefix⟩
    unfold withoutNamespace
    split
    · next space rest hsplit =>
      split_ifs with hspace
      · rw [hspace] at hsplit
        rw [Text.eq_of_splitFirst_eq_some hsplit, toList_namespace] at hprefix
        exact absurd ⟨rest, List.append_assoc _ _ _⟩ hprefix
      · rfl
    · rfl

/-! ## The items of the unmodified game -/

/-- Whether some numbers are pairwise different and none of them is marked by a bit. -/
def areUnmarked : Nat → List Nat → Bool
  | _, [] => true
  | marks, n :: ns => !marks.testBit n && areUnmarked (marks ||| 1 <<< n) ns

/-- The table of marks finds every duplicate. Induction on the numbers, with the marks of those that
were seen as the invariant. -/
theorem nodup_of_areUnmarked {marks : Nat} {ns : List Nat} (h : areUnmarked marks ns = true) :
    ns.Nodup ∧ ∀ n ∈ ns, marks.testBit n = false := by
  induction ns generalizing marks with
  | nil => exact ⟨.nil, List.forall_mem_nil _⟩
  | cons n ns ih =>
    rw [areUnmarked, Bool.and_eq_true, Bool.not_eq_true'] at h
    obtain ⟨hnodup, hmarks⟩ := ih h.2
    have hboth : ∀ m ∈ ns, marks.testBit m = false ∧ n ≠ m := by
      intro m hm
      simpa [Nat.testBit_or, Nat.one_shiftLeft, Nat.testBit_two_pow] using hmarks m hm
    refine ⟨List.nodup_cons.mpr ⟨fun hmem => (hboth n hmem).2 rfl, hnodup⟩, ?_⟩
    exact List.forall_mem_cons.mpr ⟨h.1, fun m hm => (hboth m hm).1⟩

/-- A number for a text, small enough for a table of marks. The bytes of the text are the digits,
and 6047 is the least modulus that keeps all items of the unmodified game apart. -/
def fingerprint (text : String) : Nat :=
  text.toByteArray.data.toList.foldl (fun n byte => 256 * n + byte.toNat) 0 % 6047

/-- No item is listed twice. Comparing all pairs of names would be too slow in the kernel, so their
fingerprints are looked up in a table of marks. -/
theorem nodup_vanillaItems : vanillaItems.Nodup := by
  have hmarks : areUnmarked 0 (vanillaItems.map fingerprint) = true := by decide +kernel
  exact List.Nodup.of_map fingerprint (nodup_of_areUnmarked hmarks).1

/-- **Keys are queries.** The items of a key are a part of the catalog of the unmodified game, in
its order and without duplicates. With `name` for the key without the namespace `minecraft`, they
are the items that match `name` if that is a pattern or an id, and otherwise those that match
`name_*` or `*_name`. The empty name has no items. -/
theorem exists_family_vanilla (key : String) :
    (vanilla.family key).Nodup ∧ (vanilla.family key).Sublist vanillaItems
      ∧ ∃ name, (key = "minecraft:" ++ name ∨ key = name ∧ ¬"minecraft:".toList <+: key.toList)
        ∧ vanilla.family key
          = if name = "" then []
            else if Glob.hasWildcard name = true ∨ name ∈ vanillaItems then
              vanillaItems.filter (Glob.isMatch name)
            else
              vanillaItems.filter fun item =>
                Glob.isMatch (name ++ "_*") item || Glob.isMatch ("*_" ++ name) item := by
  have hsublist := family_ofItems_sublist vanillaItems key
  refine ⟨hsublist.nodup nodup_vanillaItems, hsublist, withoutNamespace key, ?_, ?_⟩
  · exact withoutNamespace_cases key
  · exact family_ofItems nodup_vanillaItems key

end Catalog

end Reskin
