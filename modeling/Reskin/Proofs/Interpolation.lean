import Mathlib.Data.List.Infix
import Mathlib.Data.List.TakeWhile
import Reskin.Interpolation

/-!
# How a text is cut at its references

A text is plain text, a reference, plain text, a reference and so on, up to a last plain text. If a
reference starts at the first `$(` and ends at the first `)` behind it, there is one way only to cut
a text like this, whatever it looks like: a `$` in front of a reference is plain text, a `$(` inside
of a reference belongs to its name, and a `$(` that is never closed is plain text as well.

* **`Decomposition.IsOf`** — a text cut at its references.
* **`isOf_ofSegments`** — every text can be cut.
* **`segments_eq`** — however a text is cut, reading it gives these pieces.
* **`interpolation_decomposes`** — there is one way to cut a text, filling it in replaces the names
  there and nothing else, and the names without a value are listed in order.
-/

namespace Reskin.Interpolation

/-- A text that is cut at its references. -/
structure Decomposition where
  /-- The plain text in front of each reference, and the name of the reference. -/
  parts : List (List Char × List Char)
  /-- The plain text behind the last reference. -/
  last : List Char

namespace Decomposition

/-- The text that was cut. -/
def text (decomposition : Decomposition) : List Char :=
  decomposition.parts.flatMap (fun part => part.1 ++ '$' :: '(' :: (part.2 ++ [')']))
    ++ decomposition.last

/-- The names of the references, in order and with repetitions. -/
def names (decomposition : Decomposition) : List String :=
  decomposition.parts.map fun part => String.ofList part.2

/-- The text with the value of each name in the place of its reference, or nothing if there is no
value. -/
def fill (lookup : String → Option String) (decomposition : Decomposition) : List Char :=
  decomposition.parts.flatMap
      (fun part => part.1 ++ ((lookup (String.ofList part.2)).getD "").toList)
    ++ decomposition.last

/-- What it means that a text is cut at its references: no `$(` in front of a reference, no `)` in a
name, and no `$(` behind the last reference that is closed later. -/
structure IsOf (decomposition : Decomposition) (text : List Char) : Prop where
  text_eq : decomposition.text = text
  not_infix : ∀ part ∈ decomposition.parts, ¬['$', '('] <:+: part.1
  not_mem : ∀ part ∈ decomposition.parts, ')' ∉ part.2
  unclosed : ∀ before after, decomposition.last = before ++ '$' :: '(' :: after → ')' ∉ after

/-! ## Pieces of a decomposition -/

/-- The segments that a decomposition stands for. -/
def segments (decomposition : Decomposition) : List Segment :=
  decomposition.parts.flatMap (fun part => part.1.map .char ++ [.reference part.2])
    ++ decomposition.last.map .char

def push (c : Char) : Decomposition → Decomposition
  | ⟨[], last⟩ => ⟨[], c :: last⟩
  | ⟨part :: parts, last⟩ => ⟨(c :: part.1, part.2) :: parts, last⟩

def cons (part : List Char × List Char) (decomposition : Decomposition) : Decomposition :=
  { decomposition with parts := part :: decomposition.parts }

/-- Segments as a decomposition: the characters up to the next reference are one plain text. -/
def ofSegments : List Segment → Decomposition
  | [] => ⟨[], []⟩
  | .char c :: rest => (ofSegments rest).push c
  | .reference name :: rest => (ofSegments rest).cons ([], name)

theorem text_push (c : Char) (decomposition : Decomposition) :
    (decomposition.push c).text = c :: decomposition.text := by
  obtain ⟨parts, last⟩ := decomposition
  cases parts <;> rfl

theorem text_cons (part : List Char × List Char) (decomposition : Decomposition) :
    (decomposition.cons part).text
      = part.1 ++ '$' :: '(' :: (part.2 ++ ')' :: decomposition.text) := by
  simp [text, cons]

theorem ofSegments_chars (cs : List Char) : ofSegments (cs.map .char) = ⟨[], cs⟩ := by
  induction cs with
  | nil => rfl
  | cons c cs ih => rw [List.map_cons, ofSegments, ih, push]

/-- The characters in front of a reference become one plain text. -/
theorem ofSegments_part (literal name : List Char) (rest : List Segment) :
    ofSegments (literal.map .char ++ .reference name :: rest)
      = (ofSegments rest).cons (literal, name) := by
  induction literal with
  | nil => rfl
  | cons c literal ih =>
    rw [List.map_cons, List.cons_append, ofSegments, ih]
    rfl

/-- A decomposition is known from its segments. So two ways to cut a text are one as soon as they
stand for the same segments. -/
theorem ofSegments_segments (decomposition : Decomposition) :
    ofSegments decomposition.segments = decomposition := by
  obtain ⟨parts, last⟩ := decomposition
  induction parts with
  | nil => exact ofSegments_chars last
  | cons part parts ih =>
    have hsegments : segments ⟨part :: parts, last⟩
        = part.1.map .char ++ .reference part.2 :: segments ⟨parts, last⟩ := by
      simp [segments]
    rw [hsegments, ofSegments_part, ih]
    rfl

end Decomposition

open Decomposition (ofSegments)

variable {text rest name : List Char} {c : Char}

/-! ## Reading one segment -/

theorem opens_iff : ['$', '('] <+: c :: rest ↔ c = '$' ∧ ∃ more, rest = '(' :: more := by
  constructor
  · rintro ⟨more, heq⟩
    cases heq
    exact ⟨rfl, more, rfl⟩
  · rintro ⟨rfl, more, rfl⟩
    exact ⟨more, rfl⟩

/-- A character that does not start a `$(` is plain text. -/
theorem segments_char (h : ¬['$', '('] <+: c :: rest) :
    segments (c :: rest) = .char c :: segments rest := by
  rw [segments]
  rintro more rfl rfl
  exact h (opens_iff.mpr ⟨rfl, more, rfl⟩)

theorem forall_ne_closing (h : ')' ∉ rest) : ∀ d ∈ rest, decide (d ≠ ')') = true :=
  fun _ hd => decide_eq_true fun heq => h (heq ▸ hd)

/-- A `$(` that is never closed is plain text, and reading goes on behind the `$`. -/
theorem segments_unclosed (h : ')' ∉ rest) :
    segments ('$' :: '(' :: rest) = .char '$' :: segments ('(' :: rest) := by
  have hnil : rest.dropWhile (· ≠ ')') = [] :=
    List.dropWhile_eq_nil_iff.mpr (forall_ne_closing h)
  rw [segments]
  split
  · next hcons =>
    rw [hnil] at hcons
    cases hcons
  · rfl

/-- A `$(` takes everything up to the first `)` as its name, also another `$(`. -/
theorem segments_reference (h : ')' ∉ name) (rest : List Char) :
    segments ('$' :: '(' :: (name ++ ')' :: rest)) = .reference name :: segments rest := by
  have hname := forall_ne_closing h
  have htake : (name ++ ')' :: rest).takeWhile (· ≠ ')') = name := by
    rw [List.takeWhile_append_of_pos hname, List.takeWhile_cons_of_neg (by simp), List.append_nil]
  have hdrop : (name ++ ')' :: rest).dropWhile (· ≠ ')') = ')' :: rest := by
    rw [List.dropWhile_append_of_pos hname, List.dropWhile_cons_of_neg (by simp)]
  rw [segments]
  split
  · next hcons =>
    rw [hdrop] at hcons
    cases hcons
    rw [htake]
  · next hnil =>
    rw [hdrop] at hnil
    cases hnil

/-! ## Reading a whole text -/

/-- Plain text is read up to the reference behind it, even if it ends in a `$`. Induction on the
plain text, in which no `$(` may start. -/
theorem segments_literal {literal : List Char} (h : ¬['$', '('] <:+: literal) (rest : List Char) :
    segments (literal ++ '$' :: rest) = literal.map .char ++ segments ('$' :: rest) := by
  induction literal with
  | nil => rfl
  | cons c literal ih =>
    rw [List.infix_cons_iff, not_or] at h
    have hchar : ¬['$', '('] <+: c :: (literal ++ '$' :: rest) := by
      intro hopen
      -- The `(` would have to stand in the plain text, since a `$` follows that.
      cases literal with
      | nil => simp at hopen
      | cons d literal =>
        refine h.1 ?_
        simpa using hopen
    rw [List.cons_append, segments_char hchar, ih h.2]
    rfl

/-- Behind the last reference, everything is plain text. Induction from the front, with each `$(`
unclosed. -/
theorem segments_last {last : List Char}
    (h : ∀ before after, last = before ++ '$' :: '(' :: after → ')' ∉ after) :
    segments last = last.map .char := by
  induction last with
  | nil => rw [segments, List.map_nil]
  | cons c last ih =>
    have hlast : segments last = last.map .char := by
      refine ih fun before after heq => ?_
      exact h (c :: before) after (congrArg (c :: ·) heq)
    by_cases hopen : ['$', '('] <+: c :: last
    · obtain ⟨rfl, rest, rfl⟩ := opens_iff.mp hopen
      rw [segments_unclosed (h [] rest rfl), hlast]
      rfl
    · rw [segments_char hopen, hlast]
      rfl

/-- **However a text is cut at its references, reading it gives these pieces.** Induction on the
parts. Together with `ofSegments_segments` there is one way only. -/
theorem segments_eq {decomposition : Decomposition} (h : decomposition.IsOf text) :
    segments text = decomposition.segments := by
  obtain ⟨rfl, hliteral, hname, hlast⟩ := h
  obtain ⟨parts, last⟩ := decomposition
  induction parts with
  | nil => exact segments_last hlast
  | cons part parts ih =>
    obtain ⟨hliteral, hliterals⟩ := List.forall_mem_cons.mp hliteral
    obtain ⟨hname, hnames⟩ := List.forall_mem_cons.mp hname
    have htext := Decomposition.text_cons part ⟨parts, last⟩
    rw [Decomposition.cons] at htext
    rw [htext, segments_literal hliteral, segments_reference hname, ih hliterals hnames hlast]
    simp [Decomposition.segments]

/-! ## Cutting a text -/

/-- A character in front joins the first plain text, unless it completes a `$(` that is closed. If
it does so, the reference that closes it is the one behind that plain text. -/
theorem Decomposition.IsOf.push {decomposition : Decomposition} (h : decomposition.IsOf rest)
    (hopen : ∀ more, c :: rest = '$' :: '(' :: more → ')' ∉ more) :
    (decomposition.push c).IsOf (c :: rest) := by
  have htext := h.text_eq
  obtain ⟨parts, last⟩ := decomposition
  cases parts with
  | nil =>
    refine ⟨congrArg (c :: ·) htext, List.forall_mem_nil _, List.forall_mem_nil _, ?_⟩
    intro before after heq
    cases before with
    | nil => exact hopen after (htext ▸ heq)
    | cons b before =>
      cases heq
      exact h.unclosed before after rfl
  | cons part parts =>
    obtain ⟨hliteral, hliterals⟩ := List.forall_mem_cons.mp h.not_infix
    have hnames := List.forall_mem_cons.mp h.not_mem
    refine ⟨(text_push c _).trans (congrArg (c :: ·) htext), ?_, List.forall_mem_cons.mpr hnames,
      h.unclosed⟩
    refine List.forall_mem_cons.mpr ⟨fun hinfix => ?_, hliterals⟩
    rcases List.infix_cons_iff.mp hinfix with hhere | hlater
    · -- The `$(` would be closed by the reference behind this plain text.
      obtain ⟨rfl, more, hmore⟩ := opens_iff.mp hhere
      have hcons := text_cons part ⟨parts, last⟩
      rw [cons, htext, hmore] at hcons
      exact hopen _ (congrArg ('$' :: ·) hcons) (by simp)
    · exact hliteral hlater

/-- A reference in front is a part of its own, with nothing before it. -/
theorem Decomposition.IsOf.cons {decomposition : Decomposition} (h : decomposition.IsOf rest)
    (hname : ')' ∉ name) :
    (decomposition.cons ([], name)).IsOf ('$' :: '(' :: (name ++ ')' :: rest)) where
  text_eq := by
    rw [text_cons, h.text_eq]
    rfl
  not_infix := List.forall_mem_cons.mpr ⟨by simp, h.not_infix⟩
  not_mem := List.forall_mem_cons.mpr ⟨hname, h.not_mem⟩
  unclosed := h.unclosed

/-- **Every text can be cut at its references**, namely as it is read. Induction along the reading,
with one of the two lemmas above for each segment. -/
theorem isOf_ofSegments (text : List Char) : (ofSegments (segments text)).IsOf text := by
  fun_induction segments text with
  | case1 =>
    refine ⟨rfl, List.forall_mem_nil _, List.forall_mem_nil _, fun before after heq => ?_⟩
    have hnil : [] = before ++ '$' :: '(' :: after := heq
    simp at hnil
  | case2 rest d after hdrop ih =>
    -- The name ends where the first `)` stands.
    obtain rfl : d = ')' := by
      have hhead := List.head?_dropWhile_not (fun d => decide (d ≠ ')')) rest
      rw [hdrop] at hhead
      simpa using hhead
    have hname : ')' ∉ rest.takeWhile (· ≠ ')') := fun hmem => by
      simpa using List.mem_takeWhile_imp hmem
    have hrest : rest = rest.takeWhile (· ≠ ')') ++ ')' :: after := by
      rw [← hdrop, List.takeWhile_append_dropWhile]
    have hcons := ih.cons hname
    rw [← hrest] at hcons
    exact hcons
  | case3 rest hdrop ih =>
    have hclosing : ')' ∉ rest := fun hmem => by
      simpa using List.dropWhile_eq_nil_iff.mp hdrop ')' hmem
    refine ih.push fun more heq => ?_
    cases heq
    exact hclosing
  | case4 c rest hplain ih =>
    refine ih.push fun more heq => ?_
    cases heq
    exact absurd rfl (hplain more rfl)

/-! ## Filling in -/

section

variable {decomposition : Decomposition} {lookup : String → Option String} {source : String}

/-- Filling in a text replaces the references of a decomposition and nothing else. -/
theorem fill_eq (h : decomposition.IsOf source.toList) :
    fill lookup source = String.ofList (decomposition.fill lookup) := by
  have hchars : ∀ cs : List Char, (cs.map Segment.char).flatMap (Segment.fill lookup) = cs := by
    intro cs
    rw [List.flatMap_map]
    exact List.flatMap_singleton' cs
  rw [fill, segments_eq h, Decomposition.segments, Decomposition.fill, List.flatMap_append, hchars,
    List.flatMap_assoc]
  congr 3
  funext part
  rw [List.flatMap_append, hchars, List.flatMap_singleton]
  rfl

/-- The references of a text are the names of a decomposition. -/
theorem references_eq (h : decomposition.IsOf source.toList) :
    references source = decomposition.names := by
  have hparts : decomposition.names
      = decomposition.parts.flatMap fun part => [String.ofList part.2] :=
    List.map_eq_flatMap
  rw [references, segments_eq h, hparts, Decomposition.segments, List.filterMap_append,
    List.filterMap_flatMap]
  simp [List.filterMap_map]

end

/-- Only the names in a text matter for what is filled in. -/
theorem fill_congr {f g : String → Option String} {text : String}
    (h : ∀ name ∈ references text, f name = g name) : fill f text = fill g text := by
  rw [fill, fill]
  congr 1
  refine List.flatMap_congr fun segment hsegment => ?_
  cases segment with
  | char c => rfl
  | reference name =>
    have hmem : String.ofList name ∈ references text :=
      List.mem_filterMap.mpr ⟨.reference name, hsegment, rfl⟩
    rw [Segment.fill, Segment.fill, h _ hmem]

/-- The names in a text all have a value if none of them is reported. -/
theorem unresolved_eq_nil_iff {find : String → Option String} {text : String} :
    unresolved find text = [] ↔ ∀ name ∈ references text, (find name).isSome := by
  rw [unresolved, List.filter_eq_nil_iff]
  refine forall₂_congr fun name _ => ?_
  rw [Option.isNone_iff_eq_none, Option.isSome_iff_ne_none]

theorem unresolved_none (source : String) :
    unresolved (fun _ => none) source = references source :=
  List.filter_eq_self.mpr fun _ _ => rfl

/-! ## Names that are looked up -/

/-- A name that is looked up when a text is filled in: a change of its value alone can be seen in
what comes out. -/
def IsLookedUp (source name : String) : Prop :=
  ∃ lookup other : String → Option String, (∀ n, n ≠ name → lookup n = other n)
    ∧ (fill lookup source, unresolved lookup source) ≠ (fill other source, unresolved other source)

/-- The names that are looked up are the references. For one direction, two look-ups that differ in
the name alone are told apart by whether it is reported. -/
theorem isLookedUp_iff {source name : String} :
    IsLookedUp source name ↔ name ∈ references source := by
  constructor
  · rintro ⟨lookup, other, hsame, hne⟩
    -- If the name does not occur, the two look-ups agree on all names that do.
    refine Decidable.byContradiction fun hmem => hne ?_
    have hsame' : ∀ n ∈ references source, lookup n = other n := by
      intro n hn
      refine hsame n ?_
      rintro rfl
      exact hmem hn
    have hunresolved : unresolved lookup source = unresolved other source := by
      refine List.filter_congr fun n hn => ?_
      rw [hsame' n hn]
    rw [fill_congr hsame', hunresolved]
  · intro hmem
    -- The name is reported if it has no value, and not reported if it has one.
    refine ⟨fun _ => none, fun n => if n = name then some "" else none,
      fun n hn => (if_neg hn).symm, fun heq => ?_⟩
    have hnone : name ∈ unresolved (fun _ => none) source := by
      rw [unresolved_none]
      exact hmem
    rw [(Prod.mk.inj heq).2] at hnone
    have hisNone := (List.mem_filter.mp hnone).2
    simp at hisNone

/-- **A text is cut at its references in one way, and a single pass replaces these references.**
What comes out is the plain text with the value of each name in the place of its reference, put in
as it is, and the names without a value in order and with repetitions. If nothing has a value, these
are all the names there are, and they are the names that are looked up. -/
theorem interpolation_decomposes (source : String) :
    (∃! decomposition : Decomposition, decomposition.IsOf source.toList)
      ∧ ∀ decomposition : Decomposition, decomposition.IsOf source.toList →
        (∀ lookup : String → Option String,
          fill lookup source = String.ofList (decomposition.fill lookup)
            ∧ unresolved lookup source
              = decomposition.names.filter fun name => (lookup name).isNone)
          ∧ references source = decomposition.names
          ∧ unresolved (fun _ => none) source = decomposition.names
          ∧ ∀ name, IsLookedUp source name ↔ name ∈ unresolved (fun _ => none) source := by
  constructor
  · refine ⟨ofSegments (segments source.toList), isOf_ofSegments source.toList, ?_⟩
    intro decomposition h
    rw [segments_eq h, Decomposition.ofSegments_segments]
  · intro decomposition h
    have hnames := references_eq h
    refine ⟨fun lookup => ⟨fill_eq h, ?_⟩, hnames, (unresolved_none source).trans hnames, ?_⟩
    · rw [unresolved, hnames]
    · intro name
      rw [isLookedUp_iff, unresolved_none]

end Reskin.Interpolation
