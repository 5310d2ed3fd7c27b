import Mathlib.Data.List.Forall2
import Mathlib.Data.List.Induction
import Reskin.List

/-!
# Lists in the theory

Facts about lists that are not about any definition of the library, each used by several of its
modules or too long to stand between the lemmas that it serves.

* **`find?_eq_some_iff_of_pairwise`** — in a sorted list the first element with a property is the
  one that no other one with the property comes before.
* **`eraseDups_snoc`**, **`map_eraseDupsBy`** — the first occurrences in a list that grows at its
  end, and those of keys.
* **`modify_append_of_lt`**, **`modify_concat`** — one element of two lists in a row.
* **`forall₂_map_zip`**, **`forall₂_zip_of`**, **`flatMap_eq_of_forall₂`** — lists that are related
  element by element.
-/

namespace Reskin

/-! ## Finding and leaving out -/

/-- An element of a list that is the only one with a property is found by it. -/
theorem find?_eq_some_of_unique {α : Type} {l : List α} {p : α → Bool} {a : α} (ha : a ∈ l)
    (hp : p a = true) (hunique : ∀ b ∈ l, p b = true → b = a) : l.find? p = some a := by
  cases hfind : l.find? p with
  | none => exact absurd hp (List.find?_eq_none.mp hfind a ha)
  | some b => rw [hunique b (List.mem_of_find?_eq_some hfind) (List.find?_some hfind)]

/-- What is found in a sorted list is the element with the property that no other one with the
property comes before. So the order of the list is all that needs to be known about it. -/
theorem find?_eq_some_iff_of_pairwise {α : Type} {R : α → α → Prop} {l : List α} {p : α → Bool}
    {a : α} (hsorted : l.Pairwise R) (hasymm : ∀ x y, R x y → ¬R y x) :
    l.find? p = some a ↔ a ∈ l ∧ p a = true ∧ ∀ b ∈ l, R b a → ¬p b = true := by
  rw [List.find?_eq_some_iff_append]
  constructor
  · rintro ⟨hp, before, after, rfl, hbefore⟩
    refine ⟨List.mem_append_right before List.mem_cons_self, hp, fun b hb hrel => ?_⟩
    obtain ⟨-, hafter, -⟩ := List.pairwise_append.mp hsorted
    rcases List.mem_append.mp hb with hb | hb
    · simpa using hbefore b hb
    · -- An element that does not stand in front is not related in this direction.
      rcases List.mem_cons.mp hb with rfl | hb
      · exact absurd hrel (hasymm b b hrel)
      · exact absurd hrel (hasymm a b ((List.pairwise_cons.mp hafter).1 b hb))
  · rintro ⟨hmem, hp, hfirst⟩
    obtain ⟨before, after, rfl⟩ := List.append_of_mem hmem
    refine ⟨hp, before, after, rfl, fun b hb => ?_⟩
    have hrel : R b a := (List.pairwise_append.mp hsorted).2.2 b hb a List.mem_cons_self
    simpa using hfirst b (List.mem_append_left _ hb) hrel

/-- What contributes nothing may be left out. -/
theorem flatMap_filter_of_nil {α β : Type} {p : α → Bool} {f : α → List β} {xs : List α}
    (h : ∀ x ∈ xs, p x = false → f x = []) : (xs.filter p).flatMap f = xs.flatMap f := by
  induction xs with
  | nil => rfl
  | cons x xs ih =>
    rw [List.forall_mem_cons] at h
    cases hx : p x with
    | true => rw [List.filter_cons_of_pos hx, List.flatMap_cons, List.flatMap_cons, ih h.2]
    | false =>
      rw [List.filter_cons_of_neg (by simp [hx]), List.flatMap_cons, h.1 hx, ih h.2,
        List.nil_append]

/-- An element whose key no other element has is the only one that its key selects. Merged property
files are told apart by such keys. -/
theorem filter_eq_singleton_of_nodup {α β : Type} [DecidableEq β] {key : α → β} {xs : List α}
    {x : α} (hdistinct : (xs.map key).Nodup) (hmem : x ∈ xs) :
    xs.filter (fun y => key y = key x) = [x] := by
  induction xs with
  | nil => cases hmem
  | cons y ys ih =>
    obtain ⟨hnew, hys⟩ := List.nodup_cons.mp hdistinct
    rcases List.mem_cons.mp hmem with rfl | hmem
    · have hnone : ys.filter (fun y => key y = key x) = [] := by
        rw [List.filter_eq_nil_iff]
        intro y hy hsame
        exact hnew (of_decide_eq_true hsame ▸ List.mem_map_of_mem hy)
      rw [List.filter_cons_of_pos (by simp), hnone]
    · have hne : ¬key y = key x := fun hsame => hnew (hsame ▸ List.mem_map_of_mem hmem)
      rw [List.filter_cons_of_neg (by simpa using hne), ih hys hmem]

/-! ## First occurrences -/

/-- The first elements of a longer list: those of the shorter one, and the last one if it is new.
The library defines them by a loop; with this, they can be reasoned about from the end of the
list. -/
theorem eraseDupsBy_snoc {α : Type} (same : α → α → Bool) (xs : List α) (x : α) :
    (xs ++ [x]).eraseDupsBy same
      = if (xs.eraseDupsBy same).any (same x) then xs.eraseDupsBy same
        else xs.eraseDupsBy same ++ [x] := by
  -- The loop carries what it has seen in reverse, so the statement is about any such list.
  have hloop : ∀ xs seen : List α, List.eraseDupsBy.loop same (xs ++ [x]) seen
      = if (List.eraseDupsBy.loop same xs seen).any (same x) then
          List.eraseDupsBy.loop same xs seen
        else List.eraseDupsBy.loop same xs seen ++ [x] := by
    intro xs
    induction xs with
    | nil =>
      intro seen
      rw [List.nil_append, List.eraseDupsBy.loop, List.eraseDupsBy.loop, List.any_reverse]
      cases seen.any (same x) with
      | true => rfl
      | false => exact List.reverse_cons
    | cons y ys ih =>
      intro seen
      rw [List.cons_append, List.eraseDupsBy.loop, List.eraseDupsBy.loop]
      cases seen.any (same y) with
      | true => exact ih seen
      | false => exact ih (y :: seen)
  exact hloop xs []

section eraseDups

variable {α β : Type} [BEq β]

theorem eraseDups_snoc (xs : List β) (x : β) :
    (xs ++ [x]).eraseDups
      = if xs.eraseDups.contains x then xs.eraseDups else xs.eraseDups ++ [x] := by
  rw [List.contains_eq_any_beq]
  exact eraseDupsBy_snoc _ xs x

theorem nodup_eraseDups [LawfulBEq β] (xs : List β) : xs.eraseDups.Nodup := by
  induction xs using List.reverseRecOn with
  | nil => exact .nil
  | append_singleton xs x ih =>
    rw [eraseDups_snoc]
    split
    · exact ih
    · next hnew =>
      rw [List.contains_iff_mem] at hnew
      refine List.nodup_append.mpr ⟨ih, List.pairwise_singleton _ x, ?_⟩
      rintro a ha b hb rfl
      exact hnew (List.mem_singleton.mp hb ▸ ha)

theorem eraseDups_of_nodup [LawfulBEq β] {xs : List β} (h : xs.Nodup) : xs.eraseDups = xs := by
  induction xs using List.reverseRecOn with
  | nil => rfl
  | append_singleton xs x ih =>
    obtain ⟨hxs, -, hnew⟩ := List.nodup_append.mp h
    have hx : ¬xs.contains x = true := fun hx =>
      hnew x (List.contains_iff_mem.mp hx) x List.mem_cons_self rfl
    rw [eraseDups_snoc, ih hxs, if_neg hx]

/-- The first elements by a key have the first keys, in the same order. -/
theorem map_eraseDupsBy (key : α → β) (xs : List α) :
    (xs.eraseDupsBy fun a b => key a == key b).map key = (xs.map key).eraseDups := by
  induction xs using List.reverseRecOn with
  | nil => rfl
  | append_singleton xs x ih =>
    have hany : (xs.eraseDupsBy fun a b => key a == key b).any (key x == key ·)
        = (xs.map key).eraseDups.contains (key x) := by
      rw [← ih, List.contains_eq_any_beq, List.any_map]
      rfl
    rw [eraseDupsBy_snoc, hany, List.map_append, List.map_singleton, eraseDups_snoc]
    split
    · exact ih
    · rw [List.map_append, ih]
      rfl

end eraseDups

/-! ## Changing one element -/

section Modify

variable {α : Type}

/-- A change in the first of two lists leaves the second one as it is. -/
theorem modify_append_of_lt {a : List α} {n : Nat} (h : n < a.length) (f : α → α) (b : List α) :
    (a ++ b).modify n f = a.modify n f ++ b := by
  refine List.ext_getElem? fun m => ?_
  rw [List.getElem?_modify, List.getElem?_append, List.getElem?_append, List.length_modify,
    List.getElem?_modify]
  by_cases hm : m < a.length
  · rw [if_pos hm, if_pos hm]
  · have hne : n ≠ m := by omega
    simp [if_neg hm, hne]

theorem modify_concat (a : List α) (f : α → α) (x : α) :
    (a ++ [x]).modify a.length f = a ++ [f x] := by
  rw [List.modify_eq_take_cons_drop (by simp)]
  simp

end Modify

/-! ## Lists that are related element by element -/

/-- A relation between two lists carries over to what is made of the second one, element by element
and together with a third list. -/
theorem forall₂_map_zip {α β γ δ : Type} {R : α → β → Prop} {S : α → δ → Prop} {xs : List α}
    {ys : List β} {zs : List γ} {g : β × γ → δ} (hR : List.Forall₂ R xs ys)
    (hlength : ys.length = zs.length) (h : ∀ x y, R x y → ∀ z, S x (g (y, z))) :
    List.Forall₂ S xs ((ys.zip zs).map g) := by
  induction hR generalizing zs with
  | nil => exact .nil
  | cons hxy _ ih =>
    cases zs with
    | nil => cases hlength
    | cons z zs => exact .cons (h _ _ hxy z) (ih (Nat.succ.inj hlength))

theorem forall₂_zip_of {α β γ δ : Type} {R : α → β → Prop} {S : γ → δ → Prop} {xs : List α}
    {ys : List β} {zs : List γ} {ws : List δ} (hR : List.Forall₂ R xs ys)
    (hS : List.Forall₂ S zs ws) :
    List.Forall₂ (fun p q => R p.1 q.1 ∧ S p.2 q.2) (xs.zip zs) (ys.zip ws) := by
  induction hR generalizing zs ws with
  | nil => exact .nil
  | cons hfirst _ ih =>
    cases hS with
    | nil => exact .nil
    | cons hsecond hrest => exact .cons ⟨hfirst, hsecond⟩ (ih hrest)

theorem flatMap_eq_of_forall₂ {α β γ : Type} {f : α → List γ} {g : β → List γ} {xs : List α}
    {ys : List β} (h : List.Forall₂ (fun x y => g y = f x) xs ys) :
    ys.flatMap g = xs.flatMap f := by
  induction h with
  | nil => rfl
  | cons hfirst _ ih => rw [List.flatMap_cons, List.flatMap_cons, hfirst, ih]

end Reskin
