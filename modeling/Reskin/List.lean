/-!
# Lists

Facts about lists that the definitions of the library rest on, for instance to show that they end.
Those that only its theory needs are in `Reskin.Proofs.List`.
-/

namespace Reskin

/-- More elements have a property than a narrower one, if one of them has the wide property only.
A search that marks what it visits ends by this: the unmarked elements get fewer. -/
theorem countP_lt_countP {α : Type} {p q : α → Bool} {l : List α} {a : α}
    (hpq : ∀ x, p x = true → q x = true) (ha : a ∈ l) (hq : q a = true) (hp : p a = false) :
    l.countP p < l.countP q := by
  induction l with
  | nil => simp at ha
  | cons x l ih =>
    have hle : l.countP p ≤ l.countP q := List.countP_mono_left fun y _ h => hpq y h
    rcases List.mem_cons.1 ha with rfl | h
    · rw [List.countP_cons_of_neg (by simp [hp]), List.countP_cons_of_pos hq]
      omega
    · have hlt := ih h
      rw [List.countP_cons, List.countP_cons]
      by_cases hx : p x = true
      · rw [if_pos hx, if_pos (hpq x hx)]
        omega
      · rw [if_neg hx]
        omega

/-- If as many of the first elements have a property as were asked for, all of them have it. -/
theorem takeWhile_take_eq_of_length {α : Type} {p : α → Bool} {n : Nat} {l : List α}
    (h : ((l.take n).takeWhile p).length = n) : (l.take n).takeWhile p = l.take n := by
  have hle : (l.take n).length ≤ n := List.length_take_le n l
  exact (List.takeWhile_prefix p).eq_of_length_le (by omega)

end Reskin
