import Reskin.Diagnostic

/-!
# Folds that report

A step that reports is folded over a list in two ways at once: the values are those of a plain fold,
and the reports are put one after the other. The lemmas below carry a property of the values along
such a fold, and let a fold that reported nothing be taken apart into steps that reported nothing.

A step that cannot do what it should goes on all the same, with an error in its reports. So what it
ensures holds only of the values that came without errors: `Ensures` says this of one step, and has
a lemma for each way to put steps together.
-/

namespace Reskin.Reported

variable {α σ : Type} {f : σ → α → Reported σ}

@[simp] theorem diagnostics_reportAll (diagnostics : List Diagnostic) :
    (reportAll diagnostics).diagnostics = diagnostics := rfl

/-- The value of a fold does not depend on what its steps report. -/
theorem value_foldlM (xs : List α) (init : σ) :
    (xs.foldlM f init).value = xs.foldl (fun state x => (f state x).value) init := by
  induction xs generalizing init with
  | nil => rfl
  | cons x xs ih =>
    rw [List.foldlM_cons, value_bind]
    exact ih (f init x).value

/-- What every step keeps, the fold keeps. -/
theorem foldlM_invariant {P : σ → Prop} {xs : List α} {init : σ} (hinit : P init)
    (hstep : ∀ state, ∀ x ∈ xs, P state → P (f state x).value) : P (xs.foldlM f init).value := by
  induction xs generalizing init with
  | nil => exact hinit
  | cons x xs ih =>
    rw [List.foldlM_cons, value_bind]
    refine ih (hstep init x List.mem_cons_self hinit) ?_
    intro state y hy
    exact hstep state y (List.mem_cons_of_mem x hy)

/-- What every silent step keeps, a silent fold keeps. -/
theorem foldlM_silent_invariant {P : σ → Prop} {xs : List α} {init : σ} (hinit : P init)
    (hstep : ∀ state, ∀ x ∈ xs, P state → (f state x).diagnostics = [] → P (f state x).value)
    (hsilent : (xs.foldlM f init).diagnostics = []) : P (xs.foldlM f init).value := by
  induction xs generalizing init with
  | nil => exact hinit
  | cons x xs ih =>
    rw [List.foldlM_cons, diagnostics_bind, List.append_eq_nil_iff] at hsilent
    rw [List.foldlM_cons, value_bind]
    refine ih (hstep init x List.mem_cons_self hinit hsilent.1) ?_ hsilent.2
    intro state y hy
    exact hstep state y (List.mem_cons_of_mem x hy)

/-- If every step is silent where an invariant holds, the fold is. -/
theorem foldlM_silent {P : σ → Prop} {xs : List α} {init : σ} (hinit : P init)
    (hkeep : ∀ state, ∀ x ∈ xs, P state → P (f state x).value)
    (hstep : ∀ state, ∀ x ∈ xs, P state → (f state x).diagnostics = []) :
    (xs.foldlM f init).diagnostics = [] := by
  induction xs generalizing init with
  | nil => rfl
  | cons x xs ih =>
    rw [List.foldlM_cons, diagnostics_bind, hstep init x List.mem_cons_self hinit, List.nil_append]
    refine ih (hkeep init x List.mem_cons_self hinit) ?_ ?_
    · intro state y hy
      exact hkeep state y (List.mem_cons_of_mem x hy)
    · intro state y hy
      exact hstep state y (List.mem_cons_of_mem x hy)

/-- What a step establishes for its element and later steps keep holds for all elements. Induction
on the list: for the first element the rest of the fold is an invariant. -/
theorem foldlM_forall {Q : α → σ → Prop} {xs : List α} {init : σ}
    (hset : ∀ state, ∀ x ∈ xs, Q x (f state x).value)
    (hkeep : ∀ state, ∀ x ∈ xs, ∀ y, Q y state → Q y (f state x).value) :
    ∀ x ∈ xs, Q x (xs.foldlM f init).value := by
  induction xs generalizing init with
  | nil => simp
  | cons x xs ih =>
    intro y hy
    rw [List.foldlM_cons, value_bind]
    have hkeep' : ∀ state, ∀ x ∈ xs, ∀ y, Q y state → Q y (f state x).value :=
      fun state x hx => hkeep state x (List.mem_cons_of_mem _ hx)
    rcases List.mem_cons.mp hy with rfl | hy
    · exact foldlM_invariant (hset init y List.mem_cons_self) fun state z hz => hkeep' state z hz y
    · exact ih (fun state z hz => hset state z (List.mem_cons_of_mem x hz)) hkeep' y hy

/-- One more step reports behind the others. -/
theorem diagnostics_foldlM_snoc (xs : List α) (x : α) (init : σ) :
    ((xs ++ [x]).foldlM f init).diagnostics
      = (xs.foldlM f init).diagnostics ++ (f (xs.foldlM f init).value x).diagnostics := by
  induction xs generalizing init with
  | nil => simp
  | cons y xs ih =>
    rw [List.cons_append, List.foldlM_cons, List.foldlM_cons, diagnostics_bind, diagnostics_bind,
      value_bind, ih, List.append_assoc]

/-- Every report of a fold comes from one of its steps, whatever the state was that the step started
from. -/
theorem mem_diagnostics_foldlM {xs : List α} {init : σ} {diagnostic : Diagnostic}
    (h : diagnostic ∈ (xs.foldlM f init).diagnostics) :
    ∃ state, ∃ x ∈ xs, diagnostic ∈ (f state x).diagnostics := by
  induction xs generalizing init with
  | nil => simp at h
  | cons x xs ih =>
    rw [List.foldlM_cons, diagnostics_bind, List.mem_append] at h
    rcases h with h | h
    · exact ⟨init, x, List.mem_cons_self, h⟩
    · obtain ⟨state, y, hy, h⟩ := ih h
      exact ⟨state, y, List.mem_cons_of_mem x hy, h⟩

/-! ## What steps ensure -/

theorem hasErrors_append (a b : List Diagnostic) :
    hasErrors (a ++ b) = (hasErrors a || hasErrors b) :=
  List.any_append

/-- A step whose value has the property `P`, unless an error is reported. -/
def Ensures {α : Type} (result : Reported α) (P : α → Prop) : Prop :=
  hasErrors result.diagnostics = false → P result.value

section Ensures

variable {α β : Type} {P : α → Prop} {Q : β → Prop}

theorem ensures_true (result : Reported α) : result.Ensures fun _ => True :=
  fun _ => trivial

theorem ensures_pure {value : α} (h : P value) : (pure value : Reported α).Ensures P :=
  fun _ => h

/-- Steps can be chained: without an error there is none in either of them, so the second one starts
from a value that the first one ensures. -/
theorem Ensures.bind {x : Reported α} {next : α → Reported β} (hx : x.Ensures P)
    (hnext : ∀ value, P value → (next value).Ensures Q) : (x >>= next).Ensures Q := by
  intro hnone
  rw [diagnostics_bind, hasErrors_append, Bool.or_eq_false_iff] at hnone
  exact hnext x.value (hx hnone.1) hnone.2

/-- A condition that is reported as an error ensures its opposite. -/
theorem ensures_reportIf {condition : Bool} {diagnostic : Diagnostic}
    (herror : diagnostic.isError = true) :
    (reportIf condition diagnostic).Ensures fun _ => condition = false := by
  intro hnone
  cases condition with
  | false => rfl
  | true =>
    have hreported : hasErrors [diagnostic] = true := by
      rw [hasErrors, List.any_cons, herror, Bool.true_or]
    exact absurd (hreported.symm.trans hnone) (by decide)

end Ensures

end Reskin.Reported
