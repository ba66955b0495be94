import Mathlib.Data.List.Basic

/-!
Runs of a labelled transition system and what holds along them.

* `Run`: a run from a state, as the list of its labels with the states they
  lead to.
* `Along`: a condition on each step of a run, read in the state before it.
* `Run.invariant`: what every step preserves holds in every state reached.
* `Run.good_iff`: a property that each step keeps exactly under a condition
  holds in every state reached exactly when each step meets the condition.
* `Run.along_iff`: two conditions on the steps of a run agree along it.
* `Run.append`, `endOf`: one run after another, and the state a run ends in.
* `traceOf`, `run_traceOf`: the run that a list of labels leads to, where the
  steps are a function.
-/

namespace Runs

variable {σ α : Type*}

/-- A run: each label with the state it leads to. -/
inductive Run (step : σ → α → σ → Prop) : σ → List (α × σ) → Prop
  | nil (s : σ) : Run step s []
  | cons {s t : σ} {a : α} {trace : List (α × σ)} :
      step s a t → Run step t trace → Run step s ((a, t) :: trace)

/-- Each step of a run meets a condition on the state before it and its label. -/
def Along (P : σ → α → Prop) : σ → List (α × σ) → Prop
  | _, [] => True
  | s, (a, t) :: trace => P s a ∧ Along P t trace

variable {step : σ → α → σ → Prop} {P : σ → α → Prop} {I G : σ → Prop}

@[simp] lemma along_nil (s : σ) : Along P s [] := trivial

@[simp] lemma along_cons (s t : σ) (a : α) (trace : List (α × σ)) :
    Along P s ((a, t) :: trace) ↔ P s a ∧ Along P t trace := Iff.rfl

/-- What the steps that meet a condition preserve holds in every state reached
by such steps. -/
theorem Run.invariant_of_along (hstep : ∀ s a t, I s → P s a → step s a t → I t) {s : σ}
    {trace : List (α × σ)} (h : Run step s trace) (hs : I s) (hP : Along P s trace) :
    ∀ x ∈ trace, I x.2 := by
  induction h with
  | nil s => simp
  | cons hst _ ih =>
      have ht := hstep _ _ _ hs hP.1 hst
      exact List.forall_mem_cons.mpr ⟨ht, ih ht hP.2⟩

/-- What every step preserves holds in every state reached. -/
theorem Run.invariant (hstep : ∀ s a t, I s → step s a t → I t) {s : σ}
    {trace : List (α × σ)} (h : Run step s trace) (hs : I s) : ∀ x ∈ trace, I x.2 := by
  induction h with
  | nil s => simp
  | cons hst _ ih =>
      have ht := hstep _ _ _ hs hst
      exact List.forall_mem_cons.mpr ⟨ht, ih ht⟩

/-- **A property holds along a run** exactly when each step meets the condition
under which it keeps the property. -/
theorem Run.good_iff (hstep : ∀ s a t, I s → step s a t → I t)
    (hkeep : ∀ s a t, I s → G s → step s a t → (G t ↔ P s a)) {s : σ}
    {trace : List (α × σ)} (h : Run step s trace) (hs : I s) (hgood : G s) :
    (∀ x ∈ trace, G x.2) ↔ Along P s trace := by
  induction h with
  | nil s => simp
  | cons hst _ ih =>
      rw [List.forall_mem_cons, along_cons, hkeep _ _ _ hs hgood hst]
      refine and_congr_right fun hP => ?_
      exact ih (hstep _ _ _ hs hst) ((hkeep _ _ _ hs hgood hst).mpr hP)

/-- **Two conditions agree along a run** where they agree in every state of an
invariant that the second of them keeps. -/
theorem Run.along_iff_of_keep {Q : σ → α → Prop}
    (hkeep : ∀ s a t, I s → Q s a → step s a t → I t)
    (hiff : ∀ s a t, I s → step s a t → (P s a ↔ Q s a)) {s : σ} {trace : List (α × σ)}
    (h : Run step s trace) (hs : I s) : Along P s trace ↔ Along Q s trace := by
  induction h with
  | nil s => simp
  | cons hst _ ih =>
      rw [along_cons, along_cons, hiff _ _ _ hs hst]
      exact and_congr_right fun hQ => ih (hkeep _ _ _ hs hQ hst)

/-- **A condition along a run gives another** that it gives in every state of an invariant that
it keeps. -/
theorem Run.along_of_keep {Q : σ → α → Prop}
    (hkeep : ∀ s a t, I s → Q s a → step s a t → I t)
    (himp : ∀ s a t, I s → Q s a → step s a t → P s a) {s : σ} {trace : List (α × σ)}
    (h : Run step s trace) (hs : I s) (hQ : Along Q s trace) : Along P s trace := by
  induction h with
  | nil s => trivial
  | cons hst _ ih => exact ⟨himp _ _ _ hs hQ.1 hst, ih (hkeep _ _ _ hs hQ.1 hst) hQ.2⟩

/-- **Two conditions agree along a run** where they agree in every state that
satisfies an invariant. -/
theorem Run.along_iff {Q : σ → α → Prop} (hstep : ∀ s a t, I s → step s a t → I t)
    (hiff : ∀ s a t, I s → step s a t → (P s a ↔ Q s a)) {s : σ} {trace : List (α × σ)}
    (h : Run step s trace) (hs : I s) : Along P s trace ↔ Along Q s trace :=
  h.along_iff_of_keep (fun s a t hs _ hst => hstep s a t hs hst) hiff hs

/-! ### One run after another -/

/-- The state that a run ends in. -/
def endOf : σ → List (α × σ) → σ
  | s, [] => s
  | _, (_, t) :: trace => endOf t trace

lemma Run.append {s : σ} {trace trace' : List (α × σ)} (h : Run step s trace)
    (h' : Run step (endOf s trace) trace') : Run step s (trace ++ trace') := by
  induction h with
  | nil s => exact h'
  | cons hst _ ih => exact .cons hst (ih h')

lemma endOf_append (s : σ) (trace trace' : List (α × σ)) :
    endOf s (trace ++ trace') = endOf (endOf s trace) trace' := by
  induction trace generalizing s with
  | nil => rfl
  | cons x trace ih => exact ih x.2

lemma along_append (s : σ) (trace trace' : List (α × σ)) :
    Along P s (trace ++ trace') ↔ Along P s trace ∧ Along P (endOf s trace) trace' := by
  induction trace generalizing s with
  | nil => simp [endOf]
  | cons x trace ih =>
      rw [List.cons_append, along_cons, along_cons, ih, and_assoc]
      rfl

/-- What the steps that meet a condition preserve holds at the end of such steps. -/
lemma Run.invariant_endOf_of_along (hstep : ∀ s a t, I s → P s a → step s a t → I t) {s : σ}
    {trace : List (α × σ)} (h : Run step s trace) (hs : I s) (hP : Along P s trace) :
    I (endOf s trace) := by
  induction h with
  | nil s => exact hs
  | cons hst _ ih => exact ih (hstep _ _ _ hs hP.1 hst) hP.2

/-- What every step preserves holds at the end. -/
lemma Run.invariant_endOf (hstep : ∀ s a t, I s → step s a t → I t) {s : σ}
    {trace : List (α × σ)} (h : Run step s trace) (hs : I s) : I (endOf s trace) := by
  induction h with
  | nil s => exact hs
  | cons hst _ ih => exact ih (hstep _ _ _ hs hst)

/-! ### Steps that are a function -/

variable (next : σ → α → Option σ)

/-- The states that labels lead to, up to the first that has no step. -/
def traceOf : σ → List α → List (α × σ)
  | _, [] => []
  | s, a :: labels =>
      match next s a with
      | none => []
      | some t => (a, t) :: traceOf t labels

/-- The states that labels lead to are a run. -/
theorem run_traceOf (s : σ) (labels : List α) :
    Run (fun s a t => next s a = some t) s (traceOf next s labels) := by
  induction labels generalizing s with
  | nil => exact .nil s
  | cons a labels ih =>
      rw [traceOf]
      cases h : next s a with
      | none => exact .nil s
      | some t => exact .cons h (ih t)

end Runs
