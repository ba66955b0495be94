import Mathlib.Data.List.Basic

/-!
Calls over a state that may fail, and what they keep of it.

* `Call`: a call leaves a state whether it returns or fails.
* `Keeps`: a call keeps a property of the state, however it ends; one rule for
  each way of building a call.
* `keeps_lift_bind`: what a pure step has found out is known to what follows it.
* `Yields`: whatever a call returns has a property; the same rules.
-/

namespace Calls

/-- A call: it returns a value or fails, and leaves a state either way. -/
abbrev Call (ε σ α : Type) := ExceptT ε (StateM σ) α

variable {ε σ α β : Type}

/-- The call that runs a function of the state. -/
def ofState (f : σ → Except ε α × σ) : Call ε σ α := f

/-- What a call returns, and the state it leaves. -/
def runOn (x : Call ε σ α) (s : σ) : Except ε α × σ := x s

/-- A call keeps a property of the state, whether it returns or fails. -/
def Keeps (I : σ → Prop) (x : Call ε σ α) : Prop := ∀ s, I s → I (runOn x s).2

variable {I : σ → Prop}

/-! ### Rules -/

lemma keeps_ofState {f : σ → Except ε α × σ} (h : ∀ s, I s → I (f s).2) : Keeps I (ofState f) := h

@[simp] lemma keeps_pure (a : α) : Keeps I (pure a : Call ε σ α) := fun _ hs => hs

@[simp] lemma keeps_lift (e : Except ε α) : Keeps I (liftM e : Call ε σ α) := fun _ hs => hs

@[simp] lemma runOn_pure (a : α) (s : σ) : runOn (pure a : Call ε σ α) s = (.ok a, s) := rfl

@[simp] lemma runOn_ofState (f : σ → Except ε α × σ) (s : σ) : runOn (ofState f) s = f s := rfl

@[simp] lemma runOn_lift (e : Except ε α) (s : σ) : runOn (liftM e : Call ε σ α) s = (e, s) := rfl

lemma runOn_bind (x : Call ε σ α) (f : α → Call ε σ β) (s : σ) :
    runOn (x >>= f) s =
      match runOn x s with
      | (.ok a, t) => runOn (f a) t
      | (.error e, t) => (.error e, t) := by
  show ExceptT.bind x f s = _
  simp only [ExceptT.bind, ExceptT.mk, bind, StateT.bind, runOn]
  cases x s with
  | mk r t => cases r <;> rfl

/-- A call in two steps, of which the second starts from what the first returns. -/
lemma keeps_bind_of_returns {x : Call ε σ α} {f : α → Call ε σ β} (hx : Keeps I x)
    (hf : ∀ a, (∃ s t, runOn x s = (.ok a, t)) → Keeps I (f a)) : Keeps I (x >>= f) := by
  intro s hs
  have ht := hx s hs
  rw [runOn_bind]
  cases h : runOn x s with
  | mk r t =>
      rw [h] at ht
      cases r with
      | ok a => exact hf a ⟨s, t, h⟩ t ht
      | error e => exact ht

/-- A call in two steps. -/
lemma keeps_bind {x : Call ε σ α} {f : α → Call ε σ β} (hx : Keeps I x) (hf : ∀ a, Keeps I (f a)) :
    Keeps I (x >>= f) :=
  keeps_bind_of_returns hx fun a _ => hf a

/-- **What a pure step has found out** is known to what follows it. -/
lemma keeps_lift_bind {e : Except ε α} {f : α → Call ε σ β} (hf : ∀ a, e = .ok a → Keeps I (f a)) :
    Keeps I ((liftM e : Call ε σ α) >>= f) := by
  cases e with
  | ok a => exact hf a rfl
  | error e => exact fun _ hs => hs

lemma keeps_ite {c : Prop} [Decidable c] {x y : Call ε σ α} (hx : c → Keeps I x)
    (hy : ¬ c → Keeps I y) : Keeps I (if c then x else y) := by
  split_ifs with h
  · exact hx h
  · exact hy h

/-! ### What a call returns -/

/-- Whatever a call returns has a property. -/
def Yields (P : α → Prop) (x : Call ε σ α) : Prop := ∀ s a t, runOn x s = (.ok a, t) → P a

variable {P : α → Prop} {Q : β → Prop}

lemma yields_pure {a : α} (h : P a) : Yields P (pure a : Call ε σ α) := by
  intro s b t hrun
  rw [runOn_pure] at hrun
  cases hrun
  exact h

lemma yields_ofState {f : σ → Except ε α × σ} (h : ∀ s a, (f s).1 = .ok a → P a) :
    Yields P (ofState f) :=
  fun s a _ hrun => h s a (congrArg Prod.fst hrun)

/-- A call in two steps. -/
lemma yields_bind {x : Call ε σ α} {f : α → Call ε σ β} (hx : Yields P x)
    (hf : ∀ a, P a → Yields Q (f a)) : Yields Q (x >>= f) := by
  intro s b t hrun
  rw [runOn_bind] at hrun
  cases h : runOn x s with
  | mk r u =>
      rw [h] at hrun
      cases r with
      | ok a => exact hf a (hx s a u h) u b t hrun
      | error e => cases hrun

lemma yields_lift_bind {e : Except ε α} {f : α → Call ε σ β}
    (hf : ∀ a, e = .ok a → Yields Q (f a)) : Yields Q ((liftM e : Call ε σ α) >>= f) :=
  yields_bind (P := fun a => e = .ok a) (fun _ _ _ hrun => congrArg Prod.fst hrun) hf

lemma yields_ite {c : Prop} [Decidable c] {x y : Call ε σ α} (hx : c → Yields P x)
    (hy : ¬ c → Yields P y) : Yields P (if c then x else y) := by
  split_ifs with h
  · exact hx h
  · exact hy h

end Calls
