/-
**Fallible computations and their inversion rules.**

A function that may fail is modelled in `Except`, a procedure that also changes a state in
`EStateM`, which keeps the state it had reached when it fails.  Every proof about such a
function starts by taking a successful run apart, so the rules that do so are stated once here.

* `Outcome.ensure`, `Outcome.okOr` — an early return, and the error for a missing value;
* `Outcome.bind_eq_ok`, `Outcome.mapError_eq_ok` — **inversion of a successful run**;
* `Outcome.ErrorsIn` — the errors a computation can end with, with its rule for sequences;
* `Outcome.lift`, `Outcome.bind_run_ok`, `Outcome.bind_run_error` — the same rules for the
  procedures of `EStateM`;
* `Outcome.zoom` — a procedure on a part of the state;
* `Outcome.Keeps` — what a procedure does to the state, with its rule for sequences.
-/

import Mathlib

set_option relaxedAutoImplicit false
set_option autoImplicit false

namespace Outcome

universe u

variable {ε ε' : Type u} {α β σ : Type u}

/-! ### Functions that may fail -/

/-- Fail with `e` unless `c` holds: the source's `if !c { return Err(e) }`. -/
def ensure (c : Prop) [Decidable c] (e : ε) : Except ε PUnit.{u + 1} :=
  if c then .ok ⟨⟩ else .error e

/-- The value of an option, or the error `e` when there is none. -/
def okOr (x : Option α) (e : ε) : Except ε α :=
  match x with
  | some a => .ok a
  | none => .error e

@[simp] theorem ensure_eq_ok {c : Prop} [Decidable c] {e : ε} {x : PUnit.{u + 1}} :
    ensure c e = .ok x ↔ c := by
  unfold ensure
  split <;> simp_all

@[simp] theorem ensure_eq_error {c : Prop} [Decidable c] {e e' : ε} :
    ensure c e = .error e' ↔ ¬ c ∧ e = e' := by
  unfold ensure
  split <;> simp_all

@[simp] theorem okOr_eq_ok {x : Option α} {e : ε} {a : α} :
    okOr x e = .ok a ↔ x = some a := by
  cases x <;> simp [okOr]

@[simp] theorem okOr_eq_error {x : Option α} {e e' : ε} :
    okOr x e = .error e' ↔ x = none ∧ e = e' := by
  cases x <;> simp [okOr]

@[simp] theorem pure_eq_ok {a b : α} : (pure a : Except ε α) = .ok b ↔ a = b := by
  simp [pure, Except.pure]

@[simp] theorem pure_ne_error {a : α} {e : ε} : (pure a : Except ε α) ≠ .error e := by
  simp [pure, Except.pure]

@[simp] theorem throw_ne_ok {a : α} {e : ε} : (throw e : Except ε α) ≠ .ok a := by
  simp [throw, throwThe, MonadExceptOf.throw]

@[simp] theorem throw_eq_error {e e' : ε} : (throw e : Except ε α) = .error e' ↔ e = e' := by
  simp [throw, throwThe, MonadExceptOf.throw]

/-- **A sequence succeeds exactly when both of its halves do.** -/
theorem bind_eq_ok {x : Except ε α} {f : α → Except ε β} {b : β} :
    x >>= f = .ok b ↔ ∃ a, x = .ok a ∧ f a = .ok b := by
  cases x <;> simp [bind, Except.bind]

theorem bind_eq_error {x : Except ε α} {f : α → Except ε β} {e : ε} :
    x >>= f = .error e ↔ x = .error e ∨ ∃ a, x = .ok a ∧ f a = .error e := by
  cases x <;> simp [bind, Except.bind]

@[simp] theorem ok_bind {a : α} {f : α → Except ε β} : (.ok a : Except ε α) >>= f = f a := rfl

@[simp] theorem error_bind {e : ε} {f : α → Except ε β} :
    (.error e : Except ε α) >>= f = .error e := rfl

theorem map_eq_ok {x : Except ε α} {f : α → β} {b : β} :
    f <$> x = .ok b ↔ ∃ a, x = .ok a ∧ f a = b := by
  cases x <;> simp [Functor.map, Except.map]

@[simp] theorem mapError_eq_ok {g : ε → ε'} {x : Except ε α} {a : α} :
    x.mapError g = .ok a ↔ x = .ok a := by
  cases x <;> simp [Except.mapError]

@[simp] theorem mapError_eq_error {g : ε → ε'} {x : Except ε α} {e : ε'} :
    x.mapError g = .error e ↔ ∃ e₀, x = .error e₀ ∧ g e₀ = e := by
  cases x <;> simp [Except.mapError]

/-- A list is mapped successfully exactly when each of its elements is. -/
theorem mapM_eq_ok {f : α → Except ε β} {xs : List α} {ys : List β} :
    xs.mapM f = .ok ys ↔ List.Forall₂ (fun x y => f x = .ok y) xs ys := by
  induction xs generalizing ys with
  | nil =>
      rw [List.mapM_nil, pure_eq_ok, List.forall₂_nil_left_iff, eq_comm]
  | cons x xs ih =>
      simp only [List.mapM_cons, bind_eq_ok, pure_eq_ok, ih, List.forall₂_cons_left_iff]
      constructor
      · rintro ⟨y, hy, ys', hys, rfl⟩
        exact ⟨y, ys', hy, hys, rfl⟩
      · rintro ⟨y, ys', hy, hys, rfl⟩
        exact ⟨y, hy, ys', hys, rfl⟩

/-- What is in a list that was mapped comes from something in the list. -/
theorem exists_of_mem_mapM {f : α → Except ε β} {xs : List α} {ys : List β}
    (h : xs.mapM f = .ok ys) {y : β} (hy : y ∈ ys) : ∃ x ∈ xs, f x = .ok y := by
  induction xs generalizing ys with
  | nil =>
      rw [List.mapM_nil, pure_eq_ok] at h
      subst h
      cases hy
  | cons x xs ih =>
      simp only [List.mapM_cons, bind_eq_ok, pure_eq_ok] at h
      obtain ⟨y', hy', ys', hys, rfl⟩ := h
      rcases List.mem_cons.1 hy with rfl | hy
      · exact ⟨x, List.mem_cons_self, hy'⟩
      · obtain ⟨x', hx', hfx⟩ := ih hys hy
        exact ⟨x', List.mem_cons_of_mem x hx', hfx⟩

/-- Every run ends one way or the other. -/
theorem ok_or_error (x : Except ε α) : (∃ a, x = .ok a) ∨ ∃ e, x = .error e := by
  cases x with
  | ok a => exact Or.inl ⟨a, rfl⟩
  | error e => exact Or.inr ⟨e, rfl⟩

theorem toOption_eq_some {x : Except ε α} {a : α} : x.toOption = some a ↔ x = .ok a := by
  cases x with
  | ok b => simp [Except.toOption]
  | error e => simp [Except.toOption]

theorem exists_of_isOk {x : Except ε α} (h : x.isOk = true) : ∃ a, x = .ok a := by
  cases x with
  | ok a => exact ⟨a, rfl⟩
  | error e => cases h

/-- A successful run, found by evaluating it together with a property of its value. -/
theorem exists_ok_of_any {x : Except ε α} {p : α → Bool} (h : x.toOption.any p = true) :
    ∃ a, x = .ok a ∧ p a = true := by
  cases x with
  | ok a => exact ⟨a, rfl, h⟩
  | error e => cases h

/-! ### The errors of a computation -/

/-- Every error of the computation is one of `P`. -/
def ErrorsIn (P : ε → Prop) (x : Except ε α) : Prop := ∀ e, x = .error e → P e

theorem errorsIn_ok {P : ε → Prop} (a : α) : ErrorsIn P (.ok a : Except ε α) :=
  fun _ h => by cases h

theorem errorsIn_mapError {P : ε' → Prop} {f : ε → ε'} (h : ∀ e, P (f e)) (x : Except ε α) :
    ErrorsIn P (x.mapError f) := by
  intro e he
  obtain ⟨e₀, -, rfl⟩ := mapError_eq_error.1 he
  exact h e₀

theorem ErrorsIn.bind {P : ε → Prop} {x : Except ε α} {f : α → Except ε β} (hx : ErrorsIn P x)
    (hf : ∀ a, ErrorsIn P (f a)) : ErrorsIn P (x >>= f) := by
  intro e he
  rcases bind_eq_error.1 he with he | ⟨a, -, he⟩
  · exact hx e he
  · exact hf a e he

theorem errorsIn_mapM {P : ε → Prop} {f : α → Except ε β} (hf : ∀ x, ErrorsIn P (f x))
    (xs : List α) : ErrorsIn P (xs.mapM f) := by
  induction xs with
  | nil => exact errorsIn_ok []
  | cons x xs ih =>
      rw [List.mapM_cons]
      exact (hf x).bind fun y => ih.bind fun ys => errorsIn_ok (y :: ys)

/-! ### Procedures that may fail and change a state -/

/-- A function that may fail, run inside a procedure: the state is left alone. -/
def lift (x : Except ε α) : EStateM ε σ α := fun s =>
  match x with
  | .ok a => .ok a s
  | .error e => .error e s

@[simp] theorem lift_ok {a : α} {s : σ} :
    lift (.ok a : Except ε α) s = EStateM.Result.ok a s := rfl

@[simp] theorem lift_error {e : ε} {s : σ} :
    lift (.error e : Except ε α) s = EStateM.Result.error e s := rfl

theorem lift_bind {x : Except ε α} {f : α → Except ε β} :
    (lift (x >>= f) : EStateM ε σ β) = lift x >>= fun a => lift (f a) := by
  cases x <;> rfl

theorem lift_run_ok {x : Except ε α} {a : α} {s t : σ} :
    lift x s = EStateM.Result.ok a t ↔ x = .ok a ∧ t = s := by
  cases x <;> simp [lift, eq_comm]

theorem lift_run_error {x : Except ε α} {e : ε} {s t : σ} :
    lift x s = EStateM.Result.error e t ↔ x = .error e ∧ t = s := by
  cases x <;> simp [lift, eq_comm]

/-- **A procedure succeeds exactly when both of its halves do**, the second from the state the
first has left. -/
theorem bind_run_ok {x : EStateM ε σ α} {f : α → EStateM ε σ β} {b : β} {s t : σ} :
    (x >>= f) s = .ok b t ↔ ∃ a u, x s = .ok a u ∧ f a u = .ok b t := by
  cases h : x s <;> simp [bind, EStateM.bind, h]

theorem bind_run_error {x : EStateM ε σ α} {f : α → EStateM ε σ β} {e : ε} {s t : σ} :
    (x >>= f) s = .error e t ↔
      x s = .error e t ∨ ∃ a u, x s = .ok a u ∧ f a u = .error e t := by
  cases h : x s <;> simp [bind, EStateM.bind, h]

/-- One turn of a procedure whose first half is known to succeed. -/
theorem bind_run_of_ok {x : EStateM ε σ α} {f : α → EStateM ε σ β} {a : α} {s u : σ}
    (h : x s = .ok a u) : (x >>= f) s = f a u := by
  simp [bind, EStateM.bind, h]

theorem bind_run_of_error {x : EStateM ε σ α} {f : α → EStateM ε σ β} {e : ε} {s u : σ}
    (h : x s = .error e u) : (x >>= f) s = .error e u := by
  simp [bind, EStateM.bind, h]

@[simp] theorem pure_run {a : α} {s : σ} :
    (pure a : EStateM ε σ α) s = EStateM.Result.ok a s := rfl

@[simp] theorem throw_run {e : ε} {s : σ} :
    (throw e : EStateM ε σ α) s = EStateM.Result.error e s := rfl

@[simp] theorem get_run {s : σ} : (get : EStateM ε σ σ) s = EStateM.Result.ok s s := rfl

@[simp] theorem set_run {s s' : σ} :
    (set s' : EStateM ε σ PUnit.{u + 1}) s = EStateM.Result.ok ⟨⟩ s' := rfl

@[simp] theorem modify_run {f : σ → σ} {s : σ} :
    (modify f : EStateM ε σ PUnit.{u + 1}) s = EStateM.Result.ok ⟨⟩ (f s) := rfl

/-- A procedure on a part of the state, with its errors turned into the caller's. -/
def zoom {τ : Type u} (part : σ → τ) (put : τ → σ → σ) (err : ε → ε') (x : EStateM ε τ α) :
    EStateM ε' σ α := fun s =>
  match x (part s) with
  | .ok a t => .ok a (put t s)
  | .error e t => .error (err e) (put t s)

theorem zoom_run_ok {τ : Type u} {part : σ → τ} {put : τ → σ → σ} {err : ε → ε'}
    {x : EStateM ε τ α} {a : α} {s s' : σ} :
    zoom part put err x s = EStateM.Result.ok a s' ↔
      ∃ t, x (part s) = .ok a t ∧ s' = put t s := by
  unfold zoom
  cases h : x (part s) with
  | ok a' t => simp [eq_comm]
  | error e t => simp

theorem zoom_run_error {τ : Type u} {part : σ → τ} {put : τ → σ → σ} {err : ε → ε'}
    {x : EStateM ε τ α} {e : ε'} {s s' : σ} :
    zoom part put err x s = EStateM.Result.error e s' ↔
      ∃ e₀ t, x (part s) = .error e₀ t ∧ err e₀ = e ∧ s' = put t s := by
  unfold zoom
  cases h : x (part s) with
  | ok a' t => simp
  | error e t => simp [eq_comm]

/-- The state a procedure ends in, whether it fails or not. -/
def stateAfter : EStateM.Result ε σ α → σ
  | .ok _ s => s
  | .error _ s => s

@[simp] theorem stateAfter_ok {a : α} {s : σ} :
    stateAfter (.ok a s : EStateM.Result ε σ α) = s := rfl

@[simp] theorem stateAfter_error {e : ε} {s : σ} :
    stateAfter (.error e s : EStateM.Result ε σ α) = s := rfl

/-- The value or the error a procedure ends with. -/
def resultOf : EStateM.Result ε σ α → Except ε α
  | .ok a _ => .ok a
  | .error e _ => .error e

/-- The procedure succeeds, with a value and a state that `p` holds of. -/
def okAnd (p : α → σ → Bool) : EStateM.Result ε σ α → Bool
  | .ok a s => p a s
  | .error _ _ => false

/-- A successful run, found by evaluating it. -/
theorem exists_run_of_okAnd {p : α → σ → Bool} {x : EStateM.Result ε σ α} (h : okAnd p x = true) :
    ∃ a s, x = .ok a s ∧ p a s = true := by
  cases x with
  | ok a s => exact ⟨a, s, rfl, h⟩
  | error e s => cases h

/-- A failing run, found by evaluating it. -/
theorem exists_error_of_okAnd {x : EStateM.Result ε σ α} (h : okAnd (fun _ _ => true) x = false) :
    ∃ e s, x = .error e s := by
  cases x with
  | ok a s => cases h
  | error e s => exact ⟨e, s, rfl⟩

/-- The procedure stays in the relation `R`, whether it fails or not. -/
def Keeps (R : σ → σ → Prop) (x : EStateM ε σ α) : Prop := ∀ s, R s (stateAfter (x s))

theorem Keeps.lift {R : σ → σ → Prop} (hrefl : ∀ s, R s s) (x : Except ε α) :
    Keeps R (Outcome.lift x : EStateM ε σ α) := by
  intro s
  cases x with
  | ok a => exact hrefl s
  | error e => exact hrefl s

/-- **A transitive relation that both halves of a sequence stay in, the sequence stays in.** -/
theorem Keeps.bind {R : σ → σ → Prop} (htrans : ∀ s t u, R s t → R t u → R s u)
    {x : EStateM ε σ α} {f : α → EStateM ε σ β} (hx : Keeps R x) (hf : ∀ a, Keeps R (f a)) :
    Keeps R (x >>= f) := by
  intro s
  have hxs := hx s
  cases hrun : x s with
  | ok a t =>
      rw [hrun] at hxs
      rw [bind_run_of_ok hrun]
      exact htrans s t _ hxs (hf a t)
  | error e t =>
      rw [hrun] at hxs
      rw [bind_run_of_error hrun]
      exact hxs

/-- Returning another value does not change the state. -/
theorem stateAfter_bind_pure {x : EStateM ε σ α} {f : α → β} {s : σ} :
    stateAfter ((x >>= fun a => pure (f a)) s) = stateAfter (x s) := by
  cases h : x s <;> simp [bind, EStateM.bind, h]

end Outcome
