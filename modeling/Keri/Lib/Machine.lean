/-
**Runs of a state machine, and what holds along them.**

A machine is a function `step : σ → ι → σ` from a state and an input to the next state; a run is
a list of inputs.  An invariant is usually preserved only by steps that meet some condition on
the state before the step and the input, and the condition is carried along the run.

* `Machine.run` — the state a run ends in;
* `Machine.Along` — every step of a run meets a condition;
* `Machine.Along.run_inv` — **the induction, packaged once**: what each admissible step preserves
  holds at the end of every admissible run;
* `Machine.exists_step_of_run` — what becomes true does so at a step;
* `Machine.Last` — the last step of a run that meets a condition.
-/

import Keri.Lib.Outcome

set_option relaxedAutoImplicit false
set_option autoImplicit false

namespace Machine

universe u v

variable {σ : Type u} {ι : Type v} {step : σ → ι → σ}

/-- The state reached from `s` on the inputs `is`. -/
def run (step : σ → ι → σ) (s : σ) (is : List ι) : σ := is.foldl step s

@[simp] theorem run_nil (s : σ) : run step s [] = s := rfl

@[simp] theorem run_cons (s : σ) (i : ι) (is : List ι) :
    run step s (i :: is) = run step (step s i) is := rfl

theorem run_append (s : σ) (is js : List ι) :
    run step s (is ++ js) = run step (run step s is) js := by
  simp [run]

theorem run_concat (s : σ) (is : List ι) (i : ι) :
    run step s (is ++ [i]) = step (run step s is) i := by
  simp [run_append]

/-- Every step of the run meets the condition `Q` on the state before it and its input. -/
def Along (step : σ → ι → σ) (Q : σ → ι → Prop) : σ → List ι → Prop
  | _, [] => True
  | s, i :: is => Q s i ∧ Along step Q (step s i) is

variable {Q : σ → ι → Prop} {P : σ → Prop}

@[simp] theorem along_nil (s : σ) : Along step Q s [] := trivial

@[simp] theorem along_cons {s : σ} {i : ι} {is : List ι} :
    Along step Q s (i :: is) ↔ Q s i ∧ Along step Q (step s i) is := Iff.rfl

theorem along_append {s : σ} {is js : List ι} :
    Along step Q s (is ++ js) ↔ Along step Q s is ∧ Along step Q (run step s is) js := by
  induction is generalizing s with
  | nil => simp
  | cons i is ih => simp [ih, and_assoc]

/-- A condition that holds of every step holds along every run. -/
theorem along_of_forall (h : ∀ s i, Q s i) (s : σ) (is : List ι) : Along step Q s is := by
  induction is generalizing s with
  | nil => trivial
  | cons i is ih => exact ⟨h s i, ih _⟩

theorem Along.left {s : σ} {pre post : List ι} (h : Along step Q s (pre ++ post)) :
    Along step Q s pre :=
  (along_append.1 h).1

/-- **An invariant of the admissible steps holds after every admissible run.** -/
theorem Along.run_inv {s : σ} {is : List ι} (h : Along step Q s is) (h₀ : P s)
    (hstep : ∀ s i, P s → Q s i → P (step s i)) : P (run step s is) := by
  induction is generalizing s with
  | nil => exact h₀
  | cons i is ih => exact ih h.2 (hstep s i h₀ h.1)

/-- An invariant of all steps holds after every run. -/
theorem run_inv {s : σ} (is : List ι) (h₀ : P s) (hstep : ∀ s i, P s → P (step s i)) :
    P (run step s is) :=
  Along.run_inv (Q := fun _ _ => True) (along_of_forall (fun _ _ => trivial) s is) h₀
    fun s i hs _ => hstep s i hs

/-- What does not hold at first and holds at the end has become true at some step. -/
theorem exists_step_of_run {s : σ} {is : List ι} (h₀ : ¬ P s) (h : P (run step s is)) :
    ∃ pre i post, is = pre ++ i :: post ∧ ¬ P (run step s pre) ∧ P (step (run step s pre) i) := by
  induction is generalizing s with
  | nil => exact absurd h h₀
  | cons i is ih =>
      by_cases hi : P (step s i)
      · exact ⟨[], i, is, rfl, h₀, hi⟩
      · obtain ⟨pre, j, post, rfl, hpre, hj⟩ := ih hi h
        exact ⟨i :: pre, j, post, rfl, hpre, hj⟩

/-! ### The last step of a kind -/

/-- The last step of a run that meets `P`: it stands at the end of `pre`, on the input `i`. -/
def Last (step : σ → ι → σ) (P : σ → ι → Prop) (s : σ) (is pre : List ι) (i : ι) : Prop :=
  ∃ post, is = pre ++ i :: post ∧ P (run step s pre) i ∧
    Along step (fun t j => ¬ P t j) (step (run step s pre) i) post

/-- A step that meets the condition is the last one that does. -/
theorem last_concat_self {R : σ → ι → Prop} {s : σ} {is : List ι} {i : ι}
    (h : R (run step s is) i) : Last step R s (is ++ [i]) is i :=
  ⟨[], rfl, h, trivial⟩

/-- A step that does not meet the condition leaves the last one as it was. -/
theorem Last.concat {R : σ → ι → Prop} {s : σ} {is pre : List ι} {i j : ι}
    (h : Last step R s is pre i) (hj : ¬ R (run step s is) j) :
    Last step R s (is ++ [j]) pre i := by
  obtain ⟨post, rfl, hi, hpost⟩ := h
  refine ⟨post ++ [j], by simp, hi, along_append.2 ⟨hpost, ?_, trivial⟩⟩
  rw [run_append, run_cons] at hj
  exact hj

/-- The last step of a run that ends in a step: that one if it meets the condition, and the one
before it otherwise. -/
theorem last_concat_iff {R : σ → ι → Prop} {s : σ} {is pre : List ι} {i j : ι} :
    Last step R s (is ++ [j]) pre i ↔
      (pre = is ∧ i = j ∧ R (run step s is) j) ∨
        (¬ R (run step s is) j ∧ Last step R s is pre i) := by
  constructor
  · rintro ⟨post, heq, hi, hpost⟩
    rcases List.eq_nil_or_concat post with rfl | ⟨post', j', rfl⟩
    · obtain ⟨rfl, hj⟩ := List.append_inj' heq rfl
      obtain rfl := (List.singleton_inj.1 hj).symm
      exact Or.inl ⟨rfl, rfl, hi⟩
    · rw [List.concat_eq_append] at heq hpost
      rw [← List.cons_append, ← List.append_assoc] at heq
      obtain ⟨rfl, hj⟩ := List.append_inj' heq rfl
      obtain rfl := (List.singleton_inj.1 hj).symm
      obtain ⟨hpost', hnot, -⟩ := along_append.1 hpost
      refine Or.inr ⟨?_, post', rfl, hi, hpost'⟩
      rw [run_append, run_cons]
      exact hnot
  · rintro (⟨rfl, rfl, hi⟩ | ⟨hnot, hlast⟩)
    · exact last_concat_self hi
    · exact hlast.concat hnot

end Machine
