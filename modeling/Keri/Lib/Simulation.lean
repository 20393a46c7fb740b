/-
**Simulation with losses.**

A machine that may drop an input is simulated by one that never does, on the inputs that are not
dropped: a kept input takes related states to related states, and a lost one leaves the first
machine related to where the second one stands.

* `Simulation.kept` — the inputs that are not lost along a run;
* `Simulation.Lossy` — what one input does to related states;
* `Simulation.Lossy.run` — **a run with losses is a run on what was kept**;
* `Simulation.Lossy.along` — what holds at each kept input holds along the run of the second
  machine;
* `Simulation.Local` — a part of a machine that is a machine of its own, and
  `Simulation.Local.run`, `Simulation.Local.outputs_eq` — **it runs as it does by itself**;
* `Simulation.Emulates` — a procedure that succeeds wherever another one does, with the same value
  and in a related state, with its rules.
-/

import Keri.Lib.Machine

set_option relaxedAutoImplicit false
set_option autoImplicit false

namespace Simulation

open Outcome Machine

universe u v w x

/-! ### Runs -/

section

variable {σ : Type u} {τ : Type v} {ι : Type w}

/-- The inputs that are not lost along a run. -/
def kept (step : σ → ι → σ) (keeps : σ → ι → Bool) : σ → List ι → List ι
  | _, [] => []
  | s, i :: is =>
      if keeps s i then i :: kept step keeps (step s i) is else kept step keeps (step s i) is

variable (step : σ → ι → σ) (ideal : τ → ι → τ) (keeps : σ → ι → Bool) (R : σ → τ → Prop)

/-- A kept input is followed, and a lost one changes nothing that the second machine shows. -/
structure Lossy : Prop where
  kept : ∀ {s t i}, R s t → keeps s i = true → R (step s i) (ideal t i)
  lost : ∀ {s t i}, R s t → keeps s i = false → R (step s i) t

variable {step ideal keeps R} {s : σ} {t : τ}

/-- What is kept has been delivered, in that order. -/
theorem kept_sublist (s : σ) (is : List ι) : (Simulation.kept step keeps s is).Sublist is := by
  induction is generalizing s with
  | nil => exact List.Sublist.slnil
  | cons i is ih =>
      rw [Simulation.kept]
      split
      · exact (ih _).cons_cons i
      · exact (ih _).cons i

/-- **A run with losses is a run on what was kept.** -/
theorem Lossy.run (h : Lossy step ideal keeps R) (hst : R s t) (is : List ι) :
    R (Machine.run step s is) (Machine.run ideal t (Simulation.kept step keeps s is)) := by
  induction is generalizing s t with
  | nil => exact hst
  | cons i is ih =>
      rw [Simulation.kept, run_cons]
      split
      · rename_i hkeep
        rw [run_cons]
        exact ih (h.kept hst hkeep)
      · rename_i hlose
        exact ih (h.lost hst (Bool.eq_false_iff.2 hlose))

/-- What holds at each kept input holds along the run of the second machine. -/
theorem Lossy.along (h : Lossy step ideal keeps R) {Q : τ → ι → Prop}
    (hQ : ∀ {s t i}, R s t → keeps s i = true → Q t i) (hst : R s t) (is : List ι) :
    Along ideal Q t (Simulation.kept step keeps s is) := by
  induction is generalizing s t with
  | nil => trivial
  | cons i is ih =>
      rw [Simulation.kept]
      split
      · rename_i hkeep
        exact ⟨hQ hst hkeep, ih (h.kept hst hkeep)⟩
      · rename_i hlose
        exact ih (h.lost hst (Bool.eq_false_iff.2 hlose))

end

/-! ### Views -/

section

variable {σ : Type u} {τ : Type v} {ι : Type w} {ω : Type x}

/-- The outputs at the inputs of a kind, along a run. -/
def outputs (step : σ → ι → σ) (out : σ → ι → ω) (concerns : ι → Bool) : σ → List ι → List ω
  | _, [] => []
  | s, i :: is =>
      if concerns i then out s i :: outputs step out concerns (step s i) is
      else outputs step out concerns (step s i) is

/-- A part of a machine that is a machine of its own: an input that concerns it acts on it and puts
out as it does by itself, and any other leaves it as it is. -/
structure Local (step : σ → ι → σ) (out : σ → ι → ω) (view : σ → τ) (concerns : ι → Bool)
    (part : τ → ι → τ) (outPart : τ → ι → ω) : Prop where
  acts : ∀ s i, concerns i = true → view (step s i) = part (view s) i
  puts : ∀ s i, concerns i = true → out s i = outPart (view s) i
  stays : ∀ s i, concerns i = false → view (step s i) = view s

variable {step : σ → ι → σ} {out : σ → ι → ω} {view : σ → τ} {concerns : ι → Bool}
  {part : τ → ι → τ} {outPart : τ → ι → ω}

/-- **A part of a machine runs as it does by itself**, on the inputs that concern it. -/
theorem Local.run (h : Local step out view concerns part outPart) (s : σ) (is : List ι) :
    view (Machine.run step s is) = Machine.run part (view s) (is.filter concerns) := by
  induction is generalizing s with
  | nil => rfl
  | cons i is ih =>
      rw [run_cons, ih]
      cases hi : concerns i with
      | false => rw [List.filter_cons_of_neg (by simp [hi]), h.stays s i hi]
      | true => rw [List.filter_cons_of_pos hi, run_cons, h.acts s i hi]

/-- **It puts out what it does by itself.** -/
theorem Local.outputs_eq (h : Local step out view concerns part outPart) (s : σ) (is : List ι) :
    outputs step out concerns s is =
      outputs part outPart concerns (view s) (is.filter concerns) := by
  induction is generalizing s with
  | nil => rfl
  | cons i is ih =>
      rw [outputs]
      cases hi : concerns i with
      | false => rw [if_neg (by simp), List.filter_cons_of_neg (by simp [hi]), ih, h.stays s i hi]
      | true =>
          rw [if_pos rfl, List.filter_cons_of_pos hi, outputs, if_pos hi, ih, h.acts s i hi,
            h.puts s i hi]

end

/-! ### Procedures -/

section

variable {ε σ τ α β : Type u} {R : σ → τ → Prop}

/-- Where the first procedure succeeds, from related states, so does the second, with the same
value and in a related state. -/
def Emulates (R : σ → τ → Prop) (x : EStateM ε σ α) (y : EStateM ε τ α) (s : σ) (t : τ) : Prop :=
  ∀ a s', x s = .ok a s' → ∃ t', y t = .ok a t' ∧ R s' t'

variable {s : σ} {t : τ}

theorem Emulates.pure (a : α) (h : R s t) :
    Emulates R (Pure.pure a : EStateM ε σ α) (Pure.pure a) s t := by
  intro b s' hrun
  obtain ⟨rfl, rfl⟩ := EStateM.Result.ok.inj hrun
  exact ⟨t, rfl, h⟩

theorem Emulates.lift (x : Except ε α) (h : R s t) :
    Emulates R (Outcome.lift x : EStateM ε σ α) (Outcome.lift x) s t := by
  intro a s' hrun
  obtain ⟨hx, rfl⟩ := lift_run_ok.1 hrun
  exact ⟨t, lift_run_ok.2 ⟨hx, rfl⟩, h⟩

theorem emulates_throw (e : ε) (y : EStateM ε τ α) :
    Emulates R (throw e : EStateM ε σ α) y s t := by
  intro a s' hrun
  cases hrun

theorem Emulates.modify {f : σ → σ} {g : τ → τ} (h : R (f s) (g t)) :
    Emulates R (modify f : EStateM ε σ PUnit.{u + 1}) (modify g) s t := by
  intro a s' hrun
  rw [modify_run] at hrun
  obtain ⟨-, rfl⟩ := EStateM.Result.ok.inj hrun
  exact ⟨g t, rfl, h⟩

/-- **Sequences.** -/
theorem Emulates.bind {x : EStateM ε σ α} {y : EStateM ε τ α} {f : α → EStateM ε σ β}
    {g : α → EStateM ε τ β} (hx : Emulates R x y s t)
    (hf : ∀ a s' t', R s' t' → Emulates R (f a) (g a) s' t') :
    Emulates R (x >>= f) (y >>= g) s t := by
  intro b s' hrun
  obtain ⟨a, u, ha, hb⟩ := bind_run_ok.1 hrun
  obtain ⟨v, hy, huv⟩ := hx a u ha
  obtain ⟨t', ht', hst'⟩ := hf a u v huv b s' hb
  exact ⟨t', bind_run_ok.2 ⟨a, v, hy, ht'⟩, hst'⟩

/-- A procedure that begins by reading its state. -/
theorem Emulates.get {f : σ → EStateM ε σ β} {g : τ → EStateM ε τ β}
    (h : Emulates R (f s) (g t) s t) :
    Emulates R (MonadState.get >>= f) (MonadState.get >>= g) s t := by
  intro b s' hrun
  rw [bind_run_of_ok (x := (MonadState.get : EStateM ε σ σ)) get_run] at hrun
  rw [bind_run_of_ok (x := (MonadState.get : EStateM ε τ τ)) get_run]
  exact h b s' hrun

end

end Simulation
