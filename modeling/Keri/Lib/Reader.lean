/-
**Readers of a stream.**

A reader takes a value off the front of its input and says how many elements it has used.  What
follows those elements should not matter to it; `Reader.Local` says so relative to a condition on
what follows, and is kept by sequencing and by repetition, so that it is proved once for each
primitive.

* `Reader.times`, `Reader.both` — repetition and sequencing;
* `Reader.Local` — what follows does not matter, as long as it meets a condition;
* `Reader.Local.times`, `Reader.Local.both` — **locality is kept**;
* `Reader.Bounded` — no more is used than there is, which is a case of locality;
* `Reader.times_flatMap` — **a repeated reader reads back a list of encodings**;
* `Reader.times_congr`, `Reader.times_ok_congr` — two readers that agree on short inputs, or that
  succeed alike, do so when repeated.
-/

import Keri.Lib.Outcome

set_option relaxedAutoImplicit false
set_option autoImplicit false

namespace Reader

open Outcome

universe u

variable {ε α β γ : Type u}

/-! ### Repetition and sequencing -/

/-- Read `n` values; the reader is told the index of each, from `i` on. -/
def times (read : ℕ → List α → Except ε (β × ℕ)) :
    ℕ → ℕ → List α → Except ε (List β × ℕ)
  | _, 0, _ => .ok ([], 0)
  | i, n + 1, data => do
      let (x, k) ← read i data
      let (xs, m) ← times read (i + 1) n (data.drop k)
      pure (x :: xs, k + m)

/-- Read one value and then another. -/
def both (first : List α → Except ε (β × ℕ)) (second : List α → Except ε (γ × ℕ))
    (data : List α) : Except ε ((β × γ) × ℕ) := do
  let (x, k) ← first data
  let (y, m) ← second (data.drop k)
  pure ((x, y), k + m)

theorem times_succ_eq_ok {read : ℕ → List α → Except ε (β × ℕ)} {i n k : ℕ} {data : List α}
    {xs : List β} :
    times read i (n + 1) data = .ok (xs, k) ↔ ∃ x l ys m, read i data = .ok (x, l) ∧
      times read (i + 1) n (data.drop l) = .ok (ys, m) ∧ xs = x :: ys ∧ k = l + m := by
  simp only [times, bind_eq_ok, pure_eq_ok, Prod.mk.injEq, Prod.exists]
  constructor
  · rintro ⟨x, l, hx, ys, m, hys, rfl, rfl⟩
    exact ⟨x, l, ys, m, hx, hys, rfl, rfl⟩
  · rintro ⟨x, l, ys, m, hx, hys, rfl, rfl⟩
    exact ⟨x, l, hx, ys, m, hys, rfl, rfl⟩

theorem both_eq_ok {first : List α → Except ε (β × ℕ)} {second : List α → Except ε (γ × ℕ)}
    {data : List α} {p : β × γ} {k : ℕ} :
    both first second data = .ok (p, k) ↔ ∃ l m, first data = .ok (p.1, l) ∧
      second (data.drop l) = .ok (p.2, m) ∧ k = l + m := by
  simp only [both, bind_eq_ok, pure_eq_ok, Prod.mk.injEq, Prod.exists]
  constructor
  · rintro ⟨x, l, hx, y, m, hy, rfl, rfl⟩
    exact ⟨l, m, hx, hy, rfl⟩
  · rintro ⟨l, m, hx, hy, rfl⟩
    exact ⟨p.1, l, hx, p.2, m, hy, rfl, rfl⟩

/-! ### Locality -/

/-- What follows the elements used does not matter, as long as it meets `Q`. -/
def Local (Q : List α → Prop) (read : List α → Except ε (β × ℕ)) : Prop :=
  ∀ data x k, read data = .ok (x, k) →
    k ≤ data.length ∧ ∀ rest, Q rest → read (data ++ rest) = .ok (x, k)

variable {Q : List α → Prop}

/-- **Repetition keeps locality.** -/
theorem Local.times {read : ℕ → List α → Except ε (β × ℕ)} (h : ∀ i, Local Q (read i)) (i n : ℕ) :
    Local Q (times read i n) := by
  induction n generalizing i with
  | zero =>
      intro data xs k hread
      cases hread
      exact ⟨Nat.zero_le _, fun rest _ => rfl⟩
  | succ n ih =>
      intro data xs k hread
      obtain ⟨x, l, ys, m, hx, hys, rfl, rfl⟩ := times_succ_eq_ok.1 hread
      obtain ⟨hl, hx'⟩ := h i data x l hx
      obtain ⟨hm, hys'⟩ := ih (i + 1) (data.drop l) ys m hys
      rw [List.length_drop] at hm
      refine ⟨by omega, fun rest hrest => times_succ_eq_ok.2
        ⟨x, l, ys, m, hx' rest hrest, ?_, rfl, rfl⟩⟩
      rw [List.drop_append_of_le_length hl]
      exact hys' rest hrest

/-- **Sequencing keeps locality.** -/
theorem Local.both {first : List α → Except ε (β × ℕ)} {second : List α → Except ε (γ × ℕ)}
    (h₁ : Local Q first) (h₂ : Local Q second) : Local Q (both first second) := by
  intro data p k hread
  obtain ⟨l, m, hx, hy, rfl⟩ := both_eq_ok.1 hread
  obtain ⟨hl, hx'⟩ := h₁ data p.1 l hx
  obtain ⟨hm, hy'⟩ := h₂ (data.drop l) p.2 m hy
  rw [List.length_drop] at hm
  refine ⟨by omega, fun rest hrest => both_eq_ok.2 ⟨l, m, hx' rest hrest, ?_, rfl⟩⟩
  rw [List.drop_append_of_le_length hl]
  exact hy' rest hrest

/-- No more is used than there is. -/
def Bounded (read : List α → Except ε (β × ℕ)) : Prop :=
  ∀ data x k, read data = .ok (x, k) → k ≤ data.length

theorem Local.bounded {read : List α → Except ε (β × ℕ)} (h : Local Q read) : Bounded read :=
  fun data x k hread => (h data x k hread).1

/-- A bounded reader is local when nothing follows, so that the rules for locality are rules for
bounds. -/
theorem Bounded.toLocal {read : List α → Except ε (β × ℕ)} (h : Bounded read) :
    Local (fun _ => False) read :=
  fun data x k hread => ⟨h data x k hread, fun _ hrest => hrest.elim⟩

/-! ### Reading back -/

/-- Two readings in sequence read back two encodings. -/
theorem both_append {first : List α → Except ε (β × ℕ)} {second : List α → Except ε (γ × ℕ)}
    {as bs rest : List α} {x : β} {y : γ}
    (h₁ : first (as ++ (bs ++ rest)) = .ok (x, as.length))
    (h₂ : second (bs ++ rest) = .ok (y, bs.length)) :
    both first second (as ++ bs ++ rest) = .ok ((x, y), (as ++ bs).length) := by
  rw [List.append_assoc]
  refine both_eq_ok.2 ⟨as.length, bs.length, h₁, ?_, List.length_append⟩
  rw [List.drop_left]
  exact h₂

/-- **A repeated reader reads back a list of encodings**, each of which it reads back whatever
follows. -/
theorem times_flatMap {δ : Type u} {read : ℕ → List α → Except ε (β × ℕ)} {enc : δ → List α}
    {val : δ → β} {xs : List δ}
    (h : ∀ x ∈ xs, ∀ i rest, read i (enc x ++ rest) = .ok (val x, (enc x).length)) (i : ℕ)
    (rest : List α) :
    times read i xs.length (xs.flatMap enc ++ rest) =
      .ok (xs.map val, (xs.flatMap enc).length) := by
  induction xs generalizing i with
  | nil => rfl
  | cons x xs ih =>
      rw [List.flatMap_cons, List.append_assoc, List.length_cons]
      refine times_succ_eq_ok.2 ⟨val x, (enc x).length, xs.map val, (xs.flatMap enc).length,
        h x List.mem_cons_self i _, ?_, rfl, List.length_append⟩
      rw [List.drop_left]
      exact ih (fun y hy => h y (List.mem_cons_of_mem x hy)) (i + 1)

/-! ### Agreement -/

/-- Readers that agree on inputs up to a length agree on them when repeated. -/
theorem times_congr {read read' : ℕ → List α → Except ε (β × ℕ)} {N : ℕ}
    (h : ∀ i data, data.length ≤ N → read i data = read' i data) (i n : ℕ) {data : List α}
    (hlen : data.length ≤ N) : times read i n data = times read' i n data := by
  induction n generalizing i data with
  | zero => rfl
  | succ n ih =>
      simp only [times, h i data hlen]
      cases read' i data with
      | error e => rfl
      | ok p =>
          have hdrop : (data.drop p.2).length ≤ N := by
            rw [List.length_drop]
            omega
          simp only [ok_bind, ih (i + 1) hdrop]

/-- Readers that succeed alike do so when repeated. -/
theorem times_ok_congr {read read' : ℕ → List α → Except ε (β × ℕ)}
    (h : ∀ i data x k, read i data = .ok (x, k) ↔ read' i data = .ok (x, k)) (i n : ℕ)
    {data : List α} {xs : List β} {k : ℕ} :
    times read i n data = .ok (xs, k) ↔ times read' i n data = .ok (xs, k) := by
  induction n generalizing i data xs k with
  | zero => exact Iff.rfl
  | succ n ih => simp only [times_succ_eq_ok, h, ih]

end Reader
