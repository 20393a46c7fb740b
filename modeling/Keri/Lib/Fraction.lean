/-
**Fractions that are added in bounded arithmetic.**

Fractions are pairs of a numerator and a denominator, added over the product of the denominators and
never reduced.  A checked sum stops when a numerator or a denominator reaches a bound.

* `Fraction.add`, `Fraction.sum`, `Fraction.value` — sums without a bound, and what they are worth;
* `Fraction.checkedAdd`, `Fraction.checkedSum` — sums with a bound;
* `Fraction.value_sum` — **a sum is worth the sum of what its terms are worth**;
* `Fraction.checkedSum_eq` — **a checked sum is the sum, as long as the sum is below the bound**;
* `Fraction.value_sublist_le` — leaving terms out makes a sum smaller.
-/

import Mathlib

set_option relaxedAutoImplicit false
set_option autoImplicit false

namespace Fraction

/-! ### Sums -/

/-- Add two fractions over the product of their denominators. -/
def add (a b : ℕ × ℕ) : ℕ × ℕ := (a.1 * b.2 + b.1 * a.2, a.2 * b.2)

/-- Add fractions to a first one, from the left. -/
def sum (start : ℕ × ℕ) (xs : List (ℕ × ℕ)) : ℕ × ℕ := xs.foldl add start

/-- What a fraction is worth. -/
def value (a : ℕ × ℕ) : ℚ := a.1 / a.2

/-- No denominator is zero. -/
def Proper (xs : List (ℕ × ℕ)) : Prop := ∀ x ∈ xs, 0 < x.2

@[simp] theorem sum_nil (start : ℕ × ℕ) : sum start [] = start := rfl

@[simp] theorem sum_cons (start x : ℕ × ℕ) (xs : List (ℕ × ℕ)) :
    sum start (x :: xs) = sum (add start x) xs := rfl

theorem Proper.head {x : ℕ × ℕ} {xs : List (ℕ × ℕ)} (h : Proper (x :: xs)) : 0 < x.2 :=
  h x List.mem_cons_self

theorem Proper.tail {x : ℕ × ℕ} {xs : List (ℕ × ℕ)} (h : Proper (x :: xs)) : Proper xs :=
  fun y hy => h y (List.mem_cons_of_mem x hy)

theorem value_nonneg (a : ℕ × ℕ) : 0 ≤ value a := by
  unfold value
  positivity

/-- A fraction is at least one when its numerator is at least its denominator. -/
theorem one_le_value_iff {a : ℕ × ℕ} (h : 0 < a.2) : 1 ≤ value a ↔ a.2 ≤ a.1 := by
  have hpos : (0 : ℚ) < a.2 := by exact_mod_cast h
  rw [value, le_div_iff₀ hpos, one_mul]
  exact_mod_cast Iff.rfl

theorem value_add {a b : ℕ × ℕ} (ha : 0 < a.2) (hb : 0 < b.2) :
    value (add a b) = value a + value b := by
  have ha' : (a.2 : ℚ) ≠ 0 := by exact_mod_cast ha.ne'
  have hb' : (b.2 : ℚ) ≠ 0 := by exact_mod_cast hb.ne'
  simp only [value, add, Nat.cast_add, Nat.cast_mul]
  field_simp

theorem den_add_pos {a b : ℕ × ℕ} (ha : 0 < a.2) (hb : 0 < b.2) : 0 < (add a b).2 :=
  Nat.mul_pos ha hb

theorem den_sum_pos {start : ℕ × ℕ} {xs : List (ℕ × ℕ)} (hstart : 0 < start.2)
    (hxs : Proper xs) : 0 < (sum start xs).2 := by
  induction xs generalizing start with
  | nil => exact hstart
  | cons x xs ih => exact ih (den_add_pos hstart hxs.head) hxs.tail

/-- **A sum is worth the sum of what its terms are worth.** -/
theorem value_sum {start : ℕ × ℕ} {xs : List (ℕ × ℕ)} (hstart : 0 < start.2)
    (hxs : Proper xs) : value (sum start xs) = value start + (xs.map value).sum := by
  induction xs generalizing start with
  | nil => simp
  | cons x xs ih =>
      rw [sum_cons, ih (den_add_pos hstart hxs.head) hxs.tail, value_add hstart hxs.head,
        List.map_cons, List.sum_cons, add_assoc]

/-- Leaving terms out makes a sum smaller. -/
theorem value_sublist_le {xs ys : List (ℕ × ℕ)} (h : xs.Sublist ys) :
    (xs.map value).sum ≤ (ys.map value).sum := by
  induction h with
  | slnil => exact le_refl _
  | cons y _ ih =>
      rw [List.map_cons, List.sum_cons]
      exact ih.trans (le_add_of_nonneg_left (value_nonneg y))
  | cons_cons y _ ih =>
      rw [List.map_cons, List.map_cons, List.sum_cons, List.sum_cons]
      exact add_le_add_right ih _

/-! ### Sums with a bound -/

variable {bound : ℕ}

/-- Numerator and denominator are below the bound. -/
def Below (bound : ℕ) (a : ℕ × ℕ) : Prop := a.1 < bound ∧ a.2 < bound

instance (bound : ℕ) (a : ℕ × ℕ) : Decidable (Below bound a) :=
  inferInstanceAs (Decidable (a.1 < bound ∧ a.2 < bound))

/-- Add two fractions, unless the result reaches the bound. -/
def checkedAdd (bound : ℕ) (a b : ℕ × ℕ) : Option (ℕ × ℕ) :=
  if Below bound (add a b) then some (add a b) else none

/-- Add fractions to a first one, up to the first result that reaches the bound. -/
def checkedSum (bound : ℕ) : ℕ × ℕ → List (ℕ × ℕ) → Option (ℕ × ℕ)
  | start, [] => some start
  | start, x :: xs => (checkedAdd bound start x).bind fun total => checkedSum bound total xs

/-- Neither part of a fraction gets smaller when another is added. -/
theorem le_add {a b : ℕ × ℕ} (hb : 0 < b.2) : a.1 ≤ (add a b).1 ∧ a.2 ≤ (add a b).2 :=
  ⟨(Nat.le_mul_of_pos_right _ hb).trans (Nat.le_add_right _ _), Nat.le_mul_of_pos_right _ hb⟩

theorem le_sum {start : ℕ × ℕ} {xs : List (ℕ × ℕ)} (hxs : Proper xs) :
    start.1 ≤ (sum start xs).1 ∧ start.2 ≤ (sum start xs).2 := by
  induction xs generalizing start with
  | nil => exact ⟨le_refl _, le_refl _⟩
  | cons x xs ih =>
      obtain ⟨hnum, hden⟩ := le_add (a := start) hxs.head
      obtain ⟨hnum', hden'⟩ := @ih (add start x) hxs.tail
      exact ⟨hnum.trans hnum', hden.trans hden'⟩

/-- **A checked sum is the sum, as long as the sum is below the bound.**  The parts only grow, so a
result that is below the bound has no partial result that reaches it. -/
theorem checkedSum_eq {start : ℕ × ℕ} {xs : List (ℕ × ℕ)} (hstart : Below bound start)
    (hxs : Proper xs) :
    checkedSum bound start xs =
      if Below bound (sum start xs) then some (sum start xs) else none := by
  induction xs generalizing start with
  | nil => exact (if_pos hstart).symm
  | cons x xs ih =>
      rw [checkedSum, checkedAdd, sum_cons]
      by_cases hadd : Below bound (add start x)
      · rw [if_pos hadd, Option.bind_some, ih hadd hxs.tail]
      · have hsum : ¬ Below bound (sum (add start x) xs) := by
          intro hbelow
          obtain ⟨hnum, hden⟩ := @le_sum (add start x) xs hxs.tail
          exact hadd ⟨hnum.trans_lt hbelow.1, hden.trans_lt hbelow.2⟩
        rw [if_neg hadd, if_neg hsum, Option.bind_none]

end Fraction
