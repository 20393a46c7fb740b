/-
**Signing thresholds.**

A threshold is either a number of signatures or a list of clauses of fractional weights, every
clause of which has to reach one.  The weights are added as fractions in checked 64-bit
arithmetic, and an overflow counts as not satisfied.

* `Keri.Threshold.fromJsonValue`, `Keri.Threshold.toJsonValue` — the `kt` and `nt` fields;
* `Keri.Threshold.isSatisfied` — the test on a list of key indices;
* `Keri.Threshold.isSatisfied_congr` — **only the set of indices matters**: two lists without
  repetitions that have the same elements satisfy the same thresholds.
-/

import Keri.Version

set_option relaxedAutoImplicit false
set_option autoImplicit false

namespace Keri

open Outcome

/-! ### Weights -/

/-- A fractional weight, two `u32`. -/
structure Weight where
  num : ℕ
  den : ℕ
  deriving DecidableEq, Repr

/-- `str::split_once` at a character. -/
def splitOnce (c : Char) (s : String) : Option (String × String) :=
  match s.toList.dropWhile (· ≠ c) with
  | [] => none
  | _ :: rest => some (String.ofList (s.toList.takeWhile (· ≠ c)), String.ofList rest)

namespace Weight

def new (num den : ℕ) : Except CoreError Weight := do
  ensure (den ≠ 0) (.validation "weight denominator cannot be zero")
  pure { num, den }

/-- Parse a weight such as `1/2` or `1`. -/
def parse (s : String) : Except CoreError Weight := do
  match splitOnce '/' s with
  | some (numS, denS) =>
      let num ← okOr (fromStrRadix 10 u32Bound numS)
        (.validation s!"invalid weight numerator: {numS}")
      let den ← okOr (fromStrRadix 10 u32Bound denS)
        (.validation s!"invalid weight denominator: {denS}")
      new num den
  | none =>
      let num ← okOr (fromStrRadix 10 u32Bound s) (.validation s!"invalid weight: {s}")
      new num 1

def toFractionString (w : Weight) : String :=
  if w.den = 1 then decimal w.num else decimal w.num ++ "/" ++ decimal w.den

end Weight

/-! ### Thresholds -/

/-- A signing threshold. -/
inductive Threshold where
  /-- At least this many signatures. -/
  | simple (k : ℕ)
  /-- Clauses of weights, each of which has to reach one. -/
  | weighted (clauses : List (List Weight))
  deriving DecidableEq, Repr

namespace Threshold

/-- One weight of a clause. -/
def weightOf (w : Value) : Except CoreError Weight := do
  let s ← okOr w.asStr (.validation "weighted threshold weight must be a string")
  Weight.parse s

/-- One clause of a weighted threshold. -/
def clauseOf (clause : Value) : Except CoreError (List Weight) := do
  let arr ← okOr clause.asArray (.validation "weighted threshold clause must be an array")
  ensure (arr ≠ []) (.validation "weighted threshold clause must have at least one weight")
  arr.mapM weightOf

/-- Parse a threshold from its field. -/
def fromJsonValue (value : Value) : Except CoreError Threshold := do
  match value with
  | .string s =>
      let n ← okOr (fromStrRadix 10 u64Bound s) (.validation s!"invalid threshold string: {s}")
      ensure (n ≠ 0) (.validation "signing threshold must be at least 1")
      pure (.simple n)
  | .number (.posInt n) =>
      ensure (n ≠ 0) (.validation "signing threshold must be at least 1")
      pure (.simple n)
  | .number n => throw (.validation s!"invalid threshold number: {n.text}")
  | .array clauses =>
      ensure (clauses ≠ []) (.validation "weighted threshold must have at least one clause")
      pure (.weighted (← clauses.mapM clauseOf))
  | value => throw (.validation s!"invalid threshold value: {value.text}")

/-- The field of a threshold. -/
def toJsonValue : Threshold → Value
  | .simple n => .string (decimal n)
  | .weighted clauses =>
      .array (clauses.map fun clause => .array (clause.map fun w => .string w.toFractionString))

/-! ### Satisfaction -/

/-- `checked_mul` on `u64`. -/
def checkedMul (a b : ℕ) : Option ℕ := if a * b < u64Bound then some (a * b) else none

/-- `checked_add` on `u64`. -/
def checkedAdd (a b : ℕ) : Option ℕ := if a + b < u64Bound then some (a + b) else none

/-- Add a weight to a running fraction. -/
def addWeight (total : ℕ × ℕ) (w : Weight) : Option (ℕ × ℕ) := do
  let a ← checkedMul total.1 w.den
  let b ← checkedMul w.num total.2
  let newNum ← checkedAdd a b
  let newDen ← checkedMul total.2 w.den
  pure (newNum, newDen)

/-- The sum of the weights of a clause at the given indices; `keyIdx` is the key position of the
first weight left. -/
def clauseTotal (indices : List ℕ) (totalKeys : ℕ) : ℕ → ℕ × ℕ → List Weight → Option (ℕ × ℕ)
  | _, total, [] => some total
  | keyIdx, total, w :: ws =>
      if keyIdx < totalKeys ∧ keyIdx ∈ indices then
        match addWeight total w with
        | none => none
        | some total => clauseTotal indices totalKeys (keyIdx + 1) total ws
      else clauseTotal indices totalKeys (keyIdx + 1) total ws

/-- Every clause reaches one; the key positions run on from clause to clause. -/
def clausesSatisfied (indices : List ℕ) (totalKeys : ℕ) : ℕ → List (List Weight) → Bool
  | _, [] => true
  | keyIdx, clause :: clauses =>
      match clauseTotal indices totalKeys keyIdx (0, 1) clause with
      | none => false
      | some (num, den) =>
          if num < den then false
          else clausesSatisfied indices totalKeys (keyIdx + clause.length) clauses

/-- Is the threshold satisfied by valid signatures at the given key indices? -/
def isSatisfied (t : Threshold) (indices : List ℕ) (totalKeys : ℕ) : Bool :=
  match t with
  | .simple k => decide (0 < k) && decide (k ≤ indices.length)
  | .weighted clauses => !clauses.isEmpty && clausesSatisfied indices totalKeys 0 clauses

/-! ### Only the set of indices matters -/

theorem clauseTotal_congr {is js : List ℕ} (h : ∀ i, i ∈ is ↔ i ∈ js) (n : ℕ) (ws : List Weight) :
    ∀ keyIdx total, clauseTotal is n keyIdx total ws = clauseTotal js n keyIdx total ws := by
  induction ws with
  | nil => intro _ _; rfl
  | cons w ws ih =>
      intro keyIdx total
      simp only [clauseTotal, h keyIdx]
      split
      · split
        · rfl
        · exact ih _ _
      · exact ih _ _

theorem clausesSatisfied_congr {is js : List ℕ} (h : ∀ i, i ∈ is ↔ i ∈ js) (n : ℕ)
    (cs : List (List Weight)) :
    ∀ keyIdx, clausesSatisfied is n keyIdx cs = clausesSatisfied js n keyIdx cs := by
  induction cs with
  | nil => intro _; rfl
  | cons c cs ih =>
      intro keyIdx
      simp only [clausesSatisfied, clauseTotal_congr h n c]
      split
      · rfl
      · split
        · rfl
        · exact ih _

/-- **Two lists of distinct indices with the same elements satisfy the same thresholds.** -/
theorem isSatisfied_congr {is js : List ℕ} (his : is.Nodup) (hjs : js.Nodup)
    (h : ∀ i, i ∈ is ↔ i ∈ js) (t : Threshold) (n : ℕ) :
    t.isSatisfied is n = t.isSatisfied js n := by
  cases t with
  | simple k =>
      have hlen : is.length = js.length := ((List.perm_ext_iff_of_nodup his hjs).2 h).length_eq
      simp [isSatisfied, hlen]
  | weighted cs => simp [isSatisfied, clausesSatisfied_congr h n cs 0]

end Threshold

end Keri
