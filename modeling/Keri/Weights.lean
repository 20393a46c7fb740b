/-
**What a satisfied threshold says.**

The weights of a clause are added over the product of their denominators in 64 bits, and a sum that
does not fit counts as too small.  So a threshold that is satisfied is satisfied over the rationals;
one that is satisfied over the rationals may fail, and a set of signers may fail where a part of it
does not.

* `Keri.Threshold.clauseWeight`, `Keri.Threshold.Met` — the sums over the rationals, and a threshold
  that is met by them;
* `Keri.Threshold.Fits` — the sums fit 64 bits;
* `Keri.Threshold.weighted_satisfied_iff` — **the code's test is that the sums fit and reach one**;
* `Keri.Threshold.met_of_satisfied` — **a satisfied threshold is met**;
* `Keri.Threshold.satisfied_by_more_iff` — **more signers satisfy a threshold exactly when their
  sums fit**;
* `Keri.Threshold.more_signers_overflow` — three signers more, and the sum does not fit.
-/

import Keri.Threshold
import Keri.Lib.Fraction

set_option relaxedAutoImplicit false
set_option autoImplicit false

namespace Keri

namespace Threshold

open Outcome Fraction

/-! ### Sums over the rationals -/

/-- The sum of the weights of a clause whose key position is among the indices.  The positions of
the clause start at `offset`. -/
def clauseWeight (indices : List ℕ) (offset : ℕ) (clause : List Weight) : ℚ :=
  (((clause.zipIdx offset).filter fun p => p.2 ∈ indices).map fun p => (p.1.num : ℚ) / p.1.den).sum

/-- The threshold is met: by the number of indices, or by the weights of each clause.  Key positions
run on from clause to clause. -/
def Met (t : Threshold) (indices : List ℕ) : Prop :=
  match t with
  | .simple k => 1 ≤ k ∧ k ≤ indices.length
  | .weighted clauses => clauses ≠ [] ∧ ∀ pre clause post, clauses = pre ++ clause :: post →
      1 ≤ clauseWeight indices pre.flatten.length clause

/-- No weight has a denominator of zero. -/
def Proper (t : Threshold) : Prop :=
  match t with
  | .simple _ => True
  | .weighted clauses => ∀ clause ∈ clauses, ∀ w ∈ clause, w.den ≠ 0

/-! ### Sums in 64 bits -/

/-- The weights of a clause that are added. -/
def selected (indices : List ℕ) (totalKeys offset : ℕ) (clause : List Weight) : List (ℕ × ℕ) :=
  ((clause.zipIdx offset).filter fun p => p.2 < totalKeys ∧ p.2 ∈ indices).map
    fun p => (p.1.num, p.1.den)

/-- The weights of each clause, added over the product of their denominators, give a numerator and a
denominator of 64 bits. -/
def Fits (t : Threshold) (indices : List ℕ) (totalKeys : ℕ) : Prop :=
  match t with
  | .simple _ => True
  | .weighted clauses => ∀ pre clause post, clauses = pre ++ clause :: post →
      Below u64Bound (sum (0, 1) (selected indices totalKeys pre.flatten.length clause))

/-- One turn of the loop is one checked addition. -/
theorem addWeight_eq (total : ℕ × ℕ) (w : Weight) :
    addWeight total w = Fraction.checkedAdd u64Bound total (w.num, w.den) := by
  unfold Fraction.checkedAdd
  by_cases hsum : Below u64Bound (add total (w.num, w.den))
  · have hnum : total.1 * w.den + w.num * total.2 < u64Bound := hsum.1
    have hden : total.2 * w.den < u64Bound := hsum.2
    -- the two products are parts of a sum that fits
    have hleft : total.1 * w.den < u64Bound := by omega
    have hright : w.num * total.2 < u64Bound := by omega
    rw [if_pos hsum]
    simp [addWeight, checkedMul, checkedAdd, hnum, hden, hleft, hright, add]
  · rw [if_neg hsum]
    simp only [addWeight, checkedMul, checkedAdd, Option.bind_eq_bind]
    by_cases hnum : total.1 * w.den + w.num * total.2 < u64Bound
    · have hden : ¬ total.2 * w.den < u64Bound := fun hden => hsum ⟨hnum, hden⟩
      simp [hden]
    · split
      · split
        · simp [hnum]
        · rfl
      · rfl

/-- The loop over a clause is the checked sum of the weights that are added. -/
theorem clauseTotal_eq (indices : List ℕ) (totalKeys : ℕ) (clause : List Weight) :
    ∀ keyIdx total, clauseTotal indices totalKeys keyIdx total clause =
      checkedSum u64Bound total (selected indices totalKeys keyIdx clause) := by
  induction clause with
  | nil => intro _ _; rfl
  | cons w ws ih =>
      intro keyIdx total
      unfold selected at ih ⊢
      rw [clauseTotal, List.zipIdx_cons]
      by_cases hin : keyIdx < totalKeys ∧ keyIdx ∈ indices
      · rw [if_pos hin, List.filter_cons_of_pos (by simpa using hin), List.map_cons, checkedSum,
          addWeight_eq]
        cases Fraction.checkedAdd u64Bound total (w.num, w.den) with
        | none => rfl
        | some total => exact ih _ _
      · rw [if_neg hin, List.filter_cons_of_neg (by simpa using hin)]
        exact ih _ _

theorem selected_proper {clause : List Weight} (h : ∀ w ∈ clause, w.den ≠ 0) (indices : List ℕ)
    (totalKeys offset : ℕ) : Fraction.Proper (selected indices totalKeys offset clause) := by
  intro x hx
  obtain ⟨p, hp, rfl⟩ := List.mem_map.1 hx
  have hw : p.1 ∈ clause := List.fst_mem_of_mem_zipIdx (List.mem_of_mem_filter hp)
  exact Nat.pos_of_ne_zero (h p.1 hw)

/-- What a clause has to meet. -/
theorem clauseTotal_reaches_iff {clause : List Weight} (h : ∀ w ∈ clause, w.den ≠ 0)
    (indices : List ℕ) (totalKeys offset : ℕ) :
    (∃ total, clauseTotal indices totalKeys offset (0, 1) clause = some total ∧
        total.2 ≤ total.1) ↔
      Below u64Bound (sum (0, 1) (selected indices totalKeys offset clause)) ∧
        1 ≤ ((selected indices totalKeys offset clause).map value).sum := by
  have hproper := selected_proper h indices totalKeys offset
  have hstart : Below u64Bound (0, 1) := by decide
  have hworth : 1 ≤ ((selected indices totalKeys offset clause).map value).sum ↔
      (sum (0, 1) (selected indices totalKeys offset clause)).2 ≤
        (sum (0, 1) (selected indices totalKeys offset clause)).1 := by
    rw [← one_le_value_iff (den_sum_pos Nat.one_pos hproper), value_sum Nat.one_pos hproper]
    simp [value]
  rw [clauseTotal_eq, checkedSum_eq hstart hproper, hworth]
  constructor
  · rintro ⟨total, htotal, hle⟩
    split at htotal
    · rename_i hbelow
      obtain rfl := Option.some_inj.1 htotal
      exact ⟨hbelow, hle⟩
    · cases htotal
  · rintro ⟨hbelow, hle⟩
    exact ⟨_, if_pos hbelow, hle⟩

theorem clausesSatisfied_cons {indices : List ℕ} {totalKeys offset : ℕ} {clause : List Weight}
    {clauses : List (List Weight)} :
    clausesSatisfied indices totalKeys offset (clause :: clauses) = true ↔
      (∃ total, clauseTotal indices totalKeys offset (0, 1) clause = some total ∧
        total.2 ≤ total.1) ∧
      clausesSatisfied indices totalKeys (offset + clause.length) clauses = true := by
  rw [clausesSatisfied]
  split
  · rename_i hnone
    simp [hnone]
  · rename_i num den hsome
    simp only [hsome, Option.some_inj, exists_eq_left']
    split
    · rename_i hlt
      simp only [Bool.false_eq_true, false_iff, not_and]
      intro hle
      omega
    · rename_i hge
      exact ⟨fun hrest => ⟨by omega, hrest⟩, fun hrest => hrest.2⟩

/-- The loop over the clauses: each one, at its own key positions. -/
theorem clausesSatisfied_iff {clauses : List (List Weight)}
    (h : ∀ clause ∈ clauses, ∀ w ∈ clause, w.den ≠ 0) (indices : List ℕ) (totalKeys : ℕ) :
    ∀ offset, clausesSatisfied indices totalKeys offset clauses = true ↔
      ∀ pre clause post, clauses = pre ++ clause :: post →
        Below u64Bound (sum (0, 1)
          (selected indices totalKeys (offset + pre.flatten.length) clause)) ∧
        1 ≤ ((selected indices totalKeys (offset + pre.flatten.length) clause).map value).sum := by
  induction clauses with
  | nil =>
      intro offset
      refine ⟨fun _ pre clause post heq => ?_, fun _ => rfl⟩
      simp at heq
  | cons c cs ih =>
      intro offset
      have hhead := h c List.mem_cons_self
      rw [clausesSatisfied_cons, clauseTotal_reaches_iff hhead,
        ih (fun clause hc => h clause (List.mem_cons_of_mem c hc))]
      constructor
      · rintro ⟨hfirst, hrest⟩ pre clause post heq
        cases pre with
        | nil =>
            obtain ⟨rfl, -⟩ := List.cons.inj heq
            simpa using hfirst
        | cons p pre =>
            obtain ⟨rfl, htail⟩ := List.cons.inj heq
            have hclause := hrest pre clause post htail
            rw [add_assoc] at hclause
            simpa using hclause
      · intro hall
        refine ⟨by simpa using hall [] c cs rfl, fun pre clause post heq => ?_⟩
        have hclause := hall (c :: pre) clause post (by rw [heq, List.cons_append])
        rw [List.flatten_cons, List.length_append, ← add_assoc] at hclause
        exact hclause

/-- **The test on a weighted threshold**: there is a clause, and the sum of each fits 64 bits and
reaches one. -/
theorem weighted_satisfied_iff {clauses : List (List Weight)} (h : (weighted clauses).Proper)
    (indices : List ℕ) (totalKeys : ℕ) :
    (weighted clauses).isSatisfied indices totalKeys = true ↔ clauses ≠ [] ∧
      (weighted clauses).Fits indices totalKeys ∧
      ∀ pre clause post, clauses = pre ++ clause :: post →
        1 ≤ ((selected indices totalKeys pre.flatten.length clause).map value).sum := by
  have hloop := clausesSatisfied_iff h indices totalKeys 0
  simp only [Nat.zero_add] at hloop
  simp only [isSatisfied, Bool.and_eq_true, Bool.not_eq_true', List.isEmpty_eq_false_iff, hloop]
  refine and_congr_right fun _ => ?_
  constructor
  · intro hall
    exact ⟨fun pre clause post heq => (hall pre clause post heq).1,
      fun pre clause post heq => (hall pre clause post heq).2⟩
  · rintro ⟨hfits, hone⟩ pre clause post heq
    exact ⟨hfits pre clause post heq, hone pre clause post heq⟩

/-! ### A satisfied threshold is met -/

/-- Adding only what is in range does not add more than there is. -/
theorem selected_le_clauseWeight (indices : List ℕ) (totalKeys offset : ℕ) (clause : List Weight) :
    ((selected indices totalKeys offset clause).map value).sum ≤
      clauseWeight indices offset clause := by
  have hsub : (selected indices totalKeys offset clause).Sublist
      (((clause.zipIdx offset).filter fun p => p.2 ∈ indices).map fun p => (p.1.num, p.1.den)) := by
    refine List.Sublist.map _ (List.monotone_filter_right _ ?_)
    intro p hp
    simp only [decide_eq_true_eq] at hp ⊢
    exact hp.2
  have hle := value_sublist_le hsub
  rw [List.map_map] at hle
  exact hle

/-- **A satisfied threshold is met.**  Only sums that fit are compared, so none of them has wrapped
around. -/
theorem met_of_satisfied {t : Threshold} (ht : t.Proper) {indices : List ℕ} {totalKeys : ℕ}
    (h : t.isSatisfied indices totalKeys = true) : t.Met indices := by
  cases t with
  | simple k =>
      simp only [isSatisfied, Bool.and_eq_true, decide_eq_true_eq] at h
      exact h
  | weighted clauses =>
      obtain ⟨hne, -, hone⟩ := (weighted_satisfied_iff ht indices totalKeys).1 h
      exact ⟨hne, fun pre clause post heq =>
        (hone pre clause post heq).trans (selected_le_clauseWeight _ _ _ _)⟩

/-- Two of three halves. -/
theorem met_of_satisfied_halves : (weighted [[⟨1, 2⟩, ⟨1, 2⟩, ⟨1, 2⟩]]).Met [2, 0] :=
  @met_of_satisfied _ (by simp [Proper]) _ 3 (by decide)

/-! ### More signers -/

/-- A weight that is parsed has a denominator. -/
theorem den_of_parse {s : String} {w : Weight} (h : Weight.parse s = .ok w) : w.den ≠ 0 := by
  have hnew : ∀ {num den : ℕ}, Weight.new num den = .ok w → w.den ≠ 0 := by
    intro num den h
    simp only [Weight.new, bind_eq_ok, ensure_eq_ok, pure_eq_ok] at h
    obtain ⟨-, hden, rfl⟩ := h
    exact hden
  unfold Weight.parse at h
  split at h
  · simp only [bind_eq_ok] at h
    obtain ⟨_, -, _, -, h⟩ := h
    exact hnew h
  · simp only [bind_eq_ok] at h
    obtain ⟨_, -, h⟩ := h
    exact hnew h

theorem den_of_clauseOf {clause : Value} {ws : List Weight} (h : clauseOf clause = .ok ws) :
    ∀ w ∈ ws, w.den ≠ 0 := by
  simp only [clauseOf, bind_eq_ok] at h
  obtain ⟨arr, -, -, -, hws⟩ := h
  intro w hw
  obtain ⟨v, -, hv⟩ := exists_of_mem_mapM hws hw
  simp only [weightOf, bind_eq_ok] at hv
  obtain ⟨_, -, hparse⟩ := hv
  exact den_of_parse hparse

/-- A threshold that is parsed has no denominator of zero. -/
theorem proper_of_fromJsonValue {value : Value} {t : Threshold} (h : fromJsonValue value = .ok t) :
    t.Proper := by
  cases t with
  | simple k => trivial
  | weighted clauses =>
      unfold fromJsonValue at h
      split at h
      · simp only [bind_eq_ok, pure_eq_ok, reduceCtorEq, and_false, exists_false] at h
      · simp only [bind_eq_ok, pure_eq_ok, reduceCtorEq, and_false, exists_false] at h
      · cases h
      · simp only [bind_eq_ok, pure_eq_ok, weighted.injEq] at h
        obtain ⟨-, -, clauses', hclauses, rfl⟩ := h
        intro clause hclause
        obtain ⟨v, -, hv⟩ := exists_of_mem_mapM hclauses hclause
        exact den_of_clauseOf hv
      · cases h

/-- More indices select more weights. -/
theorem selected_sublist {is js : List ℕ} (h : ∀ i ∈ is, i ∈ js) (totalKeys offset : ℕ)
    (clause : List Weight) :
    (selected is totalKeys offset clause).Sublist (selected js totalKeys offset clause) := by
  refine List.Sublist.map _ (List.monotone_filter_right _ ?_)
  intro p hp
  simp only [decide_eq_true_eq] at hp ⊢
  exact ⟨hp.1, h p.2 hp.2⟩

/-- **More signers satisfy a threshold exactly when their sums fit.**  Each sum reaches one with
more signers if it does with fewer, so all that can fail is that it is too long to be computed. -/
theorem satisfied_by_more_iff {value : Value} {t : Threshold} (ht : fromJsonValue value = .ok t)
    {is js : List ℕ} {totalKeys : ℕ} (his : is.Nodup) (hsub : ∀ i ∈ is, i ∈ js)
    (h : t.isSatisfied is totalKeys = true) :
    t.isSatisfied js totalKeys = true ↔ t.Fits js totalKeys := by
  have hproper := proper_of_fromJsonValue ht
  cases t with
  | simple k =>
      have hlen : is.length ≤ js.length := (his.subperm hsub).length_le
      simp only [isSatisfied, Bool.and_eq_true, decide_eq_true_eq] at h ⊢
      exact ⟨fun _ => trivial, fun _ => ⟨h.1, h.2.trans hlen⟩⟩
  | weighted clauses =>
      obtain ⟨hne, -, hone⟩ := (weighted_satisfied_iff hproper is totalKeys).1 h
      rw [weighted_satisfied_iff hproper]
      constructor
      · exact fun hjs => hjs.2.1
      · exact fun hfits => ⟨hne, hfits, fun pre clause post heq => (hone pre clause post heq).trans
          (value_sublist_le (selected_sublist hsub _ _ _))⟩

/-- A whole weight and three of one in 2³² - 1. -/
def toyThin : Value :=
  .array [.array [.string "1", .string "1/4294967295", .string "1/4294967295",
    .string "1/4294967295"]]

theorem satisfied_by_more_thin : ∃ t, fromJsonValue toyThin = .ok t ∧
    (t.isSatisfied [0, 1, 2] 4 = true ↔ t.Fits [0, 1, 2] 4) := by
  obtain ⟨t, ht, hone⟩ := exists_ok_of_any (x := fromJsonValue toyThin)
    (p := fun t => t.isSatisfied [0] 4) (by decide +kernel)
  exact ⟨t, ht, satisfied_by_more_iff ht (by decide) (by decide) hone⟩

/-- More signers can hurt: with all four weights, the product of the denominators does not fit. -/
theorem more_signers_overflow :
    ¬ ∀ (value : Value) (t : Threshold) (is js : List ℕ) (totalKeys : ℕ),
      fromJsonValue value = .ok t → is.Nodup → js.Nodup → (∀ i ∈ is, i < totalKeys) →
      (∀ j ∈ js, j < totalKeys) → (∀ i ∈ is, i ∈ js) → t.isSatisfied is totalKeys = true →
      t.isSatisfied js totalKeys = true := by
  intro hclaim
  obtain ⟨t, ht, hboth⟩ := exists_ok_of_any (x := fromJsonValue toyThin)
    (p := fun t => t.isSatisfied [0] 4 && !t.isSatisfied [0, 1, 2, 3] 4) (by decide +kernel)
  simp only [Bool.and_eq_true, Bool.not_eq_true'] at hboth
  have hmore := hclaim toyThin t [0] [0, 1, 2, 3] 4 ht (by decide) (by decide) (by decide)
    (by decide) (by decide) hboth.1
  rw [hboth.2] at hmore
  cases hmore

end Threshold

end Keri
