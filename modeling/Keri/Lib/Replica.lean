/-
**Replicas of a log.**

A replica takes some of the inputs that reach it and refuses the others; the inputs it has taken are
its log.  When the next state depends on the key of an input only, two replicas that start alike and
have taken inputs with the same keys are in the same state.  What they take can differ only where
one and the same state takes two inputs with different keys.

* `Replica.advance`, `Replica.taken` — a replica that goes on when it refuses, and what it takes;
* `Replica.Path` — inputs all of which are taken;
* `Replica.Keyed` — the next state depends on the key of an input only;
* `Replica.Fork` — two logs that part, and the state in which they do;
* `Replica.agree_or_fork` — **of two logs one is the beginning of the other, or they fork**;
* `Replica.delivered` — **what one replica has taken another takes as well, in whatever stream it is
  delivered to it, or they fork**.
-/

import Keri.Lib.Machine

set_option relaxedAutoImplicit false
set_option autoImplicit false

namespace Replica

open Machine

universe u v w

variable {σ : Type u} {ι : Type v} {κ : Type w}

/-! ### What a replica takes -/

variable (step : σ → ι → Option σ)

/-- A refused input leaves the state as it is. -/
def advance (s : σ) (i : ι) : σ := (step s i).getD s

/-- The inputs that are taken, in order. -/
def taken : σ → List ι → List ι
  | _, [] => []
  | s, i :: is =>
      match step s i with
      | some t => i :: taken t is
      | none => taken s is

/-- All inputs are taken, from the first state to the last. -/
def Path : σ → List ι → σ → Prop
  | s, [], t => s = t
  | s, i :: is, t => ∃ u, step s i = some u ∧ Path u is t

variable {step} {s t : σ}

theorem advance_of_some {i : ι} (h : step s i = some t) : advance step s i = t := by
  rw [advance, h, Option.getD_some]

theorem advance_of_none {i : ι} (h : step s i = none) : advance step s i = s := by
  rw [advance, h, Option.getD_none]

/-- What is taken has been delivered, in that order. -/
theorem taken_sublist (s : σ) (is : List ι) : (taken step s is).Sublist is := by
  induction is generalizing s with
  | nil => exact List.Sublist.slnil
  | cons i is ih =>
      rw [taken]
      split
      · exact (ih _).cons_cons i
      · exact (ih s).cons i

/-- What is taken leads to the same state by itself. -/
theorem path_taken (s : σ) (is : List ι) :
    Path step s (taken step s is) (run (advance step) s is) := by
  induction is generalizing s with
  | nil => exact rfl
  | cons i is ih =>
      rw [taken, run_cons]
      split
      · rename_i t ht
        rw [advance_of_some ht]
        exact ⟨t, ht, ih t⟩
      · rename_i hnone
        rw [advance_of_none hnone]
        exact ih s

theorem taken_cons_some {i : ι} (h : step s i = some t) (is : List ι) :
    taken step s (i :: is) = i :: taken step t is := by
  rw [taken, h]

theorem taken_cons_none {i : ι} (h : step s i = none) (is : List ι) :
    taken step s (i :: is) = taken step s is := by
  rw [taken, h]

theorem taken_concat (s : σ) (is : List ι) (i : ι) :
    taken step s (is ++ [i]) = taken step s is ++
      if (step (run (advance step) s is) i).isSome then [i] else [] := by
  induction is generalizing s with
  | nil =>
      rw [List.nil_append, run_nil]
      cases hi : step s i with
      | none => rw [taken_cons_none hi]; rfl
      | some t => rw [taken_cons_some hi]; rfl
  | cons j is ih =>
      rw [List.cons_append, run_cons]
      cases hj : step s j with
      | none => rw [taken_cons_none hj, taken_cons_none hj, advance_of_none hj, ih]
      | some t =>
          rw [taken_cons_some hj, taken_cons_some hj, advance_of_some hj, ih, List.cons_append]

theorem path_concat {is : List ι} {i : ι} {u : σ} (h : Path step s is t)
    (hi : step t i = some u) : Path step s (is ++ [i]) u := by
  induction is generalizing s with
  | nil =>
      obtain rfl : s = t := h
      exact ⟨u, hi, rfl⟩
  | cons j is ih =>
      obtain ⟨v, hv, hrest⟩ := h
      exact ⟨v, hv, ih hrest⟩

/-! ### Inputs with keys -/

variable (step) in
/-- The next state depends on the key of an input only, as long as a state meets `Inv`, which every
step keeps. -/
structure Keyed (key : ι → κ) (Inv : σ → Prop) : Prop where
  keeps : ∀ {s t : σ} {i : ι}, Inv s → step s i = some t → Inv t
  next_eq : ∀ {s t u : σ} {i j : ι}, Inv s → step s i = some t → step s j = some u →
    key i = key j → t = u

variable (step) in
/-- Two logs part: in some state that both have led to, they go on with inputs of different keys, of
which the state takes both. -/
inductive Fork (key : ι → κ) : σ → List ι → List ι → Prop where
  | here {s t u : σ} {i j : ι} {is js : List ι} : step s i = some t → step s j = some u →
      key i ≠ key j → Fork key s (i :: is) (j :: js)
  | there {s t : σ} {i j : ι} {is js : List ι} : step s i = some t → step s j = some t →
      key i = key j → Fork key t is js → Fork key s (i :: is) (j :: js)

variable {key : ι → κ} {Inv : σ → Prop} {as bs : List ι}

/-- Where two logs part. -/
theorem Fork.exists_at (h : Fork step key s as bs) : ∃ (n : ℕ) (r t u : σ) (i j : ι),
    as[n]? = some i ∧ bs[n]? = some j ∧ (as.take n).map key = (bs.take n).map key ∧
      Path step s (as.take n) r ∧ Path step s (bs.take n) r ∧ step r i = some t ∧
      step r j = some u ∧ key i ≠ key j := by
  induction h with
  | here hi hj hne => exact ⟨0, _, _, _, _, _, rfl, rfl, rfl, rfl, rfl, hi, hj, hne⟩
  | @there s v a b is js ha hb heq _ ih =>
      obtain ⟨n, r, t, u, i, j, hi, hj, htake, hpath, hpath', hr, hr', hne⟩ := ih
      refine ⟨n + 1, r, t, u, i, j, hi, hj, ?_, ⟨v, ha, hpath⟩, ⟨v, hb, hpath'⟩, hr, hr', hne⟩
      rw [List.take_succ_cons, List.take_succ_cons, List.map_cons, List.map_cons, heq, htake]

/-- The invariant holds wherever inputs lead. -/
theorem Keyed.keeps_path (hk : Keyed step key Inv) (hs : Inv s) (ha : Path step s as t) :
    Inv t := by
  induction as generalizing s with
  | nil =>
      obtain rfl : s = t := ha
      exact hs
  | cons a as ih =>
      obtain ⟨v, hv, ha⟩ := ha
      exact ih (hk.keeps hs hv) ha

/-- Equal keys, equal states. -/
theorem Keyed.state_eq (hk : Keyed step key Inv) (hs : Inv s) {u : σ} (ha : Path step s as t)
    (hb : Path step s bs u) (h : as.map key = bs.map key) : t = u := by
  induction as generalizing s bs with
  | nil =>
      obtain rfl := List.map_eq_nil_iff.1 h.symm
      obtain rfl : s = t := ha
      exact hb
  | cons a as ih =>
      cases bs with
      | nil => cases h
      | cons b bs =>
          obtain ⟨v, hv, ha⟩ := ha
          obtain ⟨w, hw, hb⟩ := hb
          rw [List.map_cons, List.map_cons, List.cons_eq_cons] at h
          obtain rfl := hk.next_eq hs hv hw h.1
          exact ih (hk.keeps hs hv) ha hb h.2

/-- **Of two logs one is the beginning of the other, or they fork.** -/
theorem agree_or_fork (hk : Keyed step key Inv) (hs : Inv s) {u : σ} (ha : Path step s as t)
    (hb : Path step s bs u) :
    as.map key <+: bs.map key ∨ bs.map key <+: as.map key ∨ Fork step key s as bs := by
  induction as generalizing s bs with
  | nil => exact Or.inl List.nil_prefix
  | cons a as ih =>
      cases bs with
      | nil => exact Or.inr (Or.inl List.nil_prefix)
      | cons b bs =>
          obtain ⟨v, hv, ha⟩ := ha
          obtain ⟨w, hw, hb⟩ := hb
          by_cases hkey : key a = key b
          · obtain rfl := hk.next_eq hs hv hw hkey
            rw [List.map_cons, List.map_cons, hkey, List.prefix_cons_inj, List.prefix_cons_inj]
            rcases ih (hk.keeps hs hv) ha hb with hle | hge | hfork
            · exact Or.inl hle
            · exact Or.inr (Or.inl hge)
            · exact Or.inr (Or.inr (.there hv hw hkey hfork))
          · exact Or.inr (Or.inr (.here hv hw hkey))

/-- **What one replica has taken another takes as well**, in whatever stream it is delivered to it,
or they fork. -/
theorem delivered (hk : Keyed step key Inv) (hs : Inv s) {is : List ι} (ha : Path step s as t)
    (h : as.Sublist is) :
    as.map key <+: (taken step s is).map key ∨ Fork step key s as (taken step s is) := by
  induction is generalizing s as with
  | nil =>
      obtain rfl := List.sublist_nil.1 h
      exact Or.inl List.nil_prefix
  | cons i is ih =>
      cases as with
      | nil => exact Or.inl List.nil_prefix
      | cons a as =>
          obtain ⟨v, hv, hpath⟩ := ha
          cases hi : step s i with
          | none =>
              -- a refused input is not the one that is taken here
              have hrest : (a :: as).Sublist is := by
                cases h with
                | cons _ h => exact h
                | cons_cons _ h =>
                    rw [hi] at hv
                    cases hv
              rw [taken, hi]
              exact ih hs ⟨v, hv, hpath⟩ hrest
          | some w =>
              have hrest : as.Sublist is := by
                cases h with
                | cons _ h => exact (List.sublist_cons_self a as).trans h
                | cons_cons _ h => exact h
              rw [taken, hi]
              by_cases hkey : key a = key i
              · obtain rfl := hk.next_eq hs hv hi hkey
                rw [List.map_cons, List.map_cons, hkey, List.prefix_cons_inj]
                exact (ih (hk.keeps hs hv) hpath hrest).imp_right (.there hv hi hkey)
              · exact Or.inr (.here hv hi hkey)

end Replica
