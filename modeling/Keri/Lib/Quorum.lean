/-
**Voted logs.**

A replica may take an input only with votes: enough of the members that the next state names have
voted for it.  Two logs that part have then been voted for twice, by at least as many members as the
two majorities overlap in; and where the members that may vote twice are fewer than the overlap, no
two logs part.

* `Replica.Voted` — every input that is taken has enough votes;
* `Replica.Voted.common` — **two inputs that are taken have voters in common**;
* `Replica.Fork.common_voters` — **who has voted for both sides of a fork**;
* `Replica.agree_of_votes` — **with few faulty members, of two logs one is the beginning of the
  other**.
-/

import Mathlib.Data.Finset.Card
import Keri.Lib.Replica

set_option relaxedAutoImplicit false
set_option autoImplicit false

namespace Replica

open Machine

universe u v w x

variable {σ : Type u} {ι : Type v} {κ : Type w} {V : Type x}

/-- Every input that is taken has enough votes by members of the state it leads to. -/
def Voted (step : σ → ι → Option σ) (votes : V → ι → Prop) (members : σ → Finset V)
    (need : σ → ℕ) : Prop :=
  ∀ s t i, step s i = some t → ∃ W ⊆ members t, need t ≤ W.card ∧ ∀ w ∈ W, votes w i

/-- The states along a log, the first apart. -/
def Along (step : σ → ι → Option σ) (s : σ) (as : List ι) (P : σ → Prop) : Prop :=
  ∀ bs i t, bs ++ [i] <+: as → Path step s (bs ++ [i]) t → P t

variable [DecidableEq V] {step : σ → ι → Option σ} {votes : V → ι → Prop}
  {members : σ → Finset V} {need : σ → ℕ} {key : ι → κ} {Inv : σ → Prop} {s t u : σ} {i j : ι}
  {as bs : List ι}

/-- **Two inputs that are taken have voters in common**, as many as the votes that are needed exceed
the members. -/
theorem Voted.common (hv : Voted step votes members need) {s' : σ} (hi : step s i = some t)
    (hj : step s' j = some u) : ∃ W ⊆ members t ∩ members u,
      need t + need u ≤ (members t ∪ members u).card + W.card ∧
        ∀ w ∈ W, votes w i ∧ votes w j := by
  obtain ⟨A, hA, hcardA, hvotesA⟩ := hv s t i hi
  obtain ⟨B, hB, hcardB, hvotesB⟩ := hv s' u j hj
  refine ⟨A ∩ B, Finset.inter_subset_inter hA hB, ?_, fun w hw => ?_⟩
  · have hsum := Finset.card_union_add_card_inter A B
    have hle := Finset.card_le_card (Finset.union_subset_union hA hB)
    omega
  · obtain ⟨ha, hb⟩ := Finset.mem_inter.1 hw
    exact ⟨hvotesA w ha, hvotesB w hb⟩

/-- **Who has voted for both sides of a fork.** -/
theorem Fork.common_voters (h : Fork step key s as bs) (hv : Voted step votes members need) :
    ∃ (n : ℕ) (r t u : σ) (i j : ι), as[n]? = some i ∧ bs[n]? = some j ∧
      Path step s (as.take n) r ∧ Path step s (bs.take n) r ∧ step r i = some t ∧
      step r j = some u ∧ key i ≠ key j ∧ ∃ W ⊆ members t ∩ members u,
        need t + need u ≤ (members t ∪ members u).card + W.card ∧
          ∀ w ∈ W, votes w i ∧ votes w j := by
  obtain ⟨n, r, t, u, i, j, hi, hj, -, hpath, hpath', hr, hr', hne⟩ := h.exists_at
  exact ⟨n, r, t, u, i, j, hi, hj, hpath, hpath', hr, hr', hne, hv.common hr hr'⟩

omit [DecidableEq V] in
/-- The state after one more input of a log is a state along the log. -/
theorem Along.after {P : σ → Prop} (h : Along step s as P) {n : ℕ} (hi : as[n]? = some i)
    (hpath : Path step s (as.take n) t) (hstep : step t i = some u) : P u := by
  have htake : as.take n ++ [i] = as.take (n + 1) := by
    rw [List.take_add_one, hi]
    rfl
  refine h (as.take n) i u ?_ (path_concat hpath hstep)
  rw [htake]
  exact List.take_prefix _ _

omit [DecidableEq V] in
/-- A replica that is sent a log goes along it. -/
theorem Path.run_eq (h : Path step s as t) : run (advance step) s as = t := by
  induction as generalizing s with
  | nil => exact h
  | cons a as ih =>
      obtain ⟨v, hv, h⟩ := h
      rw [run_cons, advance_of_some hv]
      exact ih h

omit [DecidableEq V] in
/-- The states along a log are those of a replica that is sent its beginnings. -/
theorem along_of_run {P : σ → Prop}
    (h : ∀ n < as.length, P (run (advance step) s (as.take (n + 1)))) : Along step s as P := by
  intro bs i t hle hpath
  have hlen : bs.length < as.length := by
    have hlen' := hle.length_le
    rw [List.length_append, List.length_singleton] at hlen'
    exact hlen'
  have htake : as.take (bs.length + 1) = bs ++ [i] := by
    rw [List.prefix_iff_eq_take.1 hle, List.length_append, List.length_singleton]
  have hP := h bs.length hlen
  rwa [htake, hpath.run_eq] at hP

/-- **With few faulty members, of two logs one is the beginning of the other.**  The members come
from a pool, no member that is not faulty has voted for two inputs that one state takes, and twice
the votes that are needed are more than the pool and the faulty members together. -/
theorem agree_of_votes (hk : Keyed step key Inv) (hs : Inv s)
    (hv : Voted step votes members need) {u' : σ} (ha : Path step s as t)
    (hb : Path step s bs u') {pool faulty : Finset V} {m : ℕ}
    (hmembers : Along step s as fun r => members r ⊆ pool ∧ m ≤ need r)
    (hmembers' : Along step s bs fun r => members r ⊆ pool ∧ m ≤ need r)
    (hfew : pool.card + faulty.card < 2 * m)
    (honest : ∀ w ∈ pool, w ∉ faulty → ∀ i ∈ as, ∀ j ∈ bs, votes w i → votes w j →
      (∃ r, Inv r ∧ (step r i).isSome ∧ (step r j).isSome) → key i = key j) :
    as.map key <+: bs.map key ∨ bs.map key <+: as.map key := by
  rcases agree_or_fork hk hs ha hb with hle | hge | hfork
  · exact Or.inl hle
  · exact Or.inr hge
  obtain ⟨n, r, t, u, i, j, hi, hj, hpath, hpath', hr, hr', hne, W, hW, hcard, hvotes⟩ :=
    hfork.common_voters hv
  obtain ⟨hpool, hneed⟩ := hmembers.after hi hpath hr
  obtain ⟨hpool', hneed'⟩ := hmembers'.after hj hpath' hr'
  -- more members have voted for both than are faulty
  have hlt : faulty.card < W.card := by
    have hunion := Finset.card_le_card (Finset.union_subset hpool hpool')
    omega
  obtain ⟨w, hw, hright⟩ := Finset.exists_mem_notMem_of_card_lt_card hlt
  obtain ⟨hvote, hvote'⟩ := hvotes w hw
  refine absurd (honest w (hpool (Finset.inter_subset_left (hW hw))) hright i
    (List.mem_of_getElem? hi) j (List.mem_of_getElem? hj) hvote hvote' ⟨r, ?_, ?_, ?_⟩) hne
  · exact hk.keeps_path hs hpath
  · rw [hr]
    rfl
  · rw [hr']
    rfl

end Replica
