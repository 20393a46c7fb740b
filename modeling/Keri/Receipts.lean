/-
**Witness receipts.**

A receipt counts when it is by a backer and its signature verifies under the backer's prefix, which
is its key; each backer counts once.  A threshold can be met exactly when that many of the backers,
each taken once, are keys that can sign.

* `Keri.ValidReceipt`, `Keri.Signable` — a receipt whose signature verifies, and a prefix that can
  have one;
* `Keri.validPrefixes_spec` — **the loop over the receipts collects the backers with a valid one**;
* `Keri.exists_receipts_iff` — **a threshold can be met exactly when enough distinct backers can
  sign**.
-/

import Keri.Kever

set_option relaxedAutoImplicit false
set_option autoImplicit false

namespace Keri

open Outcome

variable (X : Externals)

/-! ### What counts -/

/-- The signature of the receipt verifies under its prefix. -/
def ValidReceipt (message : Bytes) (couple : String × Bytes) : Prop :=
  ∃ verfer, Verfer.fromQb64 X couple.1 = .ok verfer ∧
    verfer.verify X message couple.2 = .ok true

/-- The prefix is a key that can sign the message. -/
def Signable (message : Bytes) (pfx : String) : Prop := ∃ sigRaw, ValidReceipt X message (pfx, sigRaw)

variable {X} {message : Bytes} {backers : List String}

/-- One turn of the loop. -/
theorem validPrefixes_cons_eq_ok {acc vs : List String} {c : String × Bytes}
    {couples : List (String × Bytes)} :
    validPrefixes X message backers acc (c :: couples) = .ok vs ↔
      ((c.1 ∉ backers ∨ c.1 ∈ acc) ∧ validPrefixes X message backers acc couples = .ok vs) ∨
      ((c.1 ∈ backers ∧ c.1 ∉ acc) ∧ ∃ verfer ok, Verfer.fromQb64 X c.1 = .ok verfer ∧
        verfer.verify X message c.2 = .ok ok ∧
        validPrefixes X message backers (if ok then acc ++ [c.1] else acc) couples = .ok vs) := by
  obtain ⟨pfx, sigRaw⟩ := c
  rw [validPrefixes]
  by_cases hskip : pfx ∉ backers ∨ pfx ∈ acc
  · rw [if_pos hskip]
    constructor
    · exact fun h => Or.inl ⟨hskip, h⟩
    · rintro (⟨-, h⟩ | ⟨⟨hin, hout⟩, -⟩)
      · exact h
      · rcases hskip with hskip | hskip
        · exact absurd hin hskip
        · exact absurd hskip hout
  · rw [if_neg hskip]
    push Not at hskip
    simp only [bind_eq_ok, mapError_eq_ok]
    constructor
    · rintro ⟨verfer, hverfer, ok, hok, h⟩
      exact Or.inr ⟨hskip, verfer, ok, hverfer, hok, h⟩
    · rintro (⟨hor, -⟩ | ⟨-, verfer, ok, hverfer, hok, h⟩)
      · rcases hor with hor | hor
        · exact absurd hskip.1 hor
        · exact absurd hor hskip.2
      · exact ⟨verfer, hverfer, ok, hok, h⟩

/-- A receipt that is read is valid when its signature verifies. -/
theorem validReceipt_iff {c : String × Bytes} {verfer : Verfer} {valid : Bool}
    (hverfer : Verfer.fromQb64 X c.1 = .ok verfer) (hok : verfer.verify X message c.2 = .ok valid) :
    ValidReceipt X message c ↔ valid = true := by
  constructor
  · rintro ⟨verfer', hverfer', hok'⟩
    obtain rfl := Except.ok.inj (hverfer.symm.trans hverfer')
    exact Except.ok.inj (hok.symm.trans hok')
  · rintro rfl
    exact ⟨verfer, hverfer, hok⟩

/-- **The loop over the receipts collects the backers with a valid one**, each once. -/
theorem validPrefixes_spec {acc vs : List String} {couples : List (String × Bytes)}
    (h : validPrefixes X message backers acc couples = .ok vs) (hacc : acc.Nodup) :
    vs.Nodup ∧ ∀ p, p ∈ vs ↔ p ∈ acc ∨
      (p ∈ backers ∧ ∃ c ∈ couples, c.1 = p ∧ ValidReceipt X message c) := by
  induction couples generalizing acc with
  | nil =>
      cases h
      exact ⟨hacc, fun p => by simp⟩
  | cons c couples ih =>
      have hcons : ∀ p, (p ∈ backers ∧ ∃ c' ∈ c :: couples, c'.1 = p ∧ ValidReceipt X message c') ↔
          (p ∈ backers ∧ c.1 = p ∧ ValidReceipt X message c) ∨
          (p ∈ backers ∧ ∃ c' ∈ couples, c'.1 = p ∧ ValidReceipt X message c') := by
        intro p
        simp only [List.mem_cons, exists_eq_or_imp]
        exact and_or_left
      rcases validPrefixes_cons_eq_ok.1 h with
        ⟨hskip, hrest⟩ | ⟨⟨hin, hout⟩, verfer, ok, hverfer, hok, hrest⟩
      · -- the receipt is skipped: its prefix is no backer, or has been counted
        obtain ⟨hnodup, hmem⟩ := ih hrest hacc
        refine ⟨hnodup, fun p => ?_⟩
        rw [hmem, hcons]
        constructor
        · rintro (hp | hp)
          · exact Or.inl hp
          · exact Or.inr (Or.inr hp)
        · rintro (hp | ⟨hp, rfl, -⟩ | hp)
          · exact Or.inl hp
          · exact Or.inl (hskip.resolve_left (not_not.2 hp))
          · exact Or.inr hp
      · have hvalid : ValidReceipt X message c ↔ ok = true := validReceipt_iff hverfer hok
        have hacc' : (if ok = true then acc ++ [c.1] else acc).Nodup := by
          split
          · exact List.Nodup.append hacc (by simp) (by simpa using hout)
          · exact hacc
        obtain ⟨hnodup, hmem⟩ := ih hrest hacc'
        refine ⟨hnodup, fun p => ?_⟩
        have hfirst : p ∈ (if ok = true then acc ++ [c.1] else acc) ↔
            p ∈ acc ∨ (p ∈ backers ∧ c.1 = p ∧ ValidReceipt X message c) := by
          split
          · rename_i htrue
            rw [List.mem_append, List.mem_singleton]
            refine or_congr_right ⟨?_, fun hp => hp.2.1.symm⟩
            rintro rfl
            exact ⟨hin, rfl, hvalid.2 htrue⟩
          · rename_i hfalse
            constructor
            · exact Or.inl
            · rintro (hp | ⟨-, -, hv⟩)
              · exact hp
              · exact absurd (hvalid.1 hv) hfalse
        rw [hmem, hcons, hfirst, or_assoc]

theorem verifyWitnessReceiptsStatic_eq_ok {couples : List (String × Bytes)} {t : ℕ} {u : Unit} :
    verifyWitnessReceiptsStatic X message couples backers t = .ok u ↔ t = 0 ∨
      ∃ vs, validPrefixes X message backers [] couples = .ok vs ∧ t ≤ vs.length := by
  unfold verifyWitnessReceiptsStatic
  by_cases hzero : t = 0
  · rw [if_pos hzero]
    exact ⟨fun _ => Or.inl hzero, fun _ => rfl⟩
  · rw [if_neg hzero]
    simp only [bind_eq_ok, ensure_eq_ok, hzero, false_or]

/-! ### Thresholds that can be met -/

/-- Receipts that are all by backers and all valid are all read. -/
theorem validPrefixes_of_valid {couples : List (String × Bytes)}
    (h : ∀ c ∈ couples, c.1 ∈ backers ∧ ValidReceipt X message c) (acc : List String) :
    ∃ vs, validPrefixes X message backers acc couples = .ok vs := by
  induction couples generalizing acc with
  | nil => exact ⟨acc, rfl⟩
  | cons c couples ih =>
      obtain ⟨hin, verfer, hverfer, hok⟩ := h c List.mem_cons_self
      have hrest := fun c' hc' => h c' (List.mem_cons_of_mem c hc')
      by_cases hout : c.1 ∈ acc
      · obtain ⟨vs, hvs⟩ := ih hrest acc
        exact ⟨vs, validPrefixes_cons_eq_ok.2 (Or.inl ⟨Or.inr hout, hvs⟩)⟩
      · obtain ⟨vs, hvs⟩ := ih hrest (acc ++ [c.1])
        exact ⟨vs, validPrefixes_cons_eq_ok.2
          (Or.inr ⟨⟨hin, hout⟩, verfer, true, hverfer, hok, hvs⟩)⟩

variable (X message backers) in
/-- The distinct backers that can sign the message. -/
noncomputable def signers : Finset String := by
  classical
  exact backers.toFinset.filter (Signable X message)

theorem mem_signers {p : String} :
    p ∈ signers X message backers ↔ p ∈ backers ∧ Signable X message p := by
  simp [signers]

/-- Receipts, one for each of some backers that can sign. -/
theorem exists_receipts (ps : List String) (h : ∀ p ∈ ps, p ∈ signers X message backers) :
    ∃ couples : List (String × Bytes), couples.map Prod.fst = ps ∧
      ∀ c ∈ couples, c.1 ∈ backers ∧ ValidReceipt X message c := by
  induction ps with
  | nil => exact ⟨[], rfl, fun c hc => absurd hc List.not_mem_nil⟩
  | cons p ps ih =>
      obtain ⟨couples, hfst, hall⟩ := ih fun q hq => h q (List.mem_cons_of_mem p hq)
      obtain ⟨hin, sigRaw, hvalid⟩ := mem_signers.1 (h p List.mem_cons_self)
      refine ⟨(p, sigRaw) :: couples, by rw [List.map_cons, hfst], fun c hc => ?_⟩
      rcases List.mem_cons.1 hc with rfl | hc
      · exact ⟨hin, hvalid⟩
      · exact hall c hc

/-- **A threshold can be met exactly when enough distinct backers can sign.** -/
theorem exists_receipts_iff {t : ℕ} :
    (∃ couples, verifyWitnessReceiptsStatic X message couples backers t = .ok ()) ↔
      t ≤ (signers X message backers).card := by
  constructor
  · rintro ⟨couples, h⟩
    rcases verifyWitnessReceiptsStatic_eq_ok.1 h with rfl | ⟨vs, hvs, hle⟩
    · exact Nat.zero_le _
    · -- the backers that were counted are distinct and have signed
      obtain ⟨hnodup, hmem⟩ := validPrefixes_spec hvs List.nodup_nil
      have hsub : vs.toFinset ⊆ signers X message backers := by
        intro p hp
        obtain hp | ⟨hin, c, -, rfl, hvalid⟩ := (hmem p).1 (List.mem_toFinset.1 hp)
        · exact absurd hp List.not_mem_nil
        · exact mem_signers.2 ⟨hin, c.2, hvalid⟩
      have hcard := Finset.card_le_card hsub
      rw [List.toFinset_card_of_nodup hnodup] at hcard
      omega
  · intro hle
    obtain ⟨couples, hfst, hall⟩ := exists_receipts (signers X message backers).toList
      fun p hp => Finset.mem_toList.1 hp
    obtain ⟨vs, hvs⟩ := validPrefixes_of_valid hall []
    refine ⟨couples, verifyWitnessReceiptsStatic_eq_ok.2 (Or.inr ⟨vs, hvs, ?_⟩)⟩
    obtain ⟨hnodup, hmem⟩ := validPrefixes_spec hvs List.nodup_nil
    have hsub : signers X message backers ⊆ vs.toFinset := by
      intro p hp
      have hp' : p ∈ couples.map Prod.fst := hfst ▸ Finset.mem_toList.2 hp
      obtain ⟨c, hc, rfl⟩ := List.mem_map.1 hp'
      exact List.mem_toFinset.2 ((hmem c.1).2 (Or.inr ⟨(hall c hc).1, c, hc, rfl, (hall c hc).2⟩))
    have hcard := Finset.card_le_card hsub
    rw [List.toFinset_card_of_nodup hnodup] at hcard
    omega

end Keri
