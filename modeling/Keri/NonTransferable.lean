/-
**Identifiers that are not meant to rotate.**

A key code says whether a key may be rotated.  An identifier's own controller refuses to rotate one
that may not be; verifiers take any rotation whose keys are the ones committed to, and never look at
the code. An identifier keeps its keys for ever when there are no such keys.

* `Keri.NonTransferable` — a prefix that is a key which may not be rotated;
* `Keri.Opens` — a list of keys, not empty, that is the one committed to;
* `Keri.AcceptsRotation.opens` — **the keys of an accepted rotation are the ones committed to**, and
  there are some;
* `Keri.never_rotates` — **a verifier never accepts a rotation when no keys open the commitments of
  the inception**, and its keys stay those of the inception;
* `Keri.rotates_anyway` — a rotation of an identifier that is not transferable.
-/

import Keri.Backers

set_option relaxedAutoImplicit false
set_option autoImplicit false

namespace Keri

open Outcome

variable (X : Externals)

/-! ### Keys that may not be rotated -/

/-- The prefix is a key with a code that is not transferable. -/
def NonTransferable (pfx : String) : Prop :=
  ∃ verfer, Verfer.fromQb64 X pfx = .ok verfer ∧ verfer.transferable = false

/-- The keys are the ones committed to, and there are some. -/
def Opens (keys nextKeys : List String) : Prop :=
  keys ≠ [] ∧ List.Forall₂ (KeyMatches X) keys nextKeys

/-- The keys and the commitments of the inception. -/
def BuildCall.keys (b : BuildCall) : List String :=
  match InceptionEvent.fromValue b.sad with
  | .ok icp => icp.keys
  | .error _ => []

def BuildCall.nextKeys (b : BuildCall) : List String :=
  match InceptionEvent.fromValue b.sad with
  | .ok icp => icp.nextKeys
  | .error _ => []

variable {X}

/-! ### Accepted rotations -/

namespace Threshold

theorem clauseTotal_nil (totalKeys : ℕ) (total : ℕ × ℕ) (clause : List Weight) (keyIdx : ℕ) :
    clauseTotal [] totalKeys keyIdx total clause = some total := by
  induction clause generalizing keyIdx with
  | nil => rfl
  | cons w ws ih =>
      rw [clauseTotal, if_neg (by simp)]
      exact ih (keyIdx + 1)

/-- Without signatures no threshold is satisfied. -/
theorem not_isSatisfied_nil (t : Threshold) (totalKeys : ℕ) :
    t.isSatisfied [] totalKeys = false := by
  cases t with
  | simple k =>
      simp only [isSatisfied, List.length_nil, Bool.and_eq_false_iff, decide_eq_false_iff_not]
      omega
  | weighted clauses =>
      cases clauses with
      | nil => rfl
      | cons clause clauses => simp [isSatisfied, clausesSatisfied, clauseTotal_nil]

end Threshold

/-- **The keys of an accepted rotation are the ones committed to, and there are some.** -/
theorem AcceptsRotation.opens {k : Kever} {raw : Bytes} {rot : RotationEvent} {sigs : List Siger}
    (h : AcceptsRotation X k raw rot sigs) : Opens X rot.keys k.state.nextKeys := by
  obtain ⟨⟨verfers, hverfers, hsigs⟩, t, happly⟩ := h.checked
  obtain ⟨-, -, -, hmatch, -⟩ := KeyState.applyRotation_eq_ok.1 happly
  refine ⟨?_, hmatch⟩
  intro hnil
  rw [hnil] at hverfers
  obtain rfl : verfers = [] := List.forall₂_nil_left_iff.1 (Kever.verfersFromKeys_eq_ok.1 hverfers)
  -- without keys no index carries a signature
  have hsat := (verifySigsStatic_eq_ok.1 hsigs).2
  have hnone : validIndices X raw sigs [] = [] := rfl
  rw [hnone, Threshold.not_isSatisfied_nil] at hsat
  cases hsat

/-- A plain update is an interaction, or its value is decoded to a rotation. -/
theorem nextState_decoded {k : Kever} {raw : Bytes} {sad : Value} {sigs : List Siger} {ilk : String}
    {t : KeyState} (h : k.nextState X raw sad sigs ilk = .ok t) :
    (ilk = "ixn" ∧ t.inForce = k.state.inForce) ∨
      (ilk = "rot" ∧ ∃ rot, RotationEvent.fromValue sad = .ok rot) := by
  rcases Kever.nextState_eq_ok.1 h with ⟨rfl, -, rot, _, hrot, -⟩ | ⟨rfl, _, _, -, -, -, happly⟩
  · exact Or.inr ⟨rfl, rot, hrot⟩
  · obtain ⟨-, -, -, rfl⟩ := KeyState.applyInteraction_eq_ok.1 happly
    exact Or.inl ⟨rfl, rfl⟩

/-- **What an accepted event is**: an interaction, which leaves in force what is, or a rotation. -/
theorem advance_accepts {k k' : Kever} {c : AdvanceCall} (h : c.advance X k = .ok k') :
    Advance.Interacts { before := k, call := c, after := k' } ∨
      ∃ raw rot sigs, AcceptsRotation X k raw rot sigs := by
  cases c with
  | update serder sigs =>
      obtain ⟨t, hverify, rfl⟩ := Kever.update_eq_ok.1 h
      obtain ⟨-, -, ilk, hilk, -, hnext⟩ := Kever.verifyUpdate_eq_ok.1 hverify
      rcases nextState_decoded hnext with ⟨rfl, hforce⟩ | ⟨rfl, rot, hrot⟩
      · exact Or.inl ⟨ilk_of_serder hilk, hforce⟩
      · exact Or.inr ⟨_, rot, sigs, .update hilk hrot h⟩
  | verifyUpdate serder sigs =>
      obtain ⟨t, hverify, hk⟩ := bind_eq_ok.1 h
      obtain rfl := pure_eq_ok.1 hk
      obtain ⟨-, -, ilk, hilk, -, hnext⟩ := Kever.verifyUpdate_eq_ok.1 hverify
      rcases nextState_decoded hnext with ⟨rfl, hforce⟩ | ⟨rfl, rot, hrot⟩
      · exact Or.inl ⟨ilk_of_serder hilk, hforce⟩
      · exact Or.inr ⟨_, rot, sigs, .verifyUpdate hilk hrot hverify⟩
  | verifyUpdateOwned raw sad sigs =>
      obtain ⟨t, hverify, hk⟩ := bind_eq_ok.1 h
      obtain rfl := pure_eq_ok.1 hk
      obtain ⟨-, -, ilk, _, hilk, -, -, hnext⟩ := Kever.verifyUpdateOwned_eq_ok.1 hverify
      rcases nextState_decoded hnext with ⟨rfl, hforce⟩ | ⟨rfl, rot, hrot⟩
      · refine Or.inl ⟨?_, hforce⟩
        simp [AdvanceCall.ilk, AdvanceCall.sad, hilk, Value.asStr]
      · exact Or.inr ⟨raw, rot, sigs, .verifyUpdateOwned hilk hrot hverify⟩
  | verifyUpdateDelegated serder sigs proof source =>
      obtain ⟨t, hverify, -⟩ := bind_eq_ok.1 h
      obtain ⟨-, -, -, -, drt, -, hdrt, -⟩ := Kever.verifyUpdateDelegated_eq_ok.1 hverify
      exact Or.inr ⟨_, _, sigs, .verifyUpdateDelegated hdrt hverify⟩

/-! ### Along a lineage -/

/-- A constructor installs the keys and the commitments of the inception. -/
theorem build_keys {b : BuildCall} {k : Kever} (h : b.build X = .ok k) :
    k.state.keys = b.keys ∧ k.state.nextKeys = b.nextKeys := by
  obtain ⟨icp, bt, delegator, hicp, -, hstate⟩ := build_decoded h
  simp [BuildCall.keys, BuildCall.nextKeys, hicp, hstate, KeyState.ofInception]

/-- As long as no rotation has been accepted, keys and commitments are those of the inception. -/
theorem Lineage.kept {b : BuildCall} {steps : List Advance} {k : Kever} (h : Lineage X b steps k)
    (hn : ∀ keys, ¬ Opens X keys b.nextKeys) :
    k.state.keys = b.keys ∧ k.state.nextKeys = b.nextKeys ∧ ∀ a ∈ steps, a.Interacts := by
  induction h with
  | built hbuild =>
      obtain ⟨hkeys, hnext⟩ := build_keys hbuild
      exact ⟨hkeys, hnext, fun a ha => absurd ha List.not_mem_nil⟩
  | @next steps k k' c _ hadvance ih =>
      obtain ⟨hkeys, hnext, hsteps⟩ := ih
      have hinteracts : Advance.Interacts { before := k, call := c, after := k' } := by
        rcases advance_accepts hadvance with hinteracts | ⟨raw, rot, sigs, haccepts⟩
        · exact hinteracts
        · have hopens := haccepts.opens
          rw [hnext] at hopens
          exact absurd hopens (hn _)
      have hforce : k'.state.inForce = k.state.inForce := hinteracts.2
      refine ⟨(congrArg Establishment.keys hforce).trans hkeys,
        (congrArg Establishment.nextKeys hforce).trans hnext, fun a ha => ?_⟩
      rcases List.mem_append.1 ha with ha | ha
      · exact hsteps a ha
      · rw [List.mem_singleton.1 ha]
        exact hinteracts

/-- **A verifier never accepts a rotation when no keys open the commitments of the inception**:
every event that it accepts is an interaction, and its keys stay those of the inception. -/
theorem never_rotates {b : BuildCall} {steps : List Advance} {k : Kever} (h : Lineage X b steps k)
    (hn : ∀ keys, ¬ Opens X keys b.nextKeys) :
    (∀ raw rot sigs, ¬ AcceptsRotation X k raw rot sigs) ∧ k.state.keys = b.keys ∧
      ∀ a ∈ steps, a.Interacts := by
  obtain ⟨hkeys, hnext, hsteps⟩ := h.kept hn
  refine ⟨fun raw rot sigs haccepts => ?_, hkeys, hsteps⟩
  have hopens := haccepts.opens
  rw [hnext] at hopens
  exact hn _ hopens

/-! ### Identifiers that are not transferable -/

/-- Nothing opens no commitments. -/
theorem not_opens_nil (keys : List String) : ¬ Opens X keys [] :=
  fun h => h.1 (List.forall₂_nil_right_iff.1 h.2)

/-- A key that may not be rotated, as an identifier. -/
def toyBasic : String := Toy.primitiveText "B" (Toy.seed 1)

/-- Its inception, with keys committed to. -/
def toyBasicIcp (next : List UInt8) : Serder :=
  Toy.serderOf Toy.checksumDigest (Toy.eventBytes (Fields.insert "i" (.string toyBasic)
    (Fields.insert "k" (Toy.strings [toyBasic]) (Toy.icpFields "1" "1" [1] next))))

/-- The inception, signed. -/
def toyBasicBuild (next : List UInt8) : BuildCall :=
  .new (toyBasicIcp next) [Toy.siger 1 0 (toyBasicIcp next).raw] [⟨⟨"B", Toy.seed 1⟩⟩]

/-- An interaction after the inception without commitments. -/
def toyBasicIxn : Serder :=
  Toy.serderOf Toy.checksumDigest
    (Toy.eventBytes (Toy.ixnFields toyBasic (Toy.saidOf (toyBasicIcp [])) "1"))

def toyBasicUpdate : AdvanceCall := .update toyBasicIxn [Toy.siger 1 0 toyBasicIxn.raw]

/-- The inception without commitments is accepted, an interaction after it too, and no rotation. -/
theorem never_rotates_toy : ∃ k k', Lineage Toy.lib (toyBasicBuild [])
      [{ before := k, call := toyBasicUpdate, after := k' }] k' ∧
    k'.state.pfx = toyBasic ∧ k'.state.sn = 1 ∧ k'.state.keys = (toyBasicBuild []).keys ∧
    ∀ raw rot sigs, ¬ AcceptsRotation Toy.lib k' raw rot sigs := by
  obtain ⟨k, hk, h⟩ := exists_ok_of_any (x := (toyBasicBuild []).build Toy.lib)
    (p := fun k => (toyBasicUpdate.advance Toy.lib k).toOption.any fun k' : Kever =>
      decide (k'.state.pfx = toyBasic ∧ k'.state.sn = 1)) (by decide +kernel)
  obtain ⟨k', hk', h⟩ := exists_ok_of_any h
  obtain ⟨hpfx, hsn⟩ := of_decide_eq_true h
  have hlineage : Lineage Toy.lib (toyBasicBuild [])
      [{ before := k, call := toyBasicUpdate, after := k' }] k' := (Lineage.built hk).next hk'
  have hnext : (toyBasicBuild []).nextKeys = [] := by decide +kernel
  obtain ⟨hnever, hkeys, -⟩ := never_rotates hlineage (by
    rw [hnext]
    exact not_opens_nil)
  exact ⟨k, k', hlineage, hpfx, hsn, hkeys, hnever⟩

/-- A rotation to key 2. -/
def toyBasicRot : Serder :=
  Toy.serderOf Toy.checksumDigest
    (Toy.eventBytes (Toy.rotFields toyBasic (Toy.saidOf (toyBasicIcp [2])) "1" "1" "1" [2] [3]))

/-- The verifier of an inception with key 2 committed to accepts it. -/
theorem exists_toyBasic : ∃ k k', Lineage Toy.lib (toyBasicBuild [2]) [] k ∧
    k.state.pfx = toyBasic ∧ toyBasicRot.ilk = .ok "rot" ∧
    k.update Toy.lib toyBasicRot [Toy.siger 2 0 toyBasicRot.raw] = .ok k' ∧
    k'.state.keys ≠ k.state.keys := by
  obtain ⟨k, hk, h⟩ := exists_ok_of_any
    (x := (toyBasicBuild [2]).build Toy.lib)
    (p := fun k => decide (k.state.pfx = toyBasic) && decide (toyBasicRot.ilk = .ok "rot") &&
      (k.update Toy.lib toyBasicRot [Toy.siger 2 0 toyBasicRot.raw]).toOption.any fun k' : Kever =>
        decide (k'.state.keys ≠ k.state.keys)) (by decide +kernel)
  simp only [Bool.and_eq_true, decide_eq_true_eq] at h
  obtain ⟨⟨hpfx, hilk⟩, h⟩ := h
  obtain ⟨k', hk', hkeys⟩ := exists_ok_of_any h
  exact ⟨k, k', .built hk, hpfx, hilk, hk', of_decide_eq_true hkeys⟩

theorem nonTransferable_toyBasic : NonTransferable Toy.lib toyBasic := by
  obtain ⟨verfer, hverfer, htrans⟩ := exists_ok_of_any (x := Verfer.fromQb64 Toy.lib toyBasic)
    (p := fun v => !v.transferable) (by decide +kernel)
  exact ⟨verfer, hverfer, by simpa using htrans⟩

/-- A verifier accepts a rotation of an identifier that is not transferable. -/
theorem rotates_anyway :
    ¬ ∀ (X : Externals) (b : BuildCall) (steps : List Advance) (k : Kever), Lineage X b steps k →
      NonTransferable X k.state.pfx → ∀ (serder : Serder) (sigs : List Siger) (k' : Kever),
      serder.ilk = .ok "rot" → k.update X serder sigs ≠ .ok k' := by
  intro hclaim
  obtain ⟨k, k', hk, hpfx, hilk, hupdate, -⟩ := exists_toyBasic
  exact hclaim _ _ _ _ hk (hpfx ▸ nonTransferable_toyBasic) _ _ _ hilk hupdate

end Keri
