/-
**What a rotation is authorised by.**

A rotation is accepted on four paths.  On each it has to be signed, by the keys it installs and
under the threshold it states itself, and those keys have to be the ones committed to by the
establishment event before it.  The threshold that event has set for them is not among the checks.

* `Keri.Reachable` — the verifiers that accepted events lead to;
* `Keri.AcceptsRotation` — a rotation is accepted, on any of the four paths;
* `Keri.AcceptsRotation.nextThreshold_irrelevant` — the next threshold decides nothing;
* `Keri.AcceptsRotation.authorised` — **an accepted rotation satisfies its own threshold over the
  committed keys**, and the next threshold only where its own is at least as demanding.
-/

import Keri.Kel

set_option relaxedAutoImplicit false
set_option autoImplicit false

namespace Keri

open Outcome

variable (X : Externals)

/-- The verifiers that accepted events lead to, from any constructor and on any path. -/
inductive Reachable : Kever → Prop where
  | new {serder : Serder} {sigs : List Siger} {verfers : List Verfer} {k : Kever} :
      Kever.new X serder sigs verfers = .ok k → Reachable k
  | newFromParts {raw : Bytes} {sad : Value} {sigs : List Siger} {verfers : List Verfer}
      {k : Kever} : Kever.newFromParts X raw sad sigs verfers = .ok k → Reachable k
  | newDelegated {serder : Serder} {sigs : List Siger} {verfers : List Verfer}
      {proof : DelegationProof} {source : DelegatorAnchors} {k : Kever} :
      Kever.newDelegated X serder sigs verfers proof source = .ok k → Reachable k
  | update {serder : Serder} {sigs : List Siger} {k k' : Kever} :
      Reachable k → k.update X serder sigs = .ok k' → Reachable k'
  | verifyUpdate {serder : Serder} {sigs : List Siger} {k : Kever} {t : KeyState} :
      Reachable k → k.verifyUpdate X serder sigs = .ok t → Reachable (k.applyVerifiedUpdate t)
  | verifyUpdateOwned {raw : Bytes} {sad : Value} {sigs : List Siger} {k : Kever}
      {t : KeyState} : Reachable k → k.verifyUpdateOwned X raw sad sigs = .ok t →
      Reachable (k.applyVerifiedUpdate t)
  | verifyUpdateDelegated {serder : Serder} {sigs : List Siger} {proof : DelegationProof}
      {source : DelegatorAnchors} {k : Kever} {t : KeyState} : Reachable k →
      k.verifyUpdateDelegated X serder sigs proof source = .ok t →
      Reachable (k.applyVerifiedUpdate t)

/-- A rotation with the given bytes, content and signatures is accepted in `k`. -/
inductive AcceptsRotation (k : Kever) : Bytes → RotationEvent → List Siger → Prop where
  | update {serder : Serder} {sigs : List Siger} {k' : Kever} {rot : RotationEvent} :
      serder.ilk = .ok "rot" → RotationEvent.fromValue serder.sad = .ok rot →
      k.update X serder sigs = .ok k' → AcceptsRotation k serder.raw rot sigs
  | verifyUpdate {serder : Serder} {sigs : List Siger} {t : KeyState} {rot : RotationEvent} :
      serder.ilk = .ok "rot" → RotationEvent.fromValue serder.sad = .ok rot →
      k.verifyUpdate X serder sigs = .ok t → AcceptsRotation k serder.raw rot sigs
  | verifyUpdateOwned {raw : Bytes} {sad : Value} {sigs : List Siger} {t : KeyState}
      {rot : RotationEvent} : sad.get "t" = some (.string "rot") →
      RotationEvent.fromValue sad = .ok rot → k.verifyUpdateOwned X raw sad sigs = .ok t →
      AcceptsRotation k raw rot sigs
  | verifyUpdateDelegated {serder : Serder} {sigs : List Siger} {proof : DelegationProof}
      {source : DelegatorAnchors} {t : KeyState} {drt : DelegatedRotationEvent} :
      DelegatedRotationEvent.fromValue serder.sad = .ok drt →
      k.verifyUpdateDelegated X serder sigs proof source = .ok t →
      AcceptsRotation k serder.raw drt.toRotationEvent sigs

variable {X}

/-- What every path checks of a rotation. -/
structure RotationChecked (k : Kever) (raw : Bytes) (rot : RotationEvent) (sigs : List Siger) :
    Prop where
  signed : ∃ verfers, Kever.verfersFromKeys X rot.keys = .ok verfers ∧
    verifySigsStatic X raw sigs verfers rot.keysThreshold = .ok ()
  applied : ∃ t, k.state.applyRotation X rot = .ok t

theorem RotationChecked.of_nextState {k : Kever} {raw : Bytes} {sad : Value} {sigs : List Siger}
    {t : KeyState} {rot : RotationEvent} (hrot : RotationEvent.fromValue sad = .ok rot)
    (h : k.nextState X raw sad sigs "rot" = .ok t) : RotationChecked (X := X) k raw rot sigs := by
  rcases Kever.nextState_eq_ok.1 h with
    ⟨-, -, rot', verfers, hrot', hverfers, hsigs, happly⟩ | ⟨hne, -⟩
  · rw [hrot] at hrot'
    obtain rfl := Except.ok.inj hrot'
    exact ⟨⟨verfers, hverfers, hsigs⟩, t, happly⟩
  · exact absurd hne (by decide)

/-- The four paths make the same checks of a rotation. -/
theorem AcceptsRotation.checked {k : Kever} {raw : Bytes} {rot : RotationEvent}
    {sigs : List Siger} (h : AcceptsRotation X k raw rot sigs) :
    RotationChecked (X := X) k raw rot sigs := by
  have hplain : ∀ {serder : Serder} {sigs : List Siger} {t : KeyState} {rot : RotationEvent},
      serder.ilk = .ok "rot" → RotationEvent.fromValue serder.sad = .ok rot →
      k.verifyUpdate X serder sigs = .ok t →
      RotationChecked (X := X) k serder.raw rot sigs := by
    intro serder sigs t rot hilk hrot hverify
    obtain ⟨-, -, ilk, hilk', -, hnext⟩ := Kever.verifyUpdate_eq_ok.1 hverify
    rw [hilk] at hilk'
    obtain rfl := Except.ok.inj hilk'
    exact RotationChecked.of_nextState hrot hnext
  cases h with
  | update hilk hrot hupdate =>
      obtain ⟨t, hverify, -⟩ := Kever.update_eq_ok.1 hupdate
      exact hplain hilk hrot hverify
  | verifyUpdate hilk hrot hverify => exact hplain hilk hrot hverify
  | verifyUpdateOwned hilk hrot hverify =>
      obtain ⟨-, -, ilk, _, hilk', -, -, hnext⟩ := Kever.verifyUpdateOwned_eq_ok.1 hverify
      rw [hilk, Option.some_inj, Value.string.injEq] at hilk'
      subst hilk'
      exact RotationChecked.of_nextState hrot hnext
  | verifyUpdateDelegated hdrt hverify =>
      obtain ⟨-, -, -, -, drt', verfers, hdrt', hverfers, hsigs, -, happly⟩ :=
        Kever.verifyUpdateDelegated_eq_ok.1 hverify
      rw [hdrt] at hdrt'
      obtain rfl := Except.ok.inj hdrt'
      obtain ⟨-, -, happly⟩ := KeyState.applyDelegatedRotation_eq_ok.1 happly
      exact ⟨⟨verfers, hverfers, hsigs⟩, _, happly⟩

/-! ### The next threshold -/

/-- The verifier with another next threshold. -/
def Kever.withNextThreshold (k : Kever) (t : Threshold) : Kever :=
  { k with state := { k.state with nextThreshold := t } }

theorem nextState_withNextThreshold (k : Kever) (t : Threshold) (raw : Bytes) (sad : Value)
    (sigs : List Siger) :
    (k.withNextThreshold t).nextState X raw sad sigs "rot" = k.nextState X raw sad sigs "rot" := by
  simp only [Kever.nextState, if_true]
  rfl

/-- **The next threshold decides nothing**: with any other in its place, the same rotations are
accepted. -/
theorem AcceptsRotation.nextThreshold_irrelevant {k : Kever} {raw : Bytes} {rot : RotationEvent}
    {sigs : List Siger} (h : AcceptsRotation X k raw rot sigs) (t : Threshold) :
    AcceptsRotation X (k.withNextThreshold t) raw rot sigs := by
  have hplain : ∀ {serder : Serder} {sigs : List Siger} {s : KeyState},
      serder.ilk = .ok "rot" → k.verifyUpdate X serder sigs = .ok s →
      (k.withNextThreshold t).verifyUpdate X serder sigs = .ok s := by
    intro serder sigs s hilk hverify
    obtain ⟨hinc, hsaid, ilk, hilk', hsn, hnext⟩ := Kever.verifyUpdate_eq_ok.1 hverify
    rw [hilk] at hilk'
    obtain rfl := Except.ok.inj hilk'
    rw [← nextState_withNextThreshold k t] at hnext
    exact Kever.verifyUpdate_eq_ok.2 ⟨hinc, hsaid, _, hilk, hsn, hnext⟩
  cases h with
  | update hilk hrot hupdate =>
      obtain ⟨s, hverify, -⟩ := Kever.update_eq_ok.1 hupdate
      exact .update hilk hrot (Kever.update_eq_ok.2 ⟨s, hplain hilk hverify, rfl⟩)
  | verifyUpdate hilk hrot hverify => exact .verifyUpdate hilk hrot (hplain hilk hverify)
  | verifyUpdateOwned hilk hrot hverify =>
      obtain ⟨hinc, hsaid, ilk, snStr, hilk', hs, hsn, hnext⟩ :=
        Kever.verifyUpdateOwned_eq_ok.1 hverify
      have hrotIlk := hilk'
      rw [hilk, Option.some_inj, Value.string.injEq] at hrotIlk
      subst hrotIlk
      rw [← nextState_withNextThreshold k t] at hnext
      exact .verifyUpdateOwned hilk hrot
        (Kever.verifyUpdateOwned_eq_ok.2 ⟨hinc, hsaid, _, snStr, hilk', hs, hsn, hnext⟩)
  | verifyUpdateDelegated hdrt hverify => exact .verifyUpdateDelegated hdrt hverify

/-! ### What authorises a rotation -/

/-- **What authorises an accepted rotation.**  The indices that carry a valid signature over its
bytes satisfy its own threshold over its own keys, and these are the keys committed to, one for one.
The next threshold decides nothing: the rotation is accepted with any other in its place.  It is met
when the rotation's own threshold is at least as demanding on the sets of indices that its keys
have. -/
theorem AcceptsRotation.authorised {k : Kever} {raw : Bytes} {rot : RotationEvent}
    {sigs : List Siger} (h : AcceptsRotation X k raw rot sigs) :
    (∃ verfers, Kever.verfersFromKeys X rot.keys = .ok verfers ∧
      rot.keysThreshold.isSatisfied (validIndices X raw sigs verfers) verfers.length = true ∧
      List.Forall₂ (KeyMatches X) rot.keys k.state.nextKeys ∧
      ((∀ indices : List ℕ, indices.Nodup → (∀ i ∈ indices, i < verfers.length) →
          rot.keysThreshold.isSatisfied indices verfers.length = true →
          k.state.nextThreshold.isSatisfied indices verfers.length = true) →
        k.state.nextThreshold.isSatisfied (validIndices X raw sigs verfers) verfers.length =
          true)) ∧
      ∀ t, AcceptsRotation X (k.withNextThreshold t) raw rot sigs := by
  refine ⟨?_, h.nextThreshold_irrelevant⟩
  obtain ⟨⟨verfers, hverfers, hsigs⟩, t, happly⟩ := h.checked
  obtain ⟨-, hsat⟩ := verifySigsStatic_eq_ok.1 hsigs
  obtain ⟨-, -, -, hcommit, -⟩ := KeyState.applyRotation_eq_ok.1 happly
  refine ⟨verfers, hverfers, hsat, hcommit, fun himp => himp _ (validIndices_nodup sigs) ?_ hsat⟩
  intro i hi
  exact List.mem_range.1 (List.mem_filter.1 hi).1

theorem authorised_toy : ∃ k rot verfers, Reachable Toy.lib k ∧
    AcceptsRotation Toy.lib k Toy.rot.raw rot [Toy.siger 2 0 Toy.rot.raw] ∧
    Kever.verfersFromKeys Toy.lib rot.keys = .ok verfers ∧
    rot.keysThreshold.isSatisfied
      (validIndices Toy.lib Toy.rot.raw [Toy.siger 2 0 Toy.rot.raw] verfers) verfers.length =
        true ∧
    AcceptsRotation Toy.lib (k.withNextThreshold (.simple 2)) Toy.rot.raw rot
      [Toy.siger 2 0 Toy.rot.raw] := by
  obtain ⟨k, hk, h⟩ := exists_ok_of_any
    (x := Kever.new Toy.lib Toy.icp [Toy.siger 1 0 Toy.icp.raw] [Toy.verfer 1])
    (p := fun k => (k.update Toy.lib Toy.ixn [Toy.siger 1 0 Toy.ixn.raw]).toOption.any fun k =>
      (k.update Toy.lib Toy.rot [Toy.siger 2 0 Toy.rot.raw]).toOption.any fun _ =>
        decide (Toy.rot.ilk = .ok "rot") &&
          (RotationEvent.fromValue Toy.rot.sad).toOption.isSome) (by decide +kernel)
  obtain ⟨k', hk', h⟩ := exists_ok_of_any h
  obtain ⟨k'', hk'', h⟩ := exists_ok_of_any h
  rw [Bool.and_eq_true, decide_eq_true_eq] at h
  obtain ⟨hilk, hrot⟩ := h
  cases hval : RotationEvent.fromValue Toy.rot.sad with
  | error e => simp [hval, Except.toOption] at hrot
  | ok rot =>
      have haccepts := AcceptsRotation.update hilk hval hk''
      obtain ⟨⟨verfers, hverfers, hsat, -, -⟩, hany⟩ := haccepts.authorised
      exact ⟨k', rot, verfers, (Reachable.new hk).update hk', haccepts, hverfers, hsat, hany _⟩

/-- An inception that commits to keys 2 and 3 with a threshold of 2. -/
def toyIcp : Serder :=
  Toy.serderOf Toy.checksumDigest (Toy.eventBytes (Toy.icpFields "1" "2" [1] [2, 3]))

/-- A rotation to those keys whose own threshold is 1. -/
def toyRot : Serder :=
  Toy.serderOf Toy.checksumDigest (Toy.eventBytes
    (Toy.rotFields (Toy.pfxOf toyIcp) (Toy.saidOf toyIcp) "1" "1" "1" [2, 3] [4]))

/-- The committed threshold is not enforced: a rotation that one of two keys has signed is accepted
where both were committed to. -/
theorem next_threshold_not_enforced :
    ¬ ∀ (X : Externals) (k : Kever) (raw : Bytes) (rot : RotationEvent) (sigs : List Siger)
      (verfers : List Verfer), Reachable X k → AcceptsRotation X k raw rot sigs →
      Kever.verfersFromKeys X rot.keys = .ok verfers →
      k.state.nextThreshold.isSatisfied (validIndices X raw sigs verfers) verfers.length =
        true := by
  intro hclaim
  obtain ⟨k, hk, h⟩ := exists_ok_of_any
    (x := Kever.new Toy.lib toyIcp [Toy.siger 1 0 toyIcp.raw] [Toy.verfer 1])
    (p := fun k => (k.update Toy.lib toyRot [Toy.siger 2 0 toyRot.raw]).toOption.any fun _ =>
      decide (toyRot.ilk = .ok "rot") &&
        (RotationEvent.fromValue toyRot.sad).toOption.any fun rot =>
          (Kever.verfersFromKeys Toy.lib rot.keys).toOption.any fun verfers =>
            !k.state.nextThreshold.isSatisfied
              (validIndices Toy.lib toyRot.raw [Toy.siger 2 0 toyRot.raw] verfers)
              verfers.length) (by decide +kernel)
  obtain ⟨k', hk', h⟩ := exists_ok_of_any h
  rw [Bool.and_eq_true, decide_eq_true_eq] at h
  obtain ⟨hilk, h⟩ := h
  obtain ⟨rot, hrot, h⟩ := exists_ok_of_any h
  obtain ⟨verfers, hverfers, h⟩ := exists_ok_of_any h
  rw [hclaim _ _ _ _ _ _ (Reachable.new hk) (.update hilk hrot hk') hverfers] at h
  cases h

end Keri
