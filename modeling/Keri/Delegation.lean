/-
**Delegation.**

A delegated event names a delegator, and is authorised when an event of the delegator's own log
anchors a seal for it.  Which event that is comes with the delegated event; the lookup is supplied
by the caller.

* `Keri.DelegationProof.fromSealSourceCouple` — where the anchoring event is claimed to be;
* `Keri.verifyDelegation` — the check, and `Keri.verifyDelegation_eq_ok` what it amounts to.
-/

import Keri.KeyState

set_option relaxedAutoImplicit false
set_option autoImplicit false

namespace Keri

open Outcome

variable (X : Externals)

/-- Which event of the delegator's log is claimed to authorise a delegated event. -/
structure DelegationProof where
  sn : ℕ
  said : String
  deriving DecidableEq, Repr

/-- `u64::from_be_bytes`, on at most eight bytes. -/
def fromBeBytes (bs : Bytes) : ℕ := bs.foldl (fun acc b => acc * 256 + b.toNat) 0

namespace DelegationProof

/-- Read a proof from a seal source couple.  The sequence number is big-endian, and nothing may be
set above its low eight bytes. -/
def fromSealSourceCouple (snQb64 saidQb64 : String) : Except CoreError DelegationProof := do
  let matter ← (X.cesr.matterFromQb64 snQb64).mapError fun e =>
    .parseError s!"invalid seal source sequence number: {e.text}"
  let high := matter.raw.take (matter.raw.length - 8)
  let low := matter.raw.drop (matter.raw.length - 8)
  ensure (high.all (· == 0)) (.parseError "seal source sequence number exceeds u64")
  let _ ← (X.cesr.matterFromQb64 saidQb64).mapError fun e =>
    .parseError s!"invalid seal source SAID: {e.text}"
  pure { sn := fromBeBytes low, said := saidQb64 }

end DelegationProof

/-- The lookup of a delegator's anchors: its event at a sequence number with a SAID, if that event
is part of a verified log. -/
abbrev DelegatorAnchors := String → ℕ → String → Except CoreError (Option (List Value))

/-- Does an anchor seal this event?  Anything that is not an event seal does not. -/
def sealsEvent (delegatee : String) (sn : ℕ) (said : String) (anchor : Value) : Bool :=
  match SealEvent.fromValue anchor with
  | .ok s => decide (s.pfx = delegatee ∧ s.digest = said ∧ s.sn = hexLower sn)
  | .error _ => false

/-- Verify that the delegator authorised the event. -/
def verifyDelegation (delegatee : String) (sn : ℕ) (said delegator : String)
    (proof : DelegationProof) (source : DelegatorAnchors) : Except CoreError Unit := do
  ensure (delegator ≠ "") (.validation "delegated event names no delegator (empty `di`)")
  ensure (delegator ≠ delegatee)
    (.validation "delegated event names itself as its own delegator")
  let anchors ← okOr (← source delegator proof.sn proof.said) (.validation
    (s!"delegator '{delegator}' has no verified event at sn {proof.sn} with SAID " ++
      s!"'{proof.said}' to anchor the delegation of '{delegatee}'"))
  ensure (anchors.any (sealsEvent delegatee sn said)) (.validation
    (s!"delegator '{delegator}' event at sn {proof.sn} anchors no seal for '{delegatee}' " ++
      s!"at sn {sn} with SAID '{said}'"))

/-- **A delegation is verified exactly when the event at the claimed place seals the delegated
event**, by identifier, sequence number and SAID. -/
theorem verifyDelegation_eq_ok {delegatee said delegator : String} {sn : ℕ}
    {proof : DelegationProof} {source : DelegatorAnchors} {u : Unit} :
    verifyDelegation delegatee sn said delegator proof source = .ok u ↔
      delegator ≠ "" ∧ delegator ≠ delegatee ∧
        ∃ anchors, source delegator proof.sn proof.said = .ok (some anchors) ∧
          ∃ anchor ∈ anchors, SealEvent.fromValue anchor =
            .ok { pfx := delegatee, sn := hexLower sn, digest := said } := by
  have hseal : ∀ anchor, sealsEvent delegatee sn said anchor = true ↔
      SealEvent.fromValue anchor = .ok { pfx := delegatee, sn := hexLower sn, digest := said } := by
    intro anchor
    unfold sealsEvent
    cases h : SealEvent.fromValue anchor with
    | error e => simp
    | ok s =>
        obtain ⟨pfx, sn', digest⟩ := s
        simp only [decide_eq_true_eq, Except.ok.injEq, SealEvent.mk.injEq]
        tauto
  simp only [verifyDelegation, bind_eq_ok, ensure_eq_ok, okOr_eq_ok, List.any_eq_true, hseal]
  constructor
  · rintro ⟨-, hne, -, hself, found, hfound, anchors, rfl, hany⟩
    exact ⟨hne, hself, anchors, hfound, hany⟩
  · rintro ⟨hne, hself, anchors, hfound, hany⟩
    exact ⟨⟨⟩, hne, ⟨⟩, hself, _, hfound, anchors, rfl, hany⟩

end Keri
