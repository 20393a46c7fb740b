/-
**Delegated control.**

A verifier is built by one of three constructors and advanced in one of four ways.  Whether its
identifier is delegated, and by whom, is settled when it is built; from then on a delegated one
takes no plain rotation and one that is not takes no delegated rotation, and whatever changes the
keys of a delegated one has been sealed by its delegator.

* `Keri.BuildCall`, `Keri.AdvanceCall` — the constructors and the ways to advance;
* `Keri.Lineage` — a verifier with the accepted events that have led to it;
* `Keri.Seals`, `Keri.SealedAt` — an event seal, and a delegator's event that has one;
* `Keri.advance_cases` — **what an accepted event does**, on any of the ways;
* `Keri.AnchoredEvent` — a delegated event accepted by means of a seal;
* `Keri.delegated_control` — **delegated control is never lost**, and one seal is for one event.
-/

import Keri.SaidBinding

set_option relaxedAutoImplicit false
set_option autoImplicit false

namespace Keri

open Outcome

variable (X : Externals)

/-! ### Building and advancing -/

/-- A call of a constructor. -/
inductive BuildCall where
  | new (serder : Serder) (sigs : List Siger) (verfers : List Verfer)
  | newFromParts (raw : Bytes) (sad : Value) (sigs : List Siger) (verfers : List Verfer)
  | newDelegated (serder : Serder) (sigs : List Siger) (verfers : List Verfer)
      (proof : DelegationProof) (source : DelegatorAnchors)

namespace BuildCall

def build : BuildCall → Except CoreError Kever
  | .new serder sigs verfers => Kever.new X serder sigs verfers
  | .newFromParts raw sad sigs verfers => Kever.newFromParts X raw sad sigs verfers
  | .newDelegated serder sigs verfers proof source =>
      Kever.newDelegated X serder sigs verfers proof source

/-- Is it the constructor for delegated inceptions? -/
def isDelegated : BuildCall → Bool
  | .newDelegated .. => true
  | _ => false

end BuildCall

/-- A way to advance a verifier: `update`, or one of the three verifications with its state
applied. -/
inductive AdvanceCall where
  | update (serder : Serder) (sigs : List Siger)
  | verifyUpdate (serder : Serder) (sigs : List Siger)
  | verifyUpdateOwned (raw : Bytes) (sad : Value) (sigs : List Siger)
  | verifyUpdateDelegated (serder : Serder) (sigs : List Siger) (proof : DelegationProof)
      (source : DelegatorAnchors)

namespace AdvanceCall

def advance (k : Kever) : AdvanceCall → Except CoreError Kever
  | .update serder sigs => k.update X serder sigs
  | .verifyUpdate serder sigs => do
      let t ← k.verifyUpdate X serder sigs
      pure (k.applyVerifiedUpdate t)
  | .verifyUpdateOwned raw sad sigs => do
      let t ← k.verifyUpdateOwned X raw sad sigs
      pure (k.applyVerifiedUpdate t)
  | .verifyUpdateDelegated serder sigs proof source => do
      let t ← k.verifyUpdateDelegated X serder sigs proof source
      pure (k.applyVerifiedUpdate t)

/-- The value of the event. -/
def sad : AdvanceCall → Value
  | .update serder _ => serder.sad
  | .verifyUpdate serder _ => serder.sad
  | .verifyUpdateOwned _ sad _ => sad
  | .verifyUpdateDelegated serder _ _ _ => serder.sad

/-- The event type tag of the event. -/
def ilk (c : AdvanceCall) : Option String := (c.sad.get "t").bind Value.asStr

end AdvanceCall

/-- An accepted event, with the verifier before and after it. -/
structure Advance where
  before : Kever
  call : AdvanceCall
  after : Kever

/-- A verifier, with the accepted events that have led to it. -/
inductive Lineage (b : BuildCall) : List Advance → Kever → Prop where
  | built {k : Kever} : b.build X = .ok k → Lineage b [] k
  | next {steps : List Advance} {k k' : Kever} {c : AdvanceCall} : Lineage b steps k →
      c.advance X k = .ok k' → Lineage b (steps ++ [{ before := k, call := c, after := k' }]) k'

/-! ### Seals -/

/-- The anchor is an event seal for exactly this event. -/
def Seals (anchor : Value) (pfx : String) (sn : ℕ) (said : String) : Prop :=
  SealEvent.fromValue anchor = .ok { pfx, sn := hexLower sn, digest := said }

/-- The delegator's source has, at the claimed place, an event that seals this one. -/
def SealedAt (proof : DelegationProof) (source : DelegatorAnchors) (delegator pfx : String)
    (sn : ℕ) (said : String) : Prop :=
  ∃ anchors, source delegator proof.sn proof.said = .ok (some anchors) ∧
    ∃ anchor ∈ anchors, Seals anchor pfx sn said

/-- The verifier was built from a delegated inception that names the delegator and that the
delegator has sealed. -/
def BuildCall.SealedBy (delegator : String) : BuildCall → Prop
  | .newDelegated serder _ _ proof source =>
      serder.ilk = .ok "dip" ∧ ∃ dip, DelegatedInceptionEvent.fromValue serder.sad = .ok dip ∧
        dip.delegator = delegator ∧ SealedAt proof source delegator dip.pfx 0 dip.said
  | _ => False

/-- The event is a delegated rotation that names the delegator and that the delegator has sealed,
as the event with the identifier, number and SAID that the verifier has after it. -/
def Advance.SealedBy (delegator : String) (a : Advance) : Prop :=
  ∃ serder sigs proof source drt, a.call = .verifyUpdateDelegated serder sigs proof source ∧
    serder.ilk = .ok "drt" ∧ DelegatedRotationEvent.fromValue serder.sad = .ok drt ∧
    drt.delegator = delegator ∧ drt.pfx = a.after.state.pfx ∧ drt.said = a.after.state.said ∧
    SealedAt proof source delegator drt.pfx a.after.state.sn drt.said

/-- The event is an interaction, and what is in force stays in force. -/
def Advance.Interacts (a : Advance) : Prop :=
  a.call.ilk = some "ixn" ∧ a.after.state.inForce = a.before.state.inForce

variable {X}

theorem hexLower_injective {n m : ℕ} (h : hexLower n = hexLower m) : n = m := by
  have hn := fromStrRadix_hexLower (Nat.lt_succ_of_le (Nat.le_max_left n m))
  have hm := fromStrRadix_hexLower (Nat.lt_succ_of_le (Nat.le_max_right n m))
  rw [h, hm, Option.some_inj] at hn
  exact hn.symm

/-- **One seal is for one identifier, number and SAID.** -/
theorem Seals.inj {anchor : Value} {pfx pfx' said said' : String} {sn sn' : ℕ}
    (h : Seals anchor pfx sn said) (h' : Seals anchor pfx' sn' said') :
    pfx = pfx' ∧ sn = sn' ∧ said = said' := by
  unfold Seals at h h'
  obtain ⟨hpfx, hsn, hsaid⟩ := SealEvent.mk.inj (Except.ok.inj (h.symm.trans h'))
  exact ⟨hpfx, hexLower_injective hsn, hsaid⟩

/-! ### What an accepted event does -/

/-- A plain update leaves the delegation alone, and is an interaction or, of an identifier that is
not delegated, a rotation. -/
theorem nextState_cases {k : Kever} {raw : Bytes} {sad : Value} {sigs : List Siger}
    {ilk : String} {t : KeyState} (h : k.nextState X raw sad sigs ilk = .ok t) :
    (t.delegated = k.state.delegated ∧ t.delegator = k.state.delegator) ∧
      ((ilk = "ixn" ∧ t.inForce = k.state.inForce) ∨
        (ilk = "rot" ∧ k.state.delegated = false)) := by
  rcases Kever.nextState_eq_ok.1 h with
    ⟨rfl, hdel, rot, verfers, -, -, -, happly⟩ | ⟨rfl, ixn, verfers, -, -, -, happly⟩
  · obtain ⟨-, -, -, -, bt, -, -, rfl⟩ := KeyState.applyRotation_eq_ok.1 happly
    exact ⟨⟨rfl, rfl⟩, Or.inr ⟨rfl, hdel⟩⟩
  · obtain ⟨-, -, -, rfl⟩ := KeyState.applyInteraction_eq_ok.1 happly
    exact ⟨⟨rfl, rfl⟩, Or.inl ⟨rfl, rfl⟩⟩

theorem ilk_of_serder {serder : Serder} {ilk : String} (h : serder.ilk = .ok ilk) :
    (serder.sad.get "t").bind Value.asStr = some ilk := by
  rw [Serder.textField_eq_ok.1 h]
  rfl

/-- The ways to advance come down to two: a plain update and a delegated rotation. -/
theorem advance_inv {k k' : Kever} {c : AdvanceCall} (h : c.advance X k = .ok k') :
    ∃ t, k' = k.applyVerifiedUpdate t ∧
      ((∃ raw sigs ilk, c.ilk = some ilk ∧ k.nextState X raw c.sad sigs ilk = .ok t) ∨
        ∃ serder sigs proof source, c = .verifyUpdateDelegated serder sigs proof source ∧
          k.verifyUpdateDelegated X serder sigs proof source = .ok t) := by
  cases c with
  | update serder sigs =>
      obtain ⟨t, hverify, rfl⟩ := Kever.update_eq_ok.1 h
      obtain ⟨-, -, ilk, hilk, -, hnext⟩ := Kever.verifyUpdate_eq_ok.1 hverify
      exact ⟨t, rfl, Or.inl ⟨_, _, ilk, ilk_of_serder hilk, hnext⟩⟩
  | verifyUpdate serder sigs =>
      obtain ⟨t, hverify, hk⟩ := bind_eq_ok.1 h
      obtain ⟨-, -, ilk, hilk, -, hnext⟩ := Kever.verifyUpdate_eq_ok.1 hverify
      exact ⟨t, (pure_eq_ok.1 hk).symm, Or.inl ⟨_, _, ilk, ilk_of_serder hilk, hnext⟩⟩
  | verifyUpdateOwned raw sad sigs =>
      obtain ⟨t, hverify, hk⟩ := bind_eq_ok.1 h
      obtain ⟨-, -, ilk, _, hilk, -, -, hnext⟩ := Kever.verifyUpdateOwned_eq_ok.1 hverify
      have hilk' : AdvanceCall.ilk (.verifyUpdateOwned raw sad sigs) = some ilk := by
        simp [AdvanceCall.ilk, AdvanceCall.sad, hilk, Value.asStr]
      exact ⟨t, (pure_eq_ok.1 hk).symm, Or.inl ⟨raw, sigs, ilk, hilk', hnext⟩⟩
  | verifyUpdateDelegated serder sigs proof source =>
      obtain ⟨t, hverify, hk⟩ := bind_eq_ok.1 h
      exact ⟨t, (pure_eq_ok.1 hk).symm, Or.inr ⟨serder, sigs, proof, source, rfl, hverify⟩⟩

/-- **What an accepted event does**, whichever way it comes: the delegation stays as it was, and the
event is an interaction, a rotation of an identifier that is not delegated, or a delegated rotation
that its delegator has sealed. -/
theorem advance_cases {k k' : Kever} {c : AdvanceCall} (h : c.advance X k = .ok k') :
    (k'.state.delegated = k.state.delegated ∧ k'.state.delegator = k.state.delegator) ∧
      (Advance.Interacts { before := k, call := c, after := k' } ∨
        (c.ilk = some "rot" ∧ k.state.delegated = false) ∨
        (c.ilk = some "drt" ∧ k.state.delegated = true ∧
          ∃ d, k.state.delegator = some d ∧
            Advance.SealedBy d { before := k, call := c, after := k' })) := by
  obtain ⟨t, rfl, ⟨raw, sigs, ilk, hilk, hnext⟩ | ⟨serder, sigs, proof, source, rfl, hverify⟩⟩ :=
    advance_inv h
  · obtain ⟨hsame, hcase⟩ := nextState_cases hnext
    refine ⟨hsame, hcase.imp ?_ ?_⟩
    · rintro ⟨rfl, hforce⟩
      exact ⟨hilk, hforce⟩
    · rintro ⟨rfl, hdel⟩
      exact Or.inl ⟨hilk, hdel⟩
  · obtain ⟨-, -, hilk, hsn, drt, verfers, hdrt, -, -, hdel, happly⟩ :=
      Kever.verifyUpdateDelegated_eq_ok.1 hverify
    obtain ⟨hdelegated, hdelegator, hrot⟩ := KeyState.applyDelegatedRotation_eq_ok.1 happly
    obtain ⟨-, hpfx, -, -, bt, -, -, rfl⟩ := KeyState.applyRotation_eq_ok.1 hrot
    obtain ⟨-, -, anchors, hsource, anchor, hanchor, hseal⟩ := verifyDelegation_eq_ok.1 hdel
    refine ⟨⟨rfl, rfl⟩, Or.inr (Or.inr ⟨ilk_of_serder hilk, hdelegated, drt.delegator,
      hdelegator, ?_⟩)⟩
    exact ⟨serder, sigs, proof, source, drt, rfl, hilk, hdrt, rfl, hpfx, rfl, anchors, hsource,
      anchor, hanchor, hseal⟩

/-- What a constructor settles. -/
theorem build_cases {b : BuildCall} {k : Kever} (h : b.build X = .ok k) :
    (b.isDelegated = false ∧ k.state.delegated = false ∧ k.state.delegator = none) ∨
      (b.isDelegated = true ∧ k.state.delegated = true ∧
        ∃ d, k.state.delegator = some d ∧ b.SealedBy d) := by
  cases b with
  | new serder sigs verfers =>
      obtain ⟨-, -, hincept⟩ := Kever.new_eq_ok.1 h
      obtain ⟨icp, -, -, -, -, hstate, -⟩ := Kever.incept_eq_ok.1 hincept
      obtain ⟨-, bt, -, -, hstate⟩ := KeyState.fromInception_eq_ok.1 hstate
      rw [hstate]
      exact Or.inl ⟨rfl, rfl, rfl⟩
  | newFromParts raw sad sigs verfers =>
      obtain ⟨-, -, hincept⟩ := Kever.newFromParts_eq_ok.1 h
      obtain ⟨icp, -, -, -, -, hstate, -⟩ := Kever.incept_eq_ok.1 hincept
      obtain ⟨-, bt, -, -, hstate⟩ := KeyState.fromInception_eq_ok.1 hstate
      rw [hstate]
      exact Or.inl ⟨rfl, rfl, rfl⟩
  | newDelegated serder sigs verfers proof source =>
      obtain ⟨hilk, -, dip, hdip, -, -, -, hdel, hstate, -⟩ := Kever.newDelegated_eq_ok.1 h
      obtain ⟨-, -, bt, -, -, hstate⟩ := KeyState.fromDelegatedInception_eq_ok.1 hstate
      obtain ⟨-, -, anchors, hsource, anchor, hanchor, hseal⟩ := verifyDelegation_eq_ok.1 hdel
      rw [hstate]
      exact Or.inr ⟨rfl, rfl, dip.delegator, rfl, hilk, dip, hdip, rfl, anchors, hsource, anchor,
        hanchor, hseal⟩

/-! ### Delegated events and their seals -/

variable (X) in
/-- A delegated event that a verifier has accepted because this anchor is among the delegator's. -/
inductive AnchoredEvent (anchor : Value) : Serder → Prop where
  | inception {serder : Serder} {sigs : List Siger} {verfers : List Verfer}
      {proof : DelegationProof} {source : DelegatorAnchors} {k : Kever}
      {dip : DelegatedInceptionEvent} {anchors : List Value} :
      Kever.newDelegated X serder sigs verfers proof source = .ok k →
      DelegatedInceptionEvent.fromValue serder.sad = .ok dip →
      source dip.delegator proof.sn proof.said = .ok (some anchors) → anchor ∈ anchors →
      Seals anchor dip.pfx 0 dip.said → AnchoredEvent anchor serder
  | rotation {b : BuildCall} {steps : List Advance} {k : Kever} {serder : Serder}
      {sigs : List Siger} {proof : DelegationProof} {source : DelegatorAnchors} {t : KeyState}
      {drt : DelegatedRotationEvent} {anchors : List Value} : Lineage X b steps k →
      k.verifyUpdateDelegated X serder sigs proof source = .ok t →
      DelegatedRotationEvent.fromValue serder.sad = .ok drt →
      source drt.delegator proof.sn proof.said = .ok (some anchors) → anchor ∈ anchors →
      Seals anchor drt.pfx t.sn drt.said → AnchoredEvent anchor serder

/-- Reachability goes along with an accepted event. -/
theorem Reachable.advance {k k' : Kever} {c : AdvanceCall} (h : Reachable X k)
    (hc : c.advance X k = .ok k') : Reachable X k' := by
  cases c with
  | update serder sigs => exact h.update hc
  | verifyUpdate serder sigs =>
      obtain ⟨t, hverify, hk⟩ := bind_eq_ok.1 hc
      exact pure_eq_ok.1 hk ▸ h.verifyUpdate hverify
  | verifyUpdateOwned raw sad sigs =>
      obtain ⟨t, hverify, hk⟩ := bind_eq_ok.1 hc
      exact pure_eq_ok.1 hk ▸ h.verifyUpdateOwned hverify
  | verifyUpdateDelegated serder sigs proof source =>
      obtain ⟨t, hverify, hk⟩ := bind_eq_ok.1 hc
      exact pure_eq_ok.1 hk ▸ h.verifyUpdateDelegated hverify

/-- What a lineage leads to is reachable. -/
theorem Lineage.reachable {b : BuildCall} {steps : List Advance} {k : Kever}
    (h : Lineage X b steps k) : Reachable X k := by
  induction h with
  | built hbuild =>
      cases b with
      | new serder sigs verfers => exact .new hbuild
      | newFromParts raw sad sigs verfers => exact .newFromParts hbuild
      | newDelegated serder sigs verfers proof source => exact .newDelegated hbuild
  | next _ hadvance ih => exact ih.advance hadvance

/-- The seal of an accepted delegated event is for the event's own identifier, number and SAID. -/
theorem AnchoredEvent.seals {anchor : Value} {s : Serder} (h : AnchoredEvent X anchor s) :
    ∃ pfx sn said, Seals anchor pfx sn said ∧ s.pfx = .ok pfx ∧ s.sn = .ok sn ∧
      s.said = .ok said ∧ s.verifySaid X "E" = .ok () ∧ (SaidLaws X → IsPrimitive X pfx) := by
  cases h with
  | inception hnew hdip _ _ hseal =>
      obtain ⟨-, hsaid, dip', hdip', -, -, hpfx, -, hstate, -⟩ := Kever.newDelegated_eq_ok.1 hnew
      obtain rfl := Except.ok.inj (hdip.symm.trans hdip')
      obtain ⟨hd, hi, hs⟩ :=
        InceptionEvent.fields (DelegatedInceptionEvent.fromValue_eq_ok.1 hdip).1
      obtain ⟨hsn, -⟩ := KeyState.fromDelegatedInception_eq_ok.1 hstate
      refine ⟨_, _, _, hseal, Serder.textField_eq_ok.2 hi, Serder.sn_eq_ok.2 ⟨_, hs, hsn⟩,
        Serder.textField_eq_ok.2 hd, hsaid, fun hX => ?_⟩
      exact hpfx ▸ isPrimitive_of_verifySaid hX hsaid hd
  | @rotation b steps k serder sigs proof source t drt anchors hk hverify hdrt _ _ hseal =>
      obtain ⟨-, hsaid, -, hsn, drt', -, hdrt', -, -, -, happly⟩ :=
        Kever.verifyUpdateDelegated_eq_ok.1 hverify
      obtain rfl := Except.ok.inj (hdrt.symm.trans hdrt')
      obtain ⟨-, -, hrot⟩ := KeyState.applyDelegatedRotation_eq_ok.1 happly
      obtain ⟨-, hpfx, -, -, bt, -, -, ht⟩ := KeyState.applyRotation_eq_ok.1 hrot
      obtain ⟨hd, hi, -⟩ := RotationEvent.fields (DelegatedRotationEvent.fromValue_eq_ok.1 hdrt).1
      have htsn : t.sn = u64Succ k.state.sn := by rw [ht]; rfl
      refine ⟨_, _, _, hseal, Serder.textField_eq_ok.2 hi, htsn ▸ hsn,
        Serder.textField_eq_ok.2 hd, hsaid, fun hX => ?_⟩
      exact hpfx ▸ hk.reachable.isPrimitive hX

/-- **One seal, one event**: of the same identifier, number and SAID, and so of the same value. -/
theorem AnchoredEvent.unique {anchor : Value} {s₁ s₂ : Serder} (h₁ : AnchoredEvent X anchor s₁)
    (h₂ : AnchoredEvent X anchor s₂) :
    (s₁.pfx = s₂.pfx ∧ s₁.sn = s₂.sn ∧ s₁.said = s₂.said) ∧
      (SaidLaws X → s₁.kind = s₂.kind ∧ s₁.sad = s₂.sad) := by
  obtain ⟨pfx, sn, said, hseal₁, hpfx₁, hsn₁, hd₁, hsaid₁, hprim₁⟩ := h₁.seals
  obtain ⟨pfx', sn', said', hseal₂, hpfx₂, hsn₂, hd₂, hsaid₂, hprim₂⟩ := h₂.seals
  obtain ⟨rfl, rfl, rfl⟩ := hseal₁.inj hseal₂
  refine ⟨⟨hpfx₁.trans hpfx₂.symm, hsn₁.trans hsn₂.symm, hd₁.trans hd₂.symm⟩, fun hX => ?_⟩
  exact sad_eq_of_said_eq hX hsaid₁ hsaid₂ (Serder.textField_eq_ok.1 hd₁)
    (Serder.textField_eq_ok.1 hd₂) (Serder.textField_eq_ok.1 hpfx₁)
    (Serder.textField_eq_ok.1 hpfx₂) (hprim₁ hX) (hprim₂ hX)

/-! ### Control along a lineage -/

/-- The delegation is what the constructor made it, at every point of a lineage. -/
theorem Lineage.delegation_kept {b : BuildCall} {steps : List Advance} {k : Kever}
    (h : Lineage X b steps k) : ∃ k₀, b.build X = .ok k₀ ∧
      ∀ k' ∈ k :: steps.map Advance.after, k'.state.delegated = k₀.state.delegated ∧
        k'.state.delegator = k₀.state.delegator := by
  induction h with
  | @built k hbuild =>
      refine ⟨k, hbuild, fun k' hk' => ?_⟩
      obtain rfl := List.mem_singleton.1 hk'
      exact ⟨rfl, rfl⟩
  | @next steps k k' c _ hadvance ih =>
      obtain ⟨k₀, hbuild, hkept⟩ := ih
      obtain ⟨⟨hdel, hdelegator⟩, -⟩ := advance_cases hadvance
      obtain ⟨hk, hk'⟩ := hkept k List.mem_cons_self
      have hnew : k'.state.delegated = k₀.state.delegated ∧
          k'.state.delegator = k₀.state.delegator := ⟨hdel.trans hk, hdelegator.trans hk'⟩
      refine ⟨k₀, hbuild, fun j hj => ?_⟩
      simp only [List.map_append, List.map_cons, List.map_nil, List.mem_cons, List.mem_append,
        List.not_mem_nil, or_false] at hj
      rcases hj with rfl | hj | rfl
      · exact hnew
      · exact hkept j (List.mem_cons_of_mem k hj)
      · exact hnew

/-- The steps of a delegated lineage are interactions and rotations sealed by the delegator. -/
theorem Lineage.steps_sealed {b : BuildCall} {steps : List Advance} {k : Kever} {d : String}
    (h : Lineage X b steps k) (hdel : k.state.delegated = true)
    (hd : k.state.delegator = some d) : ∀ a ∈ steps, a.call.ilk ≠ some "rot" ∧
      (a.Interacts ∨ (a.call.ilk = some "drt" ∧ a.SealedBy d)) := by
  induction h with
  | built _ => exact fun a ha => absurd ha List.not_mem_nil
  | @next steps k k' c _ hadvance ih =>
      obtain ⟨⟨hsame, hsame'⟩, hcase⟩ := advance_cases hadvance
      rw [hsame] at hdel
      rw [hsame'] at hd
      intro a ha
      rcases List.mem_append.1 ha with ha | ha
      · exact ih hdel hd a ha
      · obtain rfl := List.mem_singleton.1 ha
        rcases hcase with hixn | ⟨-, hplain⟩ | ⟨hilk, -, d', hd', hsealed⟩
        · refine ⟨?_, Or.inl hixn⟩
          rw [hixn.1]
          simp
        · -- a plain rotation is only for an identifier that is not delegated
          rw [hdel] at hplain
          cases hplain
        · rw [hd, Option.some_inj] at hd'
          subst hd'
          refine ⟨?_, Or.inr ⟨hilk, hsealed⟩⟩
          rw [hilk]
          simp

/-- No step of a lineage that is not delegated is a delegated rotation. -/
theorem Lineage.steps_plain {b : BuildCall} {steps : List Advance} {k : Kever}
    (h : Lineage X b steps k) (hdel : k.state.delegated = false) :
    ∀ a ∈ steps, a.call.ilk ≠ some "drt" := by
  induction h with
  | built _ => exact fun a ha => absurd ha List.not_mem_nil
  | @next steps k k' c _ hadvance ih =>
      obtain ⟨⟨hsame, -⟩, hcase⟩ := advance_cases hadvance
      rw [hsame] at hdel
      intro a ha
      rcases List.mem_append.1 ha with ha | ha
      · exact ih hdel a ha
      · obtain rfl := List.mem_singleton.1 ha
        rcases hcase with ⟨hilk, -⟩ | ⟨hilk, -⟩ | ⟨-, hdelegated, -⟩
        · rw [hilk]
          simp
        · rw [hilk]
          simp
        · rw [hdel] at hdelegated
          cases hdelegated

/-- **Delegated control is never lost.**  A verifier is delegated exactly when the constructor for
delegated inceptions built it, and keeps its delegator.  A delegated one was incepted under its
delegator's seal, and each event since is an interaction, which leaves the keys, or a delegated
rotation under the delegator's seal; one that is not delegated has taken no delegated rotation.  And
no seal is for two events. -/
theorem delegated_control {b : BuildCall} {steps : List Advance} {k : Kever}
    (h : Lineage X b steps k) :
    (k.state.delegated = true ↔ b.isDelegated = true) ∧
      (∃ k₀, b.build X = .ok k₀ ∧ ∀ k' ∈ k :: steps.map Advance.after,
        k'.state.delegated = k₀.state.delegated ∧ k'.state.delegator = k₀.state.delegator) ∧
      (k.state.delegated = true → ∃ d, k.state.delegator = some d ∧ b.SealedBy d ∧
        ∀ a ∈ steps, a.call.ilk ≠ some "rot" ∧
          (a.Interacts ∨ (a.call.ilk = some "drt" ∧ a.SealedBy d))) ∧
      (k.state.delegated = false → ∀ a ∈ steps, a.call.ilk ≠ some "drt") ∧
      ∀ anchor s₁ s₂, AnchoredEvent X anchor s₁ → AnchoredEvent X anchor s₂ →
        (s₁.pfx = s₂.pfx ∧ s₁.sn = s₂.sn ∧ s₁.said = s₂.said) ∧
          (SaidLaws X → s₁.kind = s₂.kind ∧ s₁.sad = s₂.sad) := by
  obtain ⟨k₀, hbuild, hkept⟩ := h.delegation_kept
  obtain ⟨hdel, hdelegator⟩ := hkept k List.mem_cons_self
  refine ⟨?_, ⟨k₀, hbuild, hkept⟩, fun hk => ?_, h.steps_plain,
    fun anchor s₁ s₂ h₁ h₂ => h₁.unique h₂⟩
  · rcases build_cases hbuild with ⟨hb, hk₀, -⟩ | ⟨hb, hk₀, -⟩
    · rw [hdel, hk₀, hb]
    · rw [hdel, hk₀, hb]
  · rcases build_cases hbuild with ⟨-, hk₀, -⟩ | ⟨-, -, d, hd, hsealed⟩
    · rw [hdel, hk₀] at hk
      cases hk
    · have hd' : k.state.delegator = some d := hdelegator.trans hd
      exact ⟨d, hd', hsealed, h.steps_sealed hk hd'⟩

/-! ### A delegated identifier -/

/-- A delegated inception of key 1, under key 9. -/
def toyDip : Serder :=
  Toy.serderOf Toy.checksumDigest (Toy.eventBytes
    (Fields.insert "t" (.string "dip")
      (Fields.insert "di" (.string (Toy.keyText 9)) (Toy.icpFields "1" "1" [1] [2]))))

/-- Its rotation to key 2. -/
def toyDrt : Serder :=
  Toy.serderOf Toy.checksumDigest (Toy.eventBytes
    (Fields.insert "t" (.string "drt") (Fields.insert "di" (.string (Toy.keyText 9))
      (Toy.rotFields (Toy.pfxOf toyDip) (Toy.saidOf toyDip) "1" "1" "1" [2] [3]))))

/-- An event seal. -/
def toySeal (s : Serder) (sn : String) : Value :=
  .object [("i", .string (Toy.pfxOf s)), ("s", .string sn), ("d", .string (Toy.saidOf s))]

/-- The delegator's anchors, at any event. -/
def toyAnchors : DelegatorAnchors := fun _ _ _ => .ok (some [toySeal toyDip "0", toySeal toyDrt "1"])

def toyBuild : BuildCall :=
  .newDelegated toyDip [Toy.siger 1 0 toyDip.raw] [Toy.verfer 1] ⟨3, ""⟩ toyAnchors

def toyAdvance : AdvanceCall :=
  .verifyUpdateDelegated toyDrt [Toy.siger 2 0 toyDrt.raw] ⟨3, ""⟩ toyAnchors

/-- A delegated identifier has its delegator after a rotation that the delegator has sealed. -/
theorem delegated_control_toy : ∃ k k', Lineage Toy.lib toyBuild
      [{ before := k, call := toyAdvance, after := k' }] k' ∧ k'.state.delegated = true ∧
      ∃ d, k'.state.delegator = some d ∧ toyBuild.SealedBy d := by
  obtain ⟨k, hk, h⟩ := exists_ok_of_any (x := toyBuild.build Toy.lib)
    (p := fun k => (toyAdvance.advance Toy.lib k).toOption.any fun _ => true) (by decide +kernel)
  obtain ⟨k', hk', -⟩ := exists_ok_of_any h
  have hlineage : Lineage Toy.lib toyBuild [{ before := k, call := toyAdvance, after := k' }] k' :=
    (Lineage.built hk).next hk'
  obtain ⟨hiff, -, hsealed, -⟩ := delegated_control hlineage
  obtain ⟨d, hd, hb, -⟩ := hsealed (hiff.2 rfl)
  exact ⟨k, k', hlineage, hiff.2 rfl, d, hd, hb⟩

end Keri
