/-
**Identifiers that commit to no next keys.**

A rotation installs keys one for one with the digests committed to, and its signatures are checked
against the keys it installs.  Where no digests are committed to, a rotation has no keys, and no
threshold is satisfied by none: such an identifier goes on with interactions only.

* `Keri.Kever.attempts` — any run of events through the four acceptance paths, accepted or not;
* `Keri.KeepsAll` — two states that differ in the number and the digest of the latest event only;
* `Keri.Kever.advance_frozen` — what is accepted without commitments is an interaction;
* `Keri.frozen` — **without commitments nothing but interactions is ever accepted**, and those that
  the current keys have signed still are.
-/

import Keri.NonTransferable

set_option relaxedAutoImplicit false
set_option autoImplicit false

namespace Keri

open Outcome Machine

variable (X : Externals)

/-! ### Runs -/

/-- A verifier takes an event that it accepts, and stays as it is otherwise. -/
def Kever.attempt (k : Kever) (c : AdvanceCall) : Kever := (c.advance X k).toOption.getD k

def Kever.attempts (k : Kever) (calls : List AdvanceCall) : Kever := run (Kever.attempt X) k calls

variable {X}

theorem Kever.attempt_cases (k : Kever) (c : AdvanceCall) :
    c.advance X k = .ok (k.attempt X c) ∨ k.attempt X c = k := by
  unfold Kever.attempt
  cases h : c.advance X k with
  | ok k' => exact Or.inl rfl
  | error e => exact Or.inr rfl

theorem Reachable.attempts {k : Kever} (h : Reachable X k) (calls : List AdvanceCall) :
    Reachable X (k.attempts X calls) := by
  refine run_inv calls h fun k c hk => ?_
  rcases k.attempt_cases c with haccepted | hsame
  · exact hk.advance haccepted
  · exact hsame.symm ▸ hk

theorem Reachable.incepted {k : Kever} (h : Reachable X k) : k.incepted = true := by
  induction h with
  | new hnew =>
      obtain ⟨-, -, hincept⟩ := Kever.new_eq_ok.1 hnew
      obtain ⟨-, -, -, -, -, -, hinc⟩ := Kever.incept_eq_ok.1 hincept
      exact hinc
  | newFromParts hnew =>
      obtain ⟨-, -, hincept⟩ := Kever.newFromParts_eq_ok.1 hnew
      obtain ⟨-, -, -, -, -, -, hinc⟩ := Kever.incept_eq_ok.1 hincept
      exact hinc
  | newDelegated hnew =>
      obtain ⟨-, -, -, -, -, -, -, -, -, hinc⟩ := Kever.newDelegated_eq_ok.1 hnew
      exact hinc
  | update _ hupdate ih =>
      obtain ⟨t, -, rfl⟩ := Kever.update_eq_ok.1 hupdate
      exact ih
  | verifyUpdate _ _ ih => exact ih
  | verifyUpdateOwned _ _ ih => exact ih
  | verifyUpdateDelegated _ _ ih => exact ih

/-! ### What does not change -/

/-- The states differ in the number and the digest of the latest event only: keys, commitments,
thresholds, backers and configuration are the same. -/
def KeepsAll (s t : KeyState) : Prop :=
  t = { s with sn := t.sn, lastEventDigest := t.lastEventDigest }

theorem KeepsAll.refl (s : KeyState) : KeepsAll s s := rfl

theorem KeepsAll.trans {s t u : KeyState} (h : KeepsAll s t) (h' : KeepsAll t u) :
    KeepsAll s u := by
  unfold KeepsAll at h h' ⊢
  rw [h', h]

/-- **What is accepted without commitments is an interaction**, and it changes neither keys nor
commitments. -/
theorem Kever.advance_frozen {k k' : Kever} {c : AdvanceCall} (hnext : k.state.nextKeys = [])
    (h : c.advance X k = .ok k') : c.ilk = some "ixn" ∧ KeepsAll k.state k'.state := by
  have hilk : c.ilk = some "ixn" := by
    rcases advance_accepts h with hinteracts | ⟨raw, rot, sigs, haccepts⟩
    · exact hinteracts.1
    · have hopens := haccepts.opens
      rw [hnext] at hopens
      exact absurd hopens (not_opens_nil _)
  refine ⟨hilk, ?_⟩
  obtain ⟨t, rfl, ⟨raw, sigs, ilk, hilk', hstate⟩ | ⟨serder, sigs, proof, source, rfl, hverify⟩⟩ :=
    advance_inv h
  · obtain rfl := Option.some_inj.1 (hilk'.symm.trans hilk)
    rcases Kever.nextState_eq_ok.1 hstate with ⟨hrot, -⟩ | ⟨-, ixn, verfers, -, -, -, happly⟩
    · exact absurd hrot (by decide)
    · obtain ⟨-, -, -, rfl⟩ := KeyState.applyInteraction_eq_ok.1 happly
      exact rfl
  · -- a delegated rotation is no interaction
    obtain ⟨-, -, hdrt, -⟩ := Kever.verifyUpdateDelegated_eq_ok.1 hverify
    have hdrt' := (ilk_of_serder hdrt).symm.trans hilk
    exact absurd (Option.some_inj.1 hdrt') (by decide)

theorem Kever.attempts_frozen {k : Kever} (hnext : k.state.nextKeys = [])
    (calls : List AdvanceCall) : KeepsAll k.state (k.attempts X calls).state := by
  refine run_inv (P := fun k' : Kever => KeepsAll k.state k'.state) calls (KeepsAll.refl _) ?_
  intro k' c hkept
  rcases k'.attempt_cases (X := X) c with haccepted | hsame
  · have hnext' : k'.state.nextKeys = [] := by rw [hkept, hnext]
    exact hkept.trans (Kever.advance_frozen hnext' haccepted).2
  · rw [hsame]
    exact hkept

/-! ### Interactions -/

/-- The next interaction of an identifier, signed by its current keys. -/
structure NextInteraction (k : Kever) (serder : Serder) (sigs : List Siger) : Prop where
  ilk : serder.ilk = .ok "ixn"
  said : serder.verifySaid X "E" = .ok ⟨⟩
  sn : serder.sn = .ok (u64Succ k.state.sn)
  follows : ∃ ixn, InteractionEvent.fromValue serder.sad = .ok ixn ∧ ixn.pfx = k.state.pfx ∧
    ixn.priorSaid = k.state.lastEventDigest
  signed : ∃ verfers, Kever.verfersFromKeys X k.state.keys = .ok verfers ∧
    verifySigsStatic X serder.raw sigs verfers k.state.threshold = .ok ⟨⟩

theorem NextInteraction.accepted {k : Kever} (hk : Reachable X k) {serder : Serder}
    {sigs : List Siger} (h : NextInteraction (X := X) k serder sigs) :
    ∃ k', k.update X serder sigs = .ok k' := by
  obtain ⟨ixn, hixn, hpfx, hprior⟩ := h.follows
  obtain ⟨verfers, hverfers, hsigs⟩ := h.signed
  have hsn : fromStrRadix 16 u64Bound ixn.sn = some (u64Succ k.state.sn) := by
    obtain ⟨snStr, hs, hparse⟩ := Serder.sn_eq_ok.1 h.sn
    obtain ⟨-, -, hs', -⟩ := InteractionEvent.fields hixn
    obtain rfl : snStr = ixn.sn := by simpa [hs] using hs'
    exact hparse
  have happly := KeyState.applyInteraction_eq_ok.2 ⟨hsn, hpfx, hprior, rfl⟩
  have hnext := Kever.nextState_eq_ok.2 (Or.inr ⟨rfl, ixn, verfers, hixn, hverfers, hsigs, happly⟩)
  exact ⟨_, Kever.update_eq_ok.2
    ⟨_, Kever.verifyUpdate_eq_ok.2 ⟨hk.incepted, h.said, _, h.ilk, h.sn, hnext⟩, rfl⟩⟩

/-- **An identifier that commits to no next keys is frozen.**  After any further events, accepted or
not, its keys, commitments, thresholds, backers and configuration are the same, no rotation is
accepted on any path, and an interaction that its keys have signed is. -/
theorem frozen {k : Kever} (hk : Reachable X k) (hnext : k.state.nextKeys = [])
    (calls : List AdvanceCall) :
    KeepsAll k.state (k.attempts X calls).state ∧
      (∀ (c : AdvanceCall) k', c.advance X (k.attempts X calls) = .ok k' →
        c.ilk ≠ some "rot" ∧ c.ilk ≠ some "drt") ∧
      ∀ serder sigs, NextInteraction (X := X) (k.attempts X calls) serder sigs →
        ∃ k', (k.attempts X calls).update X serder sigs = .ok k' := by
  have hkept := k.attempts_frozen (X := X) hnext calls
  refine ⟨hkept, ?_, fun serder sigs h => h.accepted (hk.attempts calls)⟩
  intro c k' hc
  have hnext' : (k.attempts X calls).state.nextKeys = [] := by rw [hkept, hnext]
  rw [(Kever.advance_frozen hnext' hc).1]
  exact ⟨by decide, by decide⟩

/-! ### An instance -/

theorem frozen_toy : ∃ k, Reachable Toy.lib k ∧
    (k.attempts Toy.lib [toyBasicUpdate]).state.sn = 1 ∧
    KeepsAll k.state (k.attempts Toy.lib [toyBasicUpdate]).state := by
  obtain ⟨k, hk, h⟩ := exists_ok_of_any (x := (toyBasicBuild []).build Toy.lib)
    (p := fun k : Kever => decide (k.state.nextKeys = [] ∧
      (k.attempts Toy.lib [toyBasicUpdate]).state.sn = 1)) (by decide +kernel)
  obtain ⟨hnext, hsn⟩ := of_decide_eq_true h
  have hreach : Reachable Toy.lib k := .new hk
  exact ⟨k, hreach, hsn, (frozen hreach hnext _).1⟩

end Keri
