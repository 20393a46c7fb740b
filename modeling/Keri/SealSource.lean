/-
**The sequence number of a seal source.**

The sequence number in a seal source couple is a primitive whose raw bytes are a big-endian number
of any length.  The source splits it before its last eight bytes, refuses it when a byte in front of
them is set, and copies them to the end of a buffer of eight.

* `Keri.Offsets.fromSealSourceCouple` — the same, with the split, the buffer and the copy;
* `Keri.fromSealSourceCouple_agrees` — the split and the copy are inside of their slices, whatever
  the length;
* `Keri.seal_source_exact` — **a number is read exactly when it fits sixty-four bits, and as what it
  is**.
-/

import Keri.Offsets
import Keri.Delegation
import Keri.Toy
import Keri.Lib.BigEndian

set_option relaxedAutoImplicit false
set_option autoImplicit false

namespace Keri

open Outcome Checked BigEndian

/-- Read a proof from a seal source couple. -/
def Offsets.fromSealSourceCouple (X : Externals) (snQb64 saidQb64 : String) :
    Offsets.Run DelegationProof := do
  let matter ← lift ((X.cesr.matterFromQb64 snQb64).mapError fun e =>
    .parseError s!"invalid seal source sequence number: {e.text}")
  let (high, low) ← splitAt matter.raw (matter.raw.length - 8)
  check (¬ high.any (· != 0)) (.parseError "seal source sequence number exceeds u64")
  let start ← sub 8 low.length
  let buf ← copyFromSlice (List.replicate 8 0) start low
  let sn := fromBeBytes buf
  let _ ← lift ((X.cesr.matterFromQb64 saidQb64).mapError fun e =>
    .parseError s!"invalid seal source SAID: {e.text}")
  pure { sn, said := saidQb64 }

variable {X : Externals} {snQb64 saidQb64 : String}

/-- The low bytes are copied to the end of the buffer, with zeros in front. -/
theorem copy_low {low : Bytes} (h : low.length ≤ 8) :
    (copyFromSlice (List.replicate 8 0) (8 - low.length) low : Offsets.Run Bytes) =
      .ok (List.replicate (8 - low.length) 0 ++ low) := by
  have hfits : 8 - low.length + low.length = (List.replicate 8 (0 : UInt8)).length := by
    rw [List.length_replicate]
    omega
  rw [copyFromSlice_ok hfits, List.take_replicate, Nat.min_eq_left (Nat.sub_le 8 low.length)]

/-- Zeros in front do not change what the bytes are read as. -/
theorem fromBeBytes_replicate_append (k : ℕ) (bs : Bytes) :
    fromBeBytes (List.replicate k 0 ++ bs) = fromBeBytes bs := by
  unfold fromBeBytes
  rw [foldl_eq_value, foldl_eq_value, value_replicate_append]

/-- **The split and the copy are inside of their slices**, for a number of any length. -/
theorem fromSealSourceCouple_agrees :
    Agrees (Offsets.fromSealSourceCouple X snQb64 saidQb64)
      (DelegationProof.fromSealSourceCouple X snQb64 saidQb64) := by
  unfold Offsets.fromSealSourceCouple DelegationProof.fromSealSourceCouple
  refine (Agrees.lift _).bind ?_
  intro matter _
  have hlow : (matter.raw.drop (matter.raw.length - 8)).length ≤ 8 := by
    rw [List.length_drop]
    omega
  rw [splitAt_ok (Nat.sub_le matter.raw.length 8), ok_bind]
  dsimp only
  refine Agrees.check_bind ?_ ?_
  · simp
  · intro _
    rw [sub_ok hlow, ok_bind, copy_low hlow, ok_bind, fromBeBytes_replicate_append]
    refine (Agrees.lift _).bind ?_
    intro _ _
    exact Agrees.pure _

/-- What a seal source couple is read as. -/
theorem fromSealSourceCouple_eq_ok {proof : DelegationProof} :
    DelegationProof.fromSealSourceCouple X snQb64 saidQb64 = .ok proof ↔ ∃ sn said,
      X.cesr.matterFromQb64 snQb64 = .ok sn ∧ X.cesr.matterFromQb64 saidQb64 = .ok said ∧
      value sn.raw < 2 ^ 64 ∧ proof = { sn := value sn.raw, said := saidQb64 } := by
  have hhigh : ∀ raw : Bytes,
      (raw.take (raw.length - 8)).all (· == 0) = true ↔ value raw < 2 ^ 64 := by
    intro raw
    have hpow : 2 ^ 64 = 256 ^ 8 := by norm_num
    rw [hpow, value_lt_pow_iff, List.all_eq_true]
    simp only [beq_iff_eq]
  have hvalue : ∀ raw : Bytes, value raw < 2 ^ 64 →
      fromBeBytes (raw.drop (raw.length - 8)) = value raw := by
    intro raw hlt
    have hzero := (hhigh raw).2 hlt
    simp only [List.all_eq_true, beq_iff_eq] at hzero
    rw [fromBeBytes, foldl_eq_value, value_drop hzero]
  simp only [DelegationProof.fromSealSourceCouple, bind_eq_ok, mapError_eq_ok, ensure_eq_ok,
    pure_eq_ok, hhigh]
  constructor
  · rintro ⟨sn, hsn, -, hlt, said, hsaid, rfl⟩
    exact ⟨sn, said, hsn, hsaid, hlt, by rw [hvalue sn.raw hlt]⟩
  · rintro ⟨sn, said, hsn, hsaid, hlt, rfl⟩
    exact ⟨sn, hsn, ⟨⟩, hlt, said, hsaid, by rw [hvalue sn.raw hlt]⟩

/-- **A sequence number is never truncated.**  For raw bytes of any length, the couple is read
exactly when their big-endian value is below 2^64, and then as that value and the SAID as it is
given; no slice is left and no length subtracted from a smaller one. -/
theorem seal_source_exact {sn said : Matter} (hsn : X.cesr.matterFromQb64 snQb64 = .ok sn)
    (hsaid : X.cesr.matterFromQb64 saidQb64 = .ok said) :
    (∀ fault, Offsets.fromSealSourceCouple X snQb64 saidQb64 ≠ .error (.fault fault)) ∧
    ((∃ proof, Offsets.fromSealSourceCouple X snQb64 saidQb64 = .ok proof) ↔
      value sn.raw < 2 ^ 64) ∧
    ∀ proof, Offsets.fromSealSourceCouple X snQb64 saidQb64 = .ok proof →
      proof.sn = value sn.raw ∧ proof.said = saidQb64 := by
  obtain ⟨hfault, hok⟩ := @fromSealSourceCouple_agrees X snQb64 saidQb64
  simp only [hok, fromSealSourceCouple_eq_ok]
  refine ⟨hfault, ?_, ?_⟩
  · constructor
    · rintro ⟨proof, sn', said', hsn', -, hlt, -⟩
      rwa [Except.ok.inj (hsn.symm.trans hsn')]
    · intro hlt
      exact ⟨_, sn, said, hsn, hsaid, hlt, rfl⟩
  · rintro proof ⟨sn', said', hsn', -, -, rfl⟩
    rw [Except.ok.inj (hsn.symm.trans hsn')]
    exact ⟨rfl, rfl⟩

/-- Sixteen bytes with a byte in front of the last eight, all of which are set. -/
def toyNumber (high : UInt8) : Bytes := List.replicate 7 0 ++ high :: List.replicate 8 255

/-- Thirty-two bytes of which the last but one is set. -/
def toyLongNumber : Bytes := List.replicate 30 0 ++ [1, 0]

/-- The largest number of sixty-four bits is read from sixteen bytes, a larger one is refused, and
a number of as many bytes as a key is read as well. -/
theorem seal_source_exact_toy :
    (∃ proof, Offsets.fromSealSourceCouple Toy.lib (Toy.primitiveText "0A" (toyNumber 0))
      (Toy.keyText 1) = .ok proof ∧ proof.sn = 2 ^ 64 - 1) ∧
    (¬ ∃ proof, Offsets.fromSealSourceCouple Toy.lib (Toy.primitiveText "0A" (toyNumber 1))
      (Toy.keyText 1) = .ok proof) ∧
    ∃ proof, Offsets.fromSealSourceCouple Toy.lib (Toy.primitiveText "B" toyLongNumber)
      (Toy.keyText 1) = .ok proof ∧ proof.sn = 256 := by
  have hsaid : Toy.lib.cesr.matterFromQb64 (Toy.keyText 1) = .ok ⟨"D", Toy.seed 1⟩ := by
    decide +kernel
  have hlargest : Toy.lib.cesr.matterFromQb64 (Toy.primitiveText "0A" (toyNumber 0)) =
      .ok ⟨"0A", toyNumber 0⟩ := by decide +kernel
  have hlarger : Toy.lib.cesr.matterFromQb64 (Toy.primitiveText "0A" (toyNumber 1)) =
      .ok ⟨"0A", toyNumber 1⟩ := by decide +kernel
  have hlong : Toy.lib.cesr.matterFromQb64 (Toy.primitiveText "B" toyLongNumber) =
      .ok ⟨"B", toyLongNumber⟩ := by decide +kernel
  obtain ⟨-, hread, hexact⟩ := seal_source_exact hlargest hsaid
  obtain ⟨-, hread', hexact'⟩ := seal_source_exact hlong hsaid
  obtain ⟨proof, hproof⟩ := hread.2 (by decide +kernel)
  obtain ⟨proof', hproof'⟩ := hread'.2 (by decide +kernel)
  refine ⟨⟨proof, hproof, ?_⟩, ?_, proof', hproof', ?_⟩
  · rw [(hexact proof hproof).1]
    decide +kernel
  · rw [(seal_source_exact hlarger hsaid).2.1]
    decide +kernel
  · rw [(hexact' proof' hproof').1]
    decide +kernel

end Keri
