/-
**Replays.**

A judge takes a message for a replay when the SAID it claims is the one first seen at its place.
The claim is not verified, so any body that carries the SAID passes for one.  It is the event that
was first seen exactly when the SAID is that of the body and the body is no other encoding of the
same value.

* `Keri.Reencodes` — another encoding of the same value;
* `Keri.replay_genuine_iff` — **when a message taken for a replay is one**;
* `Keri.forged_replay` — a body taken for a replay whose SAID is not its own.
-/

import Keri.Admissions

set_option relaxedAutoImplicit false
set_option autoImplicit false

namespace Keri

open Outcome Machine

/-- Other bytes that are read as the same value. -/
def Reencodes (s first : Serder) : Prop := s.sad = first.sad ∧ s.raw ≠ first.raw

variable {X : Externals} {disk : Disk}

variable (X) in
/-- The SAID of a body is its own, as the verification of an event has it. -/
def SaidOwn (s : Serder) : Prop := verifySaid X s.sad "d" "E" .json = .ok ()

/-- **When a message taken for a replay is one.**  There is an event that was admitted at its place;
the message has the bytes of that event, and a SAID that is its own, exactly when the SAID is its
own and it is not another encoding of that event. -/
theorem replay_genuine_iff (hX : SaidLaws X) {msgs : List Bytes} {data : Bytes}
    {parsed : ParsedMessage} {size : ℕ} {r : ProcessResult} {j : Judge}
    (hparse : parseNext X data = .ok (parsed, size)) (hheader : parsed.serder.header = .ok r)
    (h : Judge.process X disk data (runJudge X disk .empty msgs) = .ok .duplicateAccepted j) :
    (∃ pre first r₀ sigs k, AdmittedAt X disk .empty msgs pre first r₀ sigs k ∧ r₀.pfx = r.pfx ∧
      r₀.sn = r.sn) ∧
    ∀ pre first r₀ sigs k, AdmittedAt X disk .empty msgs pre first r₀ sigs k → r₀.pfx = r.pfx →
      r₀.sn = r.sn →
      ((SaidOwn X parsed.serder ∧ parsed.serder.raw = first.serder.raw) ↔
        (SaidOwn X parsed.serder ∧ ¬ Reencodes parsed.serder first.serder)) := by
  rw [Judge.process_run hparse hheader] at h
  obtain ⟨-, -, -, hseen, -⟩ := (Judge.processJudged_duplicate hheader).1 h
  obtain ⟨hpfx, hsn, hsaid, -⟩ := Serder.header_eq_ok.1 hheader
  constructor
  · obtain ⟨pre, first, r₀, sigs, k, hadmitted, hpfx₀, hsn₀, -⟩ :=
      exists_admittedAt (Serder.sn_lt hsn) hseen
    exact ⟨pre, first, r₀, sigs, k, hadmitted, hpfx₀, hsn₀⟩
  · intro pre first r₀ sigs k hadmitted hpfx₀ hsn₀
    refine and_congr_right fun hown => ?_
    -- the SAID is that of the first-seen event, so its value is the same
    have hverified := hadmitted.verified hX
    have hsaid₀ : r₀.said = r.said := by
      have hfirst := hadmitted.seen
      rw [hpfx₀, hsn₀, hseen, Option.some_inj] at hfirst
      exact hfirst.symm
    have hsad : parsed.serder.sad = first.serder.sad := by
      have hd := Serder.textField_eq_ok.1 hsaid
      have hi := Serder.textField_eq_ok.1 hpfx
      have hprim : IsPrimitive X r.pfx := hpfx₀ ▸ hverified.primitive
      have hd₀ : first.serder.sad.get "d" = some (.string r.said) := hsaid₀ ▸ hverified.said_eq
      exact (sad_eq_of_said_eq hX hown hverified.said_ok hd hd₀ hi hverified.pfx_eq hprim
        hverified.primitive).2
    constructor
    · intro hraw hre
      exact hre.2 hraw
    · intro hre
      by_contra hraw
      exact hre ⟨hsad, hraw⟩

/-! ### An instance -/

/-- A body that claims the SAID of the inception and has nothing else of it. -/
def toyImpostor : Bytes :=
  Toy.versioned [("v", .string ""), ("t", .string "icp"), ("d", .string toySaid),
    ("i", .string (Toy.keyText 1)), ("s", .string "0")]

/-- What is admitted of the one message is the inception. -/
theorem raw_of_toyAdmitted {pre : List Bytes} {first : ParsedMessage} {r₀ : ProcessResult}
    {sigs : Option Bytes} {k : Kever}
    (h : AdmittedAt toyKnown .sound .empty [toySignedInception] pre first r₀ sigs k) :
    first.serder.raw = toyInception := by
  obtain ⟨⟨parsed, size⟩, hparse, hfirst⟩ := exists_ok_of_any
    (x := parseNext toyKnown toySignedInception)
    (p := fun p => decide (p.1.serder.raw = toyInception)) (by decide +kernel)
  obtain ⟨data, post, size₀, hmsgs, hparse₀, -⟩ := h
  have hdata : data = toySignedInception := by
    have hmem : data ∈ [toySignedInception] := by
      rw [hmsgs]
      exact List.mem_append_right _ List.mem_cons_self
    exact List.mem_singleton.1 hmem
  rw [hdata, hparse] at hparse₀
  obtain ⟨rfl, -⟩ := Prod.mk.inj (Except.ok.inj hparse₀)
  exact of_decide_eq_true hfirst

/-- The inception sent twice: the second time it is taken for a replay, and is one. -/
theorem replay_genuine_toy : ∃ (parsed : ParsedMessage) (size : ℕ) (r : ProcessResult) (j : Judge),
    parseNext toyKnown toySignedInception = .ok (parsed, size) ∧ parsed.serder.header = .ok r ∧
    Judge.process toyKnown .sound toySignedInception
      (runJudge toyKnown .sound .empty [toySignedInception]) = .ok .duplicateAccepted j ∧
    (∃ pre first r₀ sigs k,
      AdmittedAt toyKnown .sound .empty [toySignedInception] pre first r₀ sigs k ∧
      r₀.pfx = r.pfx ∧ r₀.sn = r.sn) ∧
    ∀ pre first r₀ sigs k,
      AdmittedAt toyKnown .sound .empty [toySignedInception] pre first r₀ sigs k →
      r₀.pfx = r.pfx → r₀.sn = r.sn →
      SaidOwn toyKnown parsed.serder ∧ parsed.serder.raw = first.serder.raw := by
  obtain ⟨⟨parsed, size⟩, hparse, hread⟩ := exists_ok_of_any
    (x := parseNext toyKnown toySignedInception)
    (p := fun p => p.1.serder.header.isOk && decide (p.1.serder.raw = toyInception) &&
      decide (verifySaid toyKnown p.1.serder.sad "d" "E" .json = .ok ())) (by decide +kernel)
  simp only [Bool.and_eq_true, decide_eq_true_eq] at hread
  obtain ⟨⟨hheader, hraw⟩, hown⟩ := hread
  obtain ⟨r, hheader⟩ := exists_of_isOk hheader
  obtain ⟨result, j, hrun, hresult⟩ := exists_run_of_okAnd
    (x := Judge.process toyKnown .sound toySignedInception
      (runJudge toyKnown .sound .empty [toySignedInception]))
    (p := fun result _ => decide (result = JudgeResult.duplicateAccepted)) (by decide +kernel)
  rw [of_decide_eq_true hresult] at hrun
  obtain ⟨hadmitted, hiff⟩ := replay_genuine_iff saidLaws_toyKnown hparse hheader hrun
  refine ⟨parsed, size, r, j, hparse, hheader, hrun, hadmitted, ?_⟩
  intro pre first r₀ sigs k hfirst hpfx hsn
  refine (hiff pre first r₀ sigs k hfirst hpfx hsn).2 ⟨hown, fun hre => hre.2 ?_⟩
  rw [hraw, raw_of_toyAdmitted hfirst]

/-- A body that is taken for a replay of an inception it has nothing but the SAID of. -/
theorem forged_replay :
    ¬ ∀ (X : Externals) (disk : Disk) (msgs pre : List Bytes) (data : Bytes)
      (parsed first : ParsedMessage) (size : ℕ) (r r₀ : ProcessResult) (sigs : Option Bytes)
      (k : Kever) (j : Judge), SaidLaws X → parseNext X data = .ok (parsed, size) →
      parsed.serder.header = .ok r →
      Judge.process X disk data (runJudge X disk .empty msgs) = .ok .duplicateAccepted j →
      AdmittedAt X disk .empty msgs pre first r₀ sigs k → r₀.pfx = r.pfx → r₀.sn = r.sn →
      parsed.serder.raw = first.serder.raw := by
  intro hclaim
  obtain ⟨⟨parsed, size⟩, hparse, hread⟩ := exists_ok_of_any
    (x := parseNext toyKnown toyImpostor)
    (p := fun p => p.1.serder.header.isOk && decide (p.1.serder.raw ≠ toyInception))
    (by decide +kernel)
  rw [Bool.and_eq_true] at hread
  obtain ⟨r, hheader⟩ := exists_of_isOk hread.1
  have hother := of_decide_eq_true hread.2
  obtain ⟨result, j, hrun, hresult⟩ := exists_run_of_okAnd
    (x := Judge.process toyKnown .sound toyImpostor
      (runJudge toyKnown .sound .empty [toySignedInception]))
    (p := fun result _ => decide (result = JudgeResult.duplicateAccepted)) (by decide +kernel)
  rw [of_decide_eq_true hresult] at hrun
  have hseen := hrun
  rw [Judge.process_run hparse hheader] at hseen
  obtain ⟨-, -, -, hseen, -⟩ := (Judge.processJudged_duplicate hheader).1 hseen
  obtain ⟨pre, first, r₀, sigs, k, hadmitted, hpfx₀, hsn₀, -⟩ :=
    exists_admittedAt (Serder.sn_lt (Serder.header_eq_ok.1 hheader).2.1) hseen
  have hraw := hclaim _ _ _ _ _ _ _ _ _ _ _ _ _ saidLaws_toyKnown hparse hheader hrun hadmitted
    hpfx₀ hsn₀
  exact hother (hraw.trans (raw_of_toyAdmitted hadmitted))

end Keri
