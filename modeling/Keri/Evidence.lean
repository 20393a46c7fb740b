/-
**The evidence and the flags.**

A judge keeps the identifiers that it has flagged and the evidence against them, with caps on the
latter.  An identifier is flagged once and never looked at again, so there is one piece of evidence
against each, up to the cap on all; beyond it, identifiers are flagged and nothing is kept against
them.

* `Keri.EvidenceMatches` — the flagged identifiers are those with evidence, and the caps are kept;
* `Keri.Kept` — what holds of the evidence in any case;
* `Keri.kept_step`, `Keri.kept_runJudge` — **every message keeps it**;
* `Keri.evidence_matches_iff` — **when flags and evidence match after a run**.
-/

import Keri.Admissions

set_option relaxedAutoImplicit false
set_option autoImplicit false

namespace Keri

open Outcome Machine

variable {X : Externals} {disk : Disk}

/-! ### What is kept -/

/-- The flagged identifiers are those with evidence, of which there is not too much. -/
structure EvidenceMatches (j : Judge) : Prop where
  flagged_iff : ∀ pfx, pfx ∈ j.flagged ↔ ∃ e ∈ j.del, e.pfx = pfx
  total : j.del.length ≤ maxDelTotal
  perPrefix : ∀ pfx, (j.evidenceFor pfx).length ≤ maxDelPerPrefix

/-- There is one piece of evidence against each flagged identifier, as far as there is room. -/
structure Kept (j : Judge) : Prop where
  nodup : (j.del.map (·.pfx)).Nodup
  flagged : ∀ e ∈ j.del, e.pfx ∈ j.flagged
  length : j.del.length = min j.flagged.card maxDelTotal

theorem kept_new (store : Store) : Kept (Judge.new store) := by
  refine ⟨List.nodup_nil, ?_, rfl⟩
  intro e he
  cases he

/-- There is at most one piece of evidence against an identifier. -/
theorem Kept.evidenceFor_le {j : Judge} (h : Kept j) (pfx : String) :
    (j.evidenceFor pfx).length ≤ 1 := by
  have hcount := List.nodup_iff_count_le_one.1 h.nodup pfx
  rw [List.count, List.countP_map] at hcount
  rw [Judge.evidenceFor, ← List.countP_eq_length_filter]
  refine le_trans (le_of_eq ?_) hcount
  refine List.countP_congr fun e _ => ?_
  simp

/-- **Flags and evidence match as long as there is room.** -/
theorem Kept.matches_iff {j : Judge} (h : Kept j) :
    EvidenceMatches j ↔ j.flagged.card ≤ maxDelTotal := by
  have hsub : (j.del.map (·.pfx)).toFinset ⊆ j.flagged := by
    intro pfx hpfx
    rw [List.mem_toFinset, List.mem_map] at hpfx
    obtain ⟨e, he, rfl⟩ := hpfx
    exact h.flagged e he
  have hcard : (j.del.map (·.pfx)).toFinset.card = j.del.length := by
    rw [List.toFinset_card_of_nodup h.nodup, List.length_map]
  have hlength := h.length
  constructor
  · intro hmatches
    have hback : j.flagged ⊆ (j.del.map (·.pfx)).toFinset := by
      intro pfx hpfx
      obtain ⟨e, he, rfl⟩ := (hmatches.flagged_iff pfx).1 hpfx
      exact List.mem_toFinset.2 (List.mem_map_of_mem he)
    have hle := Finset.card_le_card hback
    omega
  · intro hroom
    have heq : (j.del.map (·.pfx)).toFinset = j.flagged :=
      Finset.eq_of_subset_of_card_le hsub (by omega)
    refine ⟨fun pfx => ?_, by omega, fun pfx => ?_⟩
    · rw [← heq, List.mem_toFinset, List.mem_map]
    · have hone := h.evidenceFor_le pfx
      have hcap : maxDelPerPrefix = 100 := rfl
      omega

/-! ### Runs -/

/-- New evidence against an identifier that was not flagged. -/
theorem Kept.record {j : Judge} (h : Kept j) {e : DuplicityEvidence} (hnew : e.pfx ∉ j.flagged) :
    Kept (j.recordDuplicity e) ∧ (j.recordDuplicity e).flagged.card = j.flagged.card + 1 := by
  have hcard : (insert e.pfx j.flagged).card = j.flagged.card + 1 :=
    Finset.card_insert_of_notMem hnew
  have hlength := h.length
  have hnone : j.del.countP (·.pfx = e.pfx) = 0 := by
    rw [List.countP_eq_zero]
    intro e' he' heq
    rw [decide_eq_true_eq] at heq
    exact hnew (heq ▸ h.flagged e' he')
  rw [Judge.recordDuplicity_flagged]
  refine ⟨?_, hcard⟩
  unfold Judge.recordDuplicity
  simp only
  split
  · rename_i hfull
    refine ⟨h.nodup, fun e' he' => Finset.mem_insert_of_mem (h.flagged e' he'), ?_⟩
    simp only [hcard]
    omega
  · rename_i hroom
    rw [if_neg (by rw [hnone]; decide)]
    refine ⟨?_, fun e' he' => ?_, ?_⟩
    · simp only [List.map_append, List.map_cons, List.map_nil]
      refine List.Nodup.append h.nodup (List.nodup_singleton _) ?_
      intro pfx hpfx hlast
      obtain ⟨e', he', rfl⟩ := List.mem_map.1 hpfx
      exact hnew (List.mem_singleton.1 hlast ▸ h.flagged e' he')
    · rcases List.mem_append.1 he' with he' | he'
      · exact Finset.mem_insert_of_mem (h.flagged e' he')
      · rw [List.mem_singleton.1 he']
        exact Finset.mem_insert_self _ _
    · simp only [hcard, List.length_append, List.length_singleton]
      omega

variable (X disk) in
/-- The message conflicts with what has been seen of an identifier that is not flagged, and passes
the trial verification; the store can be read. -/
def Conflicts (j : Judge) (data : Bytes) : Prop :=
  ∃ parsed size r existingSaid, parseNext X data = .ok (parsed, size) ∧
    parsed.serder.header = .ok r ∧ r.ilk ≠ "rct" ∧ r.pfx ∉ j.flagged ∧
    j.node.store.tables.fels.get (snKey r.pfx r.sn) = some existingSaid ∧ existingSaid ≠ r.said ∧
    (j.node.store.tables.evts.get existingSaid).isSome ∧
    disk j.node.store.calls = none ∧ disk (j.node.store.calls + 1) = none ∧
    Judge.trialVerify X j.node.kevers r parsed.serder
      (extractControllerSigs parsed.attachments) = .ok ⟨⟩

/-- A message that conflicts is detected. -/
theorem conflicts_iff {j : Judge} {data : Bytes} :
    Conflicts X disk j data ↔
      ∃ e j', Judge.process X disk data j = .ok (.duplicityDetected e) j' := by
  constructor
  · intro h
    obtain ⟨parsed, size, r, existingSaid, hparse, hheader, hrct, hnew, hseen, hne, hstored, hdisk,
      hdisk', htrial⟩ := h
    obtain ⟨event, hevent⟩ := Option.isSome_iff_exists.1 hstored
    have hjudged := (Judge.processJudged_detected hheader).2 ⟨hrct, hnew, hdisk, hdisk', htrial,
      existingSaid, event, hseen, hne, hevent, rfl, rfl⟩
    exact ⟨_, _, Judge.process_eq_ok.2 ⟨parsed, size, r, hparse, hheader, hjudged⟩⟩
  · intro h
    obtain ⟨e, j', hrun⟩ := h
    obtain ⟨parsed, size, r, hparse, hheader, hjudged⟩ := Judge.process_eq_ok.1 hrun
    obtain ⟨hrct, hnew, hdisk, hdisk', htrial, existingSaid, event, hseen, hne, hevent, -⟩ :=
      (Judge.processJudged_detected hheader).1 hjudged
    exact ⟨parsed, size, r, existingSaid, hparse, hheader, hrct, hnew, hseen, hne,
      Option.isSome_of_eq_some hevent, hdisk, hdisk', htrial⟩

variable (X disk) in
/-- **Every message keeps what is kept**, and flags an identifier when it conflicts. -/
theorem kept_step {j : Judge} (h : Kept j) (data : Bytes) :
    Kept (stepJudge X disk j data) ∧
      ((¬ Conflicts X disk j data ∧ (stepJudge X disk j data).flagged = j.flagged) ∨
        (Conflicts X disk j data ∧
          (stepJudge X disk j data).flagged.card = j.flagged.card + 1)) := by
  rcases stepJudge_evidence X disk j data with ⟨hflagged, hdel⟩ | ⟨e, hnew, hrun⟩
  · have hsame : Kept (stepJudge X disk j data) := by
      refine ⟨by rw [hdel]; exact h.nodup, ?_, by rw [hdel, hflagged]; exact h.length⟩
      rw [hdel, hflagged]
      exact h.flagged
    refine ⟨hsame, Or.inl ⟨?_, hflagged⟩⟩
    intro hconflicts
    -- a conflict would have been recorded
    obtain ⟨e, j', hrun⟩ := conflicts_iff.1 hconflicts
    obtain ⟨parsed, size, r, -, hheader, hjudged⟩ := Judge.process_eq_ok.1 hrun
    obtain ⟨-, hnew, -, -, -, existingSaid, event, -, -, -, rfl, rfl⟩ :=
      (Judge.processJudged_detected hheader).1 hjudged
    rw [stepJudge_of_ok hrun, Judge.recordDuplicity_flagged] at hflagged
    exact hnew (Finset.insert_eq_self.1 hflagged)
  · have hcalled : Kept j.called.called := ⟨h.nodup, h.flagged, h.length⟩
    obtain ⟨hkept, hcard⟩ := hcalled.record hnew
    rw [stepJudge_of_ok hrun]
    exact ⟨hkept, Or.inr ⟨conflicts_iff.2 ⟨e, _, hrun⟩, hcard⟩⟩

variable (X disk) in
theorem kept_runJudge (store : Store) (msgs : List Bytes) : Kept (runJudge X disk store msgs) :=
  run_inv (P := Kept) msgs (kept_new store) fun _ data hj => (kept_step X disk hj data).1

variable (X disk) in
/-- **When flags and evidence match after a run**: when no message conflicted while as many
identifiers were flagged as there is room for. -/
theorem evidence_matches_iff (store : Store) (msgs : List Bytes) :
    EvidenceMatches (runJudge X disk store msgs) ↔
      Along (stepJudge X disk)
        (fun j data => Conflicts X disk j data → j.flagged.card < maxDelTotal)
        (Judge.new store) msgs := by
  rw [(kept_runJudge X disk store msgs).matches_iff]
  induction msgs using List.reverseRecOn with
  | nil => exact ⟨fun _ => trivial, fun _ => Nat.zero_le _⟩
  | append_singleton msgs data ih =>
      have hstep := (kept_step X disk (kept_runJudge X disk store msgs) data).2
      rw [along_append, ← ih, along_cons, runJudge_concat]
      change _ ↔ _ ∧ (Conflicts X disk (runJudge X disk store msgs) data →
        (runJudge X disk store msgs).flagged.card < maxDelTotal) ∧ True
      rcases hstep with ⟨hquiet, hflagged⟩ | ⟨hconflicts, hcard⟩
      · rw [hflagged]
        exact ⟨fun hle => ⟨hle, fun hconflicts => absurd hconflicts hquiet, trivial⟩, fun h => h.1⟩
      · rw [hcard]
        constructor
        · intro hle
          exact ⟨by omega, fun _ => by omega, trivial⟩
        · intro h
          have hlt := h.2.1 hconflicts
          omega

end Keri
