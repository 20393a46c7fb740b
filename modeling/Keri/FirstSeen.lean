/-
**The first-seen policy.**

What a judge has seen first at an identifier and sequence number it keeps, and with it the log
entry.  An identifier that it has flagged stays flagged, and nothing that is known of the
identifier changes any more.

* `Keri.firstSeen_step` — one message;
* `Keri.first_seen_kept` — **what has been seen first stays so, and so do the logs**;
* `Keri.Frozen` — what stays of a flagged identifier;
* `Keri.frozen_step`, `Keri.duplicity_is_final` — **a flagged identifier stays as it is**;
* `Keri.Recorded`, `Keri.success_recorded` — **when an event that is reported as accepted is
  recorded**: when it is an inception or its identifier is known, and only then.
-/

import Keri.Tracking

set_option relaxedAutoImplicit false
set_option autoImplicit false

namespace Keri

open Outcome Machine

variable {X : Externals} {disk : Disk}

/-! ### What has been seen -/

/-- One message leaves what has been seen. -/
theorem firstSeen_step {j : Judge} (data : Bytes) {key said : String}
    (h : j.node.store.tables.fels.get key = some said) :
    (stepJudge X disk j data).node.store.tables.fels.get key = some said := by
  rcases stepJudge_cases X disk j data with hquiet | ⟨parsed, size, r, sigs, k, -, -, hadmits⟩
  · rw [hquiet.fels]
    exact h
  · rw [hadmits.tables, Tables.putLogged_fels, Table.get_put]
    split
    · -- the event was admitted where nothing had been seen
      rename_i hkey
      rw [hkey, hadmits.unseen] at h
      cases h
    · exact h

theorem firstSeen_run {j : Judge} (msgs : List Bytes) {key said : String}
    (h : j.node.store.tables.fels.get key = some said) :
    (run (stepJudge X disk) j msgs).node.store.tables.fels.get key = some said :=
  run_inv (P := fun j : Judge => j.node.store.tables.fels.get key = some said) msgs h
    fun _ data hj => firstSeen_step data hj

/-- One message writes both logs or none. -/
theorem kels_eq_fels_step {j : Judge} (data : Bytes)
    (h : j.node.store.tables.kels = j.node.store.tables.fels) :
    (stepJudge X disk j data).node.store.tables.kels =
      (stepJudge X disk j data).node.store.tables.fels := by
  rcases stepJudge_cases X disk j data with hquiet | ⟨parsed, size, r, sigs, k, -, -, hadmits⟩
  · rw [hquiet.kels, hquiet.fels]
    exact h
  · rw [hadmits.tables, Tables.putLogged_kels, Tables.putLogged_fels, h]

theorem kels_eq_fels_run {j : Judge} (msgs : List Bytes)
    (h : j.node.store.tables.kels = j.node.store.tables.fels) :
    (run (stepJudge X disk) j msgs).node.store.tables.kels =
      (run (stepJudge X disk) j msgs).node.store.tables.fels :=
  run_inv (P := fun j : Judge => j.node.store.tables.kels = j.node.store.tables.fels) msgs h
    fun _ data hj => kels_eq_fels_step data hj

variable (X disk) in
/-- **What a judge has seen first stays so**, over any store, whatever the messages are and whatever
comes of them.  When the two logs are equal at first they stay equal, and no log entry is ever
overwritten. -/
theorem first_seen_kept (store : Store) (msgs more : List Bytes) :
    (∀ pfx sn said,
      (runJudge X disk store msgs).node.store.tables.fels.get (snKey pfx sn) = some said →
      (runJudge X disk store (msgs ++ more)).node.store.tables.fels.get (snKey pfx sn) =
        some said) ∧
    (store.tables.kels = store.tables.fels →
      (runJudge X disk store msgs).node.store.tables.kels =
        (runJudge X disk store msgs).node.store.tables.fels ∧
      ∀ pfx sn said,
        (runJudge X disk store msgs).node.store.tables.kels.get (snKey pfx sn) = some said →
        (runJudge X disk store (msgs ++ more)).node.store.tables.kels.get (snKey pfx sn) =
          some said) := by
  rw [runJudge_append]
  refine ⟨fun pfx sn said h => firstSeen_run more h, fun hstart => ?_⟩
  have hmsgs : (runJudge X disk store msgs).node.store.tables.kels =
      (runJudge X disk store msgs).node.store.tables.fels := kels_eq_fels_run msgs hstart
  refine ⟨hmsgs, fun pfx sn said h => ?_⟩
  rw [kels_eq_fels_run more hmsgs]
  rw [hmsgs] at h
  exact firstSeen_run more h

/-! ### Flagged identifiers -/

/-- What is known of a flagged identifier stays as it is. -/
structure Frozen (pfx : String) (j j' : Judge) : Prop where
  flagged : j'.isDuplicitous pfx = true
  kever : j'.node.kevers.get pfx = j.node.kevers.get pfx
  kel : j'.node.store.tables.kel pfx = j.node.store.tables.kel pfx
  fels : ∀ sn < u64Bound, j'.node.store.tables.fels.get (snKey pfx sn) =
    j.node.store.tables.fels.get (snKey pfx sn)
  evidence : j'.evidenceFor pfx = j.evidenceFor pfx

theorem Frozen.refl {pfx : String} {j : Judge} (h : j.isDuplicitous pfx = true) : Frozen pfx j j :=
  ⟨h, rfl, rfl, fun _ _ => rfl, rfl⟩

theorem Frozen.trans {pfx : String} {j j' j'' : Judge} (h : Frozen pfx j j')
    (h' : Frozen pfx j' j'') : Frozen pfx j j'' :=
  ⟨h'.flagged, h'.kever.trans h.kever, h'.kel.trans h.kel,
    fun sn hsn => (h'.fels sn hsn).trans (h.fels sn hsn), h'.evidence.trans h.evidence⟩

/-- Evidence against another identifier. -/
theorem evidenceFor_recordDuplicity {j : Judge} {e : DuplicityEvidence} {pfx : String}
    (hne : e.pfx ≠ pfx) : (j.recordDuplicity e).evidenceFor pfx = j.evidenceFor pfx := by
  simp only [Judge.recordDuplicity, Judge.evidenceFor]
  split
  · rfl
  · split
    · rfl
    · simp [List.filter_append, hne]

/-- **One message leaves a flagged identifier as it is.**  An event that is admitted is of an
identifier that is not flagged, and its log entry is not read as one of another identifier. -/
theorem frozen_step (hX : NoSeparator X) {j : Judge}
    (htracks : ∀ pfx k, j.node.kevers.get pfx = some k →
      Tracks X j.node.store.tables.fels pfx k)
    {pfx : String} (h : j.isDuplicitous pfx = true) (data : Bytes) :
    Frozen pfx j (stepJudge X disk j data) := by
  have hflag := Judge.isDuplicitous_iff.1 h
  have hevidence : (stepJudge X disk j data).isDuplicitous pfx = true ∧
      (stepJudge X disk j data).evidenceFor pfx = j.evidenceFor pfx := by
    rcases stepJudge_evidence X disk j data with ⟨hflagged, hdel⟩ | ⟨e, hnew, hrun⟩
    · rw [Judge.isDuplicitous_iff, hflagged]
      unfold Judge.evidenceFor
      rw [hdel]
      exact ⟨hflag, rfl⟩
    · have hne : e.pfx ≠ pfx := by
        intro heq
        rw [heq] at hnew
        exact hnew hflag
      rw [stepJudge_of_ok hrun, evidenceFor_recordDuplicity hne, Judge.isDuplicitous_iff,
        Judge.recordDuplicity_flagged]
      exact ⟨Finset.mem_insert_of_mem hflag, rfl⟩
  obtain ⟨hflagged, hdel⟩ := hevidence
  rcases stepJudge_cases X disk j data with hquiet |
    ⟨parsed, size, r, sigs, k, -, hunflagged, hadmits⟩
  · refine ⟨hflagged, by rw [hquiet.kevers], ?_, fun sn _ => by rw [hquiet.fels], hdel⟩
    rw [Tables.kel_eq, Tables.kel_eq, hquiet.kels]
  · have hne : pfx ≠ r.pfx := by
      intro heq
      rw [heq] at hflag
      exact hunflagged hflag
    obtain ⟨-, -, -, hlt, -, hkind⟩ := hadmits.accepted.advance
    have hcesr : CesrText X r.pfx := by
      rcases hkind with ⟨-, -, -, hcesr⟩ | ⟨k₀, hk₀, -⟩
      · exact hcesr
      · exact (htracks _ _ hk₀).cesr
    refine ⟨hflagged, ?_, ?_, fun sn hsn => ?_, hdel⟩
    · rw [hadmits.kevers, Table.get_put_of_ne _ hne]
    · rw [hadmits.tables]
      exact Tables.kel_put_of_ne (hX _ hcesr) hlt Tables.putLogged_kels hne
    · rw [hadmits.tables, Tables.putLogged_fels, Table.get_put_of_ne]
      intro heq
      exact hne (snKey_inj hsn hlt heq).1

/-- **Duplicity is final.**  Whatever comes after it, a flagged identifier stays flagged, and its
verifier, its log, its first-seen entries and the evidence against it stay as they are. -/
theorem duplicity_is_final (hX : NoSeparator X) (store : Store) (msgs more : List Bytes)
    {pfx : String} (h : (runJudge X disk store msgs).isDuplicitous pfx = true) :
    (runJudge X disk store (msgs ++ more)).verdict pfx = .duplicitous ∧
      Frozen pfx (runJudge X disk store msgs) (runJudge X disk store (msgs ++ more)) := by
  have hfrozen : Frozen pfx (runJudge X disk store msgs)
      (runJudge X disk store (msgs ++ more)) := by
    induction more using List.reverseRecOn with
    | nil =>
        rw [List.append_nil]
        exact Frozen.refl h
    | append_singleton more data ih =>
        rw [← List.append_assoc, runJudge_concat]
        exact ih.trans (frozen_step hX (tracks_runJudge store (msgs ++ more)) ih.flagged data)
  refine ⟨?_, hfrozen⟩
  unfold Judge.verdict
  rw [if_pos (Judge.isDuplicitous_iff.1 hfrozen.flagged)]

/-! ### What is reported as accepted -/

/-- The event is first seen at its place, and the last event of the verifier of its identifier. -/
def Recorded (n : Node) (r : ProcessResult) : Prop :=
  n.store.tables.fels.get (snKey r.pfx r.sn) = some r.said ∧
    ∃ k, n.kevers.get r.pfx = some k ∧ k.state.lastEventDigest = r.said

theorem recorded_logged {n : Node} {parsed : ParsedMessage} {r : ProcessResult}
    {sigs : Option Bytes} {k : Kever} (h : AcceptedBy X (n.kevers.get r.pfx) parsed r sigs k) :
    Recorded (n.logged r parsed.serder.raw sigs k) r := by
  refine ⟨?_, k, Table.get_put_self _ _ _, h.advance.2.1⟩
  unfold Node.logged
  simp only [Tables.putLogged_fels]
  exact Table.get_put_self _ _ _

/-- A message that is processed without an error is recorded exactly when it is an inception or an
update of a known identifier. -/
theorem recorded_iff {n n' : Node} {parsed : ParsedMessage} {r : ProcessResult}
    (hilk : isInception r.ilk ∨ isUpdate r.ilk)
    (h : processParsed X disk parsed n = .ok r n') :
    Recorded n' r ↔ isInception r.ilk ∨ (n.kevers.get r.pfx).isSome := by
  obtain ⟨-, ⟨sigs, k, hlogs, rfl⟩ | ⟨hicp, hskip⟩⟩ := processParsed_ok h
  · obtain ⟨-, -, -, -, -, hkind⟩ := hlogs.1.advance
    constructor
    · intro _
      rcases hkind with ⟨-, hicp, -⟩ | ⟨k₀, hk₀, -⟩
      · exact Or.inl hicp
      · exact Or.inr (Option.isSome_of_eq_some hk₀)
    · intro _
      exact recorded_logged hlogs.1
  · obtain ⟨hnone, rfl⟩ := hskip (hilk.resolve_left hicp)
    rw [hnone]
    constructor
    · intro hrecorded
      obtain ⟨-, k, hk, -⟩ := hrecorded
      rw [hnone] at hk
      cases hk
    · intro hcase
      rcases hcase with hcase | hcase
      · exact absurd hcase hicp
      · cases hcase

/-- **When an event that is reported as accepted is recorded**, by a receiver in direct mode and by
a judge: exactly when it is an inception or its identifier was known. -/
theorem success_recorded {data : Bytes} {parsed : ParsedMessage} {size : ℕ} {m : ProcessResult}
    (hread : parseNext X data = .ok (parsed, size)) (hheader : parsed.serder.header = .ok m)
    (hilk : isInception m.ilk ∨ isUpdate m.ilk) :
    (∀ n r n', processMessage X disk data n = .ok r n' →
      (Recorded n' r ↔ isInception m.ilk ∨ (n.kevers.get m.pfx).isSome)) ∧
    ∀ j r j', Judge.process X disk data j = .ok (.accepted r) j' →
      (Recorded j'.node r ↔ isInception m.ilk ∨ (j.node.kevers.get m.pfx).isSome) := by
  constructor
  · intro n r n' hrun
    rw [processMessage_of_parse hread] at hrun
    obtain ⟨hheader', -⟩ := processParsed_ok hrun
    obtain rfl := Except.ok.inj (hheader.symm.trans hheader')
    exact recorded_iff hilk hrun
  · intro j r j' hrun
    obtain ⟨parsed', size', r', hread', hheader', hjudged⟩ := Judge.process_eq_ok.1 hrun
    obtain ⟨rfl, rfl⟩ := Prod.mk.inj (Except.ok.inj (hread.symm.trans hread'))
    obtain rfl := Except.ok.inj (hheader.symm.trans hheader')
    obtain ⟨start, hstart, hprocess, -⟩ := Judge.processJudged_accepted hheader hjudged
    obtain ⟨hheader'', -⟩ := processParsed_ok hprocess
    obtain rfl := Except.ok.inj (hheader.symm.trans hheader'')
    have hsame : start.node.kevers = j.node.kevers := by
      rcases hstart with h | h
      · rw [h]
      · rw [h]
        rfl
    rw [← hsame]
    exact recorded_iff hilk hprocess

/-! ### An instance -/

/-- An inception, an interaction after it and another one at the same number, all signed. -/
def toyIcpMessage : Bytes := Toy.signedBytes Toy.icp.raw 1

def toyIxnMessage : Bytes := Toy.signedBytes Toy.ixn.raw 1

def toyOtherIxn : Bytes :=
  Toy.signedBytes (Toy.eventBytes [("v", .string ""), ("t", .string "ixn"), ("d", .string ""),
    ("i", .string (Toy.pfxOf Toy.icp)), ("s", .string "1"), ("p", .string (Toy.saidOf Toy.icp)),
    ("a", .array [.string "other"])]) 1

theorem duplicity_is_final_toy :
    (runJudge Toy.lib .sound .empty
      [toyIcpMessage, toyIxnMessage, toyOtherIxn]).isDuplicitous (Toy.pfxOf Toy.icp) = true ∧
    (runJudge Toy.lib .sound .empty ([toyIcpMessage, toyIxnMessage, toyOtherIxn] ++
      [toyIxnMessage])).verdict (Toy.pfxOf Toy.icp) = .duplicitous := by
  have hflag : (runJudge Toy.lib .sound .empty
      [toyIcpMessage, toyIxnMessage, toyOtherIxn]).isDuplicitous (Toy.pfxOf Toy.icp) = true := by
    decide +kernel
  have hX : NoSeparator Toy.lib := noSeparator_toy Toy.checksumDigest
  have hfinal := duplicity_is_final hX .empty [toyIcpMessage, toyIxnMessage, toyOtherIxn]
    [toyIxnMessage] hflag
  exact ⟨hflag, hfinal.1⟩

/-- An inception is recorded, and an interaction of an identifier that is not known is reported as
accepted as well and is not. -/
theorem success_recorded_toy : (∃ r n', processMessage Toy.lib .sound toyIcpMessage .empty =
      .ok r n' ∧ Recorded n' r) ∧
    ∃ r j, Judge.process Toy.lib .sound toyIxnMessage (.new .empty) = .ok (.accepted r) j ∧
      ¬ Recorded j.node r := by
  constructor
  · obtain ⟨⟨parsed, size⟩, hread, hheader⟩ := exists_ok_of_any
      (x := parseNext Toy.lib toyIcpMessage) (p := fun p => p.1.serder.header.toOption.any fun m =>
        decide (isInception m.ilk) &&
          okAnd (fun _ _ => true) (processMessage Toy.lib .sound toyIcpMessage .empty))
      (by decide +kernel)
    obtain ⟨m, hheader, h⟩ := exists_ok_of_any hheader
    rw [Bool.and_eq_true, decide_eq_true_eq] at h
    obtain ⟨r, n', hrun, -⟩ := exists_run_of_okAnd h.2
    exact ⟨r, n', hrun,
      ((success_recorded hread hheader (Or.inl h.1)).1 _ r n' hrun).2 (Or.inl h.1)⟩
  · obtain ⟨⟨parsed, size⟩, hread, hheader⟩ := exists_ok_of_any
      (x := parseNext Toy.lib toyIxnMessage) (p := fun p => p.1.serder.header.toOption.any fun m =>
        decide (isUpdate m.ilk ∧ ¬ isInception m.ilk) &&
          okAnd (fun result _ => result matches .accepted _)
            (Judge.process Toy.lib .sound toyIxnMessage (.new .empty)))
      (by decide +kernel)
    obtain ⟨m, hheader, h⟩ := exists_ok_of_any hheader
    rw [Bool.and_eq_true, decide_eq_true_eq] at h
    obtain ⟨result, j, hrun, haccepted⟩ := exists_run_of_okAnd h.2
    cases result with
    | accepted r =>
        refine ⟨r, j, hrun, fun hrecorded => ?_⟩
        rcases ((success_recorded hread hheader (Or.inr h.1.1)).2 _ r j hrun).1 hrecorded with
          hicp | hknown
        · exact h.1.2 hicp
        · cases hknown
    | duplicateAccepted => cases haccepted
    | duplicityDetected e => cases haccepted

/-- An update of an unknown identifier is reported as accepted and recorded nowhere. -/
theorem accepted_unrecorded :
    ¬ ∀ (X : Externals) (disk : Disk) (msgs : List Bytes) (data : Bytes) (r : ProcessResult)
      (j : Judge), isInception r.ilk ∨ isUpdate r.ilk →
      Judge.process X disk data (runJudge X disk .empty msgs) = .ok (.accepted r) j →
      Recorded j.node r := by
  intro hclaim
  obtain ⟨result, j, hrun, hresult⟩ := exists_run_of_okAnd
    (x := Judge.process Toy.lib .sound toyIxnMessage (runJudge Toy.lib .sound .empty []))
    (p := fun result j => match result with
      | .accepted r => decide (isUpdate r.ilk ∧ (j.node.kevers.get r.pfx).isNone)
      | _ => false) (by decide +kernel)
  cases result with
  | accepted r =>
      obtain ⟨hup, hnone⟩ := of_decide_eq_true hresult
      obtain ⟨-, k, hk, -⟩ := hclaim _ _ [] _ r j (Or.inr hup) hrun
      rw [hk] at hnone
      cases hnone
  | duplicateAccepted => cases hresult
  | duplicityDetected e => cases hresult

end Keri
