/-
**What a conflict has to pass.**

An event that conflicts with the one first seen at its place is verified by itself: an inception
with its own keys, an update with the keys that its identifier has now.  Its identifier is accused
for good when it passes.  An event that would have been accepted in place of the other one is passed
over when the keys have changed since; an event that would not is held against its identifier when
the keys that it has now have signed it.

* `Keri.SignedUnder` — signatures that meet a threshold;
* `Keri.trialVerify_eq_ok` — what the trial verification checks;
* `Keri.Convicts`, `Keri.duplicity_detected_iff` — **when an event that would have been accepted is
  detected**;
* `Keri.Rightful`, `Keri.detected_accepted_iff` — **when an event that is detected would have been
  accepted**;
* `Keri.rotation_undetected`, `Keri.accused_falsely` — a conflict that is passed over, and one that
  is none.
-/

import Keri.Admissions

set_option relaxedAutoImplicit false
set_option autoImplicit false

namespace Keri

open Outcome Machine

variable (X : Externals)

/-! ### What the trial verification checks -/

/-- The signatures can all be read, and meet the threshold under the keys. -/
def SignedUnder (keys : List String) (threshold : Threshold) (raw : Bytes) (sigs : List Siger) :
    Prop :=
  ∃ verfers, Kever.verfersFromKeys X keys = .ok verfers ∧ SigsReadable X raw sigs verfers ∧
    threshold.isSatisfied (validIndices X raw sigs verfers) verfers.length = true

variable {X} {disk : Disk}

theorem signedUnder_iff {keys : List String} {threshold : Threshold} {raw : Bytes}
    {sigs : List Siger} :
    SignedUnder X keys threshold raw sigs ↔ ∃ verfers, Kever.verfersFromKeys X keys = .ok verfers ∧
      verifySigsStatic X raw sigs verfers threshold = .ok ⟨⟩ := by
  simp only [SignedUnder, verifySigsStatic_eq_ok]

theorem verifySigs_eq_ok {k : Kever} {raw : Bytes} {sigs : List Siger} :
    (∃ b, k.verifySigs X raw sigs = .ok b) ↔
      SignedUnder X k.state.keys k.state.threshold raw sigs := by
  simp only [signedUnder_iff, Kever.verifySigs, Kever.buildVerfers, bind_eq_ok, pure_eq_ok]
  constructor
  · intro h
    obtain ⟨_, verfers, hverfers, ⟨⟩, hsigs, -⟩ := h
    exact ⟨verfers, hverfers, hsigs⟩
  · intro h
    obtain ⟨verfers, hverfers, hsigs⟩ := h
    exact ⟨true, verfers, hverfers, ⟨⟩, hsigs, rfl⟩

/-- **What the trial verification checks.** -/
theorem trialVerify_eq_ok {kevers : Table String Kever} {r : ProcessResult} {s : Serder}
    {sigs : List Siger} :
    Judge.trialVerify X kevers r s sigs = .ok ⟨⟩ ↔
      (isInception r.ilk ∧ ∃ verfers k, verfersFromSerder X s = .ok verfers ∧
        Kever.new X s sigs verfers = .ok k) ∨
      (isUpdate r.ilk ∧ ∃ k, kevers.get r.pfx = some k ∧
        SignedUnder X k.state.keys k.state.threshold s.raw sigs) := by
  unfold Judge.trialVerify
  by_cases hicp : isInception r.ilk
  · have hup := not_isUpdate_of_isInception hicp
    rw [if_pos hicp]
    simp only [bind_eq_ok, mapError_eq_ok, pure_eq_ok, hicp, hup, true_and, false_and, or_false]
    constructor
    · intro h
      obtain ⟨verfers, hverfers, k, hk, -⟩ := h
      exact ⟨verfers, k, hverfers, hk⟩
    · intro h
      obtain ⟨verfers, k, hverfers, hk⟩ := h
      exact ⟨verfers, hverfers, k, hk, trivial⟩
  · by_cases hup : isUpdate r.ilk
    · rw [if_neg hicp, if_pos hup]
      simp only [hicp, hup, true_and, false_and, false_or]
      cases hk : kevers.get r.pfx with
      | none => simp
      | some k =>
          simp only [bind_eq_ok, mapError_eq_ok, pure_eq_ok, Option.some_inj, exists_eq_left',
            ← verifySigs_eq_ok]
          constructor
          · intro h
            obtain ⟨b, hb, -⟩ := h
            exact ⟨b, hb⟩
          · intro h
            obtain ⟨b, hb⟩ := h
            exact ⟨b, hb, trivial⟩
    · simp [hicp, hup]

/-! ### Events that would have been accepted -/

variable (X) in
/-- What the trial verification asks of an event that would have been accepted: that the SAID of an
inception verifies in the kind that its body is in, and that an update is signed with the keys that
its identifier has now. -/
def Convicts (kevers : Table String Kever) (r : ProcessResult) (s : Serder)
    (sigs : List Siger) : Prop :=
  (isInception r.ilk → s.verifySaid X "E" = .ok ⟨⟩) ∧
    (isUpdate r.ilk → ∃ k, kevers.get r.pfx = some k ∧
      SignedUnder X k.state.keys k.state.threshold s.raw sigs)

/-- An event that passes where it would have been accepted passes the trial verification exactly
when it convicts. -/
theorem AcceptedBy.trialVerify_iff {before : Option Kever} {parsed : ParsedMessage}
    {r : ProcessResult} {sigs : Option Bytes} {k : Kever} (h : AcceptedBy X before parsed r sigs k)
    {kevers : Table String Kever} :
    Judge.trialVerify X kevers r parsed.serder (extractControllerSigs parsed.attachments) =
      .ok ⟨⟩ ↔ Convicts X kevers r parsed.serder (extractControllerSigs parsed.attachments) := by
  rw [trialVerify_eq_ok]
  cases h with
  | inception hheader _ hilk _ hverify =>
      have hup := not_isUpdate_of_isInception hilk
      obtain ⟨verfers, hverfers, hnew, -⟩ := verifyInception_eq_ok.1 hverify
      obtain ⟨ht, -, hincept⟩ := Kever.newFromParts_eq_ok.1 hnew
      have hicp : parsed.serder.ilk = .ok "icp" := Serder.textField_eq_ok.2 ht
      simp only [Convicts, hilk, hup, true_and, false_and, or_false, forall_const, false_implies,
        and_true]
      constructor
      · intro h
        obtain ⟨_, _, -, hk⟩ := h
        exact (Kever.new_eq_ok.1 hk).2.1
      · intro hsaid
        exact ⟨verfers, _, hverfers, Kever.new_eq_ok.2 ⟨hicp, hsaid, hincept⟩⟩
  | update _ _ hilk =>
      have hicp : ¬ isInception r.ilk := fun hicp => not_isUpdate_of_isInception hicp hilk
      simp only [Convicts, hilk, hicp, true_and, false_and, false_or, forall_const, false_implies]

/-- Events that are stored stay stored, some body for each. -/
theorem stepJudge_evts {j : Judge} (data : Bytes) {said : String}
    (h : (j.node.store.tables.evts.get said).isSome) :
    ((stepJudge X disk j data).node.store.tables.evts.get said).isSome := by
  rcases stepJudge_cases X disk j data with hquiet | ⟨parsed, size, r, sigs, k, -, -, hadmits⟩
  · exact hquiet.evts said h
  · rw [hadmits.tables, Tables.putLogged_evts]
    exact Table.get_put_isSome h _ _

variable {store : Store} {msgs pre : List Bytes} {first : ParsedMessage} {r₀ : ProcessResult}
  {sigs₀ : Option Bytes} {k₀ : Kever}

/-- There is a body stored for an event that was admitted. -/
theorem AdmittedAt.stored (h : AdmittedAt X disk store msgs pre first r₀ sigs₀ k₀) :
    ((runJudge X disk store msgs).node.store.tables.evts.get r₀.said).isSome := by
  obtain ⟨data, post, size, rfl, -, hadmits⟩ := h
  have hsplit : pre ++ data :: post = (pre ++ [data]) ++ post := by simp
  rw [hsplit, runJudge_append]
  refine run_inv (P := fun j : Judge => (j.node.store.tables.evts.get r₀.said).isSome) post ?_
    fun _ data hj => stepJudge_evts data hj
  rw [hadmits.tables, Tables.putLogged_evts, Table.get_put_self]
  rfl

/-- **When an event that would have been accepted is detected.**  It conflicts with the event that
was admitted at its place after `pre`, and would have been accepted there. -/
theorem duplicity_detected_iff (hfirst : AdmittedAt X disk store msgs pre first r₀ sigs₀ k₀)
    {data : Bytes} {parsed : ParsedMessage} {size : ℕ} {r : ProcessResult} {sigs : Option Bytes}
    {k : Kever} (hparse : parseNext X data = .ok (parsed, size))
    (hpfx : r.pfx = r₀.pfx) (hsn : r.sn = r₀.sn) (hsaid : r.said ≠ r₀.said)
    (hacc : AcceptedBy X ((runJudge X disk store pre).node.kevers.get r.pfx) parsed r sigs k)
    (hflag : (runJudge X disk store msgs).isDuplicitous r.pfx = false) :
    (∃ e j, Judge.process X disk data (runJudge X disk store msgs) =
        .ok (.duplicityDetected e) j ∧ j.verdict r.pfx = .duplicitous) ↔
      disk (runJudge X disk store msgs).node.store.calls = none ∧
        disk ((runJudge X disk store msgs).node.store.calls + 1) = none ∧
        Convicts X (runJudge X disk store msgs).node.kevers r parsed.serder
          (extractControllerSigs parsed.attachments) := by
  have hunflagged : r.pfx ∉ (runJudge X disk store msgs).flagged := by
    intro hmem
    rw [Judge.isDuplicitous_iff.2 hmem] at hflag
    cases hflag
  have hseen := hfirst.seen
  rw [← hpfx, ← hsn] at hseen
  obtain ⟨event, hevent⟩ := Option.isSome_iff_exists.1 hfirst.stored
  rw [Judge.process_run hparse hacc.header]
  simp only [Judge.processJudged_detected hacc.header, hacc.trialVerify_iff]
  constructor
  · intro h
    obtain ⟨e, j, ⟨-, -, hdisk, hdisk', hconvicts, -⟩, -⟩ := h
    exact ⟨hdisk, hdisk', hconvicts⟩
  · intro h
    obtain ⟨hdisk, hdisk', hconvicts⟩ := h
    refine ⟨_, _, ⟨hacc.ilk_ne_rct, hunflagged, hdisk, hdisk', hconvicts, _, event, hseen,
      hsaid.symm, hevent, rfl, rfl⟩, ?_⟩
    unfold Judge.verdict
    rw [if_pos]
    rw [Judge.recordDuplicity_flagged]
    exact Finset.mem_insert_self _ _

/-- An update of a known identifier that is processed without an error has been accepted. -/
theorem accepted_of_processed {n n' : Node} {parsed : ParsedMessage} {r : ProcessResult}
    (h : processParsed X disk parsed n = .ok r n') (hup : isUpdate r.ilk)
    (hknown : (n.kevers.get r.pfx).isSome) :
    ∃ sigs k, AcceptedBy X (n.kevers.get r.pfx) parsed r sigs k := by
  obtain ⟨-, ⟨sigs, k, hlogs, -⟩ | ⟨-, hskip⟩⟩ := processParsed_ok h
  · exact ⟨sigs, k, hlogs.1⟩
  · rw [(hskip hup).1] at hknown
    cases hknown

/-- A rotation to the keys that were committed to, at the place of the interaction. -/
def toyOtherRot : Bytes :=
  Toy.signedBytes (Toy.eventBytes (Toy.rotFields (Toy.pfxOf Toy.icp) (Toy.saidOf Toy.icp) "1" "1"
    "1" [2] [3])) 2

/-- An interaction that follows nothing, at that place. -/
def toyStray : Bytes :=
  Toy.signedBytes (Toy.eventBytes (Toy.ixnFields (Toy.pfxOf Toy.icp) "nothing" "1")) 1

/-- Is it an update that is accepted in place of the interaction? -/
def toyConflicts (data : Bytes) : Bool :=
  (parseNext Toy.lib data).toOption.any fun p =>
    okAnd (fun r _ => decide (isUpdate r.ilk ∧ r.pfx = Toy.pfxOf Toy.icp ∧ r.sn = 1 ∧
        r.said ≠ Toy.saidOf Toy.ixn) &&
        ((runJudge Toy.lib .sound .empty [toyIcpMessage]).node.kevers.get r.pfx).isSome)
      (processParsed Toy.lib .sound p.1 (runJudge Toy.lib .sound .empty [toyIcpMessage]).node)

/-- Is it a message that is refused in place of the interaction? -/
def toyRefused (data : Bytes) : Bool :=
  (parseNext Toy.lib data).toOption.any fun p =>
    (p.1.serder.header.toOption.any fun r : ProcessResult =>
      decide (r.pfx = Toy.pfxOf Toy.icp ∧ r.sn = 1)) &&
    !okAnd (fun _ _ => true) (processParsed Toy.lib .sound p.1
      (runJudge Toy.lib .sound .empty [toyIcpMessage]).node)

/-- Is it detected after the interaction? -/
def toyDetected (data : Bytes) : Bool :=
  okAnd (fun result _ => match result with
    | .duplicityDetected _ => true
    | _ => false) (Judge.process Toy.lib .sound data
      (runJudge Toy.lib .sound .empty [toyIcpMessage, toyIxnMessage]))

/-- What comes of the three conflicting messages. -/
theorem toy_conflicts :
    (((runJudge Toy.lib .sound .empty [toyIcpMessage]).node.store.tables.fels.get
        (snKey (Toy.pfxOf Toy.icp) 1)).isNone &&
      decide ((runJudge Toy.lib .sound .empty
        [toyIcpMessage, toyIxnMessage]).node.store.tables.fels.get (snKey (Toy.pfxOf Toy.icp) 1) =
          some (Toy.saidOf Toy.ixn)) &&
      !(runJudge Toy.lib .sound .empty [toyIcpMessage, toyIxnMessage]).isDuplicitous
        (Toy.pfxOf Toy.icp) &&
      (toyConflicts toyOtherIxn && toyDetected toyOtherIxn) &&
      (toyConflicts toyOtherRot && !toyDetected toyOtherRot) &&
      (toyRefused toyStray && toyDetected toyStray)) = true := by
  decide +kernel

/-- The interaction is admitted after the inception. -/
theorem toyIxn_admitted : ∃ first r₀ sigs₀ k₀,
    AdmittedAt Toy.lib .sound .empty [toyIcpMessage, toyIxnMessage] [toyIcpMessage] first r₀ sigs₀
      k₀ ∧ r₀.pfx = Toy.pfxOf Toy.icp ∧ r₀.sn = 1 ∧ r₀.said = Toy.saidOf Toy.ixn := by
  have hruns := toy_conflicts
  simp only [Bool.and_eq_true, decide_eq_true_eq] at hruns
  obtain ⟨⟨⟨⟨⟨hunseen, hseen⟩, -⟩, -⟩, -⟩, -⟩ := hruns
  have hlt : 1 < u64Bound := by decide
  refine @admittedAt_of_step Toy.lib .sound .empty [toyIcpMessage] toyIxnMessage [] _ _ _ hlt
    (fun hbefore => ?_) ?_
  · rw [hbefore] at hunseen
    cases hunseen
  · rw [List.singleton_append]
    exact hseen

theorem toy_unflagged : (runJudge Toy.lib .sound .empty
    [toyIcpMessage, toyIxnMessage]).isDuplicitous (Toy.pfxOf Toy.icp) = false := by
  have hruns := toy_conflicts
  simp only [Bool.and_eq_true, Bool.not_eq_true'] at hruns
  exact hruns.1.1.1.2

/-- A conflicting event after the two, which would have been accepted after the first. -/
theorem exists_conflict {data : Bytes} (h : toyConflicts data = true) :
    ∃ parsed size r sigs k, parseNext Toy.lib data = .ok (parsed, size) ∧
      r.pfx = Toy.pfxOf Toy.icp ∧ r.sn = 1 ∧ r.said ≠ Toy.saidOf Toy.ixn ∧
      AcceptedBy Toy.lib
        ((runJudge Toy.lib .sound .empty [toyIcpMessage]).node.kevers.get r.pfx) parsed r sigs k := by
  obtain ⟨⟨parsed, size⟩, hparse, hrun⟩ := exists_ok_of_any h
  obtain ⟨r, n', hok, hr⟩ := exists_run_of_okAnd hrun
  rw [Bool.and_eq_true, decide_eq_true_eq] at hr
  obtain ⟨⟨hup, hpfx, hsn, hsaid⟩, hknown⟩ := hr
  obtain ⟨sigs, k, hacc⟩ := accepted_of_processed hok hup hknown
  exact ⟨parsed, size, r, sigs, k, hparse, hpfx, hsn, hsaid, hacc⟩

/-- Two interactions with one number. -/
theorem duplicity_detected_toy : ∃ (parsed : ParsedMessage) (size : ℕ) (r : ProcessResult),
    parseNext Toy.lib toyOtherIxn = .ok (parsed, size) ∧
    ((∃ e j, Judge.process Toy.lib .sound toyOtherIxn
        (runJudge Toy.lib .sound .empty [toyIcpMessage, toyIxnMessage]) =
        .ok (.duplicityDetected e) j ∧ j.verdict r.pfx = .duplicitous) ↔
      Disk.sound (runJudge Toy.lib .sound .empty
          [toyIcpMessage, toyIxnMessage]).node.store.calls = none ∧
        Disk.sound ((runJudge Toy.lib .sound .empty
          [toyIcpMessage, toyIxnMessage]).node.store.calls + 1) = none ∧
        Convicts Toy.lib (runJudge Toy.lib .sound .empty
          [toyIcpMessage, toyIxnMessage]).node.kevers r parsed.serder
          (extractControllerSigs parsed.attachments)) := by
  have hruns := toy_conflicts
  simp only [Bool.and_eq_true] at hruns
  obtain ⟨first, r₀, sigs₀, k₀, hfirst, hpfx₀, hsn₀, hsaid₀⟩ := toyIxn_admitted
  obtain ⟨parsed, size, r, sigs, k, hparse, hpfx, hsn, hsaid, hacc⟩ :=
    exists_conflict hruns.1.1.2.1
  have hflag := toy_unflagged
  rw [← hpfx] at hflag
  exact ⟨parsed, size, r, hparse, duplicity_detected_iff hfirst hparse (hpfx.trans hpfx₀.symm)
    (hsn.trans hsn₀.symm) (fun heq => hsaid (heq.trans hsaid₀)) hacc hflag⟩

/-- **A conflicting rotation is passed over**, though the store works: it is signed with the keys
that it installs, and checked with those that it replaces. -/
theorem rotation_undetected :
    ¬ ∀ (X : Externals) (disk : Disk) (store : Store) (msgs pre : List Bytes)
      (first : ParsedMessage) (r₀ : ProcessResult) (sigs₀ : Option Bytes) (k₀ : Kever)
      (data : Bytes) (parsed : ParsedMessage) (size : ℕ) (r : ProcessResult)
      (sigs : Option Bytes) (k : Kever), (∀ n, disk n = none) →
      AdmittedAt X disk store msgs pre first r₀ sigs₀ k₀ →
      parseNext X data = .ok (parsed, size) → r.pfx = r₀.pfx → r.sn = r₀.sn → r.said ≠ r₀.said →
      AcceptedBy X ((runJudge X disk store pre).node.kevers.get r.pfx) parsed r sigs k →
      (runJudge X disk store msgs).isDuplicitous r.pfx = false →
      ∃ e j, Judge.process X disk data (runJudge X disk store msgs) =
        .ok (.duplicityDetected e) j ∧ j.verdict r.pfx = .duplicitous := by
  intro hclaim
  have hruns := toy_conflicts
  simp only [Bool.and_eq_true, Bool.not_eq_true'] at hruns
  obtain ⟨first, r₀, sigs₀, k₀, hfirst, hpfx₀, hsn₀, hsaid₀⟩ := toyIxn_admitted
  obtain ⟨parsed, size, r, sigs, k, hparse, hpfx, hsn, hsaid, hacc⟩ :=
    exists_conflict hruns.1.2.1
  have hflag := toy_unflagged
  rw [← hpfx] at hflag
  obtain ⟨e, j, hrun, -⟩ := hclaim Toy.lib .sound .empty _ _ _ _ _ _ _ _ _ _ _ _ (fun _ => rfl)
    hfirst hparse (hpfx.trans hpfx₀.symm) (hsn.trans hsn₀.symm)
    (fun heq => hsaid (heq.trans hsaid₀)) hacc hflag
  have hpassed := hruns.1.2.2
  unfold toyDetected at hpassed
  rw [hrun] at hpassed
  cases hpassed

/-! ### Events that are detected -/

section

variable (X)

/-- An inception with enough receipts of its own witnesses. -/
def RightfulInception (s : Serder) (couples : List (String × Bytes)) : Prop :=
  ∃ icp bt, InceptionEvent.fromValue s.sad = .ok icp ∧
    fromStrRadix 10 u64Bound icp.backerThreshold = some bt ∧
    verifyWitnessReceiptsStatic X s.raw couples icp.backers bt = .ok ⟨⟩

/-- A rotation of the identifier at the state `before`, after the event `prior`: to the keys that
were committed to, signed with them, and with enough receipts of the witnesses that it leaves. -/
def RightfulRotation (before : KeyState) (prior : Option String) (s : Serder) (sigs : List Siger)
    (couples : List (String × Bytes)) : Prop :=
  before.delegated = false ∧ ∃ rot bt, RotationEvent.fromValue s.sad = .ok rot ∧
    prior = some rot.priorSaid ∧ SignedUnder X rot.keys rot.keysThreshold s.raw sigs ∧
    List.Forall₂ (KeyMatches X) rot.keys before.nextKeys ∧
    fromStrRadix 10 u64Bound rot.backerThreshold = some bt ∧
    bt ≤ (KeyState.newBackers before.backers rot.backersRemove rot.backersAdd).length ∧
    verifyWitnessReceiptsStatic X s.raw couples
      (KeyState.newBackers before.backers rot.backersRemove rot.backersAdd) bt = .ok ⟨⟩

/-- An interaction of the identifier at the state `before`, after the event `prior`: signed with the
keys of then, and with enough receipts of the witnesses of then. -/
def RightfulInteraction (before : KeyState) (prior : Option String) (s : Serder)
    (sigs : List Siger) (couples : List (String × Bytes)) : Prop :=
  ∃ ixn, InteractionEvent.fromValue s.sad = .ok ixn ∧ prior = some ixn.priorSaid ∧
    SignedUnder X before.keys before.threshold s.raw sigs ∧
    verifyWitnessReceiptsStatic X s.raw couples before.backers before.backerThreshold = .ok ⟨⟩

/-- What the trial verification leaves out, of an event at a place where the verifier of its
identifier was `before` and the event before was `prior`. -/
def Rightful (before : Option Kever) (prior : Option String) (parsed : ParsedMessage)
    (r : ProcessResult) : Prop :=
  verifySaid X parsed.serder.sad "d" "E" .json = .ok ⟨⟩ ∧
    ∃ couples raw, collectAttachments X r.pfx parsed.attachments = .ok (couples, raw) ∧
      ((isInception r.ilk ∧ RightfulInception X parsed.serder couples) ∨
        ∃ k, before = some k ∧
          ((r.ilk = "rot" ∧ RightfulRotation X k.state prior parsed.serder
            (extractControllerSigs parsed.attachments) couples) ∨
          (r.ilk = "ixn" ∧ RightfulInteraction X k.state prior parsed.serder
            (extractControllerSigs parsed.attachments) couples)))

end

/-- An inception that passes on its own would have been accepted when its receipts are enough. -/
theorem verifyInception_iff {s : Serder} {sigs : List Siger} {couples : List (String × Bytes)}
    {verfers : List Verfer} {k : Kever} (hverfers : verfersFromSerder X s = .ok verfers)
    (hnew : Kever.new X s sigs verfers = .ok k) :
    (∃ k', verifyInception X s sigs couples = .ok k') ↔
      verifySaid X s.sad "d" "E" .json = .ok ⟨⟩ ∧ RightfulInception X s couples := by
  obtain ⟨hilk, -, hincept⟩ := Kever.new_eq_ok.1 hnew
  have ht := Serder.textField_eq_ok.1 hilk
  obtain ⟨icp, hicp, -, -, -, hstate, -⟩ := Kever.incept_eq_ok.1 hincept
  obtain ⟨-, bt, hbt, -, hstate⟩ := KeyState.fromInception_eq_ok.1 hstate
  constructor
  · intro h
    obtain ⟨k', hk'⟩ := h
    obtain ⟨verfers', hverfers', hparts, hrct⟩ := verifyInception_eq_ok.1 hk'
    obtain rfl := Except.ok.inj (hverfers.symm.trans hverfers')
    obtain ⟨-, hsaid, hincept'⟩ := Kever.newFromParts_eq_ok.1 hparts
    obtain rfl := Except.ok.inj (hincept.symm.trans hincept')
    rw [checkReceipts_eq_ok, hstate] at hrct
    exact ⟨hsaid, icp, bt, hicp, hbt, hrct⟩
  · intro h
    obtain ⟨hsaid, icp', bt', hicp', hbt', hrct⟩ := h
    obtain rfl := Except.ok.inj (hicp.symm.trans hicp')
    obtain rfl := Option.some_inj.1 (hbt.symm.trans hbt')
    refine ⟨k, verifyInception_eq_ok.2 ⟨verfers, hverfers,
      Kever.newFromParts_eq_ok.2 ⟨ht, hsaid, hincept⟩, ?_⟩⟩
    rw [checkReceipts_eq_ok, hstate]
    exact hrct

/-- An update would have been accepted when it is rightful. -/
theorem verifyNext_iff {parsed : ParsedMessage} {r : ProcessResult}
    (hheader : parsed.serder.header = .ok r) {k : Kever} (hinc : k.incepted = true)
    (hpfx : k.state.pfx = r.pfx) (hsn : r.sn = u64Succ k.state.sn) (sigs : List Siger)
    (couples : List (String × Bytes)) :
    (∃ t, verifyNext X k parsed.serder sigs couples = .ok t) ↔
      verifySaid X parsed.serder.sad "d" "E" .json = .ok ⟨⟩ ∧
      ((r.ilk = "rot" ∧ RightfulRotation X k.state (some k.state.lastEventDigest) parsed.serder
        sigs couples) ∨
      (r.ilk = "ixn" ∧ RightfulInteraction X k.state (some k.state.lastEventDigest) parsed.serder
        sigs couples)) := by
  obtain ⟨hi, hs, -, ht⟩ := Serder.header_eq_ok.1 hheader
  have hi' := Serder.textField_eq_ok.1 hi
  have ht' := Serder.textField_eq_ok.1 ht
  obtain ⟨text, hs', hnum⟩ := Serder.sn_eq_ok.1 hs
  rw [hsn] at hnum
  simp only [verifyNext_eq_ok, Kever.verifyUpdateOwned_eq_ok, Kever.nextState_eq_ok,
    checkReceipts_eq_ok, RightfulRotation, RightfulInteraction, signedUnder_iff, Option.some_inj]
  constructor
  · intro h
    obtain ⟨t, ⟨-, hsaid, ilk, text', hilk, -, -, hnext⟩, hrct⟩ := h
    obtain rfl := Value.string.inj (Option.some_inj.1 (ht'.symm.trans hilk))
    refine ⟨hsaid, ?_⟩
    rcases hnext with ⟨hrot, hplain, rot, verfers, hfrom, hverfers, hsigs, happly⟩ |
      ⟨hixn, ixn, verfers, hfrom, hverfers, hsigs, happly⟩
    · obtain ⟨-, -, hprior, hkeys, bt, hbt, hle, rfl⟩ := KeyState.applyRotation_eq_ok.1 happly
      exact Or.inl ⟨hrot, hplain, rot, bt, hfrom, hprior.symm, ⟨verfers, hverfers, hsigs⟩, hkeys,
        hbt, hle, hrct⟩
    · obtain ⟨-, -, hprior, rfl⟩ := KeyState.applyInteraction_eq_ok.1 happly
      exact Or.inr ⟨hixn, ixn, hfrom, hprior.symm, ⟨verfers, hverfers, hsigs⟩, hrct⟩
  · intro h
    obtain ⟨hsaid, hkind⟩ := h
    rcases hkind with ⟨hrot, hplain, rot, bt, hfrom, hprior, ⟨verfers, hverfers, hsigs⟩, hkeys,
      hbt, hle, hrct⟩ | ⟨hixn, ixn, hfrom, hprior, ⟨verfers, hverfers, hsigs⟩, hrct⟩
    · obtain ⟨-, hi'', hs'', -⟩ := RotationEvent.fields hfrom
      obtain rfl := Value.string.inj (Option.some_inj.1 (hs'.symm.trans hs''))
      have hpfx' := Value.string.inj (Option.some_inj.1 (hi'.symm.trans hi''))
      have happly := KeyState.applyRotation_eq_ok.2 ⟨hnum, hpfx'.symm.trans hpfx.symm, hprior.symm,
        hkeys, bt, hbt, hle, rfl⟩
      exact ⟨_, ⟨hinc, hsaid, r.ilk, rot.sn, ht', hs', hnum,
        Or.inl ⟨hrot, hplain, rot, verfers, hfrom, hverfers, hsigs, happly⟩⟩, hrct⟩
    · obtain ⟨-, hi'', hs'', -⟩ := InteractionEvent.fields hfrom
      obtain rfl := Value.string.inj (Option.some_inj.1 (hs'.symm.trans hs''))
      have hpfx' := Value.string.inj (Option.some_inj.1 (hi'.symm.trans hi''))
      have happly := KeyState.applyInteraction_eq_ok.2 ⟨hnum, hpfx'.symm.trans hpfx.symm,
        hprior.symm, rfl⟩
      exact ⟨_, ⟨hinc, hsaid, r.ilk, ixn.sn, ht', hs', hnum,
        Or.inr ⟨hixn, ixn, verfers, hfrom, hverfers, hsigs, happly⟩⟩, hrct⟩

/-- An inception that passes has number zero. -/
theorem sn_of_new {s : Serder} {r : ProcessResult} {sigs : List Siger} {verfers : List Verfer}
    {k : Kever} (hheader : s.header = .ok r) (h : Kever.new X s sigs verfers = .ok k) :
    r.sn = 0 := by
  obtain ⟨-, -, hincept⟩ := Kever.new_eq_ok.1 h
  obtain ⟨icp, hicp, -, -, -, hstate, -⟩ := Kever.incept_eq_ok.1 hincept
  obtain ⟨hzero, -⟩ := KeyState.fromInception_eq_ok.1 hstate
  obtain ⟨-, hsn, -, -⟩ := Serder.header_eq_ok.1 hheader
  obtain ⟨text, hs, hnum⟩ := Serder.sn_eq_ok.1 hsn
  obtain ⟨-, -, hs'⟩ := InceptionEvent.fields hicp
  obtain rfl := Value.string.inj (Option.some_inj.1 (hs.symm.trans hs'))
  exact Option.some_inj.1 (hnum.symm.trans hzero)

/-- An inception of a new identifier that passes on its own is accepted exactly when it is
rightful. -/
theorem accepted_inception_iff {parsed : ParsedMessage} {r : ProcessResult} {prior : Option String}
    {verfers : List Verfer} {k : Kever} (hheader : parsed.serder.header = .ok r)
    (hilk : isInception r.ilk) (hverfers : verfersFromSerder X parsed.serder = .ok verfers)
    (hnew : Kever.new X parsed.serder (extractControllerSigs parsed.attachments) verfers = .ok k) :
    (∃ sigs k', AcceptedBy X none parsed r sigs k') ↔ Rightful X none prior parsed r := by
  constructor
  · intro hacc
    obtain ⟨sigs, k', hacc⟩ := hacc
    cases hacc with
    | @inception couples raw _ hhead hcollect _ _ hverify =>
        obtain ⟨hsaid, hright⟩ := (verifyInception_iff hverfers hnew).1 ⟨_, hverify⟩
        exact ⟨hsaid, couples, raw, hcollect, Or.inl ⟨hilk, hright⟩⟩
    | update _ _ _ hsome => cases hsome
  · intro hright
    obtain ⟨hsaid, couples, raw, hcollect, ⟨-, hright⟩ | ⟨_, hsome, -⟩⟩ := hright
    · obtain ⟨k', hverify⟩ := (verifyInception_iff hverfers hnew).2 ⟨hsaid, hright⟩
      exact ⟨_, k', .inception hheader hcollect hilk rfl hverify⟩
    · cases hsome

/-- An update of an identifier that is not known is neither accepted nor rightful. -/
theorem accepted_unknown_iff {parsed : ParsedMessage} {r : ProcessResult} {prior : Option String}
    (hilk : isUpdate r.ilk) :
    (∃ sigs k, AcceptedBy X none parsed r sigs k) ↔ Rightful X none prior parsed r := by
  have hicp : ¬ isInception r.ilk := fun hicp => not_isUpdate_of_isInception hicp hilk
  constructor
  · intro hacc
    obtain ⟨sigs, k', hacc⟩ := hacc
    cases hacc with
    | inception _ _ hilk' => exact absurd hilk' hicp
    | update _ _ _ hsome => cases hsome
  · intro hright
    obtain ⟨-, couples, raw, -, ⟨hilk', -⟩ | ⟨_, hsome, -⟩⟩ := hright
    · exact absurd hilk' hicp
    · cases hsome

/-- An update of a known identifier, at the number that comes next, is accepted exactly when it is
rightful. -/
theorem accepted_update_iff {parsed : ParsedMessage} {r : ProcessResult} {k : Kever}
    (hheader : parsed.serder.header = .ok r) (hilk : isUpdate r.ilk) (hinc : k.incepted = true)
    (hpfx : k.state.pfx = r.pfx) (hsn : r.sn = u64Succ k.state.sn) :
    (∃ sigs k', AcceptedBy X (some k) parsed r sigs k') ↔
      Rightful X (some k) (some k.state.lastEventDigest) parsed r := by
  have hicp : ¬ isInception r.ilk := fun hicp => not_isUpdate_of_isInception hicp hilk
  have hverify := verifyNext_iff (X := X) hheader hinc hpfx hsn
    (extractControllerSigs parsed.attachments)
  constructor
  · intro hacc
    obtain ⟨sigs, k', hacc⟩ := hacc
    cases hacc with
    | inception _ _ hilk' => exact absurd hilk' hicp
    | @update couples raw _ t _ hcollect _ hsome ht =>
        obtain rfl := Option.some_inj.1 hsome
        obtain ⟨hsaid, hright⟩ := (hverify couples).1 ⟨t, ht⟩
        exact ⟨hsaid, couples, raw, hcollect, Or.inr ⟨_, rfl, hright⟩⟩
  · intro hright
    obtain ⟨hsaid, couples, raw, hcollect, ⟨hilk', -⟩ | ⟨_, hsome, hright⟩⟩ := hright
    · exact absurd hilk' hicp
    · obtain rfl := Option.some_inj.1 hsome
      obtain ⟨t, ht⟩ := (hverify couples).2 ⟨hsaid, hright⟩
      exact ⟨_, _, .update hheader hcollect hilk rfl ht⟩

/-- **When an event that is detected would have been accepted.**  There is an event that was
admitted at its place; it would have been accepted in place of that one exactly when it is rightful,
which the trial verification does not ask. -/
theorem detected_accepted_iff {data : Bytes} {parsed : ParsedMessage} {size : ℕ}
    {r : ProcessResult} {e : DuplicityEvidence} {j : Judge}
    (hparse : parseNext X data = .ok (parsed, size)) (hheader : parsed.serder.header = .ok r)
    (h : Judge.process X disk data (runJudge X disk .empty msgs) =
      .ok (.duplicityDetected e) j) :
    (∃ pre first r₀ sigs₀ k₀, AdmittedAt X disk .empty msgs pre first r₀ sigs₀ k₀ ∧
      r₀.pfx = r.pfx ∧ r₀.sn = r.sn) ∧
    ∀ pre first r₀ sigs₀ k₀, AdmittedAt X disk .empty msgs pre first r₀ sigs₀ k₀ →
      r₀.pfx = r.pfx → r₀.sn = r.sn →
      ((∃ sigs k, AcceptedBy X ((runJudge X disk .empty pre).node.kevers.get r.pfx) parsed r
          sigs k) ↔
        Rightful X ((runJudge X disk .empty pre).node.kevers.get r.pfx)
          ((runJudge X disk .empty msgs).node.store.tables.fels.get (snKey r.pfx (r.sn - 1)))
          parsed r) := by
  rw [Judge.process_run hparse hheader] at h
  obtain ⟨-, -, -, -, htrial, existingSaid, event, hseen, -⟩ :=
    (Judge.processJudged_detected hheader).1 h
  rw [trialVerify_eq_ok] at htrial
  constructor
  · obtain ⟨pre, first, r₀, sigs₀, k₀, hfirst, hpfx, hsn, -⟩ :=
      exists_admittedAt (Serder.sn_lt (Serder.header_eq_ok.1 hheader).2.1) hseen
    exact ⟨pre, first, r₀, sigs₀, k₀, hfirst, hpfx, hsn⟩
  intro pre first r₀ sigs₀ k₀ hfirst hpfx hsn
  obtain ⟨n', hadmits⟩ := hfirst.admits
  obtain ⟨-, -, -, -, -, hkind⟩ := hadmits.accepted.advance
  rw [hpfx] at hkind
  rcases hkind with ⟨hnone, -, -, -⟩ | ⟨k₁, hk₁, -, hpfx₁, hsucc⟩
  · -- the first-seen event is the inception
    rw [hnone]
    rcases htrial with ⟨hilk, verfers, k, hverfers, hnew⟩ | ⟨hilk, -⟩
    · exact accepted_inception_iff hheader hilk hverfers hnew
    · exact accepted_unknown_iff hilk
  · -- the first-seen event is an update of `k₁`
    have htracks := tracks_runJudge .empty pre _ _ hk₁
    have hnext := hadmits.next (tracks_runJudge .empty pre) k₁ (hpfx ▸ hk₁)
    have hprior : (runJudge X disk .empty msgs).node.store.tables.fels.get
        (snKey r.pfx (r.sn - 1)) = some k₁.state.lastEventDigest := by
      obtain ⟨data', post, _, rfl, -, -⟩ := hfirst
      rw [runJudge_append]
      refine firstSeen_run _ ?_
      have hnum : r.sn - 1 = k₁.state.sn := by omega
      rw [hnum]
      exact htracks.last
    rw [hprior, hk₁]
    rcases htrial with ⟨-, verfers, k, -, hnew⟩ | ⟨hilk, -⟩
    · have hzero := sn_of_new hheader hnew
      omega
    · exact accepted_update_iff hheader hilk htracks.incepted hpfx₁ (hsn ▸ hsucc)

/-- A conflict that is detected, found by evaluating it. -/
theorem exists_detected {data : Bytes} (h : toyDetected data = true) :
    ∃ e j, Judge.process Toy.lib .sound data
      (runJudge Toy.lib .sound .empty [toyIcpMessage, toyIxnMessage]) =
      .ok (.duplicityDetected e) j := by
  obtain ⟨result, j, hrun, hresult⟩ := exists_run_of_okAnd h
  cases result with
  | accepted r => cases hresult
  | duplicateAccepted => cases hresult
  | duplicityDetected e => exact ⟨e, j, hrun⟩

/-- The event after none of the identifier, which would not have been accepted. -/
theorem exists_stray : ∃ parsed size r, parseNext Toy.lib toyStray = .ok (parsed, size) ∧
    parsed.serder.header = .ok r ∧ r.pfx = Toy.pfxOf Toy.icp ∧ r.sn = 1 ∧
    ¬ ∃ sigs k, AcceptedBy Toy.lib
      ((runJudge Toy.lib .sound .empty [toyIcpMessage]).node.kevers.get r.pfx) parsed r sigs k := by
  have hruns := toy_conflicts
  simp only [Bool.and_eq_true] at hruns
  obtain ⟨⟨parsed, size⟩, hparse, hread⟩ := exists_ok_of_any hruns.2.1
  rw [Bool.and_eq_true, Bool.not_eq_true'] at hread
  obtain ⟨hplace, hrefused⟩ := hread
  obtain ⟨r, hheader, hr⟩ := exists_ok_of_any hplace
  obtain ⟨hpfx, hsn⟩ := of_decide_eq_true hr
  refine ⟨parsed, size, r, hparse, hheader, hpfx, hsn, ?_⟩
  rintro ⟨sigs, k, hacc⟩
  rw [processParsed_accepted hacc] at hrefused
  cases hrefused

/-- Two interactions with one number, of which the second is rightful and would have been accepted;
and one after none of the identifier, which is not rightful. -/
theorem detected_accepted_toy :
    (∃ (parsed : ParsedMessage) (size : ℕ) (r : ProcessResult) (e : DuplicityEvidence) (j : Judge),
      parseNext Toy.lib toyOtherIxn = .ok (parsed, size) ∧
      Judge.process Toy.lib .sound toyOtherIxn
        (runJudge Toy.lib .sound .empty [toyIcpMessage, toyIxnMessage]) =
        .ok (.duplicityDetected e) j ∧
      Rightful Toy.lib ((runJudge Toy.lib .sound .empty [toyIcpMessage]).node.kevers.get r.pfx)
        ((runJudge Toy.lib .sound .empty
          [toyIcpMessage, toyIxnMessage]).node.store.tables.fels.get (snKey r.pfx (r.sn - 1)))
        parsed r) ∧
    ∃ (parsed : ParsedMessage) (size : ℕ) (r : ProcessResult) (e : DuplicityEvidence) (j : Judge),
      parseNext Toy.lib toyStray = .ok (parsed, size) ∧
      Judge.process Toy.lib .sound toyStray
        (runJudge Toy.lib .sound .empty [toyIcpMessage, toyIxnMessage]) =
        .ok (.duplicityDetected e) j ∧
      ¬ Rightful Toy.lib ((runJudge Toy.lib .sound .empty [toyIcpMessage]).node.kevers.get r.pfx)
        ((runJudge Toy.lib .sound .empty
          [toyIcpMessage, toyIxnMessage]).node.store.tables.fels.get (snKey r.pfx (r.sn - 1)))
        parsed r := by
  have hruns := toy_conflicts
  simp only [Bool.and_eq_true] at hruns
  obtain ⟨first, r₀, sigs₀, k₀, hfirst, hpfx₀, hsn₀, -⟩ := toyIxn_admitted
  constructor
  · obtain ⟨e, j, hrun⟩ := exists_detected hruns.1.1.2.2
    obtain ⟨parsed, size, r, sigs, k, hparse, hpfx, hsn, -, hacc⟩ := exists_conflict hruns.1.1.2.1
    exact ⟨parsed, size, r, e, j, hparse, hrun,
      ((detected_accepted_iff hparse hacc.header hrun).2 _ _ _ _ _ hfirst (hpfx₀.trans hpfx.symm)
        (hsn₀.trans hsn.symm)).1 ⟨sigs, k, hacc⟩⟩
  · obtain ⟨e, j, hrun⟩ := exists_detected hruns.2.2
    obtain ⟨parsed, size, r, hparse, hheader, hpfx, hsn, hrefused⟩ := exists_stray
    exact ⟨parsed, size, r, e, j, hparse, hrun, fun hright => hrefused
      (((detected_accepted_iff hparse hheader hrun).2 _ _ _ _ _ hfirst (hpfx₀.trans hpfx.symm)
        (hsn₀.trans hsn.symm)).2 hright)⟩

/-- **An identifier is accused falsely**, of an event that no one would have accepted: the event
before it is none of the identifier. -/
theorem accused_falsely :
    ¬ ∀ (X : Externals) (disk : Disk) (msgs : List Bytes) (data : Bytes) (parsed : ParsedMessage)
      (size : ℕ) (r : ProcessResult) (e : DuplicityEvidence) (j : Judge) (pre : List Bytes)
      (first : ParsedMessage) (r₀ : ProcessResult) (sigs₀ : Option Bytes) (k₀ : Kever),
      parseNext X data = .ok (parsed, size) → parsed.serder.header = .ok r →
      Judge.process X disk data (runJudge X disk .empty msgs) = .ok (.duplicityDetected e) j →
      AdmittedAt X disk .empty msgs pre first r₀ sigs₀ k₀ → r₀.pfx = r.pfx → r₀.sn = r.sn →
      ∃ sigs k, AcceptedBy X ((runJudge X disk .empty pre).node.kevers.get r.pfx) parsed r sigs
        k := by
  intro hclaim
  have hruns := toy_conflicts
  simp only [Bool.and_eq_true] at hruns
  obtain ⟨parsed, size, r, hparse, hheader, hpfx, hsn, hrefused⟩ := exists_stray
  obtain ⟨e, j, hrun⟩ := exists_detected hruns.2.2
  obtain ⟨first, r₀, sigs₀, k₀, hfirst, hpfx₀, hsn₀, -⟩ := toyIxn_admitted
  exact hrefused (hclaim _ _ _ _ _ _ _ _ _ _ _ _ _ _ hparse hheader hrun hfirst
    (hpfx₀.trans hpfx.symm) (hsn₀.trans hsn.symm))

end Keri
