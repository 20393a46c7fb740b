/-
**The judge.**

A judge processes messages in direct mode and enforces the first-seen policy: an event with another
SAID than the one first seen at its identifier and sequence number is not processed but verified on
its own, and if it passes, the identifier is flagged for good.

* `Keri.Judge`, `Keri.Judge.process` — the judge and what it does with a message;
* `Keri.Judge.trialVerify` — **the verification of a conflicting event**;
* `Keri.Judge.recordDuplicity` — the evidence log and its caps;
* `Keri.Judge.processJudged_detected` — **when a conflict is reported**;
* `Keri.stepJudge_cases` — **what a message can do to the logs and the verifiers**: an event that is
  accepted is logged where nothing was seen before, and anything else leaves them alone;
* `Keri.stepJudge_evidence`, `Keri.stepJudge_flags` — what it can do to the evidence;
* `Keri.process_of_accepted` — an event that is accepted is reported so.
-/

import Keri.Direct

set_option relaxedAutoImplicit false
set_option autoImplicit false

namespace Keri

open Outcome Machine

/-! ### The judge -/

/-- The trust verdict for an identifier. -/
inductive Verdict where
  | trusted
  | duplicitous
  | unknown
  deriving DecidableEq, Repr

/-- Two different events at one identifier and sequence number. -/
structure DuplicityEvidence where
  pfx : String
  sn : ℕ
  firstSeenSaid : String
  duplicitousSaid : String
  firstSeenEvent : Bytes
  duplicitousEvent : Bytes
  deriving DecidableEq, Repr

/-- The result of submitting a message. -/
inductive JudgeResult where
  | accepted (r : ProcessResult)
  | duplicateAccepted
  | duplicityDetected (e : DuplicityEvidence)
  deriving DecidableEq, Repr

/-- Maximum number of evidence entries per identifier, and in all. -/
def maxDelPerPrefix : ℕ := 100

def maxDelTotal : ℕ := 10000

/-- The store and the verifiers, the flagged identifiers and the evidence against them. -/
structure Judge where
  node : Node
  flagged : Finset String
  del : List DuplicityEvidence

namespace Judge

/-- A judge over a store. -/
def new (store : Store) : Judge := { node := { store, kevers := .empty }, flagged := ∅, del := [] }

/-- The verdict for an identifier. -/
def verdict (j : Judge) (pfx : String) : Verdict :=
  if pfx ∈ j.flagged then .duplicitous
  else if (j.node.kevers.get pfx).isSome then .trusted
  else .unknown

/-- Whether an identifier has been flagged. -/
def isDuplicitous (j : Judge) (pfx : String) : Bool := decide (pfx ∈ j.flagged)

theorem isDuplicitous_iff {j : Judge} {pfx : String} :
    j.isDuplicitous pfx = true ↔ pfx ∈ j.flagged := decide_eq_true_iff

/-- The evidence against an identifier. -/
def evidenceFor (j : Judge) (pfx : String) : List DuplicityEvidence := j.del.filter (·.pfx = pfx)

def onNode {α : Type} (x : EStateM KeriError Node α) : EStateM KeriError Judge α :=
  zoom Judge.node (fun n j => { j with node := n }) id x

/-- Flag an identifier, and keep the evidence unless there is too much of it. -/
def recordDuplicity (e : DuplicityEvidence) (j : Judge) : Judge :=
  let j := { j with flagged := insert e.pfx j.flagged }
  if maxDelTotal ≤ j.del.length then j
  else if maxDelPerPrefix ≤ j.del.countP (·.pfx = e.pfx) then j
  else { j with del := j.del ++ [e] }

variable (X : Externals) (disk : Disk)

/-- Verify a conflicting event without committing to it: an inception on its own, an update by its
signatures under the current keys. -/
def trialVerify (kevers : Table String Kever) (r : ProcessResult) (s : Serder)
    (sigs : List Siger) : Except KeriError Unit :=
  if isInception r.ilk then do
    let verfers ← verfersFromSerder X s
    let _ ← (Kever.new X s sigs verfers).mapError KeriError.core
    pure ⟨⟩
  else if isUpdate r.ilk then
    match kevers.get r.pfx with
    | some kever => do
        let _ ← (kever.verifySigs X s.raw sigs).mapError KeriError.core
        pure ⟨⟩
    | none => .error (.notFound s!"no kever for prefix {r.pfx}")
  else .error (.config s!"unexpected ilk for duplicity check: {r.ilk}")

/-- Verify a conflicting event and, if it passes, record the duplicity. -/
def verifyForDuplicity (parsed : ParsedMessage) (existingSaid : String) :
    EStateM KeriError Judge JudgeResult := do
  let r ← lift (parsed.serder.header.mapError KeriError.core)
  let sigs := extractControllerSigs parsed.attachments
  let judge ← get
  lift (trialVerify X judge.node.kevers r parsed.serder sigs)
  let stored ← onNode (Node.onStore (Store.getEvent disk existingSaid))
  let firstSeenEvent ← lift (okOr stored
    (KeriError.notFound s!"first-seen event {existingSaid} missing from store"))
  let evidence : DuplicityEvidence :=
    { pfx := r.pfx, sn := r.sn, firstSeenSaid := existingSaid, duplicitousSaid := r.said,
      firstSeenEvent, duplicitousEvent := parsed.serder.raw }
  modify (recordDuplicity evidence)
  pure (.duplicityDetected evidence)

/-- Process a message that has been parsed. -/
def processJudged (parsed : ParsedMessage) (r : ProcessResult) :
    EStateM KeriError Judge JudgeResult :=
  if r.ilk = "rct" then do
    let result ← onNode (processParsed X disk parsed)
    pure (.accepted result)
  else do
    let judge ← get
    if r.pfx ∈ judge.flagged then
      throw (.core (.validation
        s!"prefix '{r.pfx}' is duplicitous — refusing further events"))
    let firstSeen ← onNode (Node.onStore (Store.getFirstSeen disk r.pfx r.sn))
    match firstSeen with
    | none => do
        let result ← onNode (processParsed X disk parsed)
        pure (.accepted result)
    | some existingSaid =>
        if existingSaid = r.said then pure .duplicateAccepted
        else verifyForDuplicity X disk parsed existingSaid

/-- Process the first message of a stream under the first-seen policy. -/
def process (data : Bytes) : EStateM KeriError Judge JudgeResult := do
  let (parsed, _) ← lift ((parseNext X data).mapError KeriError.core)
  let r ← lift (parsed.serder.header.mapError KeriError.core)
  processJudged X disk parsed r

end Judge

/-! ### What a message can do -/

variable (X : Externals) (disk : Disk)

/-- The judge after a message, whatever came of it. -/
def stepJudge (j : Judge) (data : Bytes) : Judge := stateAfter (Judge.process X disk data j)

/-- An event that is verified and logged where nothing had been seen before. -/
structure AdmitsFirst (n : Node) (parsed : ParsedMessage) (r : ProcessResult)
    (sigs : Option Bytes) (k : Kever) (n' : Node) : Prop where
  accepted : AcceptedBy X (n.kevers.get r.pfx) parsed r sigs k
  unseen : n.store.tables.fels.get (snKey r.pfx r.sn) = none
  tables : n'.store.tables = n.store.tables.putLogged r.said parsed.serder.raw r.pfx r.sn sigs
  kevers : n'.kevers = n.kevers.put r.pfx k

/-- Nothing is admitted: the verifiers and the logs are as they were, and no event has been lost. -/
structure Quiet (n n' : Node) : Prop where
  kevers : n'.kevers = n.kevers
  kels : n'.store.tables.kels = n.store.tables.kels
  fels : n'.store.tables.fels = n.store.tables.fels
  evts : ∀ said, (n.store.tables.evts.get said).isSome → (n'.store.tables.evts.get said).isSome

variable {X disk} {j : Judge}

theorem Quiet.refl (n : Node) : Quiet n n := ⟨rfl, rfl, rfl, fun _ h => h⟩

theorem Quiet.trans {n n' n'' : Node} (h : Quiet n n') (h' : Quiet n' n'') : Quiet n n'' :=
  ⟨h'.kevers.trans h.kevers, h'.kels.trans h.kels, h'.fels.trans h.fels,
    fun said hsaid => h'.evts said (h.evts said hsaid)⟩

theorem Unlogged.quiet {parsed : ParsedMessage} {n n' : Node} (h : Unlogged X disk parsed n n') :
    Quiet n n' := by
  refine ⟨h.kevers, h.kels, h.fels, fun said hsaid => ?_⟩
  rcases h.evts with hevts | ⟨r, -, hevts⟩
  · rw [hevts]
    exact hsaid
  · rw [hevts]
    exact Table.get_put_isSome hsaid _ _

/-- A call of the store that reads. -/
theorem quiet_read {α : Type} (f : Tables → α) (n : Node) :
    Quiet n (stateAfter (Node.onStore (Store.read disk f) n)) := by
  cases hdisk : disk n.store.calls with
  | none =>
      have hread : Node.onStore (Store.read disk f) n = .ok (f n.store.tables)
          { n with store := { n.store with calls := n.store.calls + 1 } } :=
        zoom_run_ok.2 ⟨_, Store.read_ok.2 ⟨hdisk, rfl, rfl⟩, rfl⟩
      rw [hread]
      exact ⟨rfl, rfl, rfl, fun _ h => h⟩
  | some e =>
      have hread : Node.onStore (Store.read disk f) n = .error (.db e)
          { n with store := { n.store with calls := n.store.calls + 1 } } :=
        zoom_run_error.2 ⟨e, _, Store.read_error.2 ⟨hdisk, rfl⟩, rfl, rfl⟩
      rw [hread]
      exact ⟨rfl, rfl, rfl, fun _ h => h⟩

namespace Judge

@[simp] theorem recordDuplicity_node (e : DuplicityEvidence) (j : Judge) :
    (j.recordDuplicity e).node = j.node := by
  simp only [recordDuplicity]
  split
  · rfl
  · split <;> rfl

@[simp] theorem recordDuplicity_flagged (e : DuplicityEvidence) (j : Judge) :
    (j.recordDuplicity e).flagged = insert e.pfx j.flagged := by
  simp only [recordDuplicity]
  split
  · rfl
  · split <;> rfl

theorem stateAfter_onNode {α : Type} (x : EStateM KeriError Node α) :
    stateAfter (onNode x j) = { j with node := stateAfter (x j.node) } := by
  unfold onNode zoom
  cases h : x j.node <;> rfl

/-- The relation that trial verification stays in. -/
abbrev Still (j j' : Judge) : Prop := Quiet j.node j'.node

theorem still_trans (j j' j'' : Judge) (h : Still j j') (h' : Still j' j'') : Still j j'' :=
  h.trans h'

theorem keeps_still_lift {α : Type} (x : Except KeriError α) :
    Keeps Still (lift x : EStateM KeriError Judge α) :=
  Keeps.lift (fun j => Quiet.refl j.node) x

theorem keeps_still_read {α : Type} (f : Tables → α) :
    Keeps Still (onNode (Node.onStore (Store.read disk f))) := by
  intro j
  rw [stateAfter_onNode]
  exact quiet_read f j.node

variable (X disk) in
/-- **A conflicting event admits nothing.** -/
theorem verifyForDuplicity_still (parsed : ParsedMessage) (existingSaid : String) :
    Keeps Still (verifyForDuplicity X disk parsed existingSaid) := by
  unfold verifyForDuplicity
  refine Keeps.bind still_trans (keeps_still_lift _) fun r => ?_
  refine Keeps.bind still_trans (fun j => Quiet.refl j.node) fun judge => ?_
  refine Keeps.bind still_trans (keeps_still_lift _) fun _ => ?_
  refine Keeps.bind still_trans (keeps_still_read _) fun stored => ?_
  refine Keeps.bind still_trans (keeps_still_lift _) fun event => ?_
  refine Keeps.bind still_trans (fun j => ?_) fun _ => fun j => Quiet.refl j.node
  rw [modify_run, stateAfter_ok]
  unfold Still
  rw [recordDuplicity_node]
  exact Quiet.refl j.node

variable (X disk) in
/-- A message that reaches `processParsed`: admitted or not. -/
theorem processParsed_cases (n : Node) (parsed : ParsedMessage) :
    Quiet n (stateAfter (processParsed X disk parsed n)) ∨
      ∃ r sigs k, Logs X disk n parsed r sigs k ∧
        stateAfter (processParsed X disk parsed n) = n.logged r parsed.serder.raw sigs k := by
  by_cases h : ∃ r sigs k, Logs X disk n parsed r sigs k
  · obtain ⟨r, sigs, k, hlogs⟩ := h
    refine Or.inr ⟨r, sigs, k, hlogs, ?_⟩
    rw [processParsed_logs hlogs, stateAfter_ok]
  · exact Or.inl (processParsed_unlogged fun r sigs k hlogs => h ⟨r, sigs, k, hlogs⟩).quiet

/-- What is left of a run after the message has been read. -/
theorem process_run {data : Bytes} {parsed : ParsedMessage} {size : ℕ} {r : ProcessResult}
    (hparse : parseNext X data = .ok (parsed, size)) (hheader : parsed.serder.header = .ok r) :
    process X disk data j = processJudged X disk parsed r j := by
  have hread : lift ((parseNext X data).mapError KeriError.core) j =
      EStateM.Result.ok (parsed, size) j := lift_run_ok.2 ⟨mapError_eq_ok.2 hparse, rfl⟩
  have hr : lift (parsed.serder.header.mapError KeriError.core) j =
      EStateM.Result.ok r j := lift_run_ok.2 ⟨mapError_eq_ok.2 hheader, rfl⟩
  unfold process
  rw [bind_run_of_ok hread]
  simp only
  rw [bind_run_of_ok hr]

variable (X disk j) in
/-- A message that cannot be read is refused and changes nothing. -/
theorem process_unread {data : Bytes}
    (h : ∀ parsed size r, parseNext X data = .ok (parsed, size) →
      parsed.serder.header ≠ .ok r) : ∃ e, process X disk data j = .error e j := by
  unfold process
  cases hparse : parseNext X data with
  | error e => exact ⟨.core e, rfl⟩
  | ok p =>
      cases hheader : p.1.serder.header with
      | error e =>
          have hread : lift ((Except.ok p : Except CoreError _).mapError KeriError.core) j =
              EStateM.Result.ok p j := rfl
          rw [bind_run_of_ok hread]
          simp only
          rw [hheader]
          exact ⟨.core e, rfl⟩
      | ok r => exact absurd hheader (h p.1 p.2 r hparse)

/-- A message that gives a result has been read. -/
theorem process_eq_ok {data : Bytes} {result : JudgeResult} {j' : Judge} :
    process X disk data j = .ok result j' ↔ ∃ parsed size r,
      parseNext X data = .ok (parsed, size) ∧ parsed.serder.header = .ok r ∧
      processJudged X disk parsed r j = .ok result j' := by
  constructor
  · intro h
    by_cases hread : ∃ parsed size r, parseNext X data = .ok (parsed, size) ∧
        parsed.serder.header = .ok r
    · obtain ⟨parsed, size, r, hparse, hheader⟩ := hread
      rw [process_run hparse hheader] at h
      exact ⟨parsed, size, r, hparse, hheader, h⟩
    · obtain ⟨e, he⟩ := process_unread X disk j fun parsed size r hparse hheader =>
        hread ⟨parsed, size, r, hparse, hheader⟩
      rw [he] at h
      cases h
  · intro h
    obtain ⟨parsed, size, r, hparse, hheader, h⟩ := h
    rw [process_run hparse hheader]
    exact h

/-- The judge after one more call of the store. -/
def called (j : Judge) : Judge := { j with node.store.calls := j.node.store.calls + 1 }

variable {parsed : ParsedMessage} {r : ProcessResult}

theorem processJudged_rct (hrct : r.ilk = "rct") :
    processJudged X disk parsed r j = (onNode (processParsed X disk parsed) >>= fun result =>
      pure (JudgeResult.accepted result)) j := by
  unfold processJudged
  rw [if_pos hrct]

variable (X disk parsed) in
theorem processJudged_flagged (hrct : r.ilk ≠ "rct") (hflag : r.pfx ∈ j.flagged) :
    ∃ e, processJudged X disk parsed r j = .error e j := by
  unfold processJudged
  rw [if_neg hrct, bind_run_of_ok get_run, if_pos hflag]
  exact ⟨_, bind_run_of_error throw_run⟩

theorem processJudged_fault (hrct : r.ilk ≠ "rct") (hflag : r.pfx ∉ j.flagged) {e : DbError}
    (hdisk : disk j.node.store.calls = some e) :
    processJudged X disk parsed r j = .error (.db e) j.called := by
  have hread : onNode (Node.onStore (Store.getFirstSeen disk r.pfx r.sn)) j =
      .error (.db e) j.called :=
    zoom_run_error.2 ⟨_, _, zoom_run_error.2 ⟨e, _, Store.read_error.2 ⟨hdisk, rfl⟩, rfl, rfl⟩,
      rfl, rfl⟩
  unfold processJudged
  rw [if_neg hrct, bind_run_of_ok get_run, if_neg hflag]
  exact bind_run_of_error hread

/-- What follows depends on what has been seen at the place of the message. -/
theorem processJudged_seen (hrct : r.ilk ≠ "rct") (hflag : r.pfx ∉ j.flagged)
    (hdisk : disk j.node.store.calls = none) :
    processJudged X disk parsed r j =
      match j.node.store.tables.fels.get (snKey r.pfx r.sn) with
      | none => (onNode (processParsed X disk parsed) >>= fun result =>
          pure (JudgeResult.accepted result)) j.called
      | some existingSaid =>
          if existingSaid = r.said then .ok .duplicateAccepted j.called
          else verifyForDuplicity X disk parsed existingSaid j.called := by
  have hread : onNode (Node.onStore (Store.getFirstSeen disk r.pfx r.sn)) j =
      .ok (j.node.store.tables.fels.get (snKey r.pfx r.sn)) j.called :=
    zoom_run_ok.2 ⟨_, zoom_run_ok.2 ⟨_, Store.read_ok.2 ⟨hdisk, rfl, rfl⟩, rfl⟩, rfl⟩
  unfold processJudged
  rw [if_neg hrct, bind_run_of_ok get_run, if_neg hflag]
  refine (bind_run_of_ok hread).trans ?_
  cases j.node.store.tables.fels.get (snKey r.pfx r.sn) with
  | none => rfl
  | some existingSaid =>
      simp only
      split
      · rfl
      · rfl

variable (X disk j) in
/-- An event at a place where nothing was seen is admitted, or nothing is. -/
theorem accept_cases {n : Node} (hheader : parsed.serder.header = .ok r)
    (hnode : j.node.kevers = n.kevers)
    (htables : j.node.store.tables = n.store.tables)
    (hunseen : n.store.tables.fels.get (snKey r.pfx r.sn) = none) :
    Quiet n (stateAfter ((onNode (processParsed X disk parsed) >>= fun result =>
        pure (JudgeResult.accepted result)) j)).node ∨
      ∃ sigs k, AdmitsFirst X n parsed r sigs k (stateAfter ((onNode (processParsed X disk parsed)
        >>= fun result => pure (JudgeResult.accepted result)) j)).node := by
  rw [stateAfter_bind_pure, stateAfter_onNode]
  rcases processParsed_cases X disk j.node parsed with hquiet |
    ⟨r', sigs, k, hlogs, hafter⟩
  · left
    have hstart : Quiet n j.node := by
      refine ⟨hnode, by rw [htables], by rw [htables], fun said hsaid => ?_⟩
      rw [htables]
      exact hsaid
    exact hstart.trans hquiet
  · right
    obtain rfl := Except.ok.inj (hheader.symm.trans hlogs.1.header)
    simp only [hafter]
    refine ⟨sigs, k, ?_, hunseen, ?_, ?_⟩
    · rw [← hnode]
      exact hlogs.1
    · rw [← htables]
      rfl
    · rw [← hnode]
      rfl

variable (X disk j) in
/-- A message of the judge, by what the first-seen log says. -/
theorem processJudged_cases (hheader : parsed.serder.header = .ok r) :
    Quiet j.node (stateAfter (processJudged X disk parsed r j)).node ∨
      r.pfx ∉ j.flagged ∧ ∃ sigs k, AdmitsFirst X j.node parsed r sigs k
        (stateAfter (processJudged X disk parsed r j)).node := by
  have hcalled : Quiet j.node j.called.node := ⟨rfl, rfl, rfl, fun _ h => h⟩
  by_cases hrct : r.ilk = "rct"
  · -- a receipt is not an event that can be admitted
    rw [processJudged_rct hrct, stateAfter_bind_pure, stateAfter_onNode]
    rcases processParsed_cases X disk j.node parsed with hquiet | ⟨r', sigs, k, hlogs, -⟩
    · exact Or.inl hquiet
    · obtain rfl := Except.ok.inj (hheader.symm.trans hlogs.1.header)
      exact absurd hrct hlogs.1.ilk_ne_rct
  · by_cases hflag : r.pfx ∈ j.flagged
    · obtain ⟨e, he⟩ := processJudged_flagged X disk parsed hrct hflag
      rw [he]
      exact Or.inl (Quiet.refl j.node)
    · cases hdisk : disk j.node.store.calls with
      | some e =>
          rw [processJudged_fault hrct hflag hdisk]
          exact Or.inl hcalled
      | none =>
          rw [processJudged_seen hrct hflag hdisk]
          cases hseen : j.node.store.tables.fels.get (snKey r.pfx r.sn) with
          | none =>
              rcases accept_cases X disk j.called (n := j.node) hheader rfl rfl hseen with
                hquiet | hadmits
              · exact Or.inl hquiet
              · exact Or.inr ⟨hflag, hadmits⟩
          | some existingSaid =>
              left
              simp only
              split
              · exact hcalled
              · exact hcalled.trans (verifyForDuplicity_still X disk parsed existingSaid j.called)

/-! ### What a message returns -/

/-- The evidence that `parsed` conflicts with the event first seen at its place. -/
def evidence (parsed : ParsedMessage) (r : ProcessResult) (existingSaid : String)
    (firstSeenEvent : Bytes) : DuplicityEvidence :=
  { pfx := r.pfx, sn := r.sn, firstSeenSaid := existingSaid, duplicitousSaid := r.said,
    firstSeenEvent, duplicitousEvent := parsed.serder.raw }

theorem verifyForDuplicity_eq_ok {existingSaid : String} {result : JudgeResult} {j' : Judge}
    (hheader : parsed.serder.header = .ok r) :
    verifyForDuplicity X disk parsed existingSaid j = .ok result j' ↔
      trialVerify X j.node.kevers r parsed.serder (extractControllerSigs parsed.attachments) =
        .ok ⟨⟩ ∧ disk j.node.store.calls = none ∧
      ∃ event, j.node.store.tables.evts.get existingSaid = some event ∧
        result = .duplicityDetected (evidence parsed r existingSaid event) ∧
        j' = j.called.recordDuplicity (evidence parsed r existingSaid event) := by
  have hr : lift (parsed.serder.header.mapError KeriError.core) j =
      EStateM.Result.ok r j := lift_run_ok.2 ⟨mapError_eq_ok.2 hheader, rfl⟩
  unfold verifyForDuplicity
  rw [bind_run_of_ok hr]
  simp only
  rw [bind_run_of_ok get_run]
  constructor
  · intro h
    obtain ⟨⟨⟩, j₁, hverify, hrest⟩ := bind_run_ok.1 h
    obtain ⟨htrial, rfl⟩ := lift_run_ok.1 hverify
    obtain ⟨stored, j₂, hread, hlast⟩ := bind_run_ok.1 hrest
    obtain ⟨n, hnode, rfl⟩ := zoom_run_ok.1 hread
    obtain ⟨t, hstore, rfl⟩ := zoom_run_ok.1 hnode
    obtain ⟨hdisk, rfl, rfl⟩ := Store.read_ok.1 hstore
    obtain ⟨event, j₃, hevent, hend⟩ := bind_run_ok.1 hlast
    obtain ⟨hsome, rfl⟩ := lift_run_ok.1 hevent
    obtain ⟨rfl, rfl⟩ := EStateM.Result.ok.inj hend
    exact ⟨htrial, hdisk, event, okOr_eq_ok.1 hsome, rfl, rfl⟩
  · intro h
    obtain ⟨htrial, hdisk, event, hevent, rfl, rfl⟩ := h
    have hread : onNode (Node.onStore (Store.getEvent disk existingSaid)) j =
        .ok (some event) j.called := by
      rw [← hevent]
      exact zoom_run_ok.2 ⟨_, zoom_run_ok.2 ⟨_, Store.read_ok.2 ⟨hdisk, rfl, rfl⟩, rfl⟩, rfl⟩
    rw [bind_run_of_ok (lift_run_ok.2 ⟨htrial, rfl⟩), bind_run_of_ok hread]
    rfl

/-- **When a conflict is reported.** -/
theorem processJudged_detected {e : DuplicityEvidence} {j' : Judge}
    (hheader : parsed.serder.header = .ok r) :
    processJudged X disk parsed r j = .ok (.duplicityDetected e) j' ↔
      r.ilk ≠ "rct" ∧ r.pfx ∉ j.flagged ∧ disk j.node.store.calls = none ∧
      disk (j.node.store.calls + 1) = none ∧
      trialVerify X j.node.kevers r parsed.serder (extractControllerSigs parsed.attachments) =
        .ok ⟨⟩ ∧
      ∃ existingSaid event, j.node.store.tables.fels.get (snKey r.pfx r.sn) = some existingSaid ∧
        existingSaid ≠ r.said ∧ j.node.store.tables.evts.get existingSaid = some event ∧
        e = evidence parsed r existingSaid event ∧ j' = j.called.called.recordDuplicity e := by
  constructor
  · intro h
    by_cases hrct : r.ilk = "rct"
    · rw [processJudged_rct hrct] at h
      obtain ⟨_, _, -, h⟩ := bind_run_ok.1 h
      cases h
    by_cases hflag : r.pfx ∈ j.flagged
    · obtain ⟨_, herror⟩ := processJudged_flagged X disk parsed hrct hflag
      rw [herror] at h
      cases h
    cases hdisk : disk j.node.store.calls with
    | some _ =>
        rw [processJudged_fault hrct hflag hdisk] at h
        cases h
    | none =>
        rw [processJudged_seen hrct hflag hdisk] at h
        cases hseen : j.node.store.tables.fels.get (snKey r.pfx r.sn) with
        | none =>
            rw [hseen] at h
            obtain ⟨_, _, -, h⟩ := bind_run_ok.1 h
            cases h
        | some existingSaid =>
            rw [hseen] at h
            simp only at h
            split at h
            · cases h
            · rename_i hne
              obtain ⟨htrial, hdisk', event, hevent, he, rfl⟩ :=
                (verifyForDuplicity_eq_ok hheader).1 h
              obtain rfl := JudgeResult.duplicityDetected.inj he
              exact ⟨hrct, hflag, rfl, hdisk', htrial, existingSaid, event, rfl, hne, hevent, rfl,
                rfl⟩
  · intro h
    obtain ⟨hrct, hflag, hdisk, hdisk', htrial, existingSaid, event, hseen, hne, hevent, rfl,
      rfl⟩ := h
    rw [processJudged_seen hrct hflag hdisk, hseen]
    simp only [if_neg hne]
    exact (verifyForDuplicity_eq_ok hheader).2 ⟨htrial, hdisk', event, hevent, rfl, rfl⟩

/-- When a message is taken for a replay. -/
theorem processJudged_duplicate {j' : Judge} (hheader : parsed.serder.header = .ok r) :
    processJudged X disk parsed r j = .ok .duplicateAccepted j' ↔
      r.ilk ≠ "rct" ∧ r.pfx ∉ j.flagged ∧ disk j.node.store.calls = none ∧
      j.node.store.tables.fels.get (snKey r.pfx r.sn) = some r.said ∧ j' = j.called := by
  constructor
  · intro h
    by_cases hrct : r.ilk = "rct"
    · rw [processJudged_rct hrct] at h
      obtain ⟨_, _, -, h⟩ := bind_run_ok.1 h
      cases h
    by_cases hflag : r.pfx ∈ j.flagged
    · obtain ⟨_, herror⟩ := processJudged_flagged X disk parsed hrct hflag
      rw [herror] at h
      cases h
    cases hdisk : disk j.node.store.calls with
    | some _ =>
        rw [processJudged_fault hrct hflag hdisk] at h
        cases h
    | none =>
        rw [processJudged_seen hrct hflag hdisk] at h
        cases hseen : j.node.store.tables.fels.get (snKey r.pfx r.sn) with
        | none =>
            rw [hseen] at h
            obtain ⟨_, _, -, h⟩ := bind_run_ok.1 h
            cases h
        | some existingSaid =>
            rw [hseen] at h
            simp only at h
            split at h
            · rename_i hsame
              obtain ⟨-, rfl⟩ := EStateM.Result.ok.inj h
              exact ⟨hrct, hflag, rfl, by rw [hsame], rfl⟩
            · obtain ⟨-, -, event, -, he, -⟩ := (verifyForDuplicity_eq_ok hheader).1 h
              cases he
  · intro h
    obtain ⟨hrct, hflag, hdisk, hseen, rfl⟩ := h
    rw [processJudged_seen hrct hflag hdisk, hseen]
    simp only [if_true]

/-- When a message is reported as accepted: a receipt, or a message at a place where nothing was
seen. -/
theorem processJudged_accepted {r' : ProcessResult} {j' : Judge}
    (hheader : parsed.serder.header = .ok r)
    (h : processJudged X disk parsed r j = .ok (.accepted r') j') :
    ∃ start, (start = j ∨ start = j.called) ∧
      processParsed X disk parsed start.node = .ok r' j'.node ∧
      (r.ilk = "rct" ∨ j.node.store.tables.fels.get (snKey r.pfx r.sn) = none) := by
  have htaken : ∀ start : Judge, (onNode (processParsed X disk parsed) >>= fun result =>
      pure (JudgeResult.accepted result)) start = .ok (.accepted r') j' →
      processParsed X disk parsed start.node = .ok r' j'.node := by
    intro start h
    obtain ⟨result, j₁, hrun, hend⟩ := bind_run_ok.1 h
    obtain ⟨n, hnode, rfl⟩ := zoom_run_ok.1 hrun
    obtain ⟨heq, rfl⟩ := EStateM.Result.ok.inj hend
    obtain rfl := JudgeResult.accepted.inj heq
    exact hnode
  by_cases hrct : r.ilk = "rct"
  · rw [processJudged_rct hrct] at h
    exact ⟨j, Or.inl rfl, htaken j h, Or.inl hrct⟩
  by_cases hflag : r.pfx ∈ j.flagged
  · obtain ⟨_, herror⟩ := processJudged_flagged X disk parsed hrct hflag
    rw [herror] at h
    cases h
  cases hdisk : disk j.node.store.calls with
  | some _ =>
      rw [processJudged_fault hrct hflag hdisk] at h
      cases h
  | none =>
      rw [processJudged_seen hrct hflag hdisk] at h
      cases hseen : j.node.store.tables.fels.get (snKey r.pfx r.sn) with
      | none =>
          rw [hseen] at h
          exact ⟨j.called, Or.inr rfl, htaken j.called h, Or.inr rfl⟩
      | some existingSaid =>
          rw [hseen] at h
          simp only at h
          split at h
          · cases h
          · obtain ⟨-, -, event, -, he, -⟩ := (verifyForDuplicity_eq_ok hheader).1 h
            cases he

end Judge

variable (X disk) in
/-- **What a message can do to the logs and the verifiers.** -/
theorem stepJudge_cases (j : Judge) (data : Bytes) :
    Quiet j.node (stepJudge X disk j data).node ∨
      ∃ parsed size r sigs k, parseNext X data = .ok (parsed, size) ∧ r.pfx ∉ j.flagged ∧
        AdmitsFirst X j.node parsed r sigs k (stepJudge X disk j data).node := by
  unfold stepJudge
  by_cases hread : ∃ parsed size r, parseNext X data = .ok (parsed, size) ∧
      parsed.serder.header = .ok r
  · obtain ⟨parsed, size, r, hparse, hheader⟩ := hread
    rw [Judge.process_run hparse hheader]
    rcases Judge.processJudged_cases X disk j hheader with hquiet | ⟨hflag, sigs, k, hadmits⟩
    · exact Or.inl hquiet
    · exact Or.inr ⟨parsed, size, r, sigs, k, hparse, hflag, hadmits⟩
  · obtain ⟨e, he⟩ := Judge.process_unread X disk j fun parsed size r hparse hheader =>
      hread ⟨parsed, size, r, hparse, hheader⟩
    rw [he]
    exact Or.inl (Quiet.refl j.node)

namespace Judge

variable {parsed : ParsedMessage} {r : ProcessResult}

/-- A conflict that is not reported is not recorded either. -/
theorem verifyForDuplicity_error {existingSaid : String} {e : KeriError} {j' : Judge}
    (h : verifyForDuplicity X disk parsed existingSaid j = .error e j') :
    j'.flagged = j.flagged ∧ j'.del = j.del := by
  unfold verifyForDuplicity at h
  rcases bind_run_error.1 h with hfail | ⟨r, j₁, hread, hrest⟩
  · obtain ⟨-, rfl⟩ := lift_run_error.1 hfail
    exact ⟨rfl, rfl⟩
  obtain ⟨-, rfl⟩ := lift_run_ok.1 hread
  simp only at hrest
  rw [bind_run_of_ok get_run] at hrest
  rcases bind_run_error.1 hrest with hfail | ⟨_, j₂, htrial, hstored⟩
  · obtain ⟨-, rfl⟩ := lift_run_error.1 hfail
    exact ⟨rfl, rfl⟩
  obtain ⟨-, rfl⟩ := lift_run_ok.1 htrial
  rcases bind_run_error.1 hstored with hfail | ⟨stored, j₃, hcall, hevent⟩
  · obtain ⟨_, n, -, -, rfl⟩ := zoom_run_error.1 hfail
    exact ⟨rfl, rfl⟩
  obtain ⟨n, -, rfl⟩ := zoom_run_ok.1 hcall
  rcases bind_run_error.1 hevent with hfail | ⟨event, j₄, hsome, hend⟩
  · obtain ⟨-, rfl⟩ := lift_run_error.1 hfail
    exact ⟨rfl, rfl⟩
  cases hend

variable (X disk j parsed r) in
/-- **What a message can do to the evidence**: nothing, unless it is a conflict of an identifier
that is not flagged yet, which is then recorded. -/
theorem processJudged_evidence (hheader : parsed.serder.header = .ok r) :
    ((stateAfter (processJudged X disk parsed r j)).flagged = j.flagged ∧
      (stateAfter (processJudged X disk parsed r j)).del = j.del) ∨
      ∃ e, e.pfx ∉ j.flagged ∧ processJudged X disk parsed r j =
        .ok (.duplicityDetected e) (j.called.called.recordDuplicity e) := by
  have htaken : ∀ start : Judge, (stateAfter ((onNode (processParsed X disk parsed) >>= fun result =>
      pure (JudgeResult.accepted result)) start)).flagged = start.flagged ∧
      (stateAfter ((onNode (processParsed X disk parsed) >>= fun result =>
        pure (JudgeResult.accepted result)) start)).del = start.del := by
    intro start
    rw [stateAfter_bind_pure, stateAfter_onNode]
    exact ⟨rfl, rfl⟩
  by_cases hrct : r.ilk = "rct"
  · rw [processJudged_rct hrct]
    exact Or.inl (htaken j)
  by_cases hflag : r.pfx ∈ j.flagged
  · obtain ⟨e, he⟩ := processJudged_flagged X disk parsed hrct hflag
    rw [he]
    exact Or.inl ⟨rfl, rfl⟩
  cases hdisk : disk j.node.store.calls with
  | some e =>
      rw [processJudged_fault hrct hflag hdisk]
      exact Or.inl ⟨rfl, rfl⟩
  | none =>
      rw [processJudged_seen hrct hflag hdisk]
      cases hseen : j.node.store.tables.fels.get (snKey r.pfx r.sn) with
      | none => exact Or.inl (htaken j.called)
      | some existingSaid =>
          simp only
          split
          · exact Or.inl ⟨rfl, rfl⟩
          · cases hverify : verifyForDuplicity X disk parsed existingSaid j.called with
            | error e j' =>
                left
                rw [stateAfter_error]
                have hsame := verifyForDuplicity_error hverify
                exact hsame
            | ok result j' =>
                right
                obtain ⟨-, -, event, -, rfl, rfl⟩ := (verifyForDuplicity_eq_ok hheader).1 hverify
                exact ⟨evidence parsed r existingSaid event, hflag, rfl⟩

end Judge

theorem stepJudge_of_ok {data : Bytes} {result : JudgeResult} {j' : Judge}
    (h : Judge.process X disk data j = .ok result j') : stepJudge X disk j data = j' := by
  unfold stepJudge
  rw [h, stateAfter_ok]

variable (X disk) in
/-- **What a message can do to the evidence**: nothing, unless a conflict is reported. -/
theorem stepJudge_evidence (j : Judge) (data : Bytes) :
    ((stepJudge X disk j data).flagged = j.flagged ∧ (stepJudge X disk j data).del = j.del) ∨
      ∃ e, e.pfx ∉ j.flagged ∧ Judge.process X disk data j =
        .ok (.duplicityDetected e) (j.called.called.recordDuplicity e) := by
  by_cases hread : ∃ parsed size r, parseNext X data = .ok (parsed, size) ∧
      parsed.serder.header = .ok r
  · obtain ⟨parsed, size, r, hparse, hheader⟩ := hread
    unfold stepJudge
    rw [Judge.process_run hparse hheader]
    exact Judge.processJudged_evidence X disk j parsed r hheader
  · obtain ⟨e, he⟩ := Judge.process_unread X disk j fun parsed size r hparse hheader =>
      hread ⟨parsed, size, r, hparse, hheader⟩
    unfold stepJudge
    rw [he]
    exact Or.inl ⟨rfl, rfl⟩

variable (X disk) in
/-- An identifier is flagged by a message of its own, at a place where something has been seen. -/
theorem stepJudge_flags {pfx : String} (hbefore : pfx ∉ j.flagged) {data : Bytes}
    (hafter : pfx ∈ (stepJudge X disk j data).flagged) :
    ∃ parsed size r, parseNext X data = .ok (parsed, size) ∧ parsed.serder.header = .ok r ∧
      r.pfx = pfx ∧ (j.node.store.tables.fels.get (snKey pfx r.sn)).isSome ∧
      Judge.trialVerify X j.node.kevers r parsed.serder
        (extractControllerSigs parsed.attachments) = .ok ⟨⟩ := by
  rcases stepJudge_evidence X disk j data with ⟨hflagged, -⟩ | ⟨e, -, hrun⟩
  · rw [hflagged] at hafter
    exact absurd hafter hbefore
  · rw [stepJudge_of_ok hrun, Judge.recordDuplicity_flagged, Finset.mem_insert] at hafter
    obtain ⟨parsed, size, r, hparse, hheader, hjudged⟩ := Judge.process_eq_ok.1 hrun
    obtain ⟨-, -, -, -, htrial, existingSaid, event, hseen, -, -, rfl, -⟩ :=
      (Judge.processJudged_detected hheader).1 hjudged
    have hpfx : pfx = r.pfx := hafter.resolve_right hbefore
    exact ⟨parsed, size, r, hparse, hheader, hpfx.symm, by rw [hpfx, hseen]; rfl, htrial⟩

/-- An event that is accepted at a place where nothing has been seen is logged, and reported as
accepted. -/
theorem process_of_accepted {data : Bytes} {parsed : ParsedMessage} {size : ℕ}
    {r : ProcessResult} {sigs : Option Bytes} {k : Kever}
    (hparse : parseNext X data = .ok (parsed, size))
    (hacc : AcceptedBy X (j.node.kevers.get r.pfx) parsed r sigs k) (hflag : r.pfx ∉ j.flagged)
    (hunseen : j.node.store.tables.fels.get (snKey r.pfx r.sn) = none)
    (hdisk : disk j.node.store.calls = none) (hdisk' : disk (j.node.store.calls + 1) = none) :
    Judge.process X disk data j = .ok (.accepted r)
      { j with node := j.called.node.logged r parsed.serder.raw sigs k } := by
  have hprocess : processParsed X disk parsed j.called.node = _ := processParsed_accepted hacc
  have hcalls : disk j.called.node.store.calls = none := hdisk'
  rw [hcalls] at hprocess
  have hrun : Judge.onNode (processParsed X disk parsed) j.called = .ok r
      { j with node := j.called.node.logged r parsed.serder.raw sigs k } :=
    zoom_run_ok.2 ⟨_, hprocess, rfl⟩
  rw [Judge.process_run hparse hacc.header, Judge.processJudged_seen hacc.ilk_ne_rct hflag hdisk,
    hunseen]
  exact bind_run_of_ok hrun

end Keri
