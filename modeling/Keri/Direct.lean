/-
**Direct mode.**

One party receives the messages of others, verifies them and keeps what it has verified: events and
logs in the store, the key state of each identifier in memory.

* `Keri.Node` — the receiver's state: the store and the verifiers by identifier;
* `Keri.processMessage`, `Keri.processParsed` — one message;
* `Keri.AcceptedBy` — the verification an event has to pass, given the verifier of its identifier;
* `Keri.processParsed_accepted` — **an event that passes is logged**, unless the store refuses it;
* `Keri.Processed`, `Keri.processParsed_processed` — **what processing a message does**, in any
  case;
* `Keri.processParsed_unlogged` — **any other message leaves the logs and the verifiers alone**.
-/

import Keri.Parser
import Keri.Kever
import Keri.Store

set_option relaxedAutoImplicit false
set_option autoImplicit false

namespace Keri

open Outcome

/-! ### The receiver -/

/-- The store and the verifiers, by identifier. -/
structure Node where
  store : Store
  kevers : Table String Kever

/-- The result of processing a message. -/
structure ProcessResult where
  pfx : String
  sn : ℕ
  said : String
  ilk : String
  deriving DecidableEq, Repr

namespace Node

/-- A receiver that has seen nothing. -/
def empty : Node := { store := .empty, kevers := .empty }

/-- A call of the store. -/
def onStore {α : Type} (x : EStateM DbError Store α) : EStateM KeriError Node α :=
  zoom Node.store (fun t n => { n with store := t }) KeriError.db x

end Node

variable (X : Externals) (disk : Disk)

/-! ### Reading a message -/

/-- What a message says of itself. -/
def Serder.header (s : Serder) : Except CoreError ProcessResult := do
  let pfx ← s.pfx
  let sn ← s.sn
  let said ← s.said
  let ilk ← s.ilk
  pure { pfx, sn, said, ilk }

/-- The controller signatures, of all such groups. -/
def extractControllerSigs (attachments : List Attachment) : List Siger :=
  attachments.flatMap fun
    | .controllerSigs sigs => sigs
    | _ => []

/-- The keys in the `k` field. -/
def verfersFromSerder (s : Serder) : Except KeriError (List Verfer) :=
  let keys := (((s.sad.get "k").bind Value.asArray).map (·.filterMap Value.asStr)).getD []
  keys.mapM fun key => (Verfer.fromQb64 X key).mapError .crypto

/-- The texts of signatures, one after the other. -/
def sigsText : List Siger → Except KeriError Bytes
  | [] => .ok []
  | sig :: sigs => do
      let qb64 ← (sig.qb64 X).mapError KeriError.crypto
      let more ← sigsText sigs
      pure (strBytes qb64 ++ more)

/-- The receipt couples and the controller signatures as text.  A group that could not be
interpreted may carry the signatures that are checked next, so it is refused. -/
def collectAttachments (pfx : String) :
    List Attachment → Except KeriError (List (String × Bytes) × Bytes)
  | [] => .ok ([], [])
  | .controllerSigs sigs :: rest => do
      let own ← sigsText X sigs
      let (couples, more) ← collectAttachments pfx rest
      pure (couples, own ++ more)
  | .receiptCouples couples :: rest => do
      let (others, sigs) ← collectAttachments pfx rest
      pure (couples ++ others, sigs)
  | .unknown code _ _ :: _ => .error (.core (.parseError
      (s!"message for '{pfx}' carries an uninterpreted attachment group \"{code}\"; " ++
        "refusing to process it")))
  | _ :: rest => collectAttachments pfx rest

/-! ### Verifying an event -/

/-- The witness receipts of an inception are checked when its verifier has a backer threshold. -/
def checkInceptionReceipts (k : Kever) (message : Bytes) (couples : List (String × Bytes)) :
    Except KeriError Unit :=
  if 0 < k.state.backerThreshold then
    (k.verifyWitnessReceipts X message couples).mapError .core
  else pure ⟨⟩

/-- Those of an update are checked when the proposed state has one. -/
def checkReceipts (s : KeyState) (message : Bytes) (couples : List (String × Bytes)) :
    Except KeriError Unit :=
  if 0 < s.backerThreshold then
    (verifyWitnessReceiptsStatic X message couples s.backers s.backerThreshold).mapError .core
  else pure ⟨⟩

/-- Verify an inception and its witness receipts. -/
def verifyInception (s : Serder) (sigs : List Siger) (couples : List (String × Bytes)) :
    Except KeriError Kever := do
  let verfers ← verfersFromSerder X s
  let kever ← (Kever.newFromParts X s.raw s.sad sigs verfers).mapError .core
  checkInceptionReceipts X kever s.raw couples
  pure kever

/-- Verify an update of a verifier, and its witness receipts against the state it proposes. -/
def verifyNext (k : Kever) (s : Serder) (sigs : List Siger) (couples : List (String × Bytes)) :
    Except KeriError KeyState := do
  let newState ← (k.verifyUpdateOwned X s.raw s.sad sigs).mapError .core
  checkReceipts X newState s.raw couples
  pure newState

/-! ### Processing a message -/

/-- Signatures to store, if there are any. -/
def sigsToStore (rawSigBytes : Bytes) : Option Bytes :=
  if rawSigBytes = [] then none else some rawSigBytes

def processInception (r : ProcessResult) (s : Serder) (sigs : List Siger)
    (couples : List (String × Bytes)) (rawSigBytes : Bytes) : EStateM KeriError Node Unit := do
  let node ← get
  if (node.kevers.get r.pfx).isSome then
    throw (.alreadyExists s!"inception already exists for prefix '{r.pfx}'")
  let kever ← lift (verifyInception X s sigs couples)
  Node.onStore (Store.storeEvent disk r.said s.raw r.pfx r.sn (sigsToStore rawSigBytes))
  modify fun node => { node with kevers := node.kevers.put r.pfx kever }

/-- An event of an unknown identifier is skipped. -/
def processUpdate (r : ProcessResult) (s : Serder) (sigs : List Siger)
    (couples : List (String × Bytes)) (rawSigBytes : Bytes) : EStateM KeriError Node Unit := do
  let node ← get
  match node.kevers.get r.pfx with
  | none => pure ⟨⟩
  | some kever => do
      let newState ← lift (verifyNext X kever s sigs couples)
      -- the store comes first: if it fails, the verifier stays as it was
      Node.onStore (Store.storeEvent disk r.said s.raw r.pfx r.sn (sigsToStore rawSigBytes))
      modify fun node =>
        { node with kevers := node.kevers.put r.pfx (kever.applyVerifiedUpdate newState) }

/-- Receipt couples as stored. -/
def receiptBytes (couples : List (String × Bytes)) : Bytes :=
  couples.flatMap fun c => strBytes c.1 ++ c.2

def processReceipt (r : ProcessResult) (couples : List (String × Bytes)) :
    EStateM KeriError Node Unit :=
  if couples = [] then pure ⟨⟩
  else Node.onStore (Store.putReceipts disk r.said (receiptBytes couples))

def isInception (ilk : String) : Prop := ilk = "icp" ∨ ilk = "dip"

instance (ilk : String) : Decidable (isInception ilk) := by unfold isInception; infer_instance

def isUpdate (ilk : String) : Prop := ilk = "rot" ∨ ilk = "ixn" ∨ ilk = "drt"

instance (ilk : String) : Decidable (isUpdate ilk) := by unfold isUpdate; infer_instance

/-- Process a parsed message. -/
def processParsed (parsed : ParsedMessage) : EStateM KeriError Node ProcessResult := do
  let r ← lift (parsed.serder.header.mapError KeriError.core)
  let sigs := extractControllerSigs parsed.attachments
  let (couples, rawSigBytes) ← lift (collectAttachments X r.pfx parsed.attachments)
  if isInception r.ilk then processInception X disk r parsed.serder sigs couples rawSigBytes
  else if isUpdate r.ilk then processUpdate X disk r parsed.serder sigs couples rawSigBytes
  else if r.ilk = "rct" then processReceipt disk r couples
  else Node.onStore (Store.putEvent disk r.said parsed.serder.raw)
  pure r

/-- Process the first message of a stream. -/
def processMessage (data : Bytes) : EStateM KeriError Node ProcessResult := do
  let (parsed, _) ← lift ((parseNext X data).mapError KeriError.core)
  processParsed X disk parsed

/-! ### What is accepted -/

/-- The verification an event has to pass, given the verifier of its identifier, if there is one:
what is reported of it, the signatures to store, and the verifier after it. -/
inductive AcceptedBy (before : Option Kever) (parsed : ParsedMessage) :
    ProcessResult → Option Bytes → Kever → Prop where
  | inception {r : ProcessResult} {couples : List (String × Bytes)} {raw : Bytes} {k : Kever} :
      parsed.serder.header = .ok r →
      collectAttachments X r.pfx parsed.attachments = .ok (couples, raw) →
      isInception r.ilk → before = none →
      verifyInception X parsed.serder (extractControllerSigs parsed.attachments) couples = .ok k →
      AcceptedBy before parsed r (sigsToStore raw) k
  | update {r : ProcessResult} {couples : List (String × Bytes)} {raw : Bytes} {k : Kever}
      {t : KeyState} :
      parsed.serder.header = .ok r →
      collectAttachments X r.pfx parsed.attachments = .ok (couples, raw) →
      isUpdate r.ilk → before = some k →
      verifyNext X k parsed.serder (extractControllerSigs parsed.attachments) couples = .ok t →
      AcceptedBy before parsed r (sigsToStore raw) (k.applyVerifiedUpdate t)

/-- The message is an event that is accepted and logged. -/
def Logs (n : Node) (parsed : ParsedMessage) (r : ProcessResult) (sigs : Option Bytes)
    (k : Kever) : Prop :=
  AcceptedBy X (n.kevers.get r.pfx) parsed r sigs k ∧ disk n.store.calls = none

/-- The receiver with one more event. -/
def Node.logged (n : Node) (r : ProcessResult) (raw : Bytes) (sigs : Option Bytes)
    (k : Kever) : Node :=
  { store :=
      { tables := n.store.tables.putLogged r.said raw r.pfx r.sn sigs
        calls := n.store.calls + 1 }
    kevers := n.kevers.put r.pfx k }

/-- An ilk that `processParsed` has an arm for. -/
def isKnown (ilk : String) : Prop := isInception ilk ∨ isUpdate ilk ∨ ilk = "rct"

/-- The message is of another ilk, and its body is stored as it is. -/
def StoresBody (n : Node) (parsed : ParsedMessage) (r : ProcessResult) : Prop :=
  parsed.serder.header = .ok r ∧ (∃ p, collectAttachments X r.pfx parsed.attachments = .ok p) ∧
    ¬ isKnown r.ilk ∧ disk n.store.calls = none

/-- What a message that is not logged can change: receipts, and the event table when its body is
stored as it is. -/
structure Unlogged (parsed : ParsedMessage) (n n' : Node) : Prop where
  kevers : n'.kevers = n.kevers
  kels : n'.store.tables.kels = n.store.tables.kels
  fels : n'.store.tables.fels = n.store.tables.fels
  evts : n'.store.tables.evts = n.store.tables.evts ∨ ∃ r, StoresBody X disk n parsed r ∧
    n'.store.tables.evts = n.store.tables.evts.put r.said parsed.serder.raw

/-- What processing a message can do to the receiver. -/
inductive Processed (parsed : ParsedMessage) (n : Node) : Node → Prop where
  | logged {r : ProcessResult} {sigs : Option Bytes} {k : Kever} :
      Logs X disk n parsed r sigs k → Processed parsed n (n.logged r parsed.serder.raw sigs k)
  | refused {e : DbError} : disk n.store.calls = some e →
      Processed parsed n { n with store := { n.store with calls := n.store.calls + 1 } }
  | unchanged : Processed parsed n n
  | receipts {r : ProcessResult} {couples : List (String × Bytes)} {raw : Bytes} :
      parsed.serder.header = .ok r →
      collectAttachments X r.pfx parsed.attachments = .ok (couples, raw) → r.ilk = "rct" →
      couples ≠ [] → disk n.store.calls = none →
      Processed parsed n { n with store :=
        { tables := { n.store.tables with
            rcts := n.store.tables.rcts.put r.said (receiptBytes couples) }
          calls := n.store.calls + 1 } }
  | body {r : ProcessResult} : StoresBody X disk n parsed r →
      Processed parsed n { n with store :=
        { tables := { n.store.tables with
            evts := n.store.tables.evts.put r.said parsed.serder.raw }
          calls := n.store.calls + 1 } }

variable {X disk} {n : Node}

theorem AcceptedBy.header {before : Option Kever} {parsed : ParsedMessage} {r : ProcessResult}
    {sigs : Option Bytes} {k : Kever} (h : AcceptedBy X before parsed r sigs k) :
    parsed.serder.header = .ok r := by
  cases h with
  | inception hheader => exact hheader
  | update hheader => exact hheader

/-- An accepted event is an inception or an update. -/
theorem AcceptedBy.ilk {before : Option Kever} {parsed : ParsedMessage} {r : ProcessResult}
    {sigs : Option Bytes} {k : Kever} (h : AcceptedBy X before parsed r sigs k) :
    isInception r.ilk ∨ isUpdate r.ilk := by
  cases h with
  | inception _ _ hilk => exact Or.inl hilk
  | update _ _ hilk => exact Or.inr hilk

theorem AcceptedBy.ilk_ne_rct {before : Option Kever} {parsed : ParsedMessage} {r : ProcessResult}
    {sigs : Option Bytes} {k : Kever} (h : AcceptedBy X before parsed r sigs k) :
    r.ilk ≠ "rct" := by
  intro hrct
  have hilk := h.ilk
  rw [hrct] at hilk
  revert hilk
  unfold isInception isUpdate
  decide

theorem not_isUpdate_of_isInception {ilk : String} (h : isInception ilk) : ¬ isUpdate ilk := by
  rcases h with rfl | rfl
  · unfold isUpdate
    decide
  · unfold isUpdate
    decide

/-- A store call, and then a change of the verifiers. -/
theorem onStore_modify_ok {f : Tables → Tables} {g : Node → Node} (h : disk n.store.calls = none) :
    (Node.onStore (Store.write disk f) >>= fun _ => modify g) n =
      .ok ⟨⟩ (g { n with store :=
        { tables := f n.store.tables, calls := n.store.calls + 1 } }) := by
  have hwrite : Node.onStore (Store.write disk f) n = .ok ⟨⟩
      { n with store := { tables := f n.store.tables, calls := n.store.calls + 1 } } :=
    zoom_run_ok.2 ⟨_, Store.write_ok.2 ⟨h, rfl⟩, rfl⟩
  rw [bind_run_of_ok hwrite]
  rfl

theorem onStore_modify_error {f : Tables → Tables} {g : Node → Node} {e : DbError}
    (h : disk n.store.calls = some e) :
    (Node.onStore (Store.write disk f) >>= fun _ => modify g) n =
      .error (.db e) { n with store := { n.store with calls := n.store.calls + 1 } } := by
  have hwrite : Node.onStore (Store.write disk f) n = .error (.db e)
      { n with store := { n.store with calls := n.store.calls + 1 } } :=
    zoom_run_error.2 ⟨e, _, Store.write_error.2 ⟨h, rfl⟩, rfl, rfl⟩
  exact bind_run_of_error hwrite

variable (disk) in
/-- An inception of a new identifier that is verified: logged, or refused by the store. -/
theorem processInception_run (r : ProcessResult) {s : Serder} {sigs : List Siger}
    {couples : List (String × Bytes)} (raw : Bytes) {k : Kever}
    (hnew : n.kevers.get r.pfx = none) (h : verifyInception X s sigs couples = .ok k) :
    processInception X disk r s sigs couples raw n =
      match disk n.store.calls with
      | none => .ok ⟨⟩ (n.logged r s.raw (sigsToStore raw) k)
      | some e =>
          .error (.db e) { n with store := { n.store with calls := n.store.calls + 1 } } := by
  have hrun : processInception X disk r s sigs couples raw n =
      (Node.onStore (Store.storeEvent disk r.said s.raw r.pfx r.sn (sigsToStore raw)) >>= fun _ =>
        modify fun node => { node with kevers := node.kevers.put r.pfx k }) n := by
    unfold processInception
    rw [bind_run_of_ok get_run]
    simp only [hnew, Option.isSome_none, Bool.false_eq_true, if_false]
    rw [bind_run_of_ok (lift_run_ok.2 ⟨h, rfl⟩)]
  rw [hrun]
  cases hdisk : disk n.store.calls with
  | none => exact onStore_modify_ok hdisk
  | some e => exact onStore_modify_error hdisk

variable (disk) in
/-- An update of a known identifier that is verified: logged, or refused by the store. -/
theorem processUpdate_run (r : ProcessResult) {s : Serder} {sigs : List Siger}
    {couples : List (String × Bytes)} (raw : Bytes) {k : Kever} {t : KeyState}
    (hknown : n.kevers.get r.pfx = some k) (h : verifyNext X k s sigs couples = .ok t) :
    processUpdate X disk r s sigs couples raw n =
      match disk n.store.calls with
      | none => .ok ⟨⟩ (n.logged r s.raw (sigsToStore raw) (k.applyVerifiedUpdate t))
      | some e =>
          .error (.db e) { n with store := { n.store with calls := n.store.calls + 1 } } := by
  have hrun : processUpdate X disk r s sigs couples raw n =
      (Node.onStore (Store.storeEvent disk r.said s.raw r.pfx r.sn (sigsToStore raw)) >>= fun _ =>
        modify fun node =>
          { node with kevers := node.kevers.put r.pfx (k.applyVerifiedUpdate t) }) n := by
    unfold processUpdate
    rw [bind_run_of_ok get_run]
    simp only [hknown]
    rw [bind_run_of_ok (lift_run_ok.2 ⟨h, rfl⟩)]
  rw [hrun]
  cases hdisk : disk n.store.calls with
  | none => exact onStore_modify_ok hdisk
  | some e => exact onStore_modify_error hdisk

variable (disk) in
/-- An inception that is not verified is refused. -/
theorem processInception_error (r : ProcessResult) {s : Serder} {sigs : List Siger}
    {couples : List (String × Bytes)} (raw : Bytes)
    (h : n.kevers.get r.pfx = none → ∀ k, verifyInception X s sigs couples ≠ .ok k) :
    ∃ e, processInception X disk r s sigs couples raw n = .error e n := by
  unfold processInception
  rw [bind_run_of_ok get_run]
  cases hk : n.kevers.get r.pfx with
  | some k =>
      simp only [Option.isSome_some, if_true]
      exact ⟨_, bind_run_of_error throw_run⟩
  | none =>
      simp only [Option.isSome_none, Bool.false_eq_true, if_false]
      obtain ⟨e, he⟩ := (ok_or_error (verifyInception X s sigs couples)).resolve_left
        fun hok => h hk _ hok.choose_spec
      exact ⟨e, bind_run_of_error (lift_run_error.2 ⟨he, rfl⟩)⟩

variable (disk) in
/-- An update that is not verified leaves the receiver as it was. -/
theorem processUpdate_unverified (r : ProcessResult) {s : Serder} {sigs : List Siger}
    {couples : List (String × Bytes)} (raw : Bytes)
    (h : ∀ k, n.kevers.get r.pfx = some k → ∀ t, verifyNext X k s sigs couples ≠ .ok t) :
    stateAfter (processUpdate X disk r s sigs couples raw n) = n := by
  unfold processUpdate
  rw [bind_run_of_ok get_run]
  cases hk : n.kevers.get r.pfx with
  | none => rfl
  | some k =>
      simp only
      obtain ⟨e, he⟩ := (ok_or_error (verifyNext X k s sigs couples)).resolve_left
        fun hok => h k hk _ hok.choose_spec
      rw [bind_run_of_error (lift_run_error.2 ⟨he, rfl⟩)]
      rfl

/-- An inception that is processed without an error is of a new identifier, and logged. -/
theorem processInception_ok {r : ProcessResult} {s : Serder} {sigs : List Siger}
    {couples : List (String × Bytes)} {raw : Bytes} {u : Unit} {n' : Node}
    (h : processInception X disk r s sigs couples raw n = .ok u n') :
    ∃ k, n.kevers.get r.pfx = none ∧ verifyInception X s sigs couples = .ok k ∧
      disk n.store.calls = none ∧ n' = n.logged r s.raw (sigsToStore raw) k := by
  by_cases hacc : n.kevers.get r.pfx = none ∧ ∃ k, verifyInception X s sigs couples = .ok k
  · obtain ⟨hnew, k, hk⟩ := hacc
    rw [processInception_run disk r raw hnew hk] at h
    cases hdisk : disk n.store.calls with
    | some e =>
        rw [hdisk] at h
        cases h
    | none =>
        rw [hdisk] at h
        obtain ⟨-, rfl⟩ := EStateM.Result.ok.inj h
        exact ⟨k, hnew, hk, rfl, rfl⟩
  · obtain ⟨e, he⟩ := processInception_error disk r raw
      fun hnew k hk => hacc ⟨hnew, k, hk⟩
    rw [he] at h
    cases h

/-- An update that is processed without an error is of an unknown identifier, and passed over, or
logged. -/
theorem processUpdate_ok {r : ProcessResult} {s : Serder} {sigs : List Siger}
    {couples : List (String × Bytes)} {raw : Bytes} {u : Unit} {n' : Node}
    (h : processUpdate X disk r s sigs couples raw n = .ok u n') :
    (n.kevers.get r.pfx = none ∧ n' = n) ∨
      ∃ k t, n.kevers.get r.pfx = some k ∧ verifyNext X k s sigs couples = .ok t ∧
        disk n.store.calls = none ∧
        n' = n.logged r s.raw (sigsToStore raw) (k.applyVerifiedUpdate t) := by
  cases hknown : n.kevers.get r.pfx with
  | none =>
      unfold processUpdate at h
      rw [bind_run_of_ok get_run, hknown] at h
      obtain ⟨-, rfl⟩ := EStateM.Result.ok.inj h
      exact Or.inl ⟨rfl, rfl⟩
  | some k =>
      right
      rcases ok_or_error (verifyNext X k s sigs couples) with ⟨t, ht⟩ | ⟨e, he⟩
      · rw [processUpdate_run disk r raw hknown ht] at h
        cases hdisk : disk n.store.calls with
        | some e =>
            rw [hdisk] at h
            cases h
        | none =>
            rw [hdisk] at h
            obtain ⟨-, rfl⟩ := EStateM.Result.ok.inj h
            exact ⟨k, t, rfl, ht, rfl, rfl⟩
      · unfold processUpdate at h
        rw [bind_run_of_ok get_run, hknown] at h
        simp only at h
        rw [bind_run_of_error (lift_run_error.2 ⟨he, rfl⟩)] at h
        cases h

/-- A message whose header or attachments cannot be read is refused. -/
theorem processParsed_unread {parsed : ParsedMessage}
    (h : ∀ r couples raw, parsed.serder.header = .ok r →
      collectAttachments X r.pfx parsed.attachments ≠ .ok (couples, raw)) :
    ∃ e, processParsed X disk parsed n = .error e n := by
  unfold processParsed
  rcases ok_or_error parsed.serder.header with ⟨r, hheader⟩ | ⟨e, hheader⟩
  · have hread : lift (parsed.serder.header.mapError KeriError.core) n =
        EStateM.Result.ok r n := lift_run_ok.2 ⟨mapError_eq_ok.2 hheader, rfl⟩
    obtain ⟨e, he⟩ := (ok_or_error (collectAttachments X r.pfx parsed.attachments)).resolve_left
      fun hok => h r _ _ hheader hok.choose_spec
    refine ⟨e, ?_⟩
    rw [bind_run_of_ok hread]
    exact bind_run_of_error (lift_run_error.2 ⟨he, rfl⟩)
  · have hread : lift (parsed.serder.header.mapError KeriError.core) n =
        EStateM.Result.error (.core e) n :=
      lift_run_error.2 ⟨mapError_eq_error.2 ⟨e, hheader, rfl⟩, rfl⟩
    exact ⟨.core e, bind_run_of_error hread⟩

/-- What is left of a run after the message has been read. -/
theorem processParsed_run {parsed : ParsedMessage} {r : ProcessResult}
    {couples : List (String × Bytes)} {raw : Bytes} (hheader : parsed.serder.header = .ok r)
    (hcollect : collectAttachments X r.pfx parsed.attachments = .ok (couples, raw)) :
    processParsed X disk parsed n =
      ((if isInception r.ilk then
          processInception X disk r parsed.serder (extractControllerSigs parsed.attachments)
            couples raw
        else if isUpdate r.ilk then
          processUpdate X disk r parsed.serder (extractControllerSigs parsed.attachments)
            couples raw
        else if r.ilk = "rct" then processReceipt disk r couples
        else Node.onStore (Store.putEvent disk r.said parsed.serder.raw)) >>=
          fun _ => pure r) n := by
  have hread : lift (parsed.serder.header.mapError KeriError.core) n =
      EStateM.Result.ok r n := lift_run_ok.2 ⟨mapError_eq_ok.2 hheader, rfl⟩
  unfold processParsed
  rw [bind_run_of_ok hread]
  simp only
  rw [bind_run_of_ok (lift_run_ok.2 ⟨hcollect, rfl⟩)]
  simp only
  split
  · rfl
  · split
    · rfl
    · split <;> rfl

/-- **An event that is accepted is logged**, unless the store refuses it. -/
theorem processParsed_accepted {parsed : ParsedMessage} {r : ProcessResult} {sigs : Option Bytes}
    {k : Kever} (h : AcceptedBy X (n.kevers.get r.pfx) parsed r sigs k) :
    processParsed X disk parsed n =
      match disk n.store.calls with
      | none => .ok r (n.logged r parsed.serder.raw sigs k)
      | some e =>
          .error (.db e) { n with store := { n.store with calls := n.store.calls + 1 } } := by
  cases h with
  | @inception couples raw k hheader hcollect hilk hnew hverify =>
      rw [processParsed_run hheader hcollect, if_pos hilk]
      have hrun := processInception_run disk r raw hnew hverify
      cases hdisk : disk n.store.calls with
      | none =>
          rw [hdisk] at hrun
          exact bind_run_of_ok hrun
      | some e =>
          rw [hdisk] at hrun
          exact bind_run_of_error hrun
  | @update couples raw k t hheader hcollect hilk hknown hverify =>
      rw [processParsed_run hheader hcollect,
        if_neg fun hicp => not_isUpdate_of_isInception hicp hilk, if_pos hilk]
      have hrun := processUpdate_run disk r raw hknown hverify
      cases hdisk : disk n.store.calls with
      | none =>
          rw [hdisk] at hrun
          exact bind_run_of_ok hrun
      | some e =>
          rw [hdisk] at hrun
          exact bind_run_of_error hrun

theorem processParsed_logs {parsed : ParsedMessage} {r : ProcessResult} {sigs : Option Bytes}
    {k : Kever} (h : Logs X disk n parsed r sigs k) :
    processParsed X disk parsed n = .ok r (n.logged r parsed.serder.raw sigs k) := by
  rw [processParsed_accepted h.1, h.2]

theorem Unlogged.refl (parsed : ParsedMessage) (n : Node) : Unlogged X disk parsed n n :=
  ⟨rfl, rfl, rfl, Or.inl rfl⟩

/-- The state after a store call that is the last thing done. -/
theorem stateAfter_onStore (f : Tables → Tables) (r : ProcessResult) :
    stateAfter ((Node.onStore (Store.write disk f) >>= fun _ => pure r) n) =
      { n with store :=
          { tables := if disk n.store.calls = none then f n.store.tables else n.store.tables
            calls := n.store.calls + 1 } } := by
  cases hdisk : disk n.store.calls with
  | none =>
      have hwrite : Node.onStore (Store.write disk f) n = .ok ⟨⟩
          { n with store := { tables := f n.store.tables, calls := n.store.calls + 1 } } :=
        zoom_run_ok.2 ⟨_, Store.write_ok.2 ⟨hdisk, rfl⟩, rfl⟩
      rw [bind_run_of_ok hwrite]
      rfl
  | some e =>
      have hwrite : Node.onStore (Store.write disk f) n = .error (.db e)
          { n with store := { n.store with calls := n.store.calls + 1 } } :=
        zoom_run_error.2 ⟨e, _, Store.write_error.2 ⟨hdisk, rfl⟩, rfl, rfl⟩
      rw [bind_run_of_error hwrite]
      rfl

/-- A message of another ilk than those of events stores receipts, a body, or nothing. -/
theorem processed_of_other {parsed : ParsedMessage} {r : ProcessResult}
    {couples : List (String × Bytes)} {raw : Bytes} (hheader : parsed.serder.header = .ok r)
    (hcollect : collectAttachments X r.pfx parsed.attachments = .ok (couples, raw))
    (hicp : ¬ isInception r.ilk) (hup : ¬ isUpdate r.ilk) :
    Processed X disk parsed n (stateAfter (processParsed X disk parsed n)) := by
  rw [processParsed_run hheader hcollect, if_neg hicp, if_neg hup]
  by_cases hrct : r.ilk = "rct"
  · rw [if_pos hrct]
    unfold processReceipt
    split
    · exact .unchanged
    · rename_i hsome
      unfold Store.putReceipts
      rw [stateAfter_onStore]
      cases hdisk : disk n.store.calls with
      | none => exact .receipts hheader hcollect hrct hsome hdisk
      | some e => exact .refused hdisk
  · rw [if_neg hrct]
    unfold Store.putEvent
    rw [stateAfter_onStore]
    have hunknown : ¬ isKnown r.ilk := by
      intro hknown
      rcases hknown with hknown | hknown | hknown
      · exact hicp hknown
      · exact hup hknown
      · exact hrct hknown
    cases hdisk : disk n.store.calls with
    | none => exact .body ⟨hheader, ⟨_, hcollect⟩, hunknown, hdisk⟩
    | some e => exact .refused hdisk

/-- An event that is not accepted leaves the receiver as it was. -/
theorem stateAfter_of_not_accepted {parsed : ParsedMessage} {r : ProcessResult}
    {couples : List (String × Bytes)} {raw : Bytes} (hheader : parsed.serder.header = .ok r)
    (hcollect : collectAttachments X r.pfx parsed.attachments = .ok (couples, raw))
    (hevent : isInception r.ilk ∨ isUpdate r.ilk)
    (hacc : ¬ ∃ sigs k, AcceptedBy X (n.kevers.get r.pfx) parsed r sigs k) :
    stateAfter (processParsed X disk parsed n) = n := by
  rw [processParsed_run hheader hcollect]
  by_cases hicp : isInception r.ilk
  · rw [if_pos hicp]
    obtain ⟨e, he⟩ := processInception_error disk r raw
      fun hnew k (hk : verifyInception X parsed.serder _ couples = .ok k) =>
        hacc ⟨_, k, .inception hheader hcollect hicp hnew hk⟩
    rw [bind_run_of_error he]
    rfl
  · have hup := hevent.resolve_left hicp
    rw [if_neg hicp, if_pos hup, stateAfter_bind_pure]
    exact processUpdate_unverified disk r raw
      fun k hk t (ht : verifyNext X k parsed.serder _ couples = .ok t) =>
        hacc ⟨_, _, .update hheader hcollect hup hk ht⟩

variable (X disk n) in
/-- **What processing a message does**, whether it ends in an error or not. -/
theorem processParsed_processed (parsed : ParsedMessage) :
    Processed X disk parsed n (stateAfter (processParsed X disk parsed n)) := by
  by_cases hread : ∃ r couples raw, parsed.serder.header = .ok r ∧
      collectAttachments X r.pfx parsed.attachments = .ok (couples, raw)
  · obtain ⟨r, couples, raw, hheader, hcollect⟩ := hread
    by_cases hevent : isInception r.ilk ∨ isUpdate r.ilk
    · -- an event that is accepted is logged, or has met a store that refused it
      by_cases hacc : ∃ sigs k, AcceptedBy X (n.kevers.get r.pfx) parsed r sigs k
      · obtain ⟨sigs, k, hacc⟩ := hacc
        rw [processParsed_accepted hacc]
        cases hdisk : disk n.store.calls with
        | none => exact .logged ⟨hacc, hdisk⟩
        | some e => exact .refused hdisk
      · rw [stateAfter_of_not_accepted hheader hcollect hevent hacc]
        exact .unchanged
    · obtain ⟨hicp, hup⟩ := not_or.1 hevent
      exact processed_of_other hheader hcollect hicp hup
  · obtain ⟨e, he⟩ := @processParsed_unread X disk n parsed
      fun r couples raw hheader hcollect => hread ⟨r, couples, raw, hheader, hcollect⟩
    rw [he]
    exact .unchanged

/-- **A message that is not logged leaves the logs and the verifiers alone.** -/
theorem processParsed_unlogged {parsed : ParsedMessage}
    (h : ∀ r sigs k, ¬ Logs X disk n parsed r sigs k) :
    Unlogged X disk parsed n (stateAfter (processParsed X disk parsed n)) := by
  have hprocessed := processParsed_processed X disk n parsed
  generalize stateAfter (processParsed X disk parsed n) = n' at hprocessed
  cases hprocessed with
  | logged hlogs => exact absurd hlogs (h _ _ _)
  | refused _ => exact ⟨rfl, rfl, rfl, Or.inl rfl⟩
  | unchanged => exact Unlogged.refl parsed n
  | receipts _ _ _ _ _ => exact ⟨rfl, rfl, rfl, Or.inl rfl⟩
  | body hbody => exact ⟨rfl, rfl, rfl, Or.inr ⟨_, hbody, rfl⟩⟩

/-- A message that is processed without an error: an event that is logged, or one that is no
inception, and no update of a known identifier. -/
theorem processParsed_ok {parsed : ParsedMessage} {r : ProcessResult} {n' : Node}
    (h : processParsed X disk parsed n = .ok r n') :
    parsed.serder.header = .ok r ∧
      ((∃ sigs k, Logs X disk n parsed r sigs k ∧ n' = n.logged r parsed.serder.raw sigs k) ∨
        (¬ isInception r.ilk ∧ (isUpdate r.ilk → n.kevers.get r.pfx = none ∧ n' = n))) := by
  have hread := h
  unfold processParsed at hread
  obtain ⟨r', n₁, hfirst, hrest⟩ := bind_run_ok.1 hread
  obtain ⟨hsome, rfl⟩ := lift_run_ok.1 hfirst
  have hheader := mapError_eq_ok.1 hsome
  obtain ⟨⟨couples, raw⟩, n₂, hsecond, -⟩ := bind_run_ok.1 hrest
  obtain ⟨hcollect, rfl⟩ := lift_run_ok.1 hsecond
  rw [processParsed_run hheader hcollect] at h
  obtain ⟨⟨⟩, n₃, hrun, hend⟩ := bind_run_ok.1 h
  obtain ⟨rfl, rfl⟩ := EStateM.Result.ok.inj hend
  refine ⟨hheader, ?_⟩
  by_cases hicp : isInception r'.ilk
  · rw [if_pos hicp] at hrun
    obtain ⟨k, hnew, hk, hdisk, rfl⟩ := processInception_ok hrun
    exact Or.inl ⟨_, k, ⟨.inception hheader hcollect hicp hnew hk, hdisk⟩, rfl⟩
  · rw [if_neg hicp] at hrun
    by_cases hup : isUpdate r'.ilk
    · rw [if_pos hup] at hrun
      rcases processUpdate_ok hrun with hskip | ⟨k, t, hknown, ht, hdisk, rfl⟩
      · exact Or.inr ⟨hicp, fun _ => hskip⟩
      · exact Or.inl ⟨_, _, ⟨.update hheader hcollect hup hknown ht, hdisk⟩, rfl⟩
    · exact Or.inr ⟨hicp, fun hup' => absurd hup' hup⟩

/-- A message that is read is processed. -/
theorem processMessage_of_parse {data : Bytes} {parsed : ParsedMessage} {size : ℕ}
    (h : parseNext X data = .ok (parsed, size)) (n : Node) :
    processMessage X disk data n = processParsed X disk parsed n := by
  have hread : lift ((parseNext X data).mapError KeriError.core) n =
      EStateM.Result.ok (parsed, size) n := lift_run_ok.2 ⟨mapError_eq_ok.2 h, rfl⟩
  unfold processMessage
  rw [bind_run_of_ok hread]

/-! ### What verification has checked -/

theorem Serder.header_eq_ok {s : Serder} {r : ProcessResult} :
    s.header = .ok r ↔ s.pfx = .ok r.pfx ∧ s.sn = .ok r.sn ∧ s.said = .ok r.said ∧
      s.ilk = .ok r.ilk := by
  simp only [header, bind_eq_ok, pure_eq_ok]
  constructor
  · intro h
    obtain ⟨pfx, hpfx, sn, hsn, said, hsaid, ilk, hilk, rfl⟩ := h
    exact ⟨hpfx, hsn, hsaid, hilk⟩
  · intro h
    exact ⟨_, h.1, _, h.2.1, _, h.2.2.1, _, h.2.2.2, rfl⟩

/-- Both are the check of a state. -/
theorem checkInceptionReceipts_eq (k : Kever) (message : Bytes) (couples : List (String × Bytes)) :
    checkInceptionReceipts X k message couples = checkReceipts X k.state message couples := rfl

/-- A threshold of zero is met by any receipts, so the condition makes no difference. -/
theorem checkReceipts_eq_ok {s : KeyState} {message : Bytes} {couples : List (String × Bytes)}
    {u : Unit} :
    checkReceipts X s message couples = .ok u ↔
      verifyWitnessReceiptsStatic X message couples s.backers s.backerThreshold = .ok ⟨⟩ := by
  unfold checkReceipts
  split
  · exact mapError_eq_ok
  · have hzero : s.backerThreshold = 0 := by omega
    unfold verifyWitnessReceiptsStatic
    rw [if_pos hzero]
    exact ⟨fun _ => rfl, fun _ => rfl⟩

theorem verifyInception_eq_ok {s : Serder} {sigs : List Siger} {couples : List (String × Bytes)}
    {k : Kever} :
    verifyInception X s sigs couples = .ok k ↔ ∃ verfers, verfersFromSerder X s = .ok verfers ∧
      Kever.newFromParts X s.raw s.sad sigs verfers = .ok k ∧
      checkReceipts X k.state s.raw couples = .ok ⟨⟩ := by
  simp only [verifyInception, checkInceptionReceipts_eq, bind_eq_ok, mapError_eq_ok, pure_eq_ok]
  constructor
  · intro h
    obtain ⟨verfers, hverfers, _, hk, ⟨⟩, hrct, rfl⟩ := h
    exact ⟨verfers, hverfers, hk, hrct⟩
  · intro h
    obtain ⟨verfers, hverfers, hk, hrct⟩ := h
    exact ⟨verfers, hverfers, k, hk, ⟨⟩, hrct, rfl⟩

theorem verifyNext_eq_ok {k : Kever} {s : Serder} {sigs : List Siger}
    {couples : List (String × Bytes)} {t : KeyState} :
    verifyNext X k s sigs couples = .ok t ↔ k.verifyUpdateOwned X s.raw s.sad sigs = .ok t ∧
      checkReceipts X t s.raw couples = .ok ⟨⟩ := by
  simp only [verifyNext, bind_eq_ok, mapError_eq_ok, pure_eq_ok]
  constructor
  · intro h
    obtain ⟨_, ht, ⟨⟩, hrct, rfl⟩ := h
    exact ⟨ht, hrct⟩
  · intro h
    exact ⟨t, h.1, ⟨⟩, h.2, rfl⟩

end Keri
