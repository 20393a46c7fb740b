/-
**An identifier and its keys.**

A `Hab` holds the signing keys of one identifier, the keys it has committed to for the next
rotation, and where its log has got to.  It builds and signs its events; all keys are derived from a
salt, so the salt and a `HabState` are enough to resume it.

* `Keri.Hab`, `Keri.HabState` — the identifier, and what is kept of it besides the salt;
* `Keri.fixVersionString`, `Keri.sealEvent` — from the fields of an event to its signed bytes;
* `Keri.Hab.incept`, `Keri.Hab.rotateInner`, `Keri.Hab.interactInner` — the three events;
* `Keri.Hab.receipt`, `Keri.Hab.receiptMessage` — receipts of the events of others;
* `Keri.Hab.state`, `Keri.Hab.resume` — taking an identifier down and up again;
* `Keri.Hab.rotateInner_run` — what a rotation does, when it succeeds and when it does not;
* `Keri.Hab.rotate_error_unharmed_iff` — **when a rotation that fails leaves the identifier as it
  was**;
* `Keri.Hab.failed_rotation_drops_keys` — one that does not.
-/

import Keri.Composer
import Keri.Event
import Keri.Store
import Keri.Toy

set_option relaxedAutoImplicit false
set_option autoImplicit false

namespace Keri

open Outcome

variable (X : Externals)

/-! ### Configuration -/

/-- Configuration for creating an identifier. -/
structure InceptionConfig where
  code : String := "A"
  count : ℕ := 1
  threshold : ℕ := 1
  nextCount : ℕ := 1
  nextThreshold : ℕ := 1
  transferable : Bool := true
  backerThreshold : ℕ := 0
  backers : List String := []
  configTraits : List String := []
  salt : Option Bytes := none
  deriving DecidableEq, Repr

/-- Configuration for rotation. -/
structure RotationConfig where
  count : ℕ := 1
  threshold : ℕ := 1
  nextCount : ℕ := 1
  nextThreshold : ℕ := 1
  backersAdd : List String := []
  backersRemove : List String := []
  deriving DecidableEq, Repr

/-! ### The identifier -/

/-- An identifier with its keys. -/
structure Hab where
  name : String
  pfx : String
  signers : List Signer
  nextSigners : List Signer
  salter : Salter
  transferable : Bool
  code : String
  lastSaid : String
  sn : ℕ
  keyGen : ℕ
  signerGen : ℕ
  nextGen : ℕ
  backerThreshold : ℕ
  backers : List String
  deriving DecidableEq, Repr

/-- What is needed to resume an identifier, except the salt. -/
structure HabState where
  name : String
  pfx : String
  code : String
  transferable : Bool
  signerGen : ℕ
  signerCount : ℕ
  nextGen : ℕ
  nextCount : ℕ
  keyGen : ℕ
  lastSaid : String
  sn : ℕ
  backerThreshold : ℕ
  backers : List String
  deriving DecidableEq, Repr

/-- A signed event, before anything has been persisted. -/
structure Hab.SignedEvent where
  said : String
  raw : Bytes
  signatures : Bytes
  composed : Bytes
  deriving DecidableEq, Repr

/-! ### Keys -/

/-- The keys of a generation, one path each. -/
def deriveSigners (salter : Salter) (code : String) (transferable : Bool)
    (generation count : ℕ) : Except KeriError (List Signer) :=
  (List.range count).mapM fun i =>
    (salter.signer X code (decimal generation ++ "." ++ decimal i) "low" transferable).mapError
      KeriError.crypto

/-- The public keys, as text. -/
def keysQb64 (signers : List Signer) : Except KeriError (List String) :=
  signers.mapM fun s => (s.verfer.qb64 X).mapError KeriError.crypto

/-- The commitment to a key: the digest of its text. -/
def commitmentQb64 (s : Signer) : Except KeriError String := do
  let qb64 ← (s.verfer.qb64 X).mapError KeriError.crypto
  (digestQb64 X "E" (strBytes qb64)).mapError .crypto

/-- The commitments to the keys. -/
def nextKeyDigests (signers : List Signer) : Except KeriError (List String) :=
  signers.mapM (commitmentQb64 X)

/-! ### Events -/

/-- The version string with a size of six hexadecimal digits, or more. -/
def versionStringOf (size : ℕ) : String := "KERI10JSON" ++ zeroPad 6 (hexLower size) ++ "_"

/-- The fields as they are measured, with placeholders of the length of a SAID. -/
def placeheld (fields : Fields) : Fields :=
  let placeholder := Value.string (dummyText 44)
  let isSelfAddressing := decide (Fields.get "d" fields = Fields.get "i" fields)
  let fields := Fields.insert "d" placeholder fields
  if isSelfAddressing then Fields.insert "i" placeholder fields else fields

/-- Write the size that the event will have into its version string. -/
def fixVersionString (fields : Fields) : Except KeriError Fields := do
  let origD := (Fields.get "d" fields).getD .null
  let origI := (Fields.get "i" fields).getD .null
  let tempRaw ← (X.json.toVec (.object (placeheld fields))).mapError fun e => KeriError.core (.json e)
  let fields := Fields.insert "v" (.string (versionStringOf tempRaw.length)) (placeheld fields)
  pure (Fields.insert "i" origI (Fields.insert "d" origD fields))

/-- The signatures of all keys, indexed from `i`, as text. -/
def signAll (raw : Bytes) : ℕ → List Signer → Except KeriError Bytes
  | _, [] => .ok []
  | i, signer :: signers => do
      let siger ← (signer.signIndexed X raw i true).mapError .crypto
      let qb64 ← (siger.qb64 X).mapError KeriError.crypto
      let more ← signAll raw (i + 1) signers
      pure (strBytes qb64 ++ more)

/-- From the fields of an event to its signed bytes: size, SAID, signatures and their counter. -/
def sealEvent (fields : Fields) (signers : List Signer) : Except KeriError Hab.SignedEvent := do
  let fields ← fixVersionString X fields
  let (said, sad) ← (computeSaid X (.object fields) "d" "E" .json).mapError .core
  let serder ← (Serder.new X .json sad).mapError .core
  let signatures ← signAll X serder.raw 0 signers
  let code ← (counterCodeFor serder .controllerIdxSigs).mapError .core
  let counter ← (X.cesr.counterNew code signers.length).mapError .cesr
  let counterQb64 ← (X.cesr.counterQb64 counter).mapError KeriError.cesr
  pure { said, raw := serder.raw, signatures,
         composed := serder.raw ++ strBytes counterQb64 ++ signatures }

/-- An array of texts. -/
def textArray (texts : List String) : Value := .array (texts.map .string)

/-- An array of texts is read back. -/
theorem readStrings_textArray (texts : List String) :
    readStrings (textArray texts) = .ok texts := by
  have hread : (texts.map Value.string).mapM readString = .ok texts := by
    rw [mapM_eq_ok, List.forall₂_map_left_iff]
    exact List.forall₂_same.2 fun _ _ => rfl
  exact hread

/-- The fields of an inception. -/
def inceptionFields (config : InceptionConfig) (keys nextKeyDigests : List String) : Fields :=
  [("v", .string "KERI10JSON000000_"), ("t", .string "icp"), ("d", .string ""),
    ("i", .string ""), ("s", .string "0"), ("kt", .string (decimal config.threshold)),
    ("k", textArray keys), ("nt", .string (decimal config.nextThreshold)),
    ("n", textArray nextKeyDigests), ("bt", .string (decimal config.backerThreshold)),
    ("b", textArray config.backers), ("c", textArray config.configTraits), ("a", .array [])]

namespace Hab

/-- The fields of a rotation. -/
def rotationFields (h : Hab) (config : RotationConfig) (newSn : ℕ)
    (keys nextKeyDigests : List String) : Fields :=
  [("v", .string "KERI10JSON000000_"), ("t", .string "rot"), ("d", .string ""),
    ("i", .string h.pfx), ("s", .string (hexLower newSn)), ("p", .string h.lastSaid),
    ("kt", .string (decimal config.threshold)), ("k", textArray keys),
    ("nt", .string (decimal config.nextThreshold)), ("n", textArray nextKeyDigests),
    ("bt", .string (decimal h.backerThreshold)), ("br", textArray config.backersRemove),
    ("ba", textArray config.backersAdd), ("c", .array []), ("a", .array [])]

/-- The fields of an interaction. -/
def interactionFields (h : Hab) (newSn : ℕ) (anchors : List Value) : Fields :=
  [("v", .string "KERI10JSON000000_"), ("t", .string "ixn"), ("d", .string ""),
    ("i", .string h.pfx), ("s", .string (hexLower newSn)), ("p", .string h.lastSaid),
    ("a", .array anchors)]

/-! ### Inception -/

/-- The record of a new identifier: everything that is needed to resume it but the salt. -/
def record (name pfx said : String) (config : InceptionConfig) : Value :=
  .object [("name", .string name), ("prefix", .string pfx), ("code", .string config.code),
    ("transferable", .bool config.transferable), ("signer_gen", .number (.posInt 0)),
    ("signer_count", .number (.posInt config.count)), ("next_gen", .number (.posInt 1)),
    ("next_count", .number (.posInt config.nextCount)), ("key_gen", .number (.posInt 2)),
    ("last_said", .string said), ("sn", .number (.posInt 0)),
    ("backer_threshold", .number (.posInt config.backerThreshold)),
    ("backers", textArray config.backers)]

/-- Create an identifier: the identifier, its inception, and its record.  `random` is the salt that
is drawn when none is given. -/
def inceptEvent (name : String) (config : InceptionConfig) (random : Bytes) :
    Except KeriError (Hab × SignedEvent × Bytes) := do
  let salter ← (Salter.new X "0A" (config.salt.getD random)).mapError .crypto
  let signers ← deriveSigners X salter config.code config.transferable 0 config.count
  let nextSigners ← deriveSigners X salter config.code config.transferable 1 config.nextCount
  let keys ← keysQb64 X signers
  let digests ← nextKeyDigests X nextSigners
  let event ← sealEvent X (inceptionFields config keys digests) signers
  let habBytes ← (X.json.toVec (record name event.said event.said config)).mapError
    fun e => KeriError.config e.text
  pure ({ name, pfx := event.said, signers, nextSigners, salter,
          transferable := config.transferable, code := config.code, lastSaid := event.said, sn := 0,
          keyGen := 2, signerGen := 0, nextGen := 1, backerThreshold := config.backerThreshold,
          backers := config.backers }, event, habBytes)

variable (disk : Disk)

/-- Create an identifier and store its inception together with its record. -/
def incept (name : String) (config : InceptionConfig) (random : Bytes) :
    EStateM KeriError Store (Hab × SignedEvent) := do
  let (hab, event, habBytes) ← lift (inceptEvent X name config random)
  zoom id (fun s _ => s) KeriError.db (Store.storeEventWithHab disk event.said event.raw hab.pfx 0
    (some event.signatures) name habBytes)
  pure (hab, event)

variable {X disk} in
/-- An inception that succeeds is made first, and then stored with its record. -/
theorem incept_ok {name : String} {config : InceptionConfig} {random : Bytes} {hab : Hab}
    {event : SignedEvent} {s s' : Store}
    (h : incept X disk name config random s = .ok (hab, event) s') :
    ∃ habBytes, inceptEvent X name config random = .ok (hab, event, habBytes) ∧
      s'.tables = { s.tables.putLogged event.said event.raw hab.pfx 0 (some event.signatures) with
        habs := s.tables.habs.put name habBytes } := by
  obtain ⟨⟨hab', event', habBytes⟩, s₁, hlift, hpersist⟩ := bind_run_ok.1 h
  obtain ⟨hevent, rfl⟩ := lift_run_ok.1 hlift
  obtain ⟨⟨⟩, s₂, hzoom, hpure⟩ := bind_run_ok.1 hpersist
  obtain ⟨hpair, rfl⟩ := EStateM.Result.ok.inj hpure
  obtain ⟨rfl, rfl⟩ := Prod.mk.inj hpair
  obtain ⟨s₃, hwrite, rfl⟩ := zoom_run_ok.1 hzoom
  obtain ⟨-, rfl⟩ := Store.write_ok.1 hwrite
  exact ⟨habBytes, hevent, by simp⟩

/-! ### Rotation and interaction -/

end Hab

/-- An identifier with the store it is kept in, if there is one. -/
structure Keeper where
  hab : Hab
  store : Option Store

namespace Keeper

variable (disk : Disk)

/-- Store an event of the identifier, if there is a store. -/
def persist (event : Hab.SignedEvent) (pfx : String) (sn : ℕ) : EStateM KeriError Keeper Unit :=
  fun k =>
    match k.store with
    | none => .ok ⟨⟩ k
    | some store =>
        match Store.storeEvent disk event.said event.raw pfx sn (some event.signatures) store with
        | .ok u store => .ok u { k with store := some store }
        | .error e store => .error (.db e) { k with store := some store }

end Keeper

namespace Hab

/-- The next keys and the rotation to the pre-rotated ones. -/
def rotation (h : Hab) (config : RotationConfig) (newSigners : List Signer) :
    Except KeriError (List Signer × SignedEvent) := do
  let newNextSigners ← deriveSigners X h.salter h.code h.transferable (u64Succ h.keyGen)
    config.nextCount
  let keys ← keysQb64 X newSigners
  let digests ← nextKeyDigests X newNextSigners
  -- the rotation is signed by the keys it installs
  let event ← sealEvent X (h.rotationFields config (u64Succ h.sn) keys digests) newSigners
  pure (newNextSigners, event)

/-- The identifier after a rotation. -/
def rotated (h : Hab) (config : RotationConfig) (newSigners newNextSigners : List Signer)
    (said : String) : Hab :=
  { h with
      signers := newSigners
      nextSigners := newNextSigners
      lastSaid := said
      sn := u64Succ h.sn
      keyGen := u64Succ (u64Succ h.keyGen)
      signerGen := h.nextGen
      nextGen := u64Succ h.keyGen
      backers := config.backersAdd.foldl (fun bs b => if b ∈ bs then bs else bs ++ [b])
        (h.backers.filter (· ∉ config.backersRemove)) }

variable (disk : Disk)

/-- Rotate to the pre-rotated keys. -/
def rotateInner (config : RotationConfig) : EStateM KeriError Keeper SignedEvent := do
  let k ← get
  if ¬ k.hab.transferable then
    throw (.config "cannot rotate a non-transferable identifier")
  -- `mem::take`: the pre-rotated keys leave the identifier before anything else is tried
  let newSigners := k.hab.nextSigners
  modify fun k => { k with hab.nextSigners := [] }
  let (newNextSigners, event) ← lift (k.hab.rotation X config newSigners)
  Keeper.persist disk event k.hab.pfx (u64Succ k.hab.sn)
  modify fun k' => { k' with hab := k.hab.rotated config newSigners newNextSigners event.said }
  pure event

/-- The interaction with the given anchors. -/
def interaction (h : Hab) (anchors : List Value) : Except KeriError SignedEvent :=
  sealEvent X (h.interactionFields (u64Succ h.sn) anchors) h.signers

/-- The identifier after an interaction. -/
def interacted (h : Hab) (said : String) : Hab := { h with lastSaid := said, sn := u64Succ h.sn }

/-- Anchor data. -/
def interactInner (anchors : List Value) : EStateM KeriError Keeper SignedEvent := do
  let k ← get
  let event ← lift (k.hab.interaction X anchors)
  Keeper.persist disk event k.hab.pfx (u64Succ k.hab.sn)
  modify fun k' => { k' with hab := k.hab.interacted event.said }
  pure event

/-! ### Receipts -/

/-- Receipt an event: a couple of public key and signature when the identifier is not transferable,
indexed signatures when it is.  The source indexes the first key, and panics without one. -/
def receipt (h : Hab) (other : Serder) : Except KeriError Bytes :=
  if ¬ h.transferable then do
    let signer ← okOr h.signers.head? (.config "index out of bounds")
    let cigar ← (signer.sign X other.raw).mapError .crypto
    let prefixQb64 ← (signer.verfer.qb64 X).mapError KeriError.crypto
    let cigarQb64 ← (cigar.qb64 X).mapError KeriError.crypto
    let code ← (counterCodeFor other .nonTransReceiptCouples).mapError .core
    let counter ← (X.cesr.counterNew code 1).mapError .cesr
    let counterQb64 ← (X.cesr.counterQb64 counter).mapError KeriError.cesr
    pure (strBytes counterQb64 ++ strBytes prefixQb64 ++ strBytes cigarQb64)
  else do
    let signatures ← signAll X other.raw 0 h.signers
    let code ← (counterCodeFor other .controllerIdxSigs).mapError .core
    let counter ← (X.cesr.counterNew code h.signers.length).mapError .cesr
    let counterQb64 ← (X.cesr.counterQb64 counter).mapError KeriError.cesr
    pure (strBytes counterQb64 ++ signatures)

/-- The fields of a receipt of an event. -/
def receiptFields (pfx : String) (sn : ℕ) : Fields :=
  [("v", .string "KERI10JSON000000_"), ("t", .string "rct"), ("d", .string ""),
    ("i", .string pfx), ("s", .string (hexLower sn))]

/-- The body of a receipt of an event, with a SAID of its own. -/
def receiptSerder (pfx : String) (sn : ℕ) : Except KeriError Serder := do
  let fields ← fixVersionString X (receiptFields pfx sn)
  let (_, sad) ← (computeSaid X (.object fields) "d" "E" .json).mapError .core
  (Serder.new X .json sad).mapError .core

/-- Build a receipt message, and store the receipt under the SAID of the event. -/
def receiptMessage (h : Hab) (other : Serder) : EStateM KeriError Store Bytes := do
  let pfx ← lift (other.pfx.mapError KeriError.core)
  let sn ← lift (other.sn.mapError KeriError.core)
  let said ← lift (other.said.mapError KeriError.core)
  let serder ← lift (receiptSerder X pfx sn)
  let attachment ← lift (h.receipt X other)
  zoom id (fun s _ => s) KeriError.db (Store.putReceipts disk said attachment)
  pure (serder.raw ++ attachment)

/-! ### Taking down and up -/

/-- The state needed to resume the identifier, minus the salt. -/
def state (h : Hab) : HabState :=
  { name := h.name, pfx := h.pfx, code := h.code, transferable := h.transferable,
    signerGen := h.signerGen, signerCount := h.signers.length, nextGen := h.nextGen,
    nextCount := h.nextSigners.length, keyGen := h.keyGen, lastSaid := h.lastSaid, sn := h.sn,
    backerThreshold := h.backerThreshold, backers := h.backers }

/-- Rebuild an identifier from its state and the salt. -/
def resume (state : HabState) (salt : Bytes) : Except KeriError Hab := do
  let salter ← (Salter.new X "0A" salt).mapError .crypto
  let signers ← deriveSigners X salter state.code state.transferable state.signerGen
    state.signerCount
  let nextSigners ← deriveSigners X salter state.code state.transferable state.nextGen
    state.nextCount
  pure { name := state.name, pfx := state.pfx, signers, nextSigners, salter,
         transferable := state.transferable, code := state.code, lastSaid := state.lastSaid,
         sn := state.sn, keyGen := state.keyGen, signerGen := state.signerGen,
         nextGen := state.nextGen, backerThreshold := state.backerThreshold,
         backers := state.backers }

/-! ### What the calls do -/

variable {X disk}

theorem deriveSigners_length {salter : Salter} {code : String} {transferable : Bool}
    {generation count : ℕ} {signers : List Signer}
    (h : deriveSigners X salter code transferable generation count = .ok signers) :
    signers.length = count := by
  rw [← (mapM_eq_ok.1 h).length_eq, List.length_range]

/-- Storing an event changes the store only. -/
theorem persist_hab {event : SignedEvent} {pfx : String} {sn : ℕ} (k : Keeper) :
    (stateAfter (Keeper.persist disk event pfx sn k)).hab = k.hab := by
  unfold Keeper.persist
  split
  · rfl
  · split <;> rfl

theorem hab_of_persist_error {event : SignedEvent} {pfx : String} {sn : ℕ} {k k' : Keeper}
    {e : KeriError} (h : Keeper.persist disk event pfx sn k = .error e k') : k'.hab = k.hab := by
  rw [← persist_hab k, h]
  rfl

/-- An identifier without its pre-rotated keys. -/
def dropped (h : Hab) : Hab := { h with nextSigners := [] }

/-- **What a rotation does.**  It is refused at once when the identifier is not transferable;
otherwise the pre-rotated keys are gone unless everything succeeds. -/
theorem rotateInner_run (config : RotationConfig) (k : Keeper) :
    rotateInner X disk config k =
      if ¬ k.hab.transferable then
        .error (.config "cannot rotate a non-transferable identifier") k
      else
        match k.hab.rotation X config k.hab.nextSigners with
        | .error e => .error e { k with hab := k.hab.dropped }
        | .ok (newNextSigners, event) =>
            match Keeper.persist disk event k.hab.pfx (u64Succ k.hab.sn)
              { k with hab := k.hab.dropped } with
            | .error e k' => .error e k'
            | .ok _ k' => .ok event
                { k' with hab := k.hab.rotated config k.hab.nextSigners newNextSigners
                            event.said } := by
  unfold rotateInner
  rw [bind_run_of_ok get_run]
  by_cases htrans : k.hab.transferable = true
  · rw [if_neg (by simpa using htrans), if_neg (by simpa using htrans)]
    simp only
    rw [bind_run_of_ok modify_run]
    cases hrot : k.hab.rotation X config k.hab.nextSigners with
    | error e => exact bind_run_of_error (lift_run_error.2 ⟨rfl, rfl⟩)
    | ok p =>
        obtain ⟨newNextSigners, event⟩ := p
        rw [bind_run_of_ok (lift_run_ok.2 ⟨rfl, rfl⟩)]
        simp only
        change (Keeper.persist disk event k.hab.pfx (u64Succ k.hab.sn) >>= _)
          { k with hab := k.hab.dropped } = _
        cases hstore : Keeper.persist disk event k.hab.pfx (u64Succ k.hab.sn)
          { k with hab := k.hab.dropped } with
        | error e k' => rw [bind_run_of_error hstore]
        | ok u k' =>
            rw [bind_run_of_ok hstore]
            rfl
  · rw [if_pos (by simpa using htrans), if_pos (by simpa using htrans)]
    rfl

/-- **What an interaction does.** -/
theorem interactInner_run (anchors : List Value) (k : Keeper) :
    interactInner X disk anchors k =
      match k.hab.interaction X anchors with
      | .error e => .error e k
      | .ok event =>
          match Keeper.persist disk event k.hab.pfx (u64Succ k.hab.sn) k with
          | .error e k' => .error e k'
          | .ok _ k' => .ok event { k' with hab := k.hab.interacted event.said } := by
  unfold interactInner
  rw [bind_run_of_ok get_run]
  cases hixn : k.hab.interaction X anchors with
  | error e => exact bind_run_of_error (lift_run_error.2 ⟨rfl, rfl⟩)
  | ok event =>
      rw [bind_run_of_ok (lift_run_ok.2 ⟨rfl, rfl⟩)]
      simp only
      cases hstore : Keeper.persist disk event k.hab.pfx (u64Succ k.hab.sn) k with
      | error e k' => rw [bind_run_of_error hstore]
      | ok u k' =>
          rw [bind_run_of_ok hstore]
          rfl

/-- The identifier `h` is what it was, to the outside too: its state is what it was, and a rotation
that is tried again gives what it would have given. -/
structure Unharmed (X : Externals) (disk : Disk) (config : RotationConfig) (h h' : Hab) : Prop where
  same : h' = h
  state_eq : h'.state = h.state
  retry : ∀ store, rotateInner X disk config ⟨h', store⟩ = rotateInner X disk config ⟨h, store⟩

theorem unharmed_iff {config : RotationConfig} {h h' : Hab} :
    Unharmed X disk config h h' ↔ h' = h := by
  constructor
  · intro hunharmed
    exact hunharmed.same
  · rintro rfl
    exact ⟨rfl, rfl, fun _ => rfl⟩

/-- A rotation that fails after it has begun leaves everything but the pre-rotated keys. -/
theorem hab_of_rotate_error {config : RotationConfig} {k k' : Keeper} {e : KeriError}
    (htrans : k.hab.transferable = true) (h : rotateInner X disk config k = .error e k') :
    k'.hab = k.hab.dropped := by
  rw [rotateInner_run, if_neg (by simpa using htrans)] at h
  split at h
  · obtain ⟨-, rfl⟩ := EStateM.Result.error.inj h
    rfl
  · split at h
    · rename_i hstore
      obtain ⟨-, rfl⟩ := EStateM.Result.error.inj h
      exact hab_of_persist_error hstore
    · cases h

/-- **When a rotation that fails leaves the identifier as it was**: when it is refused at once, or
when there were no pre-rotated keys to lose. -/
theorem rotate_error_unharmed_iff {config : RotationConfig} {k k' : Keeper} {e : KeriError}
    (h : rotateInner X disk config k = .error e k') :
    Unharmed X disk config k.hab k'.hab ↔
      k.hab.transferable = false ∨ k.hab.nextSigners = [] := by
  rw [unharmed_iff]
  cases htrans : k.hab.transferable with
  | false =>
      rw [rotateInner_run, if_pos (by simp [htrans])] at h
      obtain ⟨-, rfl⟩ := EStateM.Result.error.inj h
      exact ⟨fun _ => Or.inl rfl, fun _ => rfl⟩
  | true =>
      rw [hab_of_rotate_error htrans h]
      constructor
      · intro heq
        exact Or.inr (congrArg nextSigners heq).symm
      · intro hcase
        rcases hcase with hcase | hcase
        · cases hcase
        · unfold dropped
          rw [← hcase]

/-! ### A rotation that loses the keys -/

/-- A disk that is full. -/
def fullDisk : Disk := fun _ => some (.lmdb "no space left on device")

/-- A new identifier whose first rotation is built, and then cannot be stored. -/
theorem exists_unstored_rotation :
    ∃ (hab : Hab) (event : SignedEvent) (record : Bytes) (e : KeriError) (k' : Keeper),
      inceptEvent Toy.lib "alice" { salt := some (Toy.salt 7) } [] = .ok (hab, event, record) ∧
      rotateInner Toy.lib fullDisk {} ⟨hab, some Store.empty⟩ = .error e k' ∧
      hab.transferable = true ∧ hab.nextSigners ≠ [] := by
  obtain ⟨⟨hab, event, record⟩, hincept, hbuilt⟩ := exists_ok_of_any
    (x := inceptEvent Toy.lib "alice" { salt := some (Toy.salt 7) } [])
    (p := fun r => r.1.transferable && !r.1.nextSigners.isEmpty &&
      (r.1.rotation Toy.lib {} r.1.nextSigners).toOption.any fun _ => true) (by decide +kernel)
  simp only [Bool.and_eq_true, Bool.not_eq_true', List.isEmpty_eq_false_iff] at hbuilt
  obtain ⟨⟨htrans, hnext⟩, hrotation⟩ := hbuilt
  obtain ⟨⟨newNextSigners, rotation⟩, hrot, -⟩ := exists_ok_of_any hrotation
  refine ⟨hab, event, record, .db (.lmdb "no space left on device"),
    ⟨hab.dropped, some { Store.empty with calls := 1 }⟩, hincept, ?_, htrans, hnext⟩
  rw [rotateInner_run, if_neg (by simpa using htrans), hrot]
  rfl

theorem rotate_error_unharmed_unstored :
    ∃ (k : Keeper) (e : KeriError) (k' : Keeper),
      rotateInner Toy.lib fullDisk {} k = .error e k' ∧
      (Unharmed Toy.lib fullDisk {} k.hab k'.hab ↔
        k.hab.transferable = false ∨ k.hab.nextSigners = []) := by
  obtain ⟨hab, -, -, e, k', -, hfail, -, -⟩ := exists_unstored_rotation
  exact ⟨⟨hab, some Store.empty⟩, e, k', hfail, rotate_error_unharmed_iff hfail⟩

/-- A new identifier that has lost its pre-rotated keys with its first rotation. -/
theorem failed_rotation_drops_keys :
    ∃ (hab : Hab) (event : SignedEvent) (record : Bytes) (e : KeriError) (k' : Keeper),
      inceptEvent Toy.lib "alice" { salt := some (Toy.salt 7) } [] = .ok (hab, event, record) ∧
      rotateInner Toy.lib fullDisk {} ⟨hab, some Store.empty⟩ = .error e k' ∧
      ¬ Unharmed Toy.lib fullDisk {} hab k'.hab := by
  obtain ⟨hab, event, record, e, k', hincept, hfail, htrans, hnext⟩ := exists_unstored_rotation
  refine ⟨hab, event, record, e, k', hincept, hfail, ?_⟩
  rw [unharmed_iff, hab_of_rotate_error htrans hfail]
  intro heq
  exact hnext (congrArg nextSigners heq).symm

end Hab

end Keri
