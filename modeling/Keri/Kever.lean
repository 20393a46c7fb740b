/-
**The key event verifier.**

A `Kever` holds the verified key state of one identifier.  It is built from an inception and takes
rotations and interactions, and it checks what `KeyState` does not: SAIDs, signatures against the
signing threshold, prefix derivation, the delegator's seal, and witness receipts.

* `Keri.verifySigsStatic`, `Keri.validIndices` — signatures against a key set and threshold, and
  the indices that carry a valid one;
* `Keri.Kever.new`, `Keri.Kever.newDelegated`, `Keri.Kever.newFromParts` — the constructors;
* `Keri.Kever.update`, `Keri.Kever.verifyUpdate`, `Keri.Kever.verifyUpdateOwned`,
  `Keri.Kever.verifyUpdateDelegated` — the four acceptance paths;
* `Keri.verifySigsStatic_eq_ok` — **signatures pass exactly when they can all be read and the valid
  indices satisfy the threshold**;
* `Keri.Kever.new_eq_ok`, `Keri.Kever.nextState_eq_ok`, `Keri.Kever.verifyUpdateDelegated_eq_ok` —
  what an accepted event has passed.
-/

import Keri.Delegation

set_option relaxedAutoImplicit false
set_option autoImplicit false

namespace Keri

open Outcome

variable (X : Externals)

/-! ### Signatures -/

/-- The distinct indices of valid signatures, in the order they turn up.  Signatures whose index is
out of range are skipped; one that cannot be verified at all fails the whole check. -/
def satisfiedIndices (message : Bytes) (verfers : List Verfer) :
    List ℕ → List Siger → Except CoreError (List ℕ)
  | acc, [] => .ok acc
  | acc, sig :: sigs =>
      match verfers[sig.index]? with
      | none => satisfiedIndices message verfers acc sigs
      | some verfer => do
          let valid ← (verfer.verify X message sig.raw).mapError .crypto
          satisfiedIndices message verfers
            (if valid = true ∧ sig.index ∉ acc then acc ++ [sig.index] else acc) sigs

/-- Verify indexed signatures against a key set and threshold. -/
def verifySigsStatic (message : Bytes) (sigs : List Siger) (verfers : List Verfer)
    (threshold : Threshold) : Except CoreError Unit := do
  let indices ← satisfiedIndices X message verfers [] sigs
  ensure (threshold.isSatisfied indices verfers.length) .thresholdNotMet

/-- Index `i` carries a valid signature over the message. -/
def ValidIndex (message : Bytes) (sigs : List Siger) (verfers : List Verfer) (i : ℕ) : Prop :=
  ∃ sig ∈ sigs, sig.index = i ∧
    ∃ verfer, verfers[i]? = some verfer ∧ verfer.verify X message sig.raw = .ok true

/-- Does a signature verify under the key at index `i`? -/
def validAt (message : Bytes) (verfers : List Verfer) (i : ℕ) (sig : Siger) : Bool :=
  match verfers[i]? with
  | none => false
  | some verfer =>
      match verfer.verify X message sig.raw with
      | .ok valid => decide (sig.index = i) && valid
      | .error _ => false

/-- The in-range indices that carry a valid signature over the message. -/
def validIndices (message : Bytes) (sigs : List Siger) (verfers : List Verfer) : List ℕ :=
  (List.range verfers.length).filter fun i => sigs.any (validAt X message verfers i)

/-- Every signature with an index in range is well formed, as is its key. -/
def SigsReadable (message : Bytes) (sigs : List Siger) (verfers : List Verfer) : Prop :=
  ∀ sig ∈ sigs, ∀ verfer, verfers[sig.index]? = some verfer →
    ∃ valid, verfer.verify X message sig.raw = .ok valid

section

variable {X} {message : Bytes} {verfers : List Verfer}

theorem validIndices_nodup (sigs : List Siger) : (validIndices X message sigs verfers).Nodup :=
  List.nodup_range.filter _

theorem mem_validIndices {sigs : List Siger} {i : ℕ} :
    i ∈ validIndices X message sigs verfers ↔ ValidIndex X message sigs verfers i := by
  have hat : ∀ sig : Siger, validAt X message verfers i sig = true ↔ sig.index = i ∧
      ∃ verfer, verfers[i]? = some verfer ∧ verfer.verify X message sig.raw = .ok true := by
    intro sig
    unfold validAt
    cases hv : verfers[i]? with
    | none => simp
    | some verfer => cases hb : verfer.verify X message sig.raw <;> simp [hb]
  simp only [validIndices, List.mem_filter, List.mem_range, List.any_eq_true, hat, ValidIndex]
  constructor
  · rintro ⟨-, h⟩
    exact h
  · rintro ⟨sig, hsig, hidx, verfer, hv, hok⟩
    exact ⟨(List.getElem?_eq_some_iff.1 hv).1, sig, hsig, hidx, verfer, hv, hok⟩

theorem validIndex_cons {sig : Siger} {sigs : List Siger} {i : ℕ} :
    ValidIndex X message (sig :: sigs) verfers i ↔
      (sig.index = i ∧ ∃ verfer, verfers[i]? = some verfer ∧
        verfer.verify X message sig.raw = .ok true) ∨ ValidIndex X message sigs verfers i := by
  simp [ValidIndex]

/-- The loop over the signatures collects exactly the valid indices, each once. -/
theorem satisfiedIndices_spec {sigs : List Siger} {acc is : List ℕ}
    (h : satisfiedIndices X message verfers acc sigs = .ok is) (hacc : acc.Nodup) :
    is.Nodup ∧ ∀ i, i ∈ is ↔ i ∈ acc ∨ ValidIndex X message sigs verfers i := by
  induction sigs generalizing acc with
  | nil =>
      cases h
      exact ⟨hacc, fun i => by simp [ValidIndex]⟩
  | cons sig sigs ih =>
      unfold satisfiedIndices at h
      split at h
      · rename_i hnone
        obtain ⟨hnodup, hmem⟩ := ih h hacc
        refine ⟨hnodup, fun i => ?_⟩
        rw [hmem, validIndex_cons]
        constructor
        · rintro (hi | hi)
          · exact Or.inl hi
          · exact Or.inr (Or.inr hi)
        · rintro (hi | ⟨rfl, verfer, hv, -⟩ | hi)
          · exact Or.inl hi
          · rw [hnone] at hv
            cases hv
          · exact Or.inr hi
      · rename_i verfer hsome
        obtain ⟨valid, hvalid, h⟩ := bind_eq_ok.1 h
        rw [mapError_eq_ok] at hvalid
        have hacc' : (if valid = true ∧ sig.index ∉ acc then acc ++ [sig.index]
            else acc).Nodup := by
          split
          · rename_i hnew
            exact List.Nodup.append hacc (by simp) (by simpa using hnew.2)
          · exact hacc
        obtain ⟨hnodup, hmem⟩ := ih h hacc'
        refine ⟨hnodup, fun i => ?_⟩
        have hfirst : i ∈ (if valid = true ∧ sig.index ∉ acc then acc ++ [sig.index] else acc) ↔
            i ∈ acc ∨ (sig.index = i ∧ valid = true) := by
          split
          · rename_i hnew
            rw [List.mem_append, List.mem_singleton]
            exact or_congr_right ⟨fun hi => ⟨hi.symm, hnew.1⟩, fun hi => hi.1.symm⟩
          · rename_i hold
            constructor
            · exact Or.inl
            · rintro (hi | ⟨rfl, hv⟩)
              · exact hi
              · by_contra hi
                exact hold ⟨hv, hi⟩
        rw [hmem, validIndex_cons, hfirst, or_assoc]
        refine or_congr_right (or_congr_left (and_congr_right ?_))
        rintro rfl
        constructor
        · rintro rfl
          exact ⟨verfer, hsome, hvalid⟩
        · rintro ⟨verfer', hv', hok⟩
          rw [hsome, Option.some_inj] at hv'
          rw [← hv', hvalid] at hok
          exact Except.ok.inj hok

theorem satisfiedIndices_ok_iff {sigs : List Siger} (acc : List ℕ) :
    (∃ is, satisfiedIndices X message verfers acc sigs = .ok is) ↔
      SigsReadable X message sigs verfers := by
  induction sigs generalizing acc with
  | nil => simp [satisfiedIndices, SigsReadable]
  | cons sig sigs ih =>
      simp only [SigsReadable, List.mem_cons, forall_eq_or_imp]
      unfold satisfiedIndices
      split
      · rename_i hnone
        rw [ih]
        exact ⟨fun h => ⟨fun v hv => by simp [hnone] at hv, h⟩, fun h => h.2⟩
      · rename_i verfer hsome
        simp only [bind_eq_ok, mapError_eq_ok]
        constructor
        · rintro ⟨is, valid, hvalid, h⟩
          refine ⟨fun v hv => ⟨valid, ?_⟩, (ih _).1 ⟨is, h⟩⟩
          rw [hsome, Option.some_inj] at hv
          rw [← hv, hvalid]
        · rintro ⟨hhead, htail⟩
          obtain ⟨valid, hvalid⟩ := hhead verfer hsome
          obtain ⟨is, his⟩ := (ih _).2 htail
          exact ⟨is, valid, hvalid, his⟩

/-- **Signatures pass exactly when they can all be read and the valid indices satisfy the
threshold.** -/
theorem verifySigsStatic_eq_ok {sigs : List Siger} {threshold : Threshold} {u : Unit} :
    verifySigsStatic X message sigs verfers threshold = .ok u ↔
      SigsReadable X message sigs verfers ∧
        threshold.isSatisfied (validIndices X message sigs verfers) verfers.length = true := by
  have hcongr : ∀ is, satisfiedIndices X message verfers [] sigs = .ok is →
      threshold.isSatisfied is verfers.length =
        threshold.isSatisfied (validIndices X message sigs verfers) verfers.length := by
    intro is his
    obtain ⟨hnodup, hmem⟩ := satisfiedIndices_spec his List.nodup_nil
    refine Threshold.isSatisfied_congr hnodup (validIndices_nodup sigs) (fun i => ?_) _ _
    rw [hmem, mem_validIndices]
    simp
  simp only [verifySigsStatic, bind_eq_ok, ensure_eq_ok]
  rw [← satisfiedIndices_ok_iff []]
  constructor
  · rintro ⟨is, his, hsat⟩
    exact ⟨⟨is, his⟩, hcongr is his ▸ hsat⟩
  · rintro ⟨⟨is, his⟩, hsat⟩
    exact ⟨is, his, hcongr is his ▸ hsat⟩

end

/-! ### Witness receipts -/

/-- The backers with a valid receipt, each once. -/
def validPrefixes (message : Bytes) (backers : List String) :
    List String → List (String × Bytes) → Except CoreError (List String)
  | valid, [] => .ok valid
  | valid, (prefixQb64, sigRaw) :: couples =>
      if prefixQb64 ∉ backers ∨ prefixQb64 ∈ valid then
        validPrefixes message backers valid couples
      else do
        -- a non-transferable prefix is the public key
        let verfer ← (Verfer.fromQb64 X prefixQb64).mapError .crypto
        let ok ← (verfer.verify X message sigRaw).mapError .crypto
        validPrefixes message backers (if ok then valid ++ [prefixQb64] else valid) couples

/-- Verify receipt couples against a backer set and threshold. -/
def verifyWitnessReceiptsStatic (message : Bytes) (receiptCouples : List (String × Bytes))
    (backers : List String) (backerThreshold : ℕ) : Except CoreError Unit := do
  if backerThreshold = 0 then pure ⟨⟩
  else
    let valid ← validPrefixes X message backers [] receiptCouples
    ensure (backerThreshold ≤ valid.length) (.validation
      s!"witness receipt threshold not met: need {backerThreshold}, got {valid.length}")

/-! ### The verifier -/

/-- Key event verifier for one identifier. -/
structure Kever where
  state : KeyState
  incepted : Bool
  deriving DecidableEq, Repr

namespace Kever

/-- Verification keys from their texts. -/
def verfersFromKeys (keys : List String) : Except CoreError (List Verfer) :=
  keys.mapM fun key => (Verfer.fromQb64 X key).mapError .crypto

/-- Check that the event's keys are the given ones, from index `i` on. -/
def checkVerfers : ℕ → List String → List Verfer → Except CoreError Unit
  | i, key :: keys, verfer :: verfers => do
      let verferQb64 ← (verfer.qb64 X).mapError .crypto
      ensure (key = verferQb64)
        (.validation s!"key[{i}] mismatch: event key '{key}' != verfer '{verferQb64}'")
      checkVerfers (i + 1) keys verfers
  | _, _, _ => pure ⟨⟩

/-- Check that the event's keys are the given ones, in order and in number. -/
def checkKeys (keys : List String) (verfers : List Verfer) : Except CoreError Unit := do
  ensure (keys.length = verfers.length) (.validation
    s!"key count mismatch: event has {keys.length} keys, {verfers.length} verfers provided")
  checkVerfers X 0 keys verfers

/-- The prefix is the SAID, or the first public key. -/
def validatePrefixDerivation (icp : InceptionEvent) : Except CoreError Unit :=
  if (Diger.fromQb64 X icp.pfx).isOk then
    ensure (icp.pfx = icp.said)
      (.invalidPrefix "self-addressing prefix does not match event SAID (i != d)")
  else if (Verfer.fromQb64 X icp.pfx).isOk then
    ensure (icp.keys.head? = some icp.pfx)
      (.invalidPrefix "basic prefix does not match first public key")
  else .error (.invalidPrefix "prefix is neither a valid digest code nor a valid key code")

/-! ### Constructors -/

/-- What `new` and `new_from_parts` do once the ilk and the SAID are checked. -/
def incept (raw : Bytes) (sad : Value) (sigs : List Siger) (verfers : List Verfer) :
    Except CoreError Kever := do
  let icp ← (InceptionEvent.fromValue sad).mapError .json
  checkKeys X icp.keys verfers
  verifySigsStatic X raw sigs verfers icp.keysThreshold
  validatePrefixDerivation X icp
  let state ← KeyState.fromInception icp
  pure { state, incepted := true }

/-- A verifier from an inception. -/
def new (serder : Serder) (sigs : List Siger) (verfers : List Verfer) :
    Except CoreError Kever := do
  let ilk ← serder.ilk
  ensure (ilk ≠ "dip") (.unexpectedIlk
    ("'dip' is a delegated inception; use Kever::new_delegated, which verifies " ++
      "the delegator's anchoring seal"))
  ensure (ilk = "icp") (.unexpectedIlk s!"expected 'icp', got '{ilk}'")
  serder.verifySaid X "E"
  incept X serder.raw serder.sad sigs verfers

/-- A verifier from an inception given in parts.  The SAID is checked as JSON, whatever kind the
body came in. -/
def newFromParts (raw : Bytes) (sad : Value) (sigs : List Siger) (verfers : List Verfer) :
    Except CoreError Kever := do
  let ilk ← okOr ((sad.get "t").bind Value.asStr) (.missingField "t")
  ensure (ilk = "icp") (.unexpectedIlk s!"expected 'icp', got '{ilk}'")
  verifySaid X sad "d" "E" .json
  incept X raw sad sigs verfers

/-- A verifier from a delegated inception, which the delegator has to have anchored. -/
def newDelegated (serder : Serder) (sigs : List Siger) (verfers : List Verfer)
    (proof : DelegationProof) (source : DelegatorAnchors) : Except CoreError Kever := do
  let ilk ← serder.ilk
  ensure (ilk = "dip") (.unexpectedIlk s!"expected 'dip', got '{ilk}'")
  serder.verifySaid X "E"
  let dip ← (DelegatedInceptionEvent.fromValue serder.sad).mapError .json
  checkKeys X dip.keys verfers
  verifySigsStatic X serder.raw sigs verfers dip.keysThreshold
  ensure (dip.pfx = dip.said)
    (.invalidPrefix "delegated inception prefix does not match event SAID (i != d)")
  verifyDelegation dip.pfx 0 dip.said dip.delegator proof source
  let state ← KeyState.fromDelegatedInception dip
  pure { state, incepted := true }

/-! ### Updates -/

/-- A delegated identifier rotates with `drt` only. -/
def rejectPlainRotationWhenDelegated (k : Kever) : Except CoreError Unit :=
  ensure (k.state.delegated = false)
    (.unexpectedIlk "identifier is delegated and must rotate with 'drt', not 'rot'")

/-- The current verification keys. -/
def buildVerfers (k : Kever) : Except CoreError (List Verfer) := verfersFromKeys X k.state.keys

/-- The state after a rotation or an interaction: what the three plain acceptance paths do once the
SAID and the sequence number are checked. -/
def nextState (k : Kever) (raw : Bytes) (sad : Value) (sigs : List Siger) (ilk : String) :
    Except CoreError KeyState :=
  if ilk = "rot" then do
    rejectPlainRotationWhenDelegated k
    let rot ← (RotationEvent.fromValue sad).mapError .json
    -- a rotation is signed by the keys it installs
    let verfers ← verfersFromKeys X rot.keys
    verifySigsStatic X raw sigs verfers rot.keysThreshold
    k.state.applyRotation X rot
  else if ilk = "ixn" then do
    let verfers ← k.buildVerfers X
    verifySigsStatic X raw sigs verfers k.state.threshold
    let ixn ← (InteractionEvent.fromValue sad).mapError .json
    k.state.applyInteraction ixn
  else if ilk = "drt" then
    .error (.unexpectedIlk
      ("'drt' is a delegated rotation; use Kever::verify_update_delegated, " ++
        "which verifies the delegator's anchoring seal"))
  else .error (.unexpectedIlk s!"expected 'rot' or 'ixn' for update, got '{ilk}'")

def ensureIncepted (k : Kever) : Except CoreError Unit :=
  ensure (k.incepted = true) (.validation "kever not initialized with inception event")

/-- The sequence number must be exactly the current one plus one. -/
def ensureNext (k : Kever) (sn : ℕ) : Except CoreError Unit :=
  ensure (sn = u64Succ k.state.sn) (.outOfOrder (u64Succ k.state.sn) sn)

/-- Verify the next event without applying it. -/
def verifyUpdate (k : Kever) (serder : Serder) (sigs : List Siger) :
    Except CoreError KeyState := do
  k.ensureIncepted
  serder.verifySaid X "E"
  let ilk ← serder.ilk
  let sn ← serder.sn
  k.ensureNext sn
  k.nextState X serder.raw serder.sad sigs ilk

/-- Apply a verified update. -/
def applyVerifiedUpdate (k : Kever) (newState : KeyState) : Kever := { k with state := newState }

/-- Process the next event.  Its checks are those of `verifyUpdate`, written out again in the
source; a refused event leaves the verifier as it was. -/
def update (k : Kever) (serder : Serder) (sigs : List Siger) : Except CoreError Kever := do
  k.ensureIncepted
  serder.verifySaid X "E"
  let ilk ← serder.ilk
  let sn ← serder.sn
  k.ensureNext sn
  let state ← k.nextState X serder.raw serder.sad sigs ilk
  pure { k with state }

/-- Verify the next event from its parts.  The SAID is checked as JSON, whatever kind the body came
in. -/
def verifyUpdateOwned (k : Kever) (raw : Bytes) (sad : Value) (sigs : List Siger) :
    Except CoreError KeyState := do
  k.ensureIncepted
  verifySaid X sad "d" "E" .json
  let ilk ← okOr ((sad.get "t").bind Value.asStr) (.missingField "t")
  let snStr ← okOr ((sad.get "s").bind Value.asStr) (.missingField "s")
  let sn ← okOr (fromStrRadix 16 u64Bound snStr) (.validation s!"invalid sn: {snStr}")
  k.ensureNext sn
  k.nextState X raw sad sigs ilk

/-- Verify a delegated rotation without applying it. -/
def verifyUpdateDelegated (k : Kever) (serder : Serder) (sigs : List Siger)
    (proof : DelegationProof) (source : DelegatorAnchors) : Except CoreError KeyState := do
  k.ensureIncepted
  serder.verifySaid X "E"
  let ilk ← serder.ilk
  ensure (ilk = "drt") (.unexpectedIlk s!"expected 'drt', got '{ilk}'")
  let sn ← serder.sn
  k.ensureNext sn
  let drt ← (DelegatedRotationEvent.fromValue serder.sad).mapError .json
  let verfers ← verfersFromKeys X drt.keys
  verifySigsStatic X serder.raw sigs verfers drt.keysThreshold
  verifyDelegation drt.pfx sn drt.said drt.delegator proof source
  k.state.applyDelegatedRotation X drt

/-- Verify signatures under the current keys and threshold. -/
def verifySigs (k : Kever) (message : Bytes) (sigs : List Siger) : Except CoreError Bool := do
  let verfers ← k.buildVerfers X
  verifySigsStatic X message sigs verfers k.state.threshold
  pure true

/-- Verify witness receipts against the current backers and threshold. -/
def verifyWitnessReceipts (k : Kever) (message : Bytes)
    (receiptCouples : List (String × Bytes)) : Except CoreError Unit :=
  verifyWitnessReceiptsStatic X message receiptCouples k.state.backers k.state.backerThreshold

/-! ### What an accepted event has passed -/

variable {X}

theorem verfersFromKeys_eq_ok {keys : List String} {verfers : List Verfer} :
    verfersFromKeys X keys = .ok verfers ↔
      List.Forall₂ (fun key verfer => Verfer.fromQb64 X key = .ok verfer) keys verfers := by
  simp only [verfersFromKeys, mapM_eq_ok, mapError_eq_ok]

theorem checkVerfers_eq_ok {i : ℕ} {keys : List String} {verfers : List Verfer} {u : Unit}
    (hlen : keys.length = verfers.length) :
    checkVerfers X i keys verfers = .ok u ↔
      List.Forall₂ (fun key verfer => verfer.qb64 X = .ok key) keys verfers := by
  induction keys generalizing i verfers with
  | nil =>
      obtain rfl := List.length_eq_zero_iff.1 hlen.symm
      simp [checkVerfers]
  | cons key keys ih =>
      cases verfers with
      | nil => simp at hlen
      | cons verfer verfers =>
          have hlen' : keys.length = verfers.length := by simpa using hlen
          simp only [checkVerfers, bind_eq_ok, mapError_eq_ok, ensure_eq_ok, ih hlen',
            List.forall₂_cons]
          constructor
          · rintro ⟨_, hqb64, -, rfl, hrest⟩
            exact ⟨hqb64, hrest⟩
          · rintro ⟨hqb64, hrest⟩
            exact ⟨key, hqb64, ⟨⟩, rfl, hrest⟩

theorem checkKeys_eq_ok {keys : List String} {verfers : List Verfer} {u : Unit} :
    checkKeys X keys verfers = .ok u ↔
      List.Forall₂ (fun key verfer => verfer.qb64 X = .ok key) keys verfers := by
  simp only [checkKeys, bind_eq_ok, ensure_eq_ok]
  constructor
  · rintro ⟨-, hlen, h⟩
    exact (checkVerfers_eq_ok hlen).1 h
  · intro h
    exact ⟨⟨⟩, h.length_eq, (checkVerfers_eq_ok h.length_eq).2 h⟩

theorem incept_eq_ok {raw : Bytes} {sad : Value} {sigs : List Siger} {verfers : List Verfer}
    {k : Kever} :
    incept X raw sad sigs verfers = .ok k ↔ ∃ icp, InceptionEvent.fromValue sad = .ok icp ∧
      checkKeys X icp.keys verfers = .ok ⟨⟩ ∧
      verifySigsStatic X raw sigs verfers icp.keysThreshold = .ok ⟨⟩ ∧
      validatePrefixDerivation X icp = .ok ⟨⟩ ∧
      KeyState.fromInception icp = .ok k.state ∧ k.incepted = true := by
  simp only [incept, bind_eq_ok, mapError_eq_ok, pure_eq_ok]
  constructor
  · rintro ⟨icp, hicp, ⟨⟩, hkeys, ⟨⟩, hsigs, ⟨⟩, hpfx, state, hstate, rfl⟩
    exact ⟨icp, hicp, hkeys, hsigs, hpfx, hstate, rfl⟩
  · rintro ⟨icp, hicp, hkeys, hsigs, hpfx, hstate, hinc⟩
    obtain ⟨state, incepted⟩ := k
    simp only at hstate hinc
    subst hinc
    exact ⟨icp, hicp, ⟨⟩, hkeys, ⟨⟩, hsigs, ⟨⟩, hpfx, state, hstate, rfl⟩

/-- An accepted inception is an `icp` whose SAID verifies in its own kind. -/
theorem new_eq_ok {serder : Serder} {sigs : List Siger} {verfers : List Verfer} {k : Kever} :
    new X serder sigs verfers = .ok k ↔ serder.ilk = .ok "icp" ∧
      serder.verifySaid X "E" = .ok ⟨⟩ ∧ incept X serder.raw serder.sad sigs verfers = .ok k := by
  simp only [new, bind_eq_ok, ensure_eq_ok]
  constructor
  · rintro ⟨_, hilk, -, -, -, rfl, ⟨⟩, hsaid, h⟩
    exact ⟨hilk, hsaid, h⟩
  · rintro ⟨hilk, hsaid, h⟩
    exact ⟨_, hilk, ⟨⟩, by decide, ⟨⟩, rfl, ⟨⟩, hsaid, h⟩

/-- An inception accepted from its parts is an `icp` whose SAID verifies as JSON. -/
theorem newFromParts_eq_ok {raw : Bytes} {sad : Value} {sigs : List Siger}
    {verfers : List Verfer} {k : Kever} :
    newFromParts X raw sad sigs verfers = .ok k ↔ sad.get "t" = some (.string "icp") ∧
      Keri.verifySaid X sad "d" "E" .json = .ok ⟨⟩ ∧
      incept X raw sad sigs verfers = .ok k := by
  simp only [newFromParts, bind_eq_ok, ensure_eq_ok, okOr_eq_ok, Option.bind_eq_some_iff,
    Value.asStr_eq_some]
  constructor
  · rintro ⟨_, ⟨v, hv, rfl⟩, -, rfl, ⟨⟩, hsaid, h⟩
    exact ⟨hv, hsaid, h⟩
  · rintro ⟨hv, hsaid, h⟩
    exact ⟨_, ⟨_, hv, rfl⟩, ⟨⟩, rfl, ⟨⟩, hsaid, h⟩

theorem newDelegated_eq_ok {serder : Serder} {sigs : List Siger} {verfers : List Verfer}
    {proof : DelegationProof} {source : DelegatorAnchors} {k : Kever} :
    newDelegated X serder sigs verfers proof source = .ok k ↔ serder.ilk = .ok "dip" ∧
      serder.verifySaid X "E" = .ok ⟨⟩ ∧
      ∃ dip, DelegatedInceptionEvent.fromValue serder.sad = .ok dip ∧
        checkKeys X dip.keys verfers = .ok ⟨⟩ ∧
        verifySigsStatic X serder.raw sigs verfers dip.keysThreshold = .ok ⟨⟩ ∧
        dip.pfx = dip.said ∧
        verifyDelegation dip.pfx 0 dip.said dip.delegator proof source = .ok ⟨⟩ ∧
        KeyState.fromDelegatedInception dip = .ok k.state ∧ k.incepted = true := by
  simp only [newDelegated, bind_eq_ok, ensure_eq_ok, mapError_eq_ok, pure_eq_ok]
  constructor
  · rintro ⟨_, hilk, -, rfl, ⟨⟩, hsaid, dip, hdip, ⟨⟩, hkeys, ⟨⟩, hsigs, ⟨⟩, hpfx, ⟨⟩, hdel, state,
      hstate, rfl⟩
    exact ⟨hilk, hsaid, dip, hdip, hkeys, hsigs, hpfx, hdel, hstate, rfl⟩
  · rintro ⟨hilk, hsaid, dip, hdip, hkeys, hsigs, hpfx, hdel, hstate, hinc⟩
    obtain ⟨state, incepted⟩ := k
    simp only at hstate hinc
    subst hinc
    exact ⟨_, hilk, ⟨⟩, rfl, ⟨⟩, hsaid, dip, hdip, ⟨⟩, hkeys, ⟨⟩, hsigs, ⟨⟩, hpfx, ⟨⟩, hdel,
      state, hstate, rfl⟩

/-- An accepted plain update is a rotation signed by the keys it installs, or an interaction signed
by the current ones. -/
theorem nextState_eq_ok {k : Kever} {raw : Bytes} {sad : Value} {sigs : List Siger}
    {ilk : String} {t : KeyState} :
    k.nextState X raw sad sigs ilk = .ok t ↔
      (ilk = "rot" ∧ k.state.delegated = false ∧
        ∃ rot verfers, RotationEvent.fromValue sad = .ok rot ∧
          verfersFromKeys X rot.keys = .ok verfers ∧
          verifySigsStatic X raw sigs verfers rot.keysThreshold = .ok ⟨⟩ ∧
          k.state.applyRotation X rot = .ok t) ∨
      (ilk = "ixn" ∧
        ∃ ixn verfers, InteractionEvent.fromValue sad = .ok ixn ∧
          verfersFromKeys X k.state.keys = .ok verfers ∧
          verifySigsStatic X raw sigs verfers k.state.threshold = .ok ⟨⟩ ∧
          k.state.applyInteraction ixn = .ok t) := by
  constructor
  · intro h
    unfold nextState at h
    split at h
    · rename_i hrot
      simp only [bind_eq_ok, mapError_eq_ok, rejectPlainRotationWhenDelegated,
        ensure_eq_ok] at h
      obtain ⟨⟨⟩, hdel, rot, hfrom, verfers, hverfers, ⟨⟩, hsigs, happly⟩ := h
      exact Or.inl ⟨hrot, hdel, rot, verfers, hfrom, hverfers, hsigs, happly⟩
    · split at h
      · rename_i hixn
        simp only [bind_eq_ok, mapError_eq_ok, buildVerfers] at h
        obtain ⟨verfers, hverfers, ⟨⟩, hsigs, ixn, hfrom, happly⟩ := h
        exact Or.inr ⟨hixn, ixn, verfers, hfrom, hverfers, hsigs, happly⟩
      · split at h <;> cases h
  · rintro (⟨rfl, hdel, rot, verfers, hfrom, hverfers, hsigs, happly⟩ |
      ⟨rfl, ixn, verfers, hfrom, hverfers, hsigs, happly⟩)
    · simp only [nextState, if_true, bind_eq_ok, mapError_eq_ok,
        rejectPlainRotationWhenDelegated, ensure_eq_ok]
      exact ⟨⟨⟩, hdel, rot, hfrom, verfers, hverfers, ⟨⟩, hsigs, happly⟩
    · have hne : ("ixn" : String) ≠ "rot" := by decide
      simp only [nextState, if_neg hne, if_true, bind_eq_ok, mapError_eq_ok, buildVerfers]
      exact ⟨verfers, hverfers, ⟨⟩, hsigs, ixn, hfrom, happly⟩

theorem verifyUpdate_eq_ok {k : Kever} {serder : Serder} {sigs : List Siger} {t : KeyState} :
    k.verifyUpdate X serder sigs = .ok t ↔ k.incepted = true ∧
      serder.verifySaid X "E" = .ok ⟨⟩ ∧ ∃ ilk, serder.ilk = .ok ilk ∧
        serder.sn = .ok (u64Succ k.state.sn) ∧
        k.nextState X serder.raw serder.sad sigs ilk = .ok t := by
  simp only [verifyUpdate, ensureIncepted, ensureNext, bind_eq_ok, ensure_eq_ok]
  constructor
  · rintro ⟨-, hinc, ⟨⟩, hsaid, ilk, hilk, _, hsn, -, rfl, h⟩
    exact ⟨hinc, hsaid, ilk, hilk, hsn, h⟩
  · rintro ⟨hinc, hsaid, ilk, hilk, hsn, h⟩
    exact ⟨⟨⟩, hinc, ⟨⟩, hsaid, ilk, hilk, _, hsn, ⟨⟩, rfl, h⟩

/-- Processing an event is verifying it and applying the result. -/
theorem update_eq_ok {k k' : Kever} {serder : Serder} {sigs : List Siger} :
    k.update X serder sigs = .ok k' ↔
      ∃ t, k.verifyUpdate X serder sigs = .ok t ∧ k' = k.applyVerifiedUpdate t := by
  simp only [verifyUpdate_eq_ok, update, ensureIncepted, ensureNext, bind_eq_ok, ensure_eq_ok,
    pure_eq_ok]
  constructor
  · rintro ⟨-, hinc, ⟨⟩, hsaid, ilk, hilk, _, hsn, -, rfl, t, h, rfl⟩
    exact ⟨t, ⟨hinc, hsaid, ilk, hilk, hsn, h⟩, rfl⟩
  · rintro ⟨t, ⟨hinc, hsaid, ilk, hilk, hsn, h⟩, rfl⟩
    exact ⟨⟨⟩, hinc, ⟨⟩, hsaid, ilk, hilk, _, hsn, ⟨⟩, rfl, t, h, rfl⟩

theorem verifyUpdateOwned_eq_ok {k : Kever} {raw : Bytes} {sad : Value} {sigs : List Siger}
    {t : KeyState} :
    k.verifyUpdateOwned X raw sad sigs = .ok t ↔ k.incepted = true ∧
      Keri.verifySaid X sad "d" "E" .json = .ok ⟨⟩ ∧
        ∃ ilk snStr, sad.get "t" = some (.string ilk) ∧ sad.get "s" = some (.string snStr) ∧
          fromStrRadix 16 u64Bound snStr = some (u64Succ k.state.sn) ∧
          k.nextState X raw sad sigs ilk = .ok t := by
  simp only [verifyUpdateOwned, ensureIncepted, ensureNext, bind_eq_ok, ensure_eq_ok, okOr_eq_ok,
    Option.bind_eq_some_iff, Value.asStr_eq_some]
  constructor
  · rintro ⟨-, hinc, ⟨⟩, hsaid, ilk, ⟨_, hilk, rfl⟩, snStr, ⟨_, hs, rfl⟩, _, hsn, -, rfl, h⟩
    exact ⟨hinc, hsaid, ilk, snStr, hilk, hs, hsn, h⟩
  · rintro ⟨hinc, hsaid, ilk, snStr, hilk, hs, hsn, h⟩
    exact ⟨⟨⟩, hinc, ⟨⟩, hsaid, ilk, ⟨_, hilk, rfl⟩, snStr, ⟨_, hs, rfl⟩, _, hsn, ⟨⟩, rfl, h⟩

theorem verifyUpdateDelegated_eq_ok {k : Kever} {serder : Serder} {sigs : List Siger}
    {proof : DelegationProof} {source : DelegatorAnchors} {t : KeyState} :
    k.verifyUpdateDelegated X serder sigs proof source = .ok t ↔ k.incepted = true ∧
      serder.verifySaid X "E" = .ok ⟨⟩ ∧ serder.ilk = .ok "drt" ∧
      serder.sn = .ok (u64Succ k.state.sn) ∧
      ∃ drt verfers, DelegatedRotationEvent.fromValue serder.sad = .ok drt ∧
        verfersFromKeys X drt.keys = .ok verfers ∧
        verifySigsStatic X serder.raw sigs verfers drt.keysThreshold = .ok ⟨⟩ ∧
        verifyDelegation drt.pfx (u64Succ k.state.sn) drt.said drt.delegator proof source =
          .ok ⟨⟩ ∧
        k.state.applyDelegatedRotation X drt = .ok t := by
  simp only [verifyUpdateDelegated, ensureIncepted, ensureNext, bind_eq_ok, ensure_eq_ok,
    mapError_eq_ok]
  constructor
  · rintro ⟨-, hinc, ⟨⟩, hsaid, _, hilk, -, rfl, _, hsn, -, rfl, drt, hdrt, verfers, hverfers, ⟨⟩,
      hsigs, ⟨⟩, hdel, h⟩
    exact ⟨hinc, hsaid, hilk, hsn, drt, verfers, hdrt, hverfers, hsigs, hdel, h⟩
  · rintro ⟨hinc, hsaid, hilk, hsn, drt, verfers, hdrt, hverfers, hsigs, hdel, h⟩
    exact ⟨⟨⟩, hinc, ⟨⟩, hsaid, _, hilk, ⟨⟩, rfl, _, hsn, ⟨⟩, rfl, drt, hdrt, verfers, hverfers,
      ⟨⟩, hsigs, ⟨⟩, hdel, h⟩

end Kever

end Keri
