/-
**Key states.**

The state of an identifier at a point of its key event log, how an inception makes one and how a
rotation or an interaction changes it.  Sequencing, chaining and the pre-rotation commitment are
checked here; signatures and SAIDs are not.

* `Keri.KeyState.fromInception`, `Keri.KeyState.applyRotation`, `Keri.KeyState.applyInteraction`
  and their delegated forms;
* `Keri.verifyNextKeyCommitment_eq_ok` — **keys are committed to one for one, in order and in
  number**;
* `Keri.KeyState.applyRotation_eq_ok` and its like — what each step checks, and all it does.

The next threshold is carried from an establishment event to the next and is read by nothing.
-/

import Keri.Event

set_option relaxedAutoImplicit false
set_option autoImplicit false

namespace Keri

open Outcome

variable (X : Externals)

/-- The key state of an identifier. -/
structure KeyState where
  pfx : String
  sn : ℕ
  /-- The SAID of the latest establishment event. -/
  said : String
  threshold : Threshold
  keys : List String
  nextKeys : List String
  nextThreshold : Threshold
  backerThreshold : ℕ
  backers : List String
  config : List String
  /-- The SAID of the latest event of any kind. -/
  lastEventDigest : String
  delegated : Bool
  delegator : Option String
  deriving DecidableEq, Repr

/-! ### Text fields -/

/-- A sequence number, from its hexadecimal text. -/
def parseSn (s : String) : Except CoreError ℕ :=
  okOr (fromStrRadix 16 u64Bound s) (.validation s!"invalid sequence number: {s}")

/-- A backer threshold, from its decimal text. -/
def parseBackerThreshold (s : String) : Except CoreError ℕ :=
  okOr (fromStrRadix 10 u64Bound s) (.validation s!"invalid backer threshold: {s}")

/-! ### The pre-rotation commitment -/

/-- Check one key against one digest.  The digest is of the key's text, not of its raw bytes. -/
def verifyNextKey (i : ℕ) (keyQb64 digestQb64 : String) : Except CoreError Unit := do
  let _ ← (Verfer.fromQb64 X keyQb64).mapError fun e =>
    .validation s!"invalid rotation key at index {i}: {e.display}"
  let diger ← (Diger.fromQb64 X digestQb64).mapError fun e =>
    .validation s!"invalid next-key digest at index {i}: {e.display}"
  let isMatch ← (diger.verify X (strBytes keyQb64)).mapError fun e =>
    .validation s!"failed to verify next-key commitment at index {i}: {e.display}"
  ensure (isMatch = true)
    (.validation s!"rotation key at index {i} does not match next-key commitment")

/-- Check the keys against the digests, pair by pair from index `i` on. -/
def verifyNextKeys : ℕ → List String → List String → Except CoreError Unit
  | i, key :: keys, digest :: digests => do
      verifyNextKey X i key digest
      verifyNextKeys (i + 1) keys digests
  | _, _, _ => pure ⟨⟩

/-- Each rotation key must match the digest committed to in its place. -/
def verifyNextKeyCommitment (keys nextKeys : List String) : Except CoreError Unit := do
  ensure (keys.length = nextKeys.length) (.validation
    (s!"rotation key count ({keys.length}) does not match " ++
      s!"next-key commitment count ({nextKeys.length})"))
  verifyNextKeys X 0 keys nextKeys

/-- A key is the one a digest commits to. -/
def KeyMatches (key digest : String) : Prop :=
  (∃ verfer, Verfer.fromQb64 X key = .ok verfer) ∧
    ∃ diger, Diger.fromQb64 X digest = .ok diger ∧ diger.verify X (strBytes key) = .ok true

variable {X}

theorem verifyNextKey_eq_ok {i : ℕ} {key digest : String} {u : Unit} :
    verifyNextKey X i key digest = .ok u ↔ KeyMatches X key digest := by
  simp only [verifyNextKey, bind_eq_ok, mapError_eq_ok, ensure_eq_ok, KeyMatches]
  constructor
  · rintro ⟨verfer, hv, diger, hd, isMatch, hm, rfl⟩
    exact ⟨⟨verfer, hv⟩, diger, hd, hm⟩
  · rintro ⟨⟨verfer, hv⟩, diger, hd, hm⟩
    exact ⟨verfer, hv, diger, hd, true, hm, rfl⟩

theorem verifyNextKeys_eq_ok {i : ℕ} {keys nextKeys : List String} {u : Unit}
    (hlen : keys.length = nextKeys.length) :
    verifyNextKeys X i keys nextKeys = .ok u ↔ List.Forall₂ (KeyMatches X) keys nextKeys := by
  induction keys generalizing i nextKeys with
  | nil =>
      obtain rfl := List.length_eq_zero_iff.1 hlen.symm
      simp [verifyNextKeys]
  | cons key keys ih =>
      cases nextKeys with
      | nil => simp at hlen
      | cons digest nextKeys =>
          have hlen' : keys.length = nextKeys.length := by simpa using hlen
          simp only [verifyNextKeys, bind_eq_ok, verifyNextKey_eq_ok, ih hlen', List.forall₂_cons]
          constructor
          · rintro ⟨-, hkey, hrest⟩
            exact ⟨hkey, hrest⟩
          · rintro ⟨hkey, hrest⟩
            exact ⟨⟨⟩, hkey, hrest⟩

/-- **The commitment holds exactly when keys and digests match one for one, in order and in
number.** -/
theorem verifyNextKeyCommitment_eq_ok {keys nextKeys : List String} {u : Unit} :
    verifyNextKeyCommitment X keys nextKeys = .ok u ↔
      List.Forall₂ (KeyMatches X) keys nextKeys := by
  simp only [verifyNextKeyCommitment, bind_eq_ok, ensure_eq_ok]
  constructor
  · rintro ⟨-, hlen, h⟩
    exact (verifyNextKeys_eq_ok hlen).1 h
  · intro h
    exact ⟨⟨⟩, h.length_eq, (verifyNextKeys_eq_ok h.length_eq).2 h⟩

variable (X)

namespace KeyState

/-! ### Inception -/

/-- The first key state of an identifier. -/
def fromInception (event : InceptionEvent) : Except CoreError KeyState := do
  let sn ← parseSn event.sn
  ensure (sn = 0) (.validation s!"inception event must have sn=0, got {sn}")
  let backerThreshold ← parseBackerThreshold event.backerThreshold
  ensure (backerThreshold ≤ event.backers.length) (.validation
    s!"backer threshold ({backerThreshold}) exceeds backer count ({event.backers.length})")
  pure { pfx := event.pfx, sn := 0, said := event.said, threshold := event.keysThreshold,
         keys := event.keys, nextKeys := event.nextKeys, nextThreshold := event.nextThreshold,
         backerThreshold, backers := event.backers, config := event.config,
         lastEventDigest := event.said, delegated := false, delegator := none }

/-- The first key state of a delegated identifier. -/
def fromDelegatedInception (event : DelegatedInceptionEvent) : Except CoreError KeyState := do
  let sn ← parseSn event.sn
  ensure (sn = 0) (.validation s!"delegated inception event must have sn=0, got {sn}")
  ensure (event.delegator ≠ "")
    (.validation "delegated inception names no delegator (empty `di`)")
  let backerThreshold ← parseBackerThreshold event.backerThreshold
  ensure (backerThreshold ≤ event.backers.length) (.validation
    s!"backer threshold ({backerThreshold}) exceeds backer count ({event.backers.length})")
  pure { pfx := event.pfx, sn := 0, said := event.said, threshold := event.keysThreshold,
         keys := event.keys, nextKeys := event.nextKeys, nextThreshold := event.nextThreshold,
         backerThreshold, backers := event.backers, config := event.config,
         lastEventDigest := event.said, delegated := true, delegator := some event.delegator }

/-! ### Rotation and interaction -/

/-- Remove backers, then add those that are not there yet. -/
def newBackers (backers remove add : List String) : List String :=
  add.foldl (fun bs b => if b ∈ bs then bs else bs ++ [b]) (backers.filter (· ∉ remove))

/-- Apply a rotation. -/
def applyRotation (s : KeyState) (event : RotationEvent) : Except CoreError KeyState := do
  let sn ← parseSn event.sn
  ensure (sn = u64Succ s.sn) (.outOfOrder (u64Succ s.sn) sn)
  ensure (event.pfx = s.pfx) (.invalidPrefix
    s!"rotation prefix '{event.pfx}' does not match state prefix '{s.pfx}'")
  ensure (event.priorSaid = s.lastEventDigest) (.validation
    s!"prior SAID mismatch: expected '{s.lastEventDigest}', got '{event.priorSaid}'")
  verifyNextKeyCommitment X event.keys s.nextKeys
  let backerThreshold ← parseBackerThreshold event.backerThreshold
  let backers := newBackers s.backers event.backersRemove event.backersAdd
  ensure (backerThreshold ≤ backers.length) (.validation
    s!"backer threshold ({backerThreshold}) exceeds backer count ({backers.length})")
  pure { pfx := s.pfx, sn, said := event.said, threshold := event.keysThreshold,
         keys := event.keys, nextKeys := event.nextKeys, nextThreshold := event.nextThreshold,
         backerThreshold, backers, config := event.config, lastEventDigest := event.said,
         delegated := s.delegated, delegator := s.delegator }

/-- Apply a delegated rotation: the delegator must be the one of the inception, and the rest is a
rotation. -/
def applyDelegatedRotation (s : KeyState) (event : DelegatedRotationEvent) :
    Except CoreError KeyState := do
  ensure (s.delegated = true)
    (.validation "delegated rotation applied to an identifier that was not delegated")
  match s.delegator with
  | some known =>
      ensure (known = event.delegator) (.validation
        (s!"delegated rotation names delegator '{event.delegator}' but the identifier was " ++
          s!"incepted under '{known}'"))
  | none => throw (.validation "delegated identifier has no recorded delegator")
  applyRotation X s event.toRotationEvent

/-- Apply an interaction, which changes the sequence number and the last digest only. -/
def applyInteraction (s : KeyState) (event : InteractionEvent) : Except CoreError KeyState := do
  let sn ← parseSn event.sn
  ensure (sn = u64Succ s.sn) (.outOfOrder (u64Succ s.sn) sn)
  ensure (event.pfx = s.pfx) (.invalidPrefix
    s!"interaction prefix '{event.pfx}' does not match state prefix '{s.pfx}'")
  ensure (event.priorSaid = s.lastEventDigest) (.validation
    s!"prior SAID mismatch: expected '{s.lastEventDigest}', got '{event.priorSaid}'")
  pure { s with sn, lastEventDigest := event.said }

/-! ### What each step checks and does -/

/-- The state an accepted inception gives. -/
def ofInception (e : InceptionEvent) (bt : ℕ) (delegator : Option String) : KeyState :=
  { pfx := e.pfx, sn := 0, said := e.said, threshold := e.keysThreshold, keys := e.keys,
    nextKeys := e.nextKeys, nextThreshold := e.nextThreshold, backerThreshold := bt,
    backers := e.backers, config := e.config, lastEventDigest := e.said,
    delegated := delegator.isSome, delegator }

/-- The state an accepted rotation gives. -/
def afterRotation (s : KeyState) (e : RotationEvent) (bt : ℕ) : KeyState :=
  { pfx := s.pfx, sn := u64Succ s.sn, said := e.said, threshold := e.keysThreshold,
    keys := e.keys, nextKeys := e.nextKeys, nextThreshold := e.nextThreshold,
    backerThreshold := bt, backers := newBackers s.backers e.backersRemove e.backersAdd,
    config := e.config, lastEventDigest := e.said, delegated := s.delegated,
    delegator := s.delegator }

/-- The state an accepted interaction gives. -/
def afterInteraction (s : KeyState) (e : InteractionEvent) : KeyState :=
  { s with sn := u64Succ s.sn, lastEventDigest := e.said }

variable {X}

theorem fromInception_eq_ok {e : InceptionEvent} {t : KeyState} :
    fromInception e = .ok t ↔ fromStrRadix 16 u64Bound e.sn = some 0 ∧
      ∃ bt, fromStrRadix 10 u64Bound e.backerThreshold = some bt ∧ bt ≤ e.backers.length ∧
        t = ofInception e bt none := by
  simp only [fromInception, parseSn, parseBackerThreshold, bind_eq_ok, okOr_eq_ok, ensure_eq_ok,
    pure_eq_ok]
  constructor
  · rintro ⟨_, hsn, -, rfl, bt, hbt, -, hle, rfl⟩
    exact ⟨hsn, bt, hbt, hle, rfl⟩
  · rintro ⟨hsn, bt, hbt, hle, rfl⟩
    exact ⟨0, hsn, ⟨⟩, rfl, bt, hbt, ⟨⟩, hle, rfl⟩

theorem fromDelegatedInception_eq_ok {e : DelegatedInceptionEvent} {t : KeyState} :
    fromDelegatedInception e = .ok t ↔ fromStrRadix 16 u64Bound e.sn = some 0 ∧
      e.delegator ≠ "" ∧ ∃ bt, fromStrRadix 10 u64Bound e.backerThreshold = some bt ∧
        bt ≤ e.backers.length ∧ t = ofInception e.toInceptionEvent bt (some e.delegator) := by
  simp only [fromDelegatedInception, parseSn, parseBackerThreshold, bind_eq_ok, okOr_eq_ok,
    ensure_eq_ok, pure_eq_ok]
  constructor
  · rintro ⟨_, hsn, -, rfl, -, hdi, bt, hbt, -, hle, rfl⟩
    exact ⟨hsn, hdi, bt, hbt, hle, rfl⟩
  · rintro ⟨hsn, hdi, bt, hbt, hle, rfl⟩
    exact ⟨0, hsn, ⟨⟩, rfl, ⟨⟩, hdi, bt, hbt, ⟨⟩, hle, rfl⟩

theorem applyRotation_eq_ok {s t : KeyState} {e : RotationEvent} :
    applyRotation X s e = .ok t ↔ fromStrRadix 16 u64Bound e.sn = some (u64Succ s.sn) ∧
      e.pfx = s.pfx ∧ e.priorSaid = s.lastEventDigest ∧
      List.Forall₂ (KeyMatches X) e.keys s.nextKeys ∧
      ∃ bt, fromStrRadix 10 u64Bound e.backerThreshold = some bt ∧
        bt ≤ (newBackers s.backers e.backersRemove e.backersAdd).length ∧
        t = s.afterRotation e bt := by
  simp only [applyRotation, parseSn, parseBackerThreshold, bind_eq_ok, okOr_eq_ok, ensure_eq_ok,
    verifyNextKeyCommitment_eq_ok, pure_eq_ok]
  constructor
  · rintro ⟨_, hsn, -, rfl, -, hpfx, -, hprior, -, hkeys, bt, hbt, -, hle, rfl⟩
    exact ⟨hsn, hpfx, hprior, hkeys, bt, hbt, hle, rfl⟩
  · rintro ⟨hsn, hpfx, hprior, hkeys, bt, hbt, hle, rfl⟩
    exact ⟨_, hsn, ⟨⟩, rfl, ⟨⟩, hpfx, ⟨⟩, hprior, ⟨⟩, hkeys, bt, hbt, ⟨⟩, hle, rfl⟩

theorem applyDelegatedRotation_eq_ok {s t : KeyState} {e : DelegatedRotationEvent} :
    applyDelegatedRotation X s e = .ok t ↔ s.delegated = true ∧ s.delegator = some e.delegator ∧
      applyRotation X s e.toRotationEvent = .ok t := by
  simp only [applyDelegatedRotation, bind_eq_ok, ensure_eq_ok]
  cases hd : s.delegator with
  | none => simp [bind_eq_ok]
  | some known => simp [bind_eq_ok]

theorem applyInteraction_eq_ok {s t : KeyState} {e : InteractionEvent} :
    applyInteraction s e = .ok t ↔ fromStrRadix 16 u64Bound e.sn = some (u64Succ s.sn) ∧
      e.pfx = s.pfx ∧ e.priorSaid = s.lastEventDigest ∧ t = s.afterInteraction e := by
  simp only [applyInteraction, parseSn, bind_eq_ok, okOr_eq_ok, ensure_eq_ok, pure_eq_ok]
  constructor
  · rintro ⟨_, hsn, -, rfl, -, hpfx, -, hprior, rfl⟩
    exact ⟨hsn, hpfx, hprior, rfl⟩
  · rintro ⟨hsn, hpfx, hprior, rfl⟩
    exact ⟨_, hsn, ⟨⟩, rfl, ⟨⟩, hpfx, ⟨⟩, hprior, rfl⟩

end KeyState

end Keri
