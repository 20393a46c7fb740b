/-
**What an identifier emits, a verifier accepts.**

An identifier builds its events and a verifier checks them, each with its own account of keys,
commitments, backers and numbers.  Read off the stream that the identifier writes, every event is
accepted in its turn, and the two accounts agree after each.

* `Keri.Agrees` — the verifier has the keys, commitments, backers and number of the identifier;
* `Keri.Follows` — what holds besides, and carries the agreement along;
* `Keri.parseNext_sealed`, `Keri.parseNext_composed` — a signed event is read back as its body and
  its signatures;
* `Keri.follows_incept`, `Keri.Follows.rotate`, `Keri.Follows.interact` — the three events;
* `Keri.kever_accepts` — **a verifier accepts all that an identifier emits, and agrees with it**.
-/

import Keri.Resume
import Keri.Signing

set_option relaxedAutoImplicit false
set_option autoImplicit false

namespace Keri

open Outcome Machine

variable (X : Externals)

/-! ### Reading what was sealed -/

section

variable {X} {print : Value → Bytes}

/-- A signed event is read back, with one group of signatures. -/
theorem parseNext_sealed (hcesr : CesrLaws X) (hjson : JsonLaws X print)
    (hdigest : DigestLaws X) (hsign : SigningLaws X) {fields : Fields} {i : String}
    (hf : EventFields fields i) {signers : List Signer} (hs : ∀ s ∈ signers, s.Genuine X)
    {event : Hab.SignedEvent} (h : sealEvent X fields signers = .ok event)
    (hsize : event.raw.length < 2 ^ 24) :
    ∃ (serder : Serder) (sigs : List (IndexedSig X)), parseNext X event.composed =
        .ok (⟨serder, [.controllerSigs (sigs.map (·.siger))]⟩, event.composed.length) ∧
      Sealed X fields i event.said serder ∧
      SignedFrom (X := X) serder.raw 0 signers (sigs.map (·.siger)) := by
  obtain ⟨serder, hsealed, -, hsigs, code, counter, qb64, hcode, hcounter, hqb64, hcomposed⟩ :=
    sealed_of_sealEvent hjson hdigest hf h hsize
  obtain ⟨sigs, hbytes, hsigned⟩ := signAll_spec hsign hs hsigs
  obtain ⟨v, hv⟩ := hsealed.version
  have hcount : sigs.length = signers.length := by
    rw [← hsigned.1, List.length_map]
  -- the counter is that of one group of controller signatures
  have hencode : (Layout.group (.controllerSigs sigs) .nil).encode X =
      .ok (strBytes qb64 ++ event.signatures) := by
    simp only [counterCodeFor, okOr_eq_ok, hsealed.table, GroupKind.code, Option.some_inj] at hcode
    obtain rfl := hcode
    obtain rfl := hsign.counter_new hcounter
    simp only [Layout.encode, Group.encode, sigsBytes, counterBytes, GroupKind.code, okOr, ok_bind,
      hcount, hqb64, hbytes]
    simp [bind, Except.bind, pure, Except.pure]
  refine ⟨serder, sigs, ?_, hsealed, hsigned⟩
  rw [hcomposed, List.append_assoc]
  exact parseNext_of_read hcesr hsealed.first (Or.inl rfl) hsealed.read hv hsealed.table hencode rfl

/-- **A signed event is read back as its body and its signatures.** -/
theorem parseNext_composed (hcesr : CesrLaws X) (hjson : JsonLaws X print)
    (hdigest : DigestLaws X) (hsign : SigningLaws X) {fields : Fields} {i : String}
    (hf : EventFields fields i) {signers : List Signer} (hs : ∀ s ∈ signers, s.Genuine X)
    {event : Hab.SignedEvent} (h : sealEvent X fields signers = .ok event)
    (hsize : event.raw.length < 2 ^ 24) :
    ∃ msg, parseNext X event.composed = .ok (msg, event.composed.length) ∧
      Sealed X fields i event.said msg.serder ∧
      SignedFrom (X := X) msg.serder.raw 0 signers msg.controllerSigs := by
  obtain ⟨serder, sigs, hparse, hsealed, hsigned⟩ :=
    parseNext_sealed hcesr hjson hdigest hsign hf hs h hsize
  exact ⟨_, hparse, hsealed, hsigned⟩

end

/-! ### The two accounts -/

/-- The verifier has the identifier, number, last event, keys, commitments and backers of the
identifier. -/
structure Agrees (h : Hab) (k : Kever) : Prop where
  pfx : k.state.pfx = h.pfx
  sn : k.state.sn = h.sn
  lastSaid : k.state.lastEventDigest = h.lastSaid
  keys : keysQb64 X h.signers = .ok k.state.keys
  nextKeys : nextKeyDigests X h.nextSigners = .ok k.state.nextKeys
  backers : k.state.backers = h.backers
  backerThreshold : k.state.backerThreshold = h.backerThreshold

/-- The verifier agrees with the identifier and is ready for its next event. -/
structure Follows (h : Hab) (k : Kever) : Prop extends Agrees X h k where
  threshold : ∃ t, k.state.threshold = .simple t ∧ 1 ≤ t ∧ t ≤ h.signers.length
  plain : k.state.delegated = false
  incepted : k.incepted = true
  signers : ∀ s ∈ h.signers, s.Genuine X
  nextSigners : ∀ s ∈ h.nextSigners, s.Genuine X
  pfx_ne : h.pfx ≠ ""
  backerThreshold_lt : h.backerThreshold < u64Bound

/-! ### Configurations -/

/-- A configuration of an inception that can be met; the thresholds are of 64 bits. -/
structure InceptionConfig.Sound (config : InceptionConfig) : Prop where
  threshold : 1 ≤ config.threshold ∧ config.threshold ≤ config.count
  count : config.count ≤ 64
  nextThreshold : 1 ≤ config.nextThreshold ∧ config.nextThreshold < u64Bound
  backerThreshold : config.backerThreshold ≤ config.backers.length ∧
    config.backerThreshold < u64Bound

/-- A configuration of a rotation that can be met. -/
structure RotationConfig.SoundFor (config : RotationConfig) (h : Hab) : Prop where
  threshold : 1 ≤ config.threshold ∧ config.threshold ≤ h.nextSigners.length
  count : h.nextSigners.length ≤ 64
  nextThreshold : 1 ≤ config.nextThreshold ∧ config.nextThreshold < u64Bound
  backerThreshold : h.backerThreshold ≤
    (KeyState.newBackers h.backers config.backersRemove config.backersAdd).length

/-- A call that can be met. -/
def Hab.Call.SoundFor (c : Hab.Call) (h : Hab) : Prop :=
  match c with
  | .rotate config => config.SoundFor h
  | .interact _ => True

/-! ### Reading the fields -/

section

variable {X} {fields : Fields} {i said : String} {serder : Serder}

theorem readThreshold_decimal {t : ℕ} (hone : 1 ≤ t) (hlt : t < u64Bound) :
    readThreshold (.string (decimal t)) = .ok (.simple t) := by
  have hne : t ≠ 0 := by omega
  simp [readThreshold, Threshold.fromJsonValue, fromStrRadix_decimal hlt, okOr, ensure, hne,
    Except.mapError]

/-- A field that is read as it was written. -/
theorem Sealed.field_eq_ok {α : Type} {read : Value → Except SerdeError α} {k : String} {x : Value}
    {a : α} (h : Sealed X fields i said serder) (hk : k ∉ ["v", "d", "i"])
    (hget : Fields.get k fields = some x) (hread : read x = .ok a) :
    field read k serder.sad = .ok a := by
  simp only [List.mem_cons, List.not_mem_nil, or_false, not_or] at hk
  refine Keri.field_eq_ok.2 ⟨x, ?_, hread⟩
  rw [h.get_of_ne k hk.1 hk.2.1 hk.2.2, hget]

/-- The identifier of an event, and its SAID. -/
theorem Sealed.names (h : Sealed X fields i said serder) :
    (∃ vs, field readString "v" serder.sad = .ok vs) ∧ field readString "d" serder.sad = .ok said ∧
      field readString "i" serder.sad = .ok (if i = "" then said else i) := by
  obtain ⟨vs, hv⟩ := h.get_v
  exact ⟨⟨vs, string_field_eq_ok.2 hv⟩, string_field_eq_ok.2 h.get_d, string_field_eq_ok.2 h.get_i⟩

/-- The fields of an inception are read back. -/
theorem inception_fromValue {config : InceptionConfig} {keys digests : List String}
    (hconfig : config.Sound) (h : Sealed X (inceptionFields config keys digests) "" said serder) :
    ∃ icp, InceptionEvent.fromValue serder.sad = .ok icp ∧ icp.said = said ∧ icp.pfx = said ∧
      icp.sn = "0" ∧ icp.keysThreshold = .simple config.threshold ∧ icp.keys = keys ∧
      icp.nextKeys = digests ∧ icp.backerThreshold = decimal config.backerThreshold ∧
      icp.backers = config.backers := by
  obtain ⟨⟨vs, hv⟩, hd, hi⟩ := h.names
  rw [if_pos rfl] at hi
  have hthreshold : config.threshold < u64Bound := by
    have hle := hconfig.threshold.2.trans hconfig.count
    have hbound : 64 < u64Bound := by decide
    omega
  refine ⟨InceptionEvent.mk vs "icp" said said "0" (.simple config.threshold) keys
    (.simple config.nextThreshold) digests (decimal config.backerThreshold) config.backers
    config.configTraits [], ?_, rfl, rfl, rfl, rfl, rfl, rfl, rfl, rfl⟩
  simp only [InceptionEvent.fromValue, bind_eq_ok, pure_eq_ok]
  exact ⟨vs, hv, _, h.field_eq_ok (by decide) rfl rfl, _, hd, _, hi,
    _, h.field_eq_ok (by decide) rfl rfl,
    _, h.field_eq_ok (by decide) rfl (readThreshold_decimal hconfig.threshold.1 hthreshold),
    _, h.field_eq_ok (by decide) rfl (readStrings_textArray keys),
    _, h.field_eq_ok (by decide) rfl (readThreshold_decimal hconfig.nextThreshold.1
      hconfig.nextThreshold.2),
    _, h.field_eq_ok (by decide) rfl (readStrings_textArray digests),
    _, h.field_eq_ok (by decide) rfl rfl,
    _, h.field_eq_ok (by decide) rfl (readStrings_textArray config.backers),
    _, h.field_eq_ok (by decide) rfl (readStrings_textArray config.configTraits),
    _, h.field_eq_ok (by decide) rfl rfl, rfl⟩

/-- The fields of a rotation are read back. -/
theorem rotation_fromValue {h : Hab} {config : RotationConfig} {sn : ℕ}
    {keys digests : List String} (hconfig : config.SoundFor h) (hpfx : h.pfx ≠ "")
    (hs : Sealed X (h.rotationFields config sn keys digests) h.pfx said serder) :
    ∃ rot, RotationEvent.fromValue serder.sad = .ok rot ∧ rot.said = said ∧ rot.pfx = h.pfx ∧
      rot.sn = hexLower sn ∧ rot.priorSaid = h.lastSaid ∧
      rot.keysThreshold = .simple config.threshold ∧ rot.keys = keys ∧ rot.nextKeys = digests ∧
      rot.backerThreshold = decimal h.backerThreshold ∧
      rot.backersRemove = config.backersRemove ∧ rot.backersAdd = config.backersAdd := by
  obtain ⟨⟨vs, hv⟩, hd, hi⟩ := hs.names
  rw [if_neg hpfx] at hi
  have hthreshold : config.threshold < u64Bound := by
    have hle := hconfig.threshold.2.trans hconfig.count
    have hbound : 64 < u64Bound := by decide
    omega
  refine ⟨RotationEvent.mk vs "rot" said h.pfx (hexLower sn) h.lastSaid (.simple config.threshold)
    keys (.simple config.nextThreshold) digests (decimal h.backerThreshold) config.backersRemove
    config.backersAdd [] [], ?_, rfl, rfl, rfl, rfl, rfl, rfl, rfl, rfl, rfl, rfl⟩
  simp only [RotationEvent.fromValue, bind_eq_ok, pure_eq_ok]
  exact ⟨vs, hv, _, hs.field_eq_ok (by decide) rfl rfl, _, hd, _, hi,
    _, hs.field_eq_ok (by decide) rfl rfl, _, hs.field_eq_ok (by decide) rfl rfl,
    _, hs.field_eq_ok (by decide) rfl (readThreshold_decimal hconfig.threshold.1 hthreshold),
    _, hs.field_eq_ok (by decide) rfl (readStrings_textArray keys),
    _, hs.field_eq_ok (by decide) rfl (readThreshold_decimal hconfig.nextThreshold.1
      hconfig.nextThreshold.2),
    _, hs.field_eq_ok (by decide) rfl (readStrings_textArray digests),
    _, hs.field_eq_ok (by decide) rfl rfl,
    _, hs.field_eq_ok (by decide) rfl (readStrings_textArray config.backersRemove),
    _, hs.field_eq_ok (by decide) rfl (readStrings_textArray config.backersAdd),
    _, hs.field_eq_ok (by decide) rfl (readStrings_textArray []),
    _, hs.field_eq_ok (by decide) rfl rfl, rfl⟩

/-- The fields of an interaction are read back. -/
theorem interaction_fromValue {h : Hab} {sn : ℕ} {anchors : List Value} (hpfx : h.pfx ≠ "")
    (hs : Sealed X (h.interactionFields sn anchors) h.pfx said serder) :
    ∃ ixn, InteractionEvent.fromValue serder.sad = .ok ixn ∧ ixn.said = said ∧
      ixn.pfx = h.pfx ∧ ixn.sn = hexLower sn ∧ ixn.priorSaid = h.lastSaid := by
  obtain ⟨⟨vs, hv⟩, hd, hi⟩ := hs.names
  rw [if_neg hpfx] at hi
  refine ⟨InteractionEvent.mk vs "ixn" said h.pfx (hexLower sn) h.lastSaid anchors, ?_,
    rfl, rfl, rfl, rfl⟩
  simp only [InteractionEvent.fromValue, bind_eq_ok, pure_eq_ok]
  exact ⟨vs, hv, _, hs.field_eq_ok (by decide) rfl rfl, _, hd, _, hi,
    _, hs.field_eq_ok (by decide) rfl rfl, _, hs.field_eq_ok (by decide) rfl rfl,
    _, hs.field_eq_ok (by decide) rfl rfl, rfl⟩

end

/-! ### The inception -/

section

variable {X} {print : Value → Bytes}

/-- **A verifier accepts the inception of an identifier**, and agrees with it. -/
theorem follows_incept (hcesr : CesrLaws X) (hjson : JsonLaws X print) (hdigest : DigestLaws X)
    (hsign : SigningLaws X) {name : String} {config : InceptionConfig} {random : Bytes}
    {hab : Hab} {event : Hab.SignedEvent} {habBytes : Bytes}
    (h : Hab.inceptEvent X name config random = .ok (hab, event, habBytes))
    (hconfig : config.Sound) (hsize : event.raw.length < 2 ^ 24) :
    ∃ msg k, parseNext X event.composed = .ok (msg, event.composed.length) ∧
      Kever.new X msg.serder msg.controllerSigs (hab.signers.map Signer.verfer) = .ok k ∧
      Follows X hab k := by
  simp only [Hab.inceptEvent, bind_eq_ok, pure_eq_ok] at h
  obtain ⟨salter, -, signers, hsigners, nextSigners, hnext, keys, hkeys, digests, hdigests,
    event', hseal, record, -, heq⟩ := h
  obtain ⟨rfl, hevent⟩ := Prod.mk.inj heq
  obtain ⟨rfl, -⟩ := Prod.mk.inj hevent
  have hgenuine := genuine_of_deriveSigners hsigners
  have hfields : EventFields (inceptionFields config keys digests) "" := ⟨⟨_, rfl⟩, rfl, rfl⟩
  obtain ⟨msg, hparse, hsealed, hsigned⟩ :=
    parseNext_composed hcesr hjson hdigest hsign hfields hgenuine hseal hsize
  obtain ⟨icp, hicp, hsaid, hpfx, hsn, hkt, hk, hn, hbt, hb⟩ :=
    inception_fromValue hconfig hsealed
  obtain ⟨hverfers, hchecked⟩ := verfersFromKeys_of_keysQb64 hcesr hsign hgenuine hkeys
  have hcount : config.threshold ≤ signers.length := by
    rw [Hab.deriveSigners_length hsigners]
    exact hconfig.threshold.2
  -- the identifier is the digest of the inception
  obtain ⟨data, hdata⟩ := hsealed.digest
  obtain ⟨diger, hdiger, -⟩ := diger_of_digestQb64 hcesr hdigest hdata
  have hderived : Kever.validatePrefixDerivation X icp = .ok ⟨⟩ := by
    rw [Kever.validatePrefixDerivation, hpfx, hdiger, if_pos (by rfl), hsaid]
    exact ensure_eq_ok.2 rfl
  have hstate : KeyState.fromInception icp =
      .ok (KeyState.ofInception icp config.backerThreshold none) := by
    refine KeyState.fromInception_eq_ok.2 ⟨?_, _, ?_, ?_, rfl⟩
    · rw [hsn]
      exact fromStrRadix_hexLower (n := 0) (by decide)
    · rw [hbt]
      exact fromStrRadix_decimal hconfig.backerThreshold.2
    · rw [hb]
      exact hconfig.backerThreshold.1
  refine ⟨msg, ⟨KeyState.ofInception icp config.backerThreshold none, true⟩, hparse, ?_, ?_⟩
  · refine Kever.new_eq_ok.2 ⟨?_, hsealed.verify (Or.inl rfl), Kever.incept_eq_ok.2
      ⟨icp, hicp, ?_, ?_, hderived, hstate, rfl⟩⟩
    · rw [Serder.ilk, Serder.textField_eq_ok, hsealed.get_of_ne "t" (by decide) (by decide)
        (by decide)]
      rfl
    · rw [hk]
      exact Kever.checkKeys_eq_ok.2 hchecked
    · rw [hkt]
      exact verifySigs_of_signed hsigned hconfig.threshold.1 hcount
  · have hne : event'.said ≠ "" := by
      intro hempty
      have hlen := (hdigest.plain hdata).2
      rw [hempty] at hlen
      cases hlen
    exact
      { pfx := hpfx
        sn := rfl
        lastSaid := hsaid
        keys := hkeys.trans (congrArg Except.ok hk.symm)
        nextKeys := hdigests.trans (congrArg Except.ok hn.symm)
        backers := hb
        backerThreshold := rfl
        threshold := ⟨config.threshold, hkt, hconfig.threshold.1, hcount⟩
        plain := rfl
        incepted := rfl
        signers := hgenuine
        nextSigners := genuine_of_deriveSigners hnext
        pfx_ne := hne
        backerThreshold_lt := hconfig.backerThreshold.2 }

end

/-! ### The updates -/

/-- A verifier takes an event off the stream. -/
def Kever.accept (k : Kever) (event : Hab.SignedEvent) : Except CoreError Kever := do
  let (msg, _) ← parseNext X event.composed
  k.update X msg.serder msg.controllerSigs

/-- A verifier takes the events one after the other. -/
def Kever.acceptAll (k : Kever) (events : List Hab.SignedEvent) : Except CoreError Kever :=
  events.foldlM (Kever.accept X) k

section

variable {X} {print : Value → Bytes}

theorem Kever.accept_of_update {k k' : Kever} {event : Hab.SignedEvent} {msg : ParsedMessage}
    {n : ℕ} (hparse : parseNext X event.composed = .ok (msg, n))
    (h : k.update X msg.serder msg.controllerSigs = .ok k') : k.accept X event = .ok k' := by
  rw [accept, hparse, ok_bind]
  exact h

/-- **A verifier that follows an identifier accepts its next rotation**, and follows it further. -/
theorem Follows.rotate (hcesr : CesrLaws X) (hjson : JsonLaws X print) (hdigest : DigestLaws X)
    (hsign : SigningLaws X) {h : Hab} {k : Kever} (hf : Follows X h k) {config : RotationConfig}
    {newNextSigners : List Signer} {event : Hab.SignedEvent}
    (hrot : h.rotation X config h.nextSigners = .ok (newNextSigners, event))
    (hconfig : config.SoundFor h) (hsize : event.raw.length < 2 ^ 24)
    (hfresh : event.said ≠ h.pfx) :
    ∃ k', k.accept X event = .ok k' ∧
      Follows X (h.rotated config h.nextSigners newNextSigners event.said) k' := by
  simp only [Hab.rotation, bind_eq_ok, pure_eq_ok] at hrot
  obtain ⟨derived, hderived, keys, hkeys, digests, hdigests, event', hseal, heq⟩ := hrot
  obtain ⟨rfl, rfl⟩ := Prod.mk.inj heq
  have hfields : EventFields (h.rotationFields config (u64Succ h.sn) keys digests) h.pfx :=
    ⟨⟨_, rfl⟩, rfl, rfl⟩
  obtain ⟨msg, hparse, hsealed, hsigned⟩ :=
    parseNext_composed hcesr hjson hdigest hsign hfields hf.nextSigners hseal hsize
  obtain ⟨rot, hrot, hsaid, hpfx, hsn, hprior, hkt, hk, hn, hbt, hbr, hba⟩ :=
    rotation_fromValue hconfig hf.pfx_ne hsealed
  obtain ⟨hverfers, -⟩ := verfersFromKeys_of_keysQb64 hcesr hsign hf.nextSigners hkeys
  have hsn' : fromStrRadix 16 u64Bound rot.sn = some (u64Succ k.state.sn) := by
    rw [hsn, hf.sn]
    exact fromStrRadix_hexLower (u64Succ_lt _)
  -- the keys are the ones committed to, and the backers are changed alike
  have happly : k.state.applyRotation X rot =
      .ok (k.state.afterRotation rot h.backerThreshold) := by
    refine KeyState.applyRotation_eq_ok.2 ⟨hsn', ?_, ?_, ?_, h.backerThreshold, ?_, ?_, rfl⟩
    · rw [hpfx, hf.pfx]
    · rw [hprior, hf.lastSaid]
    · rw [hk]
      exact keyMatches_of_commitment hcesr hsign hdigest hf.nextSigners hkeys hf.nextKeys
    · rw [hbt]
      exact fromStrRadix_decimal hf.backerThreshold_lt
    · rw [hbr, hba, hf.backers]
      exact hconfig.backerThreshold
  have hnextState : k.nextState X msg.serder.raw msg.serder.sad msg.controllerSigs "rot" =
      .ok (k.state.afterRotation rot h.backerThreshold) := by
    refine Kever.nextState_eq_ok.2 (Or.inl ⟨rfl, hf.plain, rot,
      h.nextSigners.map Signer.verfer, hrot, ?_, ?_, happly⟩)
    · rw [hk]
      exact hverfers
    · rw [hkt]
      exact verifySigs_of_signed hsigned hconfig.threshold.1 hconfig.threshold.2
  refine ⟨_, Kever.accept_of_update hparse (Kever.update_eq_ok.2 ⟨_, Kever.verifyUpdate_eq_ok.2
    ⟨hf.incepted, hsealed.verify (Or.inr hfresh), "rot", ?_, ?_, hnextState⟩, rfl⟩), ?_⟩
  · rw [Serder.ilk, Serder.textField_eq_ok, hsealed.get_of_ne "t" (by decide) (by decide)
      (by decide)]
    rfl
  · refine Serder.sn_eq_ok.2 ⟨rot.sn, ?_, hsn'⟩
    exact (RotationEvent.fields hrot).2.2.1
  · exact
      { pfx := hf.pfx
        sn := congrArg u64Succ hf.sn
        lastSaid := hsaid
        keys := hkeys.trans (congrArg Except.ok hk.symm)
        nextKeys := hdigests.trans (congrArg Except.ok hn.symm)
        backers := by
          simp only [Kever.applyVerifiedUpdate, KeyState.afterRotation, hbr, hba, hf.backers]
          rfl
        backerThreshold := rfl
        threshold := ⟨config.threshold, hkt, hconfig.threshold⟩
        plain := hf.plain
        incepted := hf.incepted
        signers := hf.nextSigners
        nextSigners := genuine_of_deriveSigners hderived
        pfx_ne := hf.pfx_ne
        backerThreshold_lt := hf.backerThreshold_lt }

/-- **A verifier that follows an identifier accepts its next interaction**, and follows it
further. -/
theorem Follows.interact (hcesr : CesrLaws X) (hjson : JsonLaws X print) (hdigest : DigestLaws X)
    (hsign : SigningLaws X) {h : Hab} {k : Kever} (hf : Follows X h k) {anchors : List Value}
    {event : Hab.SignedEvent} (hixn : h.interaction X anchors = .ok event)
    (hsize : event.raw.length < 2 ^ 24) (hfresh : event.said ≠ h.pfx) :
    ∃ k', k.accept X event = .ok k' ∧ Follows X (h.interacted event.said) k' := by
  have hfields : EventFields (h.interactionFields (u64Succ h.sn) anchors) h.pfx :=
    ⟨⟨_, rfl⟩, rfl, rfl⟩
  obtain ⟨msg, hparse, hsealed, hsigned⟩ :=
    parseNext_composed hcesr hjson hdigest hsign hfields hf.signers hixn hsize
  obtain ⟨ixn, hfrom, hsaid, hpfx, hsn, hprior⟩ := interaction_fromValue hf.pfx_ne hsealed
  obtain ⟨hverfers, -⟩ := verfersFromKeys_of_keysQb64 hcesr hsign hf.signers hf.keys
  obtain ⟨t, hkt, hone, hle⟩ := hf.threshold
  have hsn' : fromStrRadix 16 u64Bound ixn.sn = some (u64Succ k.state.sn) := by
    rw [hsn, hf.sn]
    exact fromStrRadix_hexLower (u64Succ_lt _)
  have happly : k.state.applyInteraction ixn = .ok (k.state.afterInteraction ixn) := by
    refine KeyState.applyInteraction_eq_ok.2 ⟨hsn', ?_, ?_, rfl⟩
    · rw [hpfx, hf.pfx]
    · rw [hprior, hf.lastSaid]
  have hnextState : k.nextState X msg.serder.raw msg.serder.sad msg.controllerSigs "ixn" =
      .ok (k.state.afterInteraction ixn) := by
    refine Kever.nextState_eq_ok.2 (Or.inr ⟨rfl, ixn, _, hfrom, hverfers, ?_, happly⟩)
    rw [hkt]
    exact verifySigs_of_signed hsigned hone hle
  refine ⟨_, Kever.accept_of_update hparse (Kever.update_eq_ok.2 ⟨_, Kever.verifyUpdate_eq_ok.2
    ⟨hf.incepted, hsealed.verify (Or.inr hfresh), "ixn", ?_, ?_, hnextState⟩, rfl⟩), ?_⟩
  · rw [Serder.ilk, Serder.textField_eq_ok, hsealed.get_of_ne "t" (by decide) (by decide)
      (by decide)]
    rfl
  · refine Serder.sn_eq_ok.2 ⟨ixn.sn, ?_, hsn'⟩
    exact (InteractionEvent.fields hfrom).2.2.1
  · exact
      { pfx := hf.pfx
        sn := congrArg u64Succ hf.sn
        lastSaid := hsaid
        keys := hf.keys
        nextKeys := hf.nextKeys
        backers := hf.backers
        backerThreshold := hf.backerThreshold
        threshold := ⟨t, hkt, hone, hle⟩
        plain := hf.plain
        incepted := hf.incepted
        signers := hf.signers
        nextSigners := hf.nextSigners
        pfx_ne := hf.pfx_ne
        backerThreshold_lt := hf.backerThreshold_lt }

end

/-! ### Runs -/

/-- The events that a sequence of `rotate_event` and `interact_event` calls emits, all of which
succeed. -/
def Hab.emitAll (calls : List Hab.Call) : EStateM KeriError Keeper (List Hab.SignedEvent) :=
  calls.mapM (Hab.call X Disk.sound)

section

variable {X} {print : Value → Bytes}

/-- **One call**: what it emits is accepted, and the verifier follows the identifier further. -/
theorem Follows.call (hcesr : CesrLaws X) (hjson : JsonLaws X print) (hdigest : DigestLaws X)
    (hsign : SigningLaws X) {h : Hab} {k : Kever} (hf : Follows X h k) {c : Hab.Call}
    {event : Hab.SignedEvent} {k' : Keeper}
    (hcall : Hab.call X Disk.sound c ⟨h, none⟩ = .ok event k') (hsound : c.SoundFor h)
    (hsize : event.raw.length < 2 ^ 24) (hfresh : event.said ≠ h.pfx) :
    k'.store = none ∧ k'.hab.pfx = h.pfx ∧
      ∃ next, k.accept X event = .ok next ∧ Follows X k'.hab next := by
  cases c with
  | rotate config =>
      rw [Hab.call, Hab.rotateInner_run] at hcall
      split at hcall
      · cases hcall
      · split at hcall
        · cases hcall
        · rename_i newNextSigners event' hrot
          obtain ⟨rfl, rfl⟩ := EStateM.Result.ok.inj hcall
          exact ⟨rfl, rfl, hf.rotate hcesr hjson hdigest hsign hrot hsound hsize hfresh⟩
  | interact anchors =>
      rw [Hab.call, Hab.interactInner_run] at hcall
      split at hcall
      · cases hcall
      · rename_i event' hixn
        obtain ⟨rfl, rfl⟩ := EStateM.Result.ok.inj hcall
        exact ⟨rfl, rfl, hf.interact hcesr hjson hdigest hsign hixn hsize hfresh⟩

/-- What holds of one call holds of all. -/
theorem Follows.run (hcesr : CesrLaws X) (hjson : JsonLaws X print) (hdigest : DigestLaws X)
    (hsign : SigningLaws X) {h : Hab} {k : Kever} (hf : Follows X h k) {calls : List Hab.Call}
    {events : List Hab.SignedEvent} {k' : Keeper}
    (hemit : Hab.emitAll X calls ⟨h, none⟩ = .ok events k')
    (hsound : Along (Hab.stepKeeper X Disk.sound) (fun k c => c.SoundFor k.hab) ⟨h, none⟩ calls)
    (hsize : ∀ event ∈ events, event.raw.length < 2 ^ 24)
    (hfresh : ∀ event ∈ events, event.said ≠ h.pfx) :
    ∃ last, k.acceptAll X events = .ok last ∧ Follows X k'.hab last := by
  induction calls generalizing h k events with
  | nil =>
      obtain ⟨rfl, rfl⟩ := EStateM.Result.ok.inj hemit
      exact ⟨k, rfl, hf⟩
  | cons c calls ih =>
      rw [Hab.emitAll, List.mapM_cons] at hemit
      obtain ⟨event, between, hcall, hemit⟩ := bind_run_ok.1 hemit
      obtain ⟨rest, last, hrest, hpure⟩ := bind_run_ok.1 hemit
      obtain ⟨rfl, rfl⟩ := EStateM.Result.ok.inj hpure
      obtain ⟨hnone, hpfx, next, haccept, hnext⟩ := hf.call hcesr hjson hdigest hsign hcall
        hsound.1 (hsize event List.mem_cons_self) (hfresh event List.mem_cons_self)
      have hstep : Hab.stepKeeper X Disk.sound ⟨h, none⟩ c = between := by
        rw [Hab.stepKeeper, hcall]
        rfl
      obtain ⟨hab, store⟩ := between
      obtain rfl : store = none := hnone
      obtain ⟨final, haccepts, hfinal⟩ := ih hnext hrest (hstep ▸ hsound.2)
        (fun e he => hsize e (List.mem_cons_of_mem event he))
        (fun e he => hpfx ▸ hfresh e (List.mem_cons_of_mem event he))
      refine ⟨final, ?_, hfinal⟩
      rw [Kever.acceptAll, List.foldlM_cons, haccept, ok_bind]
      exact haccepts

/-- **A verifier accepts all that an identifier emits, and agrees with it** after every event: the
calls are any, and what is emitted up to some event is what the calls up to there emit.  No SAID is
taken to collide with the one of the inception. -/
theorem kever_accepts (hcesr : CesrLaws X) (hjson : JsonLaws X print) (hdigest : DigestLaws X)
    (hsign : SigningLaws X) {name : String} {config : InceptionConfig} {random : Bytes}
    {hab : Hab} {event : Hab.SignedEvent} {habBytes : Bytes}
    (h : Hab.inceptEvent X name config random = .ok (hab, event, habBytes))
    (hconfig : config.Sound) (hsize : event.raw.length < 2 ^ 24) :
    ∃ msg first, parseNext X event.composed = .ok (msg, event.composed.length) ∧
      Kever.new X msg.serder msg.controllerSigs (hab.signers.map Signer.verfer) = .ok first ∧
      Agrees X hab first ∧
      ∀ (calls : List Hab.Call) (events : List Hab.SignedEvent) (k : Keeper),
        Hab.emitAll X calls ⟨hab, none⟩ = .ok events k →
        Along (Hab.stepKeeper X Disk.sound) (fun k c => c.SoundFor k.hab) ⟨hab, none⟩ calls →
        (∀ event ∈ events, event.raw.length < 2 ^ 24) →
        (∀ event ∈ events, event.said ≠ hab.pfx) →
        ∃ last, first.acceptAll X events = .ok last ∧ Agrees X k.hab last := by
  obtain ⟨msg, first, hparse, hnew, hfollows⟩ :=
    follows_incept hcesr hjson hdigest hsign h hconfig hsize
  refine ⟨msg, first, hparse, hnew, hfollows.toAgrees, ?_⟩
  intro calls events k hemit hsound hsizes hfresh
  obtain ⟨last, haccept, hlast⟩ := hfollows.run hcesr hjson hdigest hsign hemit hsound hsizes hfresh
  exact ⟨last, haccept, hlast.toAgrees⟩

/-- A verifier that has followed an inception, a rotation and an interaction. -/
theorem kever_accepts_toy :
    ∃ (hab : Hab) (event : Hab.SignedEvent) (record : Bytes) (events : List Hab.SignedEvent)
      (k : Keeper) (first last : Kever),
      Hab.inceptEvent Toy.lib "alice" { salt := some (Toy.salt 7) } [] = .ok (hab, event, record) ∧
      Hab.emitAll Toy.lib [.rotate {}, .interact []] ⟨hab, none⟩ = .ok events k ∧
      first.acceptAll Toy.lib events = .ok last ∧ Agrees Toy.lib k.hab last := by
  obtain ⟨⟨hab, event, record⟩, hincept, hrun⟩ := exists_ok_of_any
    (x := Hab.inceptEvent Toy.lib "alice" { salt := some (Toy.salt 7) } [])
    (p := fun r => decide (r.2.1.raw.length < 2 ^ 24) && decide (r.1.nextSigners.length = 1) &&
      decide (r.1.backerThreshold = 0) &&
      okAnd (fun events _ => events.all fun e => decide (e.raw.length < 2 ^ 24) &&
          decide (e.said ≠ r.1.pfx))
        (Hab.emitAll Toy.lib [.rotate {}, .interact []] ⟨r.1, none⟩)) (by decide +kernel)
  simp only [Bool.and_eq_true, decide_eq_true_eq] at hrun
  obtain ⟨⟨⟨hsize, hnext⟩, hbt⟩, hrun⟩ := hrun
  obtain ⟨events, k, hemit, hall⟩ := exists_run_of_okAnd hrun
  simp only [List.all_eq_true, Bool.and_eq_true, decide_eq_true_eq] at hall
  have hconfig : InceptionConfig.Sound { salt := some (Toy.salt 7) } :=
    ⟨by decide, by decide, by decide, by decide⟩
  have hsound : RotationConfig.SoundFor {} hab := by
    constructor
    · rw [hnext]
      decide
    · omega
    · decide
    · omega
  obtain ⟨-, first, -, -, -, hruns⟩ := kever_accepts (cesrLaws_toy _) (jsonLaws_toy _)
    digestLaws_toy (signingLaws_toy _) hincept hconfig hsize
  obtain ⟨last, haccept, hlast⟩ := hruns [.rotate {}, .interact []] events k hemit
    ⟨hsound, trivial, trivial⟩ (fun e he => (hall e he).1) fun e he => (hall e he).2
  exact ⟨hab, event, record, events, k, first, last, hincept, hemit, haccept, hlast⟩

end

end Keri
