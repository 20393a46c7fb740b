/-
**What an identifier signs, its verifier can check.**

The signatures of an identifier are one for each key, at the key's place in the list, so each of
them is valid there and any threshold up to the number of the keys is met.

* `Keri.SchemeLaws`, `Keri.SigningLaws` — what is assumed of signatures and of CESR;
* `Keri.Signer.Genuine` — a signer with the public key that was derived from its private key;
* `Keri.Signer.Genuine.verify` — what it signs, its public key verifies;
* `Keri.signAll_spec` — the signatures of an event, one for each key;
* `Keri.verifySigs_of_signed` — **they meet every threshold up to the number of the keys**;
* `Keri.keyMatches_of_commitment` — the keys that were committed to match their commitments.
-/

import Keri.Sealing
import Keri.Kever

set_option relaxedAutoImplicit false
set_option autoImplicit false

namespace Keri

open Outcome

variable (X : Externals)

/-! ### What is assumed -/

/-- A scheme verifies what it signs, with keys and signatures that it takes, and CESR keeps its keys
and signatures as they are. -/
structure SchemeLaws (S : SigScheme) : Prop where
  keyOk : ∀ {seed key : Bytes}, S.publicKey seed = some key → S.keyOk key = true
  sigOk : ∀ {seed message sig : Bytes}, S.sign seed message = some sig → S.sigOk sig = true
  verify : ∀ {seed key message sig : Bytes}, S.publicKey seed = some key →
    S.sign seed message = some sig → S.verify key message sig = true
  key_new : ∀ {seed key : Bytes} {code : String} {m : Matter}, S.publicKey seed = some key →
    X.cesr.matterNew code key = .ok m → m = ⟨code, key⟩
  sig_new : ∀ {seed message sig : Bytes} {code : String} {index : ℕ} {x : Indexer},
    S.sign seed message = some sig → X.cesr.indexerNew code index none sig = .ok x →
    x.code = code ∧ x.index = index ∧ x.raw = sig

/-- What is assumed of the three schemes, of the sizes of the first, and of the texts of indexed
signatures and counters. -/
structure SigningLaws : Prop where
  ed25519 : SchemeLaws X X.ed25519
  secp256k1 : SchemeLaws X X.secp256k1
  secp256r1 : SchemeLaws X X.secp256r1
  key_length : ∀ {seed key : Bytes}, seed.length = 32 → X.ed25519.publicKey seed = some key →
    key.length = 32
  sig_length : ∀ {seed message sig : Bytes}, seed.length = 32 →
    X.ed25519.sign seed message = some sig → sig.length = 64
  indexer_fixed : ∀ {x : Indexer} {qb64 : String}, x.code ∈ ["A", "C", "E"] →
    X.cesr.indexerQb64 x = .ok qb64 → ∃ sizage, X.cesr.indexerSizage x.code = some sizage ∧
      (strBytes qb64).length = sizage.fs ∧ minPrimitiveSize ≤ sizage.fs
  counter_new : ∀ {code : String} {count : ℕ} {c : Counter},
    X.cesr.counterNew code count = .ok c → c = ⟨code, count⟩

/-! ### Signers -/

/-- The public key of the signer is derived from its private key. -/
def Signer.Genuine (s : Signer) : Prop :=
  Signer.deriveVerfer X s.code s.raw s.transferable = .ok s.verfer

variable {X}

theorem Signer.genuine_of_new {code : String} {raw : Bytes} {transferable : Bool} {s : Signer}
    (h : Signer.newWithTransferable X code raw transferable = .ok s) : s.Genuine X := by
  simp only [Signer.newWithTransferable, bind_eq_ok, pure_eq_ok] at h
  obtain ⟨verfer, hverfer, rfl⟩ := h
  exact hverfer

theorem genuine_of_deriveSigners {salter : Salter} {code : String} {transferable : Bool}
    {generation count : ℕ} {signers : List Signer}
    (h : deriveSigners X salter code transferable generation count = .ok signers) :
    ∀ s ∈ signers, s.Genuine X := by
  intro s hs
  obtain ⟨i, -, hsigner⟩ := exists_of_mem_mapM h hs
  simp only [mapError_eq_ok, Salter.signer, bind_eq_ok] at hsigner
  obtain ⟨_, -, _, -, hnew⟩ := hsigner
  exact Signer.genuine_of_new hnew

theorem verfer_new_eq_ok {code : String} {raw : Bytes} {v : Verfer}
    (h : Verfer.new X code raw = .ok v) :
    code ∈ ["B", "D", "1AAA", "1AAB", "1AAI", "1AAJ"] ∧ X.cesr.matterNew code raw = .ok v.matter := by
  simp only [Verfer.new, Verfer.validateCode, bind_eq_ok, ensure_eq_ok, mapError_eq_ok,
    pure_eq_ok] at h
  obtain ⟨-, hcode, m, hm, rfl⟩ := h
  exact ⟨hcode, hm⟩

/-- The public key of a genuine signer has a code that is one of a key. -/
theorem Signer.Genuine.code_valid (hX : SigningLaws X) {s : Signer} (h : s.Genuine X) :
    s.verfer.code ∈ ["B", "D", "1AAA", "1AAB", "1AAI", "1AAJ"] := by
  have key : ∀ {S : SigScheme} {code : String} {pub : Bytes}, SchemeLaws X S →
      S.publicKey s.raw = some pub → Verfer.new X code pub = .ok s.verfer →
      s.verfer.code ∈ ["B", "D", "1AAA", "1AAB", "1AAI", "1AAJ"] := by
    intro S code pub hS hpub hnew
    obtain ⟨hcode, hm⟩ := verfer_new_eq_ok hnew
    rw [Verfer.code, hS.key_new hpub hm]
    exact hcode
  simp only [Signer.Genuine, Signer.deriveVerfer, bind_eq_ok] at h
  obtain ⟨alg, -, h⟩ := h
  cases alg with
  | ed25519 =>
      simp only [bind_eq_ok, okOr_eq_ok] at h
      obtain ⟨-, -, pub, hpub, hnew⟩ := h
      exact key hX.ed25519 hpub hnew
  | secp256k1 =>
      simp only [bind_eq_ok, okOr_eq_ok] at h
      obtain ⟨pub, hpub, hnew⟩ := h
      exact key hX.secp256k1 hpub hnew
  | secp256r1 =>
      simp only [bind_eq_ok, okOr_eq_ok] at h
      obtain ⟨pub, hpub, hnew⟩ := h
      exact key hX.secp256r1 hpub hnew

/-- **What a genuine signer signs, its public key verifies.** -/
theorem Signer.Genuine.verify (hX : SigningLaws X) {s : Signer} (h : s.Genuine X)
    {message sig : Bytes} (hsig : s.signRaw X message = .ok sig) :
    s.verfer.verify X message sig = .ok true := by
  simp only [Signer.Genuine, Signer.deriveVerfer, bind_eq_ok] at h
  simp only [Signer.signRaw, bind_eq_ok] at hsig
  obtain ⟨alg, halg, h⟩ := h
  obtain ⟨alg', halg', hsig⟩ := hsig
  obtain rfl : alg = alg' := Except.ok.inj (halg.symm.trans halg')
  cases alg with
  | ed25519 =>
      simp only [bind_eq_ok, ensure_eq_ok, okOr_eq_ok] at h hsig
      obtain ⟨-, hlen, pub, hpub, hnew⟩ := h
      obtain ⟨-, -, hsign⟩ := hsig
      have hm := hX.ed25519.key_new hpub (verfer_new_eq_ok hnew).2
      have hcode : s.verfer.code ∈ ["B", "D"] := by
        rw [Verfer.code, hm]
        cases s.transferable <;> simp
      have hraw : s.verfer.raw = pub := by rw [Verfer.raw, hm]
      rw [Verfer.verify, if_pos hcode]
      simp only [Verfer.verifyEd25519, bind_eq_ok, ensure_eq_ok, pure_eq_ok, hraw]
      exact ⟨⟨⟩, hX.key_length hlen hpub, ⟨⟩, hX.ed25519.keyOk hpub, ⟨⟩,
        hX.sig_length hlen hsign, hX.ed25519.verify hpub hsign⟩
  | secp256k1 =>
      simp only [bind_eq_ok, okOr_eq_ok] at h hsig
      obtain ⟨pub, hpub, hnew⟩ := h
      have hm := hX.secp256k1.key_new hpub (verfer_new_eq_ok hnew).2
      have hcode : s.verfer.code ∉ ["B", "D"] ∧ s.verfer.code ∈ ["1AAA", "1AAB"] := by
        rw [Verfer.code, hm]
        cases s.transferable <;> simp
      have hraw : s.verfer.raw = pub := by rw [Verfer.raw, hm]
      rw [Verfer.verify, if_neg hcode.1, if_pos hcode.2]
      simp only [Verfer.verifySecp256k1, bind_eq_ok, ensure_eq_ok, pure_eq_ok, hraw]
      exact ⟨⟨⟩, hX.secp256k1.keyOk hpub, ⟨⟩, hX.secp256k1.sigOk hsig,
        hX.secp256k1.verify hpub hsig⟩
  | secp256r1 =>
      simp only [bind_eq_ok, okOr_eq_ok] at h hsig
      obtain ⟨pub, hpub, hnew⟩ := h
      have hm := hX.secp256r1.key_new hpub (verfer_new_eq_ok hnew).2
      have hcode : s.verfer.code ∉ ["B", "D"] ∧ s.verfer.code ∉ ["1AAA", "1AAB"] ∧
          s.verfer.code ∈ ["1AAI", "1AAJ"] := by
        rw [Verfer.code, hm]
        cases s.transferable <;> simp
      have hraw : s.verfer.raw = pub := by rw [Verfer.raw, hm]
      rw [Verfer.verify, if_neg hcode.1, if_neg hcode.2.1, if_pos hcode.2.2]
      simp only [Verfer.verifySecp256r1, bind_eq_ok, ensure_eq_ok, pure_eq_ok, hraw]
      exact ⟨⟨⟩, hX.secp256r1.keyOk hpub, ⟨⟩, hX.secp256r1.sigOk hsig,
        hX.secp256r1.verify hpub hsig⟩

/-! ### Signatures -/

/-- The signatures of an event: one for each signer, at its place from `i` on, and valid there. -/
def SignedFrom (raw : Bytes) (i : ℕ) (signers : List Signer) (sigers : List Siger) : Prop :=
  sigers.length = signers.length ∧ ∀ (j : ℕ) (siger : Siger), sigers[j]? = some siger →
    siger.index = i + j ∧ ∃ s, signers[j]? = some s ∧
      s.verfer.verify X raw siger.raw = .ok true

/-- One signature, with its text. -/
theorem signIndexed_spec (hX : SigningLaws X) {s : Signer} (hs : s.Genuine X) {raw : Bytes}
    {i : ℕ} {siger : Siger} {qb64 : String}
    (hsign : s.signIndexed X raw i true = .ok siger) (hqb64 : siger.qb64 X = .ok qb64) :
    siger.index = i ∧ s.verfer.verify X raw siger.raw = .ok true ∧
      ∃ sig : IndexedSig X, sig.siger = siger ∧ sig.qb64 = qb64 := by
  simp only [Signer.signIndexed, bind_eq_ok, if_true, Signer.sigerCurrentCode] at hsign
  obtain ⟨sig, hsig, code, ⟨alg, halg, hcode⟩, hnew⟩ := hsign
  simp only [Siger.new, bind_eq_ok, mapError_eq_ok, pure_eq_ok] at hnew
  obtain ⟨x, hx, rfl⟩ := hnew
  -- the scheme of the signer keeps code, index and signature
  have hkept : x.code = code ∧ x.index = i ∧ x.raw = sig ∧ x.code ∈ ["A", "C", "E"] := by
    have hraw := hsig
    simp only [Signer.signRaw, bind_eq_ok] at hraw
    obtain ⟨alg', halg', hraw⟩ := hraw
    obtain rfl : alg = alg' := Except.ok.inj (halg.symm.trans halg')
    cases alg with
    | ed25519 =>
        simp only [bind_eq_ok, okOr_eq_ok] at hraw
        obtain ⟨-, -, hraw⟩ := hraw
        obtain ⟨h₁, h₂, h₃⟩ := hX.ed25519.sig_new hraw hx
        exact ⟨h₁, h₂, h₃, by rw [h₁, ← pure_eq_ok.1 hcode]; simp⟩
    | secp256k1 =>
        obtain ⟨h₁, h₂, h₃⟩ := hX.secp256k1.sig_new (okOr_eq_ok.1 hraw) hx
        exact ⟨h₁, h₂, h₃, by rw [h₁, ← pure_eq_ok.1 hcode]; simp⟩
    | secp256r1 =>
        obtain ⟨h₁, h₂, h₃⟩ := hX.secp256r1.sig_new (okOr_eq_ok.1 hraw) hx
        exact ⟨h₁, h₂, h₃, by rw [h₁, ← pure_eq_ok.1 hcode]; simp⟩
  obtain ⟨-, hindex, hraw, hmem⟩ := hkept
  have hencodes : X.cesr.indexerQb64 x = .ok qb64 := mapError_eq_ok.1 hqb64
  obtain ⟨sizage, hknown, hfixed, hmin⟩ := hX.indexer_fixed hmem hencodes
  refine ⟨hindex, ?_, ⟨⟨x⟩, qb64, sizage, hencodes, hknown, hfixed, hmin⟩, rfl, rfl⟩
  rw [show (Siger.raw ⟨x⟩) = sig from hraw]
  exact hs.verify hX hsig

/-- **The signatures of an event**: one for each key, at its place, and valid there. -/
theorem signAll_spec (hX : SigningLaws X) {raw : Bytes} {i : ℕ} {signers : List Signer}
    (hs : ∀ s ∈ signers, s.Genuine X) {bytes : Bytes}
    (h : signAll X raw i signers = .ok bytes) :
    ∃ sigs : List (IndexedSig X), bytes = sigs.flatMap IndexedSig.bytes ∧
      SignedFrom (X := X) raw i signers (sigs.map (·.siger)) := by
  induction signers generalizing i bytes with
  | nil =>
      cases h
      exact ⟨[], rfl, rfl, fun j siger hj => by cases hj⟩
  | cons s signers ih =>
      simp only [signAll, bind_eq_ok, mapError_eq_ok, pure_eq_ok] at h
      obtain ⟨siger, hsign, qb64, hqb64, more, hmore, rfl⟩ := h
      obtain ⟨hindex, hverify, sig, rfl, rfl⟩ :=
        signIndexed_spec hX (hs s List.mem_cons_self) hsign hqb64
      obtain ⟨sigs, rfl, hlen, hvalid⟩ := ih (fun t ht => hs t (List.mem_cons_of_mem s ht)) hmore
      refine ⟨sig :: sigs, rfl, by simpa using hlen, ?_⟩
      intro j siger hj
      cases j with
      | zero =>
          obtain rfl := Option.some_inj.1 hj
          exact ⟨hindex, s, rfl, hverify⟩
      | succ j =>
          obtain ⟨hindex', t, ht, hverify'⟩ := hvalid j siger hj
          exact ⟨by omega, t, ht, hverify'⟩

/-- **Signatures by all keys meet every threshold up to the number of the keys.** -/
theorem verifySigs_of_signed {raw : Bytes} {signers : List Signer} {sigers : List Siger}
    (h : SignedFrom (X := X) raw 0 signers sigers) {t : ℕ} (hone : 1 ≤ t)
    (hle : t ≤ signers.length) :
    verifySigsStatic X raw sigers (signers.map Signer.verfer) (.simple t) = .ok ⟨⟩ := by
  obtain ⟨hlen, hvalid⟩ := h
  have hat : ∀ (j : ℕ) (siger : Siger), sigers[j]? = some siger → siger.index = j ∧
      ∃ v, (signers.map Signer.verfer)[j]? = some v ∧ v.verify X raw siger.raw = .ok true := by
    intro j siger hj
    obtain ⟨hindex, s, hs, hverify⟩ := hvalid j siger hj
    refine ⟨by omega, s.verfer, ?_, hverify⟩
    rw [List.getElem?_map, hs]
    rfl
  refine verifySigsStatic_eq_ok.2 ⟨?_, ?_⟩
  · intro siger hsiger verfer hverfer
    obtain ⟨j, hj⟩ := List.getElem?_of_mem hsiger
    obtain ⟨hindex, v, hv, hverify⟩ := hat j siger hj
    rw [hindex, hv, Option.some_inj] at hverfer
    exact ⟨true, hverfer ▸ hverify⟩
  · have hall : validIndices X raw sigers (signers.map Signer.verfer) =
        List.range (signers.map Signer.verfer).length := by
      refine List.filter_eq_self.2 ?_
      intro j hj
      rw [List.mem_range, List.length_map, ← hlen] at hj
      obtain ⟨hindex, v, hv, hverify⟩ := hat j _ (List.getElem?_eq_getElem hj)
      rw [List.any_eq_true]
      refine ⟨_, List.getElem_mem hj, ?_⟩
      simp [validAt, hv, hverify, hindex]
    simp only [Threshold.isSatisfied, hall, List.length_range, List.length_map, Bool.and_eq_true,
      decide_eq_true_eq]
    omega

/-! ### Keys and commitments -/

/-- The text of a key is read back as the key. -/
theorem fromQb64_of_qb64 (hcesr : CesrLaws X) (hX : SigningLaws X) {s : Signer} (hs : s.Genuine X)
    {key : String} (h : s.verfer.qb64 X = .ok key) : Verfer.fromQb64 X key = .ok s.verfer := by
  simp only [Verfer.fromQb64, Verfer.validateCode, bind_eq_ok, ensure_eq_ok, mapError_eq_ok,
    pure_eq_ok]
  exact ⟨_, hcesr.matter_decode (mapError_eq_ok.1 h), ⟨⟩, hs.code_valid hX, rfl⟩

theorem verfersFromKeys_of_keysQb64 (hcesr : CesrLaws X) (hX : SigningLaws X)
    {signers : List Signer} (hs : ∀ s ∈ signers, s.Genuine X) {keys : List String}
    (h : keysQb64 X signers = .ok keys) :
    Kever.verfersFromKeys X keys = .ok (signers.map Signer.verfer) ∧
      List.Forall₂ (fun key verfer => verfer.qb64 X = .ok key) keys
        (signers.map Signer.verfer) := by
  have hall := mapM_eq_ok.1 h
  rw [Kever.verfersFromKeys_eq_ok, List.forall₂_map_right_iff, List.forall₂_map_right_iff]
  simp only [mapError_eq_ok] at hall
  refine ⟨?_, hall.flip⟩
  have hboth := ((List.forall₂_and_left _ _).2 ⟨hs, hall⟩).flip
  exact hboth.imp fun key s h => fromQb64_of_qb64 hcesr hX h.1 h.2

/-- A digest is read back, and is the digest of what it was made of. -/
theorem diger_of_digestQb64 (hcesr : CesrLaws X) (hdigest : DigestLaws X) {data : Bytes}
    {text : String} (h : digestQb64 X "E" data = .ok text) :
    ∃ diger, Diger.fromQb64 X text = .ok diger ∧ diger.verify X data = .ok true := by
  simp only [digestQb64, Diger.fromData, Diger.qb64, Diger.computeDigest, Diger.algorithm,
    bind_eq_ok, mapError_eq_ok, pure_eq_ok, Except.ok.injEq] at h
  obtain ⟨_, ⟨_, rfl, m, hm, rfl⟩, htext⟩ := h
  obtain rfl := hdigest.new hm
  refine ⟨⟨⟨"E", X.digest .blake3_256 data⟩⟩, ?_, ?_⟩
  · simp only [Diger.fromQb64, Diger.validateCode, bind_eq_ok, ensure_eq_ok, mapError_eq_ok,
      pure_eq_ok]
    exact ⟨_, hcesr.matter_decode htext, ⟨⟩, rfl, rfl⟩
  · simp [Diger.verify, Diger.computeDigest, Diger.algorithm]

/-- **The keys that were committed to match their commitments.** -/
theorem keyMatches_of_commitment (hcesr : CesrLaws X) (hX : SigningLaws X)
    (hdigest : DigestLaws X) {signers : List Signer} (hs : ∀ s ∈ signers, s.Genuine X)
    {keys digests : List String} (hkeys : keysQb64 X signers = .ok keys)
    (hdigests : nextKeyDigests X signers = .ok digests) :
    List.Forall₂ (KeyMatches X) keys digests := by
  have hone : ∀ (s : Signer) (key digest : String), s.Genuine X →
      s.verfer.qb64 X = .ok key → commitmentQb64 X s = .ok digest → KeyMatches X key digest := by
    intro s key digest hgenuine hkey hcommit
    simp only [commitmentQb64, bind_eq_ok, mapError_eq_ok] at hcommit
    obtain ⟨key', hkey', htext⟩ := hcommit
    obtain rfl : key = key' := Except.ok.inj (hkey.symm.trans hkey')
    exact ⟨⟨s.verfer, fromQb64_of_qb64 hcesr hX hgenuine hkey⟩,
      diger_of_digestQb64 hcesr hdigest htext⟩
  have hkeys' := mapM_eq_ok.1 hkeys
  have hdigests' := mapM_eq_ok.1 hdigests
  simp only [mapError_eq_ok] at hkeys'
  clear hkeys hdigests
  induction signers generalizing keys digests with
  | nil =>
      cases hkeys'
      cases hdigests'
      exact List.Forall₂.nil
  | cons s signers ih =>
      obtain ⟨key, keys, hkey, hkeys, rfl⟩ := List.forall₂_cons_left_iff.1 hkeys'
      obtain ⟨digest, digests, hcommit, hdigests, rfl⟩ := List.forall₂_cons_left_iff.1 hdigests'
      refine List.Forall₂.cons (hone s key digest (hs s List.mem_cons_self) hkey hcommit) ?_
      exact ih (fun t ht => hs t (List.mem_cons_of_mem s ht)) hdigests hkeys

/-! ### An instance -/

/-- An indexed signature of the instance has a text of 88 characters. -/
theorem Toy.length_of_indexerQb64 {x : Indexer} {text : String}
    (h : Toy.indexerQb64 x = .ok text) : (strBytes text).length = 88 := by
  have hread := (Toy.indexerQb64_eq_ok h).1
  unfold Toy.indexerFromQb64 at hread
  split at hread
  · rename_i hbytes
    split at hread
    · split at hread
      · cases hread
      · rename_i hlen
        rw [hbytes, List.length_cons, List.length_cons, not_not.1 hlen]
    · cases hread
  · cases hread

/-- Signatures that repeat the key verify, and are kept. -/
theorem schemeLaws_toy (digest : Bytes → Bytes) :
    SchemeLaws (Toy.externals digest) Toy.sigScheme := by
  constructor
  · intro seed key _
    rfl
  · intro seed message sig _
    rfl
  · intro seed key message sig hkey hsig
    obtain rfl := Option.some_inj.1 hkey
    obtain rfl := Option.some_inj.1 hsig
    exact decide_eq_true rfl
  · intro seed key code m _ hm
    change Toy.matterNew code key = .ok m at hm
    unfold Toy.matterNew at hm
    split at hm
    · exact (Except.ok.inj hm).symm
    · cases hm
  · intro seed message sig code index x _ hx
    change Toy.indexerNew code index none sig = .ok x at hx
    unfold Toy.indexerNew at hx
    split at hx
    · obtain rfl := Except.ok.inj hx
      exact ⟨rfl, rfl, rfl⟩
    · cases hx

theorem signingLaws_toy (digest : Bytes → Bytes) : SigningLaws (Toy.externals digest) := by
  constructor
  · exact schemeLaws_toy digest
  · exact schemeLaws_toy digest
  · exact schemeLaws_toy digest
  · intro seed key hlen hkey
    rw [← Option.some_inj.1 hkey, hlen]
  · intro seed message sig hlen hsig
    rw [← Option.some_inj.1 hsig, List.length_append, hlen]
    rfl
  · intro x qb64 hmem h
    obtain ⟨-, hcode, -⟩ := Toy.indexerQb64_eq_ok h
    obtain hcode : x.code = "A" := by
      simp only [List.mem_cons, List.not_mem_nil, or_false] at hmem hcode
      rcases hcode with hcode | hcode
      · exact hcode
      · rw [hcode] at hmem
        exact absurd hmem (by decide)
    refine ⟨⟨88⟩, ?_, Toy.length_of_indexerQb64 h, by decide⟩
    rw [hcode]
    rfl
  · intro code count c h
    exact (Except.ok.inj h).symm

end Keri
