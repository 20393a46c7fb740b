/-
**What a SAID binds.**

A SAID is a digest of a fresh serialization of the parsed body, and the signatures are over the
bytes that were received.  The SAID therefore determines the parsed value; it determines the bytes
where these are what serializing the value gives, and nothing checks that they are.

* `Keri.SaidLaws` — what is assumed of digests, serializers and CESR texts;
* `Keri.Accepted` — a body accepted by `Kever.new`, or by `Kever.update` of any reachable verifier;
* `Keri.Accepted.sad_eq` — **equal SAIDs, equal values**, across kinds and verifiers;
* `Keri.Accepted.raw_eq` — equal SAIDs, equal bytes, for bodies in canonical form;
* `Keri.Accepted.of_raw` — an accepted value is accepted with any bytes that its keys can sign;
* `Keri.Accepted.binds_bytes_iff` — **a SAID binds the bytes exactly when no other bytes are read as
  the same value**.
-/

import Keri.PreRotation

set_option relaxedAutoImplicit false
set_option autoImplicit false

namespace Keri

open Outcome

variable (X : Externals)

/-! ### Assumptions -/

/-- What is assumed of the libraries: digests and serializers are injective, an object is
serialized with a first byte that tells the kind, and CESR texts decode to what was encoded, which a
run of `#` is not. -/
structure SaidLaws : Prop where
  digest_injective : ∀ {as bs : Bytes} {text : String}, digestQb64 X "E" as = .ok text →
    digestQb64 X "E" bs = .ok text → as = bs
  serialize_injective : ∀ {v w : Value} {kind : SerializationKind} {bytes : Bytes},
    X.serialize v kind = .ok bytes → X.serialize w kind = .ok bytes → v = w
  serialize_sniff : ∀ {fields : Fields} {kind : SerializationKind} {bytes : Bytes},
    X.serialize (.object fields) kind = .ok bytes → sniffKind bytes = .ok kind
  decode_encode : ∀ {m : Matter} {text : String}, X.cesr.matterQb64 m = .ok text →
    X.cesr.matterFromQb64 text = .ok m
  dummy_not_qb64 : ∀ (len : ℕ) (m : Matter), X.cesr.matterFromQb64 (dummyText len) ≠ .ok m

/-- The text is a CESR primitive. -/
def IsPrimitive (text : String) : Prop := ∃ m, X.cesr.matterFromQb64 text = .ok m

/-- A body accepted by some verifier. -/
inductive Accepted : Serder → Prop where
  | new {serder : Serder} {sigs : List Siger} {verfers : List Verfer} {k : Kever} :
      Kever.new X serder sigs verfers = .ok k → Accepted serder
  | update {serder : Serder} {sigs : List Siger} {k k' : Kever} : Reachable X k →
      k.update X serder sigs = .ok k' → Accepted serder

/-- The bytes are what serializing the value gives. -/
def Serder.Canonical (s : Serder) : Prop := X.serialize s.sad s.kind = .ok s.raw

variable {X}

/-! ### Identifiers are primitives -/

theorem isPrimitive_of_digest (hX : SaidLaws X) {code : String} {data : Bytes} {text : String}
    (h : digestQb64 X code data = .ok text) : IsPrimitive X text := by
  simp only [digestQb64, Diger.fromData, Diger.qb64, bind_eq_ok, mapError_eq_ok, pure_eq_ok] at h
  obtain ⟨_, ⟨_, -, m, -, rfl⟩, htext⟩ := h
  exact ⟨m, hX.decode_encode htext⟩

theorem isPrimitive_of_diger {text : String} {d : Diger} (h : Diger.fromQb64 X text = .ok d) :
    IsPrimitive X text := by
  simp only [Diger.fromQb64, bind_eq_ok, mapError_eq_ok] at h
  obtain ⟨m, hm, -⟩ := h
  exact ⟨m, hm⟩

theorem isPrimitive_of_verfer {text : String} {v : Verfer} (h : Verfer.fromQb64 X text = .ok v) :
    IsPrimitive X text := by
  simp only [Verfer.fromQb64, bind_eq_ok, mapError_eq_ok] at h
  obtain ⟨m, hm, -⟩ := h
  exact ⟨m, hm⟩

theorem isPrimitive_of_validate {icp : InceptionEvent} {u : Unit}
    (h : Kever.validatePrefixDerivation X icp = .ok u) : IsPrimitive X icp.pfx := by
  unfold Kever.validatePrefixDerivation at h
  split at h
  · rename_i hd
    obtain ⟨d, hd⟩ := exists_of_isOk hd
    exact isPrimitive_of_diger hd
  · split at h
    · rename_i hv
      obtain ⟨v, hv⟩ := exists_of_isOk hv
      exact isPrimitive_of_verfer hv
    · cases h

/-- What an accepted inception has in its fields. -/
theorem Kever.incept_fields {raw : Bytes} {sad : Value} {sigs : List Siger}
    {verfers : List Verfer} {k : Kever} (h : Kever.incept X raw sad sigs verfers = .ok k) :
    sad.get "i" = some (.string k.state.pfx) ∧
      sad.get "d" = some (.string k.state.lastEventDigest) ∧ IsPrimitive X k.state.pfx := by
  obtain ⟨icp, hicp, -, -, hpfx, hstate, -⟩ := Kever.incept_eq_ok.1 h
  obtain ⟨-, bt, -, -, hstate⟩ := KeyState.fromInception_eq_ok.1 hstate
  obtain ⟨hd, hi, -⟩ := InceptionEvent.fields hicp
  rw [hstate]
  exact ⟨hi, hd, isPrimitive_of_validate hpfx⟩

/-- What an accepted update has in its fields, and what it leaves of the state. -/
theorem Kever.nextState_fields {k : Kever} {raw : Bytes} {sad : Value} {sigs : List Siger}
    {ilk : String} {t : KeyState} (h : k.nextState X raw sad sigs ilk = .ok t) :
    t.pfx = k.state.pfx ∧ sad.get "i" = some (.string k.state.pfx) ∧
      sad.get "p" = some (.string k.state.lastEventDigest) ∧
      sad.get "d" = some (.string t.lastEventDigest) ∧ t.sn = u64Succ k.state.sn := by
  rcases Kever.nextState_eq_ok.1 h with
    ⟨-, -, rot, verfers, hrot, -, -, happly⟩ | ⟨-, ixn, verfers, hixn, -, -, happly⟩
  · obtain ⟨-, hpfx, hprior, -, bt, -, -, rfl⟩ := KeyState.applyRotation_eq_ok.1 happly
    obtain ⟨hd, hi, -, hp⟩ := RotationEvent.fields hrot
    exact ⟨rfl, hpfx ▸ hi, hprior ▸ hp, hd, rfl⟩
  · obtain ⟨-, hpfx, hprior, rfl⟩ := KeyState.applyInteraction_eq_ok.1 happly
    obtain ⟨hd, hi, -, hp⟩ := InteractionEvent.fields hixn
    exact ⟨rfl, hpfx ▸ hi, hprior ▸ hp, hd, rfl⟩

/-- The SAID of a body that verifies is a primitive. -/
theorem isPrimitive_of_verifySaid (hX : SaidLaws X) {sad : Value} {kind : SerializationKind}
    {d : String} {u : Unit} (h : verifySaid X sad "d" "E" kind = .ok u)
    (hd : sad.get "d" = some (.string d)) : IsPrimitive X d := by
  obtain ⟨obj, said, len, bytes, rfl, hget, -, -, hdig⟩ := verifySaid_eq_ok.1 h
  rw [Value.get_object, hget, Option.some_inj, Value.string.injEq] at hd
  exact hd ▸ isPrimitive_of_digest hX hdig

/-- What holds of the identifier of every verified inception holds of that of every reachable
verifier: no event changes it. -/
theorem Reachable.pfx_of {P : String → Prop}
    (hincept : ∀ {raw : Bytes} {sad : Value} {sigs : List Siger} {verfers : List Verfer}
      {k : Kever} {kind : SerializationKind}, verifySaid X sad "d" "E" kind = .ok ⟨⟩ →
      Kever.incept X raw sad sigs verfers = .ok k → P k.state.pfx)
    (hsaid : ∀ {sad : Value} {kind : SerializationKind} {d : String},
      verifySaid X sad "d" "E" kind = .ok ⟨⟩ → sad.get "d" = some (.string d) → P d)
    {k : Kever} (h : Reachable X k) : P k.state.pfx := by
  induction h with
  | new hnew =>
      obtain ⟨-, hverify, hk⟩ := Kever.new_eq_ok.1 hnew
      exact hincept hverify hk
  | newFromParts hnew =>
      obtain ⟨-, hverify, hk⟩ := Kever.newFromParts_eq_ok.1 hnew
      exact hincept hverify hk
  | newDelegated hnew =>
      obtain ⟨-, hverify, dip, hdip, -, -, hpfx, -, hstate, -⟩ := Kever.newDelegated_eq_ok.1 hnew
      obtain ⟨hicp, -⟩ := DelegatedInceptionEvent.fromValue_eq_ok.1 hdip
      obtain ⟨hd, -, -⟩ := InceptionEvent.fields hicp
      obtain ⟨-, -, bt, -, -, hstate⟩ := KeyState.fromDelegatedInception_eq_ok.1 hstate
      rw [hstate]
      change P dip.pfx
      rw [hpfx]
      exact hsaid hverify hd
  | update _ hupdate ih =>
      obtain ⟨t, hverify, rfl⟩ := Kever.update_eq_ok.1 hupdate
      obtain ⟨-, -, ilk, -, -, hnext⟩ := Kever.verifyUpdate_eq_ok.1 hverify
      exact (Kever.nextState_fields hnext).1 ▸ ih
  | verifyUpdate _ hverify ih =>
      obtain ⟨-, -, ilk, -, -, hnext⟩ := Kever.verifyUpdate_eq_ok.1 hverify
      exact (Kever.nextState_fields hnext).1 ▸ ih
  | verifyUpdateOwned _ hverify ih =>
      obtain ⟨-, -, ilk, _, -, -, -, hnext⟩ := Kever.verifyUpdateOwned_eq_ok.1 hverify
      exact (Kever.nextState_fields hnext).1 ▸ ih
  | verifyUpdateDelegated _ hverify ih =>
      obtain ⟨-, -, -, -, drt, verfers, -, -, -, -, happly⟩ :=
        Kever.verifyUpdateDelegated_eq_ok.1 hverify
      obtain ⟨-, -, happly⟩ := KeyState.applyDelegatedRotation_eq_ok.1 happly
      obtain ⟨-, -, -, -, bt, -, -, rfl⟩ := KeyState.applyRotation_eq_ok.1 happly
      exact ih

/-- The identifier of a reachable verifier is a primitive. -/
theorem Reachable.isPrimitive (hX : SaidLaws X) {k : Kever} (h : Reachable X k) :
    IsPrimitive X k.state.pfx :=
  h.pfx_of (fun _ hincept => (Kever.incept_fields hincept).2.2)
    (fun hverify hd => isPrimitive_of_verifySaid hX hverify hd)

/-! ### Equal SAIDs -/

/-- **Equal SAIDs, equal values.**  Two bodies whose SAIDs verify, each in its own kind, are of one
kind and have one value when the SAIDs are equal. -/
theorem sad_eq_of_said_eq (hX : SaidLaws X) {v w : Value} {kind kind' : SerializationKind}
    {i j d : String} (hv : verifySaid X v "d" "E" kind = .ok ())
    (hw : verifySaid X w "d" "E" kind' = .ok ()) (hvd : v.get "d" = some (.string d))
    (hwd : w.get "d" = some (.string d)) (hvi : v.get "i" = some (.string i))
    (hwi : w.get "i" = some (.string j)) (hi : IsPrimitive X i) (hj : IsPrimitive X j) :
    kind = kind' ∧ v = w := by
  obtain ⟨as, said, len, abytes, rfl, had, hlen, habytes, hadig⟩ := verifySaid_eq_ok.1 hv
  obtain ⟨bs, said', len', bbytes, rfl, hbd, hlen', hbbytes, hbdig⟩ := verifySaid_eq_ok.1 hw
  rw [Value.get_object] at hvd hwd hvi hwi
  rw [had, Option.some_inj, Value.string.injEq] at hvd
  rw [hbd, Option.some_inj, Value.string.injEq] at hwd
  subst hvd hwd
  obtain rfl : len = len' := Except.ok.inj (hlen.symm.trans hlen')
  obtain rfl := hX.digest_injective hadig hbdig
  have hkind : kind = kind' := by
    have h := (hX.serialize_sniff habytes).symm.trans (hX.serialize_sniff hbbytes)
    exact Except.ok.inj h
  subst hkind
  have hdummied := hX.serialize_injective habytes hbbytes
  have hne : ∀ {text : String}, IsPrimitive X text → Value.string text ≠
      .string (dummyText len) := by
    rintro text ⟨m, hm⟩ heq
    rw [Value.string.injEq] at heq
    exact hX.dummy_not_qb64 len m (heq ▸ hm)
  have hfields := fillSaid_injective had hbd hvi hwi (hne hi) (hne hj)
    (Value.object.inj hdummied)
  exact ⟨rfl, by rw [hfields]⟩

/-- What an accepted body has passed. -/
theorem Accepted.said_ok (hX : SaidLaws X) {s : Serder} (h : Accepted X s) :
    verifySaid X s.sad "d" "E" s.kind = .ok () ∧
      ∃ i d, s.sad.get "i" = some (.string i) ∧ s.sad.get "d" = some (.string d) ∧
        IsPrimitive X i := by
  cases h with
  | new hnew =>
      obtain ⟨-, hsaid, hincept⟩ := Kever.new_eq_ok.1 hnew
      obtain ⟨hi, hd, hprim⟩ := Kever.incept_fields hincept
      exact ⟨hsaid, _, _, hi, hd, hprim⟩
  | update hk hupdate =>
      obtain ⟨t, hverify, -⟩ := Kever.update_eq_ok.1 hupdate
      obtain ⟨-, hsaid, ilk, -, -, hnext⟩ := Kever.verifyUpdate_eq_ok.1 hverify
      obtain ⟨-, hi, -, hd, -⟩ := Kever.nextState_fields hnext
      exact ⟨hsaid, _, _, hi, hd, hk.isPrimitive hX⟩

/-- Equal SAIDs, equal values, for accepted bodies. -/
theorem Accepted.sad_eq (hX : SaidLaws X) {s₁ s₂ : Serder} (h₁ : Accepted X s₁)
    (h₂ : Accepted X s₂) (hd : s₁.said = s₂.said) : s₁.kind = s₂.kind ∧ s₁.sad = s₂.sad := by
  obtain ⟨hsaid₁, i₁, d₁, hi₁, hd₁, hprim₁⟩ := h₁.said_ok hX
  obtain ⟨hsaid₂, i₂, d₂, hi₂, hd₂, hprim₂⟩ := h₂.said_ok hX
  have hdd : s₁.said = .ok d₁ := Serder.textField_eq_ok.2 hd₁
  rw [hd] at hdd
  exact sad_eq_of_said_eq hX hsaid₁ hsaid₂ hd₁ (Serder.textField_eq_ok.1 hdd) hi₁ hi₂ hprim₁
    hprim₂

/-- **Equal SAIDs, equal bytes**, for accepted bodies in canonical form. -/
theorem Accepted.raw_eq (hX : SaidLaws X) {s₁ s₂ : Serder} (h₁ : Accepted X s₁)
    (h₂ : Accepted X s₂) (hd : s₁.said = s₂.said) (hc₁ : s₁.Canonical X)
    (hc₂ : s₂.Canonical X) : s₁.raw = s₂.raw := by
  obtain ⟨hkind, hsad⟩ := h₁.sad_eq hX h₂ hd
  unfold Serder.Canonical at hc₁ hc₂
  rw [hkind, hsad, hc₂] at hc₁
  exact (Except.ok.inj hc₁).symm

/-! ### Equal values, other bytes -/

variable (X) in
/-- Whoever has signed one message can sign any other. -/
def CanSign : Prop :=
  ∀ (v : Verfer) (message message' signature : Bytes), v.verify X message signature = .ok true →
    ∃ signature', v.verify X message' signature' = .ok true

/-- Indices that carry valid signatures over one message can carry them over any other. -/
theorem exists_sigs (hsign : CanSign X) {message : Bytes} {sigs : List Siger}
    {verfers : List Verfer} (message' : Bytes) (indices : List ℕ)
    (h : ∀ i ∈ indices, ValidIndex X message sigs verfers i) :
    ∃ sigs' : List Siger, (∀ sig ∈ sigs', ∃ verfer, verfers[sig.index]? = some verfer ∧
      verfer.verify X message' sig.raw = .ok true) ∧
      ∀ i, i ∈ indices ↔ ∃ sig ∈ sigs', sig.index = i := by
  induction indices with
  | nil => exact ⟨[], by simp, by simp⟩
  | cons i indices ih =>
      obtain ⟨sigs', hvalid, hindices⟩ := ih fun j hj => h j (List.mem_cons_of_mem i hj)
      obtain ⟨sig, -, -, verfer, hverfer, hok⟩ := h i List.mem_cons_self
      obtain ⟨raw, hraw⟩ := hsign verfer message message' sig.raw hok
      refine ⟨⟨⟨"A", i, none, raw⟩⟩ :: sigs', ?_, ?_⟩
      · intro sig' hsig'
        rcases List.mem_cons.1 hsig' with rfl | hsig'
        · exact ⟨verfer, hverfer, hraw⟩
        · exact hvalid sig' hsig'
      · intro j
        rw [List.mem_cons, hindices]
        simp only [List.mem_cons, exists_eq_or_imp, Siger.index]
        exact or_congr_left eq_comm

/-- A threshold that is met over one message can be met over any other. -/
theorem exists_verifySigs (hsign : CanSign X) {message : Bytes} {sigs : List Siger}
    {verfers : List Verfer} {threshold : Threshold} (message' : Bytes)
    (h : verifySigsStatic X message sigs verfers threshold = .ok ()) :
    ∃ sigs', verifySigsStatic X message' sigs' verfers threshold = .ok () := by
  obtain ⟨-, hsat⟩ := verifySigsStatic_eq_ok.1 h
  obtain ⟨sigs', hvalid, hindices⟩ := exists_sigs hsign message'
    (validIndices X message sigs verfers) fun i hi => mem_validIndices.1 hi
  refine ⟨sigs', verifySigsStatic_eq_ok.2 ⟨?_, ?_⟩⟩
  · intro sig hsig verfer hverfer
    obtain ⟨verfer', hverfer', hok⟩ := hvalid sig hsig
    rw [hverfer, Option.some_inj] at hverfer'
    exact ⟨true, hverfer' ▸ hok⟩
  · rw [← hsat]
    refine Threshold.isSatisfied_congr (validIndices_nodup _) (validIndices_nodup _) ?_ _ _
    intro i
    rw [mem_validIndices, hindices]
    constructor
    · rintro ⟨sig, hsig, hidx, -⟩
      exact ⟨sig, hsig, hidx⟩
    · rintro ⟨sig, hsig, rfl⟩
      exact ⟨sig, hsig, rfl, hvalid sig hsig⟩

/-- The bytes of an update enter its acceptance through the signatures only. -/
theorem Kever.exists_nextState (hsign : CanSign X) {k : Kever} {raw : Bytes} {sad : Value}
    {sigs : List Siger} {ilk : String} {t : KeyState} (raw' : Bytes)
    (h : k.nextState X raw sad sigs ilk = .ok t) :
    ∃ sigs', k.nextState X raw' sad sigs' ilk = .ok t := by
  rcases Kever.nextState_eq_ok.1 h with
    ⟨hilk, hdel, rot, verfers, hrot, hverfers, hsigs, happly⟩ |
    ⟨hilk, ixn, verfers, hixn, hverfers, hsigs, happly⟩
  · obtain ⟨sigs', hsigs'⟩ := exists_verifySigs hsign raw' hsigs
    exact ⟨sigs', Kever.nextState_eq_ok.2
      (Or.inl ⟨hilk, hdel, rot, verfers, hrot, hverfers, hsigs', happly⟩)⟩
  · obtain ⟨sigs', hsigs'⟩ := exists_verifySigs hsign raw' hsigs
    exact ⟨sigs', Kever.nextState_eq_ok.2
      (Or.inr ⟨hilk, ixn, verfers, hixn, hverfers, hsigs', happly⟩)⟩

/-- **An accepted value is accepted with any bytes.**  Nothing but the signatures looks at the
bytes, and the keys can sign any. -/
theorem Accepted.of_raw (hsign : CanSign X) {s₁ s₂ : Serder} (h : Accepted X s₁)
    (hkind : s₂.kind = s₁.kind) (hsad : s₂.sad = s₁.sad) : Accepted X s₂ := by
  have hilk : s₂.ilk = s₁.ilk := by simp only [Serder.ilk, Serder.textField, hsad]
  have hsn : s₂.sn = s₁.sn := by simp only [Serder.sn, hsad]
  have hverify : s₂.verifySaid X "E" = s₁.verifySaid X "E" := by
    simp only [Serder.verifySaid, hsad, hkind]
  cases h with
  | new hnew =>
      obtain ⟨hicpIlk, hsaid, hincept⟩ := Kever.new_eq_ok.1 hnew
      obtain ⟨icp, hicp, hkeys, hsigs, hpfx, hstate, hinc⟩ := Kever.incept_eq_ok.1 hincept
      obtain ⟨sigs', hsigs'⟩ := exists_verifySigs hsign s₂.raw hsigs
      rw [← hsad] at hicp
      exact Accepted.new (Kever.new_eq_ok.2 ⟨hilk.trans hicpIlk, hverify.trans hsaid,
        Kever.incept_eq_ok.2 ⟨icp, hicp, hkeys, hsigs', hpfx, hstate, hinc⟩⟩)
  | update hk hupdate =>
      obtain ⟨t, hver, -⟩ := Kever.update_eq_ok.1 hupdate
      obtain ⟨hinc, hsaid, ilk, hupIlk, hupSn, hnext⟩ := Kever.verifyUpdate_eq_ok.1 hver
      obtain ⟨sigs', hnext'⟩ := Kever.exists_nextState hsign s₂.raw hnext
      rw [← hsad] at hnext'
      exact Accepted.update hk (Kever.update_eq_ok.2 ⟨t, Kever.verifyUpdate_eq_ok.2
        ⟨hinc, hverify.trans hsaid, ilk, hilk.trans hupIlk, hsn.trans hupSn, hnext'⟩, rfl⟩)

/-- **When a SAID binds the bytes.**  Every accepted body with the SAID of an accepted body has its
bytes too, exactly when no other bytes are read as its value in its kind. -/
theorem Accepted.binds_bytes_iff (hX : SaidLaws X) (hsign : CanSign X) {s₁ : Serder}
    (h₁ : Accepted X s₁) :
    (∀ s₂, Serder.fromRaw X s₂.raw = .ok s₂ → Accepted X s₂ → s₂.said = s₁.said →
        s₂.raw = s₁.raw) ↔
      ∀ s₂, Serder.fromRaw X s₂.raw = .ok s₂ → s₂.kind = s₁.kind → s₂.sad = s₁.sad →
        s₂.raw = s₁.raw := by
  constructor
  · intro h s₂ hread hkind hsad
    refine h s₂ hread (h₁.of_raw hsign hkind hsad) ?_
    simp only [Serder.said, Serder.textField, hsad]
  · intro h s₂ hread h₂ hsaid
    obtain ⟨hkind, hsad⟩ := h₂.sad_eq hX h₁ hsaid
    exact h s₂ hread hkind hsad

/-! ### Two encodings of one body -/

/-- The assumptions hold of the toy libraries with any injective digest. -/
theorem saidLaws_toy {digest : Bytes → Bytes} (hd : Function.Injective digest) :
    SaidLaws (Toy.externals digest) where
  digest_injective := Toy.digestQb64_injective hd
  serialize_injective := by
    intro v w kind bytes hv hw
    cases kind with
    | json => exact Toy.json_injective (mapError_eq_ok.1 hv) (mapError_eq_ok.1 hw)
    | cbor => cases hv
    | msgPack => cases hv
  serialize_sniff := by
    intro fields kind bytes h
    cases kind with
    | json =>
        obtain ⟨tail, rfl⟩ := Toy.toVec_object (mapError_eq_ok.1 h)
        rfl
    | cbor => cases h
    | msgPack => cases h
  decode_encode := Toy.matterFromQb64_matterQb64
  dummy_not_qb64 := Toy.dummy_not_qb64

/-- The fields of an inception of a basic identifier. -/
def toyFields : Fields :=
  Fields.insert "i" (.string (Toy.keyText 1)) (Toy.icpFields "1" "1" [1] [])

/-- The toy libraries with a digest that loses nothing. -/
abbrev toyExact : Externals := Toy.externals (Toy.knownDigest [Toy.dummiedBytes toyFields])

/-- The inception, without a version string and with its SAID put in. -/
def toyBody : Value :=
  match computeSaid toyExact (.object toyFields) "d" "E" .json with
  | .ok (_, sad) => sad
  | .error _ => .null

/-- Its bytes, and its bytes with a space after the opening brace. -/
def toyRaw : Bytes := Toy.print toyBody

def toySpaced : Bytes := 123 :: 32 :: toyRaw.tail

/-- Is the body accepted with a signature of key 1? -/
def toyAccepted (s : Serder) : Bool :=
  (Kever.new toyExact s [Toy.siger 1 0 s.raw] [Toy.verfer 1]).isOk

/-- A toy key can sign any message. -/
theorem canSign_toy (digest : Bytes → Bytes) : CanSign (Toy.externals digest) := by
  intro v message message' signature h
  refine ⟨v.raw ++ Toy.checksumBytes 32 message', ?_⟩
  unfold Verfer.verify at h ⊢
  split at h
  · rename_i hcode
    rw [if_pos hcode]
    simp only [Verfer.verifyEd25519, bind_eq_ok, ensure_eq_ok, pure_eq_ok] at h ⊢
    obtain ⟨-, hraw, -, hkey, -, -, -⟩ := h
    refine ⟨⟨⟩, hraw, ⟨⟩, hkey, ⟨⟩, ?_, ?_⟩
    · rw [List.length_append, hraw]
      rfl
    · exact decide_eq_true rfl
  · rename_i hcode
    rw [if_neg hcode]
    split at h
    · rename_i hcode'
      rw [if_pos hcode']
      simp only [Verfer.verifySecp256k1, bind_eq_ok, ensure_eq_ok, pure_eq_ok]
      exact ⟨⟨⟩, rfl, ⟨⟩, rfl, decide_eq_true rfl⟩
    · rename_i hcode'
      rw [if_neg hcode']
      split at h
      · rename_i hcode''
        rw [if_pos hcode'']
        simp only [Verfer.verifySecp256r1, bind_eq_ok, ensure_eq_ok, pure_eq_ok]
        exact ⟨⟨⟩, rfl, ⟨⟩, rfl, decide_eq_true rfl⟩
      · cases h

theorem Accepted.binds_bytes_toy : ∃ s₁, Serder.fromRaw toyExact toyRaw = .ok s₁ ∧
    Accepted toyExact s₁ ∧
    ((∀ s₂, Serder.fromRaw toyExact s₂.raw = .ok s₂ → Accepted toyExact s₂ →
        s₂.said = s₁.said → s₂.raw = s₁.raw) ↔
      ∀ s₂, Serder.fromRaw toyExact s₂.raw = .ok s₂ → s₂.kind = s₁.kind → s₂.sad = s₁.sad →
        s₂.raw = s₁.raw) := by
  obtain ⟨s₁, hs₁, h⟩ := exists_ok_of_any (x := Serder.fromRaw toyExact toyRaw)
    (p := toyAccepted) (by decide +kernel)
  obtain ⟨k, hk⟩ := exists_of_isOk h
  exact ⟨s₁, hs₁, .new hk, Accepted.binds_bytes_iff
    (saidLaws_toy (Toy.knownDigest_injective (by decide))) (canSign_toy _) (.new hk)⟩

/-- The SAID does not bind the bytes: an inception and the same with a space in it are both accepted
under one SAID. -/
theorem said_does_not_bind_bytes :
    ¬ ∀ (X : Externals) (r₁ r₂ : Bytes) (s₁ s₂ : Serder), SaidLaws X →
      Serder.fromRaw X r₁ = .ok s₁ → Serder.fromRaw X r₂ = .ok s₂ → Accepted X s₁ →
      Accepted X s₂ → s₁.said = s₂.said → s₁.raw = s₂.raw := by
  intro hclaim
  obtain ⟨s₁, hs₁, h⟩ := exists_ok_of_any (x := Serder.fromRaw toyExact toyRaw)
    (p := fun s₁ => (Serder.fromRaw toyExact toySpaced).toOption.any fun s₂ =>
      toyAccepted s₁ && toyAccepted s₂ && decide (s₁.said = s₂.said) &&
        decide (s₁.raw ≠ s₂.raw)) (by decide +kernel)
  obtain ⟨s₂, hs₂, h⟩ := exists_ok_of_any h
  simp only [Bool.and_eq_true, decide_eq_true_eq] at h
  obtain ⟨⟨⟨h₁, h₂⟩, hsaid⟩, hraw⟩ := h
  obtain ⟨k₁, hk₁⟩ := exists_of_isOk h₁
  obtain ⟨k₂, hk₂⟩ := exists_of_isOk h₂
  exact hraw (hclaim _ _ _ _ _ (saidLaws_toy (Toy.knownDigest_injective (by decide))) hs₁ hs₂
    (.new hk₁)
    (.new hk₂) hsaid)

end Keri
