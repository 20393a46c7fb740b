/-
**Two ways of composing witness receipts.**

A witness receipts an event on its own, as one counter and one couple of its key and its signature;
a host of several witnesses puts the couples of all of them behind one counter.  The host goes
through the raw bytes of the signatures, and encodes all of them again as Ed25519 signatures.

* `Keri.Hab.collectWitnessReceipts`, `Keri.Hab.composeWitnessReceiptAttachment` — the receipts of a
  list of witnesses, as data and as bytes;
* `Keri.Hab.Carried` — the couple that the own receipt of a witness carries behind its counter;
* `Keri.CodedText.code_unique` — of two texts that begin a stream the codes are equal;
* `Keri.Hab.composed_alike_iff` — **the host composes the couples of the receipts exactly when all
  witnesses sign with Ed25519**;
* `Keri.Hab.secp_receipt_differs` — a witness that signs with secp256k1.
-/

import Keri.Hab
import Keri.ParserGroups

set_option relaxedAutoImplicit false
set_option autoImplicit false

namespace Keri

open Outcome

variable (X : Externals)

/-! ### Composing -/

namespace Hab

/-- The receipt of a witness as a couple of its public key and its raw signature. -/
def witnessCouple (event : Serder) (witness : Hab) : Except KeriError (String × Bytes) := do
  ensure (¬ witness.transferable)
    (.config s!"witness '{witness.name}' must be non-transferable")
  let signer ← okOr witness.signers.head? (.config "index out of bounds")
  let cigar ← (signer.sign X event.raw).mapError .crypto
  let prefixQb64 ← (signer.verfer.qb64 X).mapError KeriError.crypto
  pure (prefixQb64, cigar.raw)

/-- The receipt couples of a list of witnesses. -/
def collectWitnessReceipts (event : Serder) (witnessHabs : List Hab) :
    Except KeriError (List (String × Bytes)) :=
  witnessHabs.mapM (witnessCouple X event)

/-- The bytes of a couple: its raw signature is encoded as one of Ed25519. -/
def coupleBytes (couple : String × Bytes) : Except KeriError Bytes := do
  let cigar ← (Cigar.new X "0B" couple.2).mapError .crypto
  let cigarQb64 ← (cigar.qb64 X).mapError KeriError.crypto
  pure (strBytes couple.1 ++ strBytes cigarQb64)

/-- The counter of so many receipt couples of an event. -/
def receiptCounter (event : Serder) (count : ℕ) : Except KeriError Bytes := do
  let code ← (counterCodeFor event .nonTransReceiptCouples).mapError .core
  let counter ← (X.cesr.counterNew code count).mapError .cesr
  let counterQb64 ← (X.cesr.counterQb64 counter).mapError KeriError.cesr
  pure (strBytes counterQb64)

/-- The receipt couples of a list of witnesses as one attachment. -/
def composeWitnessReceiptAttachment (event : Serder) (witnessHabs : List Hab) :
    Except KeriError Bytes := do
  let couples ← collectWitnessReceipts X event witnessHabs
  let output ← receiptCounter X event couples.length
  let parts ← couples.mapM (coupleBytes X)
  pure (output ++ parts.flatten)

/-- The own receipt of a witness is a counter of one, and then this couple. -/
def Carried (event : Serder) (h : Hab) (couple : Bytes) : Prop :=
  ∃ one, receiptCounter X event 1 = .ok one ∧ h.receipt X event = .ok (one ++ couple)

/-- The host composes this part for a witness. -/
def Composed (event : Serder) (h : Hab) (part : Bytes) : Prop :=
  ∃ couple, witnessCouple X event h = .ok couple ∧ coupleBytes X couple = .ok part

/-- The witness signs with Ed25519. -/
def SignsEd25519 (h : Hab) : Prop := ∀ s ∈ h.signers.head?, s.code = "A"

instance (h : Hab) : Decidable h.SignsEd25519 :=
  inferInstanceAs (Decidable (∀ s ∈ h.signers.head?, s.code = "A"))

end Hab

/-- What is assumed of CESR: a primitive has the code and the bytes it is made from, and its text
starts with its code. -/
structure PrimitiveLaws : Prop where
  matter_new : ∀ {code : String} {raw : Bytes} {m : Matter}, X.cesr.matterNew code raw = .ok m →
    m = ⟨code, raw⟩
  matter_coded : ∀ {m : Matter} {qb64 : String}, X.cesr.matterQb64 m = .ok qb64 →
    CodedText X m.code qb64

variable {X}

/-! ### Codes -/

theorem CodedText.code_unique {code code' qb64 qb64' : String} {rest rest' : Bytes}
    (h : CodedText X code qb64) (h' : CodedText X code' qb64')
    (heq : strBytes qb64 ++ rest = strBytes qb64' ++ rest') : code = code' := by
  obtain ⟨first, hs, hfirst, hhs, -, hcode⟩ := h.read rest
  obtain ⟨first', hs', hfirst', hhs', -, hcode'⟩ := h'.read rest'
  rw [heq, hfirst', Option.some_inj] at hfirst
  rw [hfirst, hhs, Option.some_inj] at hhs'
  rw [← hcode, ← hcode', heq, hhs']

theorem Signer.cigarCode_eq_ok {s : Signer} {code : String} (h : s.cigarCode = .ok code) :
    code = "0B" ↔ s.code = "A" := by
  rw [Signer.cigarCode, bind_eq_ok] at h
  obtain ⟨alg, halg, hcode⟩ := h
  rw [Signer.algorithmFromCode.eq_def] at halg
  split at halg
  case h_6 => cases halg
  all_goals
    cases halg
    rename_i hs
    rw [hs, ← pure_eq_ok.1 hcode]
    decide

theorem Signer.sign_eq_ok {s : Signer} {message : Bytes} {cigar : Cigar} :
    s.sign X message = .ok cigar ↔ ∃ raw code, s.signRaw X message = .ok raw ∧
      s.cigarCode = .ok code ∧ Cigar.new X code raw = .ok cigar := by
  simp only [Signer.sign, bind_eq_ok]
  constructor
  · rintro ⟨raw, hraw, code, hcode, hcigar⟩
    exact ⟨raw, code, hraw, hcode, hcigar⟩
  · rintro ⟨raw, code, hraw, hcode, hcigar⟩
    exact ⟨raw, hraw, code, hcode, hcigar⟩

theorem Cigar.new_eq_ok (hX : PrimitiveLaws X) {code : String} {raw : Bytes} {cigar : Cigar}
    (h : Cigar.new X code raw = .ok cigar) : cigar = ⟨⟨code, raw⟩⟩ := by
  simp only [Cigar.new, bind_eq_ok, mapError_eq_ok, pure_eq_ok] at h
  obtain ⟨m, hm, rfl⟩ := h
  rw [hX.matter_new hm]

namespace Hab

variable {event : Serder} {h : Hab} {couple part : Bytes}

/-! ### One witness -/

theorem receiptCounter_eq_ok {count : ℕ} {bytes : Bytes} :
    receiptCounter X event count = .ok bytes ↔ ∃ code counter counterQb64,
      counterCodeFor event .nonTransReceiptCouples = .ok code ∧
      X.cesr.counterNew code count = .ok counter ∧ X.cesr.counterQb64 counter = .ok counterQb64 ∧
      strBytes counterQb64 = bytes := by
  simp only [receiptCounter, bind_eq_ok, mapError_eq_ok, pure_eq_ok]
  constructor
  · rintro ⟨code, hcode, counter, hcounter, counterQb64, hqb64, hbytes⟩
    exact ⟨code, counter, counterQb64, hcode, hcounter, hqb64, hbytes⟩
  · rintro ⟨code, counter, counterQb64, hcode, hcounter, hqb64, hbytes⟩
    exact ⟨code, hcode, counter, hcounter, counterQb64, hqb64, hbytes⟩

/-- The couple of a receipt is the text of the key and the text of the signature. -/
theorem Carried.couple_eq (ht : h.transferable = false) (hcarried : Carried X event h couple) :
    ∃ s cigar keyQb64 cigarQb64, h.signers.head? = some s ∧ s.sign X event.raw = .ok cigar ∧
      s.verfer.qb64 X = .ok keyQb64 ∧ cigar.qb64 X = .ok cigarQb64 ∧
      couple = strBytes keyQb64 ++ strBytes cigarQb64 := by
  obtain ⟨one, hone, hreceipt⟩ := hcarried
  rw [receipt, if_pos (by rw [ht]; exact Bool.false_ne_true)] at hreceipt
  simp only [bind_eq_ok, okOr_eq_ok, mapError_eq_ok, pure_eq_ok] at hreceipt
  obtain ⟨s, hs, cigar, hcigar, keyQb64, hkey, cigarQb64, htext, code, hcode, counter, hcounter,
    counterQb64, hqb64, heq⟩ := hreceipt
  have hsame : receiptCounter X event 1 = .ok (strBytes counterQb64) :=
    receiptCounter_eq_ok.2 ⟨code, counter, counterQb64, hcode, hcounter, hqb64, rfl⟩
  rw [hone] at hsame
  obtain rfl := Except.ok.inj hsame
  rw [List.append_assoc, List.append_cancel_left_eq] at heq
  exact ⟨s, cigar, keyQb64, cigarQb64, hs, hcigar, hkey, htext, heq.symm⟩

theorem composed_iff : Composed X event h part ↔ h.transferable = false ∧
    ∃ s cigar keyQb64 again againQb64, h.signers.head? = some s ∧
      s.sign X event.raw = .ok cigar ∧ s.verfer.qb64 X = .ok keyQb64 ∧
      Cigar.new X "0B" cigar.raw = .ok again ∧ again.qb64 X = .ok againQb64 ∧
      part = strBytes keyQb64 ++ strBytes againQb64 := by
  simp only [Composed, witnessCouple, coupleBytes, bind_eq_ok, ensure_eq_ok, okOr_eq_ok,
    mapError_eq_ok, pure_eq_ok, Bool.not_eq_true]
  constructor
  · rintro ⟨_, ⟨-, ht, s, hs, cigar, hcigar, keyQb64, hkey, rfl⟩, again, hagain, againQb64, htext,
      rfl⟩
    exact ⟨ht, s, cigar, keyQb64, again, againQb64, hs, hcigar, hkey, hagain, htext, rfl⟩
  · rintro ⟨ht, s, cigar, keyQb64, again, againQb64, hs, hcigar, hkey, hagain, htext, rfl⟩
    exact ⟨_, ⟨⟨⟩, ht, s, hs, cigar, hcigar, keyQb64, hkey, rfl⟩, again, hagain, againQb64, htext,
      rfl⟩

/-- An Ed25519 signature is encoded again as it was. -/
theorem Carried.composed (hX : PrimitiveLaws X) (ht : h.transferable = false)
    (hcarried : Carried X event h couple) (hed : h.SignsEd25519) : Composed X event h couple := by
  obtain ⟨s, cigar, keyQb64, cigarQb64, hs, hcigar, hkey, htext, rfl⟩ := hcarried.couple_eq ht
  obtain ⟨raw, code, -, hcode, hnew⟩ := Signer.sign_eq_ok.1 hcigar
  obtain rfl := (Signer.cigarCode_eq_ok hcode).2 (hed s hs)
  have hraw : cigar.raw = raw := by rw [Cigar.new_eq_ok hX hnew]; rfl
  refine composed_iff.2 ⟨ht, s, cigar, keyQb64, cigar, cigarQb64, hs, hcigar, hkey, ?_, htext, rfl⟩
  rw [hraw]
  exact hnew

/-- A part that begins like the couple of the receipt is that couple, and the witness signs with
Ed25519. -/
theorem Composed.eq_couple (hX : PrimitiveLaws X) (hcomposed : Composed X event h part)
    (hcarried : Carried X event h couple) {rest rest' : Bytes}
    (heq : part ++ rest = couple ++ rest') : h.SignsEd25519 ∧ part = couple := by
  obtain ⟨ht, s, cigar, keyQb64, again, againQb64, hs, hcigar, hkey, hagain, htext, rfl⟩ :=
    composed_iff.1 hcomposed
  obtain ⟨s', cigar', keyQb64', cigarQb64, hs', hcigar', hkey', htext', rfl⟩ :=
    hcarried.couple_eq ht
  obtain rfl := Option.some_inj.1 (hs.symm.trans hs')
  obtain rfl := Except.ok.inj (hcigar.symm.trans hcigar')
  obtain rfl := Except.ok.inj (hkey.symm.trans hkey')
  rw [List.append_assoc, List.append_assoc, List.append_cancel_left_eq] at heq
  obtain ⟨raw, code, -, hcode, hnew⟩ := Signer.sign_eq_ok.1 hcigar
  have hcigarEq := Cigar.new_eq_ok hX hnew
  have hagainEq := Cigar.new_eq_ok hX hagain
  rw [Cigar.qb64, mapError_eq_ok] at htext htext'
  -- both signature texts stand at the same place, so their codes are equal
  have hcodes : again.matter.code = cigar.matter.code :=
    (hX.matter_coded htext).code_unique (hX.matter_coded htext') heq
  rw [hcigarEq, hagainEq] at hcodes
  have hsigners : s.code = "A" := (Signer.cigarCode_eq_ok hcode).1 hcodes.symm
  have hsame : again = cigar := by
    rw [hagainEq, hcigarEq]
    exact congrArg (fun c => Cigar.mk ⟨c, raw⟩) hcodes
  rw [hsame, htext', Except.ok.injEq] at htext
  refine ⟨?_, by rw [htext]⟩
  intro s'' hs''
  rw [hs, Option.mem_some_iff] at hs''
  rw [← hs'']
  exact hsigners

/-! ### All witnesses -/

theorem composeWitnessReceiptAttachment_eq_ok {habs : List Hab} {output : Bytes} :
    composeWitnessReceiptAttachment X event habs = .ok output ↔ ∃ counter parts,
      receiptCounter X event habs.length = .ok counter ∧
      List.Forall₂ (Composed X event) habs parts ∧ output = counter ++ parts.flatten := by
  simp only [composeWitnessReceiptAttachment, collectWitnessReceipts, bind_eq_ok, mapM_eq_ok,
    pure_eq_ok]
  constructor
  · rintro ⟨couples, hcouples, counter, hcounter, parts, hparts, rfl⟩
    rw [← hcouples.length_eq] at hcounter
    refine ⟨counter, parts, hcounter, ?_, rfl⟩
    clear hcounter
    induction hcouples generalizing parts with
    | nil =>
        cases hparts
        exact List.Forall₂.nil
    | cons hcouple _ ih =>
        cases hparts with
        | cons hpart hparts => exact List.Forall₂.cons ⟨_, hcouple, hpart⟩ (ih _ hparts)
  · rintro ⟨counter, parts, hcounter, hparts, rfl⟩
    have hcouples : ∃ couples,
        List.Forall₂ (fun h couple => witnessCouple X event h = .ok couple) habs couples ∧
        List.Forall₂ (fun couple part => coupleBytes X couple = .ok part) couples parts := by
      clear hcounter
      induction hparts with
      | nil => exact ⟨[], List.Forall₂.nil, List.Forall₂.nil⟩
      | cons hone _ ih =>
          obtain ⟨couple, hcouple, hpart⟩ := hone
          obtain ⟨couples, hcouples, hparts⟩ := ih
          exact ⟨couple :: couples, hcouples.cons hcouple, hparts.cons hpart⟩
    obtain ⟨couples, hcouples, hparts⟩ := hcouples
    rw [hcouples.length_eq] at hcounter
    exact ⟨couples, hcouples, counter, hcounter, parts, hparts, rfl⟩

theorem forall₂_composed (hX : PrimitiveLaws X) {habs : List Hab} {couples : List Bytes}
    (ht : ∀ h ∈ habs, h.transferable = false)
    (hcarried : List.Forall₂ (Carried X event) habs couples)
    (hed : ∀ h ∈ habs, h.SignsEd25519) : List.Forall₂ (Composed X event) habs couples := by
  induction hcarried with
  | nil => exact List.Forall₂.nil
  | cons hone _ ih =>
      refine List.Forall₂.cons (hone.composed hX (ht _ List.mem_cons_self)
        (hed _ List.mem_cons_self)) (ih ?_ ?_)
      · intro h hh
        exact ht h (List.mem_cons_of_mem _ hh)
      · intro h hh
        exact hed h (List.mem_cons_of_mem _ hh)

theorem signsEd25519_of_composed (hX : PrimitiveLaws X) {habs : List Hab}
    {couples parts : List Bytes} (hcarried : List.Forall₂ (Carried X event) habs couples)
    (hparts : List.Forall₂ (Composed X event) habs parts) (heq : parts.flatten = couples.flatten) :
    ∀ h ∈ habs, h.SignsEd25519 := by
  induction hcarried generalizing parts with
  | nil =>
      intro h hh
      cases hh
  | cons hone _ ih =>
      cases hparts with
      | cons hpart hparts =>
          rw [List.flatten_cons, List.flatten_cons] at heq
          obtain ⟨hed, hsame⟩ := hpart.eq_couple hX hone heq
          rw [hsame, List.append_cancel_left_eq] at heq
          intro h hh
          rcases List.mem_cons.1 hh with rfl | hh
          · exact hed
          · exact ih hparts heq h hh

/-- **The receipts of several witnesses.**  One counter of the right count and then the couples of
the own receipts, in order, is what the host composes exactly when that count can be written and
every witness signs with Ed25519. -/
theorem composed_alike_iff (hX : PrimitiveLaws X) {event : Serder} {habs : List Hab}
    {couples : List Bytes} (ht : ∀ h ∈ habs, h.transferable = false)
    (hcarried : List.Forall₂ (Carried X event) habs couples) :
    (∃ counter, receiptCounter X event habs.length = .ok counter ∧
      composeWitnessReceiptAttachment X event habs = .ok (counter ++ couples.flatten)) ↔
    (∃ counter, receiptCounter X event habs.length = .ok counter) ∧
      ∀ h ∈ habs, h.SignsEd25519 := by
  constructor
  · rintro ⟨counter, hcounter, hcompose⟩
    obtain ⟨counter', parts, hcounter', hparts, heq⟩ :=
      composeWitnessReceiptAttachment_eq_ok.1 hcompose
    obtain rfl := Except.ok.inj (hcounter.symm.trans hcounter')
    rw [List.append_cancel_left_eq] at heq
    exact ⟨⟨counter, hcounter⟩, signsEd25519_of_composed hX hcarried hparts heq.symm⟩
  · rintro ⟨⟨counter, hcounter⟩, hed⟩
    refine ⟨counter, hcounter, composeWitnessReceiptAttachment_eq_ok.2 ?_⟩
    exact ⟨counter, couples, hcounter, forall₂_composed hX ht hcarried hed, rfl⟩

end Hab

/-! ### Instances -/

namespace Toy

/-- Public keys of 33 bytes, and signatures of 64 with a private key of 32. -/
def pointScheme : SigScheme where
  keyOk := fun _ => true
  sigOk := fun _ => true
  verify := fun key message signature =>
    decide (signature = key.tail ++ checksumBytes 32 message)
  publicKey := fun seed => some (2 :: seed)
  sign := fun seed message => some (seed ++ checksumBytes 32 message)

/-- The codes of keys and plain signatures, of Ed25519 and secp256k1. -/
def keyCodes : List String := ["B", "D", "0B", "1AAA", "1AAB", "0C"]

/-- Raw bytes have the size of their code. -/
def keyFits (code : String) (raw : Bytes) : Bool :=
  if code ∈ ["B", "D"] then raw.length == 32
  else if code ∈ ["1AAA", "1AAB"] then raw.length == 33
  else raw.length == 64

/-- The instance with the codes of secp256k1. -/
def secpLib : Externals :=
  { lib with
    secp256k1 := pointScheme
    cesr :=
      { cesr with
        matterNew := fun code raw =>
          if code ∈ keyCodes ∧ keyFits code raw = true then .ok ⟨code, raw⟩
          else .error ⟨"unknown code or wrong size"⟩
        matterQb64 := fun m =>
          if m.code ∈ keyCodes then .ok (primitiveText m.code m.raw)
          else .error ⟨"unknown code"⟩ } }

theorem primitiveLaws_secpLib : PrimitiveLaws secpLib := by
  constructor
  · intro code raw m h
    change (if code ∈ keyCodes ∧ keyFits code raw = true then _ else _) = _ at h
    split at h
    · exact (Except.ok.inj h).symm
    · cases h
  · intro m qb64 h
    change (if m.code ∈ keyCodes then _ else _) = _ at h
    split at h
    · rename_i hcode
      obtain ⟨body, hbody, htext⟩ := primitiveText_eq m.code m.raw
      rw [← Except.ok.inj h, htext]
      simp only [keyCodes, List.mem_cons, List.not_mem_nil, or_false] at hcode
      rcases hcode with hcode | hcode | hcode | hcode | hcode | hcode
      all_goals
        rw [hcode]
        exact codedText_append (by decide) (by decide) rfl (by decide) hbody
    · cases h

/-- A witness with one key, made from a private key. -/
def witnessHab (code : String) (n : UInt8) : Hab where
  name := "witness"
  pfx := ""
  signers := ((Signer.newWithTransferable secpLib code (seed n) false).toOption).toList
  nextSigners := []
  salter := ⟨⟨"0A", []⟩⟩
  transferable := false
  code := code
  lastSaid := ""
  sn := 0
  keyGen := 0
  signerGen := 0
  nextGen := 0
  backerThreshold := 0
  backers := []

end Toy

namespace Hab

theorem carried_of_receipt {X : Externals} {event : Serder} {h : Hab} {one bytes : Bytes}
    (hone : receiptCounter X event 1 = .ok one) (hreceipt : h.receipt X event = .ok bytes)
    (hstart : one <+: bytes) : Carried X event h (bytes.drop one.length) := by
  obtain ⟨couple, rfl⟩ := hstart
  rw [List.drop_left]
  exact ⟨one, hone, hreceipt⟩

/-- The counters of one and of two receipt couples. -/
theorem receiptCounter_toy :
    receiptCounter Toy.secpLib Toy.icp 1 = .ok (strBytes "-CAB") ∧
    receiptCounter Toy.secpLib Toy.icp 2 = .ok (strBytes "-CAC") := by
  decide +kernel

theorem exists_carried (h : Hab) (hrun : (h.receipt Toy.secpLib Toy.icp).toOption.any
    (fun bytes => (strBytes "-CAB").isPrefixOf bytes) = true) :
    ∃ couple, Carried Toy.secpLib Toy.icp h couple := by
  obtain ⟨bytes, hreceipt, hstart⟩ := exists_ok_of_any hrun
  exact ⟨_, carried_of_receipt receiptCounter_toy.1 hreceipt (List.isPrefixOf_iff_prefix.1 hstart)⟩

theorem composed_alike_toy : ∃ couples counter,
    List.Forall₂ (Carried Toy.secpLib Toy.icp) [Toy.witnessHab "A" 7, Toy.witnessHab "A" 8]
      couples ∧
    composeWitnessReceiptAttachment Toy.secpLib Toy.icp
      [Toy.witnessHab "A" 7, Toy.witnessHab "A" 8] = .ok (counter ++ couples.flatten) := by
  obtain ⟨couple, hcouple⟩ := exists_carried (Toy.witnessHab "A" 7) (by decide +kernel)
  obtain ⟨couple', hcouple'⟩ := exists_carried (Toy.witnessHab "A" 8) (by decide +kernel)
  have hcarried : List.Forall₂ (Carried Toy.secpLib Toy.icp)
      [Toy.witnessHab "A" 7, Toy.witnessHab "A" 8] [couple, couple'] :=
    .cons hcouple (.cons hcouple' .nil)
  have ht : ∀ h ∈ [Toy.witnessHab "A" 7, Toy.witnessHab "A" 8], h.transferable = false := by
    decide +kernel
  have hed : ∀ h ∈ [Toy.witnessHab "A" 7, Toy.witnessHab "A" 8], h.SignsEd25519 := by
    decide +kernel
  obtain ⟨counter, -, hcompose⟩ := (composed_alike_iff Toy.primitiveLaws_secpLib ht hcarried).2
    ⟨⟨_, receiptCounter_toy.2⟩, hed⟩
  exact ⟨[couple, couple'], counter, hcarried, hcompose⟩

/-- The signature of a secp256k1 witness is encoded again under the code of Ed25519. -/
theorem secp_receipt_differs :
    ¬ ∀ (X : Externals) (event : Serder) (habs : List Hab) (couples : List Bytes),
      PrimitiveLaws X → habs ≠ [] → (∀ h ∈ habs, h.transferable = false) →
      List.Forall₂ (Carried X event) habs couples →
      (∃ counter, receiptCounter X event habs.length = .ok counter) →
      ∃ counter, receiptCounter X event habs.length = .ok counter ∧
        composeWitnessReceiptAttachment X event habs = .ok (counter ++ couples.flatten) := by
  intro hclaim
  obtain ⟨bytes, hreceipt, hrun⟩ := exists_ok_of_any
    (x := (Toy.witnessHab "1AAA" 7).receipt Toy.secpLib Toy.icp)
    (p := fun bytes => (strBytes "-CAB").isPrefixOf bytes &&
      decide (composeWitnessReceiptAttachment Toy.secpLib Toy.icp [Toy.witnessHab "1AAA" 7] ≠
        .ok (strBytes "-CAB" ++ bytes.drop 4))) (by decide +kernel)
  rw [Bool.and_eq_true, decide_eq_true_eq] at hrun
  have hcarried := carried_of_receipt receiptCounter_toy.1 hreceipt
    (List.isPrefixOf_iff_prefix.1 hrun.1)
  obtain ⟨counter, hcounter, hcompose⟩ := hclaim Toy.secpLib Toy.icp [Toy.witnessHab "1AAA" 7]
    [bytes.drop 4] Toy.primitiveLaws_secpLib (List.cons_ne_nil _ _) (by decide +kernel)
    (.cons hcarried .nil) ⟨_, receiptCounter_toy.1⟩
  obtain rfl := Except.ok.inj (receiptCounter_toy.1.symm.trans hcounter)
  rw [List.flatten_singleton] at hcompose
  exact hrun.2 hcompose

end Hab

end Keri
