/-
**More conflicts than there is room for.**

The evidence that a judge keeps is capped, and the flags are not.  A run of two inceptions for each
of many keys flags all of the identifiers, and from the cap on there is no evidence for the flags.

* `Keri.soloFields`, `Keri.solo_accepted` — **an inception of one key is accepted** by who does not
  know the identifier;
* `Keri.Toy.soloMessage`, `Keri.Toy.soloMessage_accepted` — such an inception for every number;
* `Keri.stepJudge_pair` — **two inceptions of one identifier flag it**;
* `Keri.Toy.flags_run` — a run of such pairs flags all of the identifiers;
* `Keri.evidence_overflows` — flags without evidence.
-/

import Keri.Evidence
import Keri.Emission
import Keri.RoundTrips

set_option relaxedAutoImplicit false
set_option autoImplicit false

namespace Keri

open Outcome Machine

/-! ### Inceptions of one key -/

/-- The fields of an inception of the identifier of one key, with a text anchored to it. -/
def soloFields (pfx anchor : String) : Fields :=
  [("v", .string "KERI10JSON000000_"), ("t", .string "icp"), ("d", .string ""),
    ("i", .string pfx), ("s", .string "0"), ("kt", .string "1"), ("k", textArray [pfx]),
    ("nt", .string "1"), ("n", textArray []), ("bt", .string "0"), ("b", textArray []),
    ("c", textArray []), ("a", textArray [anchor])]

theorem soloFields_eventFields (pfx anchor : String) :
    EventFields (soloFields pfx anchor) pfx where
  version := ⟨_, rfl⟩
  said := rfl
  pfx := rfl

section

variable {X : Externals} {print : Value → Bytes}

/-- The fields of the inception are read back. -/
theorem solo_fromValue {pfx anchor said : String} {serder : Serder} (hne : pfx ≠ "")
    (h : Sealed X (soloFields pfx anchor) pfx said serder) :
    ∃ icp, InceptionEvent.fromValue serder.sad = .ok icp ∧ icp.said = said ∧ icp.pfx = pfx ∧
      icp.sn = "0" ∧ icp.keysThreshold = .simple 1 ∧ icp.keys = [pfx] ∧
      icp.backerThreshold = "0" ∧ icp.backers = [] := by
  obtain ⟨⟨vs, hv⟩, hd, hi⟩ := h.names
  rw [if_neg hne] at hi
  have hone : readThreshold (.string "1") = .ok (.simple 1) := by decide
  refine ⟨InceptionEvent.mk vs "icp" said pfx "0" (.simple 1) [pfx] (.simple 1) [] "0" [] []
    [.string anchor], ?_, rfl, rfl, rfl, rfl, rfl, rfl, rfl⟩
  simp only [InceptionEvent.fromValue, bind_eq_ok, pure_eq_ok]
  exact ⟨vs, hv, _, h.field_eq_ok (by decide) rfl rfl, _, hd, _, hi,
    _, h.field_eq_ok (by decide) rfl rfl,
    _, h.field_eq_ok (by decide) rfl hone,
    _, h.field_eq_ok (by decide) rfl (readStrings_textArray [pfx]),
    _, h.field_eq_ok (by decide) rfl hone,
    _, h.field_eq_ok (by decide) rfl (readStrings_textArray []),
    _, h.field_eq_ok (by decide) rfl rfl,
    _, h.field_eq_ok (by decide) rfl (readStrings_textArray []),
    _, h.field_eq_ok (by decide) rfl (readStrings_textArray []),
    _, h.field_eq_ok (by decide) rfl rfl, rfl⟩

/-- The signatures of a read group have texts. -/
theorem sigsText_ok (sigs : List (IndexedSig X)) :
    ∃ bytes, sigsText X (sigs.map (·.siger)) = .ok bytes := by
  induction sigs with
  | nil => exact ⟨[], rfl⟩
  | cons sig sigs ih =>
      obtain ⟨more, hmore⟩ := ih
      have hqb64 : sig.siger.qb64 X = .ok sig.qb64 := mapError_eq_ok.2 sig.encodes
      refine ⟨strBytes sig.qb64 ++ more, ?_⟩
      rw [List.map_cons, sigsText, hqb64, hmore]
      rfl

/-- What the message reports. -/
def soloResult (pfx said : String) : ProcessResult := { pfx, sn := 0, said, ilk := "icp" }

/-- The first byte of a sealed body tells that it is JSON. -/
theorem Sealed.kind {fields : Fields} {i said : String} {serder : Serder}
    (h : Sealed X fields i said serder) : serder.kind = .json := by
  obtain ⟨-, hsniff, -⟩ := Serder.fromRaw_eq_ok.1 h.read
  obtain ⟨more, hmore⟩ := List.head?_eq_some_iff.1 h.first
  rw [hmore] at hsniff
  exact (Except.ok.inj hsniff).symm

theorem solo_header {pfx anchor said : String} {serder : Serder} (hne : pfx ≠ "")
    (h : Sealed X (soloFields pfx anchor) pfx said serder) :
    serder.header = .ok (soloResult pfx said) := by
  have hsn : serder.sad.get "s" = some (.string "0") := by
    rw [h.get_of_ne "s" (by decide) (by decide) (by decide)]
    rfl
  have hzero : fromStrRadix 16 u64Bound "0" = some 0 := by decide
  refine Serder.header_eq_ok.2 ⟨?_, ?_, ?_, ?_⟩
  · rw [Serder.pfx, Serder.textField_eq_ok, h.get_i, if_neg hne]
    rfl
  · rw [Serder.sn, hsn]
    exact okOr_eq_ok.2 hzero
  · rw [Serder.said, Serder.textField_eq_ok, h.get_d]
    rfl
  · rw [Serder.ilk, Serder.textField_eq_ok, h.get_of_ne "t" (by decide) (by decide) (by decide)]
    rfl

/-- The body of the inception passes all checks but that of its SAID. -/
theorem solo_incept (hcesr : CesrLaws X) (hsign : SigningLaws X) {signer : Signer}
    (hs : signer.Genuine X) {pfx anchor said : String} (hpfx : signer.verfer.qb64 X = .ok pfx)
    (hne : pfx ≠ "") (hbasic : (Diger.fromQb64 X pfx).isOk = false) {serder : Serder}
    (h : Sealed X (soloFields pfx anchor) pfx said serder) {sigers : List Siger}
    (hsigned : SignedFrom (X := X) serder.raw 0 [signer] sigers) :
    verfersFromSerder X serder = .ok [signer.verfer] ∧
      ∃ k, Kever.incept X serder.raw serder.sad sigers [signer.verfer] = .ok k ∧
        k.state.backerThreshold = 0 := by
  obtain ⟨icp, hicp, hsaid, hi, hsn, hkt, hk, hbt, hb⟩ := solo_fromValue hne h
  have hverfer := fromQb64_of_qb64 hcesr hsign hs hpfx
  have hkeys : serder.sad.get "k" = some (textArray [pfx]) := by
    rw [h.get_of_ne "k" (by decide) (by decide) (by decide)]
    rfl
  -- the identifier is the key
  have hderived : Kever.validatePrefixDerivation X icp = .ok ⟨⟩ := by
    have hok : (Verfer.fromQb64 X pfx).isOk = true := by
      rw [hverfer]
      rfl
    rw [Kever.validatePrefixDerivation, hi, hbasic, hok, hk]
    exact ensure_eq_ok.2 rfl
  have hstate : KeyState.fromInception icp = .ok (KeyState.ofInception icp 0 none) := by
    refine KeyState.fromInception_eq_ok.2 ⟨?_, 0, ?_, Nat.zero_le _, rfl⟩
    · rw [hsn]
      decide
    · rw [hbt]
      decide
  refine ⟨?_, ⟨KeyState.ofInception icp 0 none, true⟩, ?_, rfl⟩
  · rw [verfersFromSerder, hkeys]
    exact mapM_eq_ok.2 (List.Forall₂.cons (mapError_eq_ok.2 hverfer) List.Forall₂.nil)
  · refine Kever.incept_eq_ok.2 ⟨icp, hicp, ?_, ?_, hderived, hstate, rfl⟩
    · rw [hk]
      exact Kever.checkKeys_eq_ok.2 (List.Forall₂.cons hpfx List.Forall₂.nil)
    · rw [hkt]
      exact verifySigs_of_signed hsigned le_rfl le_rfl

/-- **A signed inception of one key is accepted by who does not know the identifier**, and passes
the trial verification. -/
theorem solo_accepted (hcesr : CesrLaws X) (hjson : JsonLaws X print) (hdigest : DigestLaws X)
    (hsign : SigningLaws X) {signer : Signer} (hs : signer.Genuine X) {pfx anchor : String}
    (hpfx : signer.verfer.qb64 X = .ok pfx) (hne : pfx ≠ "")
    (hbasic : (Diger.fromQb64 X pfx).isOk = false) {event : Hab.SignedEvent}
    (h : sealEvent X (soloFields pfx anchor) [signer] = .ok event)
    (hsize : event.raw.length < 2 ^ 24) (hfresh : event.said ≠ pfx) :
    ∃ parsed size sigs k, parseNext X event.composed = .ok (parsed, size) ∧
      AcceptedBy X none parsed (soloResult pfx event.said) sigs k ∧
      ∀ kevers, Judge.trialVerify X kevers (soloResult pfx event.said) parsed.serder
        (extractControllerSigs parsed.attachments) = .ok ⟨⟩ := by
  have hall : ∀ s ∈ [signer], s.Genuine X := by
    intro s hmem
    rw [List.mem_singleton.1 hmem]
    exact hs
  obtain ⟨serder, sigs, hparse, hsealed, hsigned⟩ := parseNext_sealed hcesr hjson hdigest hsign
    (soloFields_eventFields pfx anchor) hall h hsize
  have hheader := solo_header hne hsealed
  obtain ⟨hverfers, k, hincept, hbt⟩ :=
    solo_incept hcesr hsign hs hpfx hne hbasic hsealed hsigned
  -- the SAID is checked in the kind of the body, or as JSON
  have hverify : serder.verifySaid X "E" = .ok ⟨⟩ := hsealed.verify (Or.inr hfresh)
  have hjsonSaid : verifySaid X serder.sad "d" "E" .json = .ok ⟨⟩ := by
    rw [← hsealed.kind]
    exact hverify
  have hilk : serder.ilk = .ok "icp" := (Serder.header_eq_ok.1 hheader).2.2.2
  have hnew := Kever.new_eq_ok.2 ⟨hilk, hverify, hincept⟩
  have hparts := Kever.newFromParts_eq_ok.2 ⟨Serder.textField_eq_ok.1 hilk, hjsonSaid, hincept⟩
  have hicp : isInception (soloResult pfx event.said).ilk := Or.inl rfl
  have hextract : extractControllerSigs [.controllerSigs (sigs.map fun s => s.siger)] =
      sigs.map (·.siger) := by
    simp [extractControllerSigs]
  obtain ⟨bytes, hbytes⟩ := sigsText_ok sigs
  have hcollect : collectAttachments X (soloResult pfx event.said).pfx
      [.controllerSigs (sigs.map fun s => s.siger)] = .ok ([], bytes ++ []) := by
    rw [collectAttachments, hbytes, ok_bind, collectAttachments, ok_bind]
    rfl
  have hinception : verifyInception X serder
      (extractControllerSigs [.controllerSigs (sigs.map fun s => s.siger)]) [] = .ok k := by
    rw [hextract]
    refine verifyInception_eq_ok.2 ⟨_, hverfers, hparts, ?_⟩
    rw [checkReceipts, hbt]
    rfl
  refine ⟨_, _, _, k, hparse, .inception hheader hcollect hicp rfl hinception, ?_⟩
  intro kevers
  rw [Judge.trialVerify, if_pos hicp, hextract, hverfers, ok_bind, hnew]
  rfl

end

namespace Toy

/-! ### Two inceptions of one key -/

theorem dummied_solo {pfx : String} (hne : pfx ≠ "") (anchor : String) :
    dummied "d" 44 (soloFields pfx anchor) =
      Fields.insert "d" (.string (dummyText 44)) (soloFields pfx anchor) := by
  have hsa : isSelfAddressing "d" (soloFields pfx anchor) = false := by
    rw [Bool.eq_false_iff, ne_eq, isSelfAddressing_iff (soloFields_eventFields pfx anchor).said,
      (soloFields_eventFields pfx anchor).pfx]
    simpa using hne.symm
  rw [dummied, hsa]
  rfl

/-- All but the anchor. -/
def soloBody (vs pfx : String) : Fields :=
  [("v", .string vs), ("t", .string "icp"), ("d", .string (dummyText 44)),
    ("i", .string pfx), ("s", .string "0"), ("kt", .string "1"), ("k", textArray [pfx]),
    ("nt", .string "1"), ("n", textArray []), ("bt", .string "0"), ("b", textArray []),
    ("c", textArray [])]

theorem sized_solo {pfx : String} (hne : pfx ≠ "") (vs anchor : String) :
    Fields.insert "v" (.string vs) (dummied "d" 44 (soloFields pfx anchor)) =
      soloBody vs pfx ++ [("a", textArray [anchor])] := by
  rw [dummied_solo hne]
  rfl

/-- The size of such an inception. -/
theorem length_solo {pfx anchor : String} (hpfx : isPlain pfx = true)
    (hlen : (strBytes pfx).length = 44) (hanchor : isPlain anchor = true)
    (hone : (strBytes anchor).length = 1) :
    (print (.object (dummied "d" 44 (soloFields pfx anchor)))).length = 256 := by
  have hjson := jsonLaws_toy checksumDigest
  have hne : pfx ≠ "" := by
    rintro rfl
    cases hlen
  -- the identifier, the key and the anchor take the places of others of the same lengths
  let base := Fields.insert "d" (.string (dummyText 44)) (soloFields (dummyText 44) "0")
  have hbase : (print (.object base)).length = 256 := by decide +kernel
  have hchain : dummied "d" 44 (soloFields pfx anchor) =
      Fields.insert "i" (.string pfx) (Fields.insert "k" (textArray [pfx])
        (Fields.insert "a" (textArray [anchor]) base)) := by
    rw [dummied_solo hne]
    rfl
  have hgetA : Fields.get "a" base = some (textArray ["0"]) := rfl
  have hgetK : Fields.get "k" (Fields.insert "a" (textArray [anchor]) base) =
      some (textArray [dummyText 44]) := rfl
  have hgetI : Fields.get "i" (Fields.insert "k" (textArray [pfx])
      (Fields.insert "a" (textArray [anchor]) base)) = some (.string (dummyText 44)) := rfl
  have ha := length_print_insert hjson (y := textArray [anchor]) hgetA
  have hk := length_print_insert hjson (y := textArray [pfx]) hgetK
  have hi := length_print_insert hjson (y := .string pfx) hgetI
  rw [length_print_texts hanchor, hone, length_print_texts (s := "0") (by decide)] at ha
  rw [length_print_texts hpfx, hlen, length_print_texts (isPlain_dummyText 44).1,
    (isPlain_dummyText 44).2] at hk
  rw [length_print_string hjson hpfx, hlen, length_print_string hjson (isPlain_dummyText 44).1,
    (isPlain_dummyText 44).2] at hi
  have hzero : (strBytes "0").length = 1 := by decide
  rw [hchain]
  omega

/-! ### The keys -/

/-- A seed for every number below 65536. -/
def soloSeed (n : ℕ) : Bytes := UInt8.ofNat (n / 256) :: UInt8.ofNat n :: List.replicate 30 0

/-- The identifier of the key. -/
def soloPfx (n : ℕ) : String := primitiveText "D" (soloSeed n)

theorem length_soloSeed (n : ℕ) : (soloSeed n).length = 32 := rfl

theorem matterQb64_soloSeed (n : ℕ) : matterQb64 ⟨"D", soloSeed n⟩ = .ok (soloPfx n) ∧
    (strBytes (soloPfx n)).length = 44 := by
  have hcode : strBytes "D" = [68] := by decide
  have hgroups : (1 + (soloSeed n).length) % 3 = 0 := by rw [length_soloSeed]
  have hfs : (1 + (soloSeed n).length) / 3 * 4 = 44 := by rw [length_soloSeed]
  exact matterQb64_ok hcode (by decide) (by decide) rfl hgroups hfs

theorem matterFromQb64_soloPfx (n : ℕ) : matterFromQb64 (soloPfx n) = .ok ⟨"D", soloSeed n⟩ :=
  matterFromQb64_matterQb64 (matterQb64_soloSeed n).1

theorem soloPfx_inj {m n : ℕ} (hm : m < 65536) (hn : n < 65536) (h : soloPfx m = soloPfx n) :
    m = n := by
  have hread := matterFromQb64_soloPfx m
  rw [h, matterFromQb64_soloPfx n, Except.ok.injEq, Matter.mk.injEq] at hread
  have hseed := hread.2
  simp only [soloSeed, List.cons.injEq, and_true, ← UInt8.toNat_inj, UInt8.toNat_ofNat'] at hseed
  omega

theorem isPlain_soloPfx (n : ℕ) : isPlain (soloPfx n) = true :=
  isPlain_primitiveText (c := 68) (by decide) (by decide) _

theorem soloPfx_ne (n : ℕ) : soloPfx n ≠ "" := by
  intro h
  have hlen := (matterQb64_soloSeed n).2
  rw [h] at hlen
  cases hlen

/-- A key is no digest. -/
theorem soloPfx_not_digest (n : ℕ) : (Diger.fromQb64 lib (soloPfx n)).isOk = false := by
  have hread : (lib.cesr.matterFromQb64 (soloPfx n)).mapError CryptoError.cesr =
      .ok ⟨"D", soloSeed n⟩ := mapError_eq_ok.2 (matterFromQb64_soloPfx n)
  rw [Diger.fromQb64, hread]
  rfl

theorem text_ne_soloPfx (data : Bytes) (n : ℕ) :
    primitiveText "E" (checksumDigest data) ≠ soloPfx n := by
  intro h
  have hread := matterFromQb64_matterQb64 (mapError_eq_ok.1 (digestQb64_ok data))
  rw [h, matterFromQb64_soloPfx n, Except.ok.injEq, Matter.mk.injEq] at hread
  exact absurd hread.1 (by decide)

/-! ### The messages -/

/-- What is digested for the SAID of an inception. -/
def soloDigested (n : ℕ) (anchor : String) : Bytes :=
  print (.object (soloBody (versionStringOf 256) (soloPfx n) ++ [("a", textArray [anchor])]))

def soloSaid (n : ℕ) (anchor : String) : String :=
  primitiveText "E" (checksumDigest (soloDigested n anchor))

/-- An inception, signed. -/
def soloMessage (n : ℕ) (anchor : String) : Bytes :=
  ((sealEvent lib (soloFields (soloPfx n) anchor) [signerOf (soloSeed n)]).toOption.map
    Hab.SignedEvent.composed).getD []

theorem printFields_concat {fields : Fields} (hne : fields ≠ []) (f : String × Value) :
    printFields (fields ++ [f]) =
      printFields fields ++ 44 :: (printString f.1 ++ 58 :: print f.2) := by
  induction fields with
  | nil => exact absurd rfl hne
  | cons g fields ih =>
      cases fields with
      | nil => simp [printFields]
      | cons g' fields =>
          have hrest := ih (List.cons_ne_nil g' fields)
          rw [List.cons_append] at hrest
          rw [List.cons_append, List.cons_append, printFields_cons, hrest, printFields_cons]
          simp

/-- The anchor is one byte of what is digested. -/
theorem soloSaid_ne (n : ℕ) : soloSaid n "0" ≠ soloSaid n "1" := by
  have hbytes : ∀ (anchor : String) (b : UInt8),
      print (textArray [anchor]) = [91, 34, b, 34, 93] → soloDigested n anchor =
        (123 :: (printFields (soloBody (versionStringOf 256) (soloPfx n)) ++
          44 :: (printString "a" ++ [58, 91, 34]))) ++ b :: [34, 93, 125] := by
    intro anchor b hanchor
    rw [soloDigested, print, printFields_concat (by simp [soloBody]), hanchor]
    simp
  intro h
  have hsum := checksum_eq_of_text h
  rw [hbytes "0" 48 (by decide), hbytes "1" 49 (by decide)] at hsum
  exact checksum_ne _ _ (by decide) hsum

theorem plain_solo (n : ℕ) {anchor : String} (hanchor : isPlain anchor = true) :
    PlainFields (soloFields (soloPfx n) anchor) := by
  have hpfx := isPlain_soloPfx n
  have hempty : PlainValue (textArray []) := .texts fun s hs => by cases hs
  have hone : ∀ s : String, isPlain s = true → PlainValue (textArray [s]) := by
    intro s hs
    refine .texts fun t ht => ?_
    rw [List.mem_singleton.1 ht]
    exact hs
  have hfield : ∀ {k : String} {v : Value}, isPlain k = true → PlainValue v →
      isPlain (k, v).1 = true ∧ PlainValue (k, v).2 := fun hk hv => ⟨hk, hv⟩
  have hkeys : (soloFields (soloPfx n) anchor).map Prod.fst =
      ["v", "t", "d", "i", "s", "kt", "k", "nt", "n", "bt", "b", "c", "a"] := rfl
  refine ⟨by rw [hkeys]; decide, ?_⟩
  intro f hf
  simp only [soloFields, List.mem_cons, List.not_mem_nil, or_false] at hf
  rcases hf with rfl | rfl | rfl | rfl | rfl | rfl | rfl | rfl | rfl | rfl | rfl | rfl | rfl
  · exact hfield (by decide) (.text (by decide))
  · exact hfield (by decide) (.text (by decide))
  · exact hfield (by decide) (.text (by decide))
  · exact hfield (by decide) (.text hpfx)
  · exact hfield (by decide) (.text (by decide))
  · exact hfield (by decide) (.text (by decide))
  · exact hfield (by decide) (hone _ hpfx)
  · exact hfield (by decide) (.text (by decide))
  · exact hfield (by decide) hempty
  · exact hfield (by decide) (.text (by decide))
  · exact hfield (by decide) hempty
  · exact hfield (by decide) hempty
  · exact hfield (by decide) (hone _ hanchor)

/-- **Every inception is accepted by who does not know the identifier**, and passes the trial
verification. -/
theorem soloMessage_accepted (n : ℕ) {anchor : String} (hanchor : isPlain anchor = true)
    (hone : (strBytes anchor).length = 1) :
    ∃ parsed size sigs k, parseNext lib (soloMessage n anchor) = .ok (parsed, size) ∧
      AcceptedBy lib none parsed (soloResult (soloPfx n) (soloSaid n anchor)) sigs k ∧
      ∀ kevers, Judge.trialVerify lib kevers (soloResult (soloPfx n) (soloSaid n anchor))
        parsed.serder (extractControllerSigs parsed.attachments) = .ok ⟨⟩ := by
  have hsize := length_solo (isPlain_soloPfx n) (matterQb64_soloSeed n).2 hanchor hone
  obtain ⟨event, hevent, hlen, hsaid⟩ := sealEvent_ok
    (soloFields_eventFields (soloPfx n) anchor) (plain_solo n hanchor) (length_soloSeed n) hsize
    (by decide)
  rw [sized_solo (soloPfx_ne n)] at hsaid
  have hmessage : soloMessage n anchor = event.composed := by
    rw [soloMessage, hevent]
    rfl
  have hpfx : (signerOf (soloSeed n)).verfer.qb64 lib = .ok (soloPfx n) := by
    have hcesr : lib.cesr.matterQb64 = matterQb64 := rfl
    rw [Verfer.qb64, mapError_eq_ok, hcesr]
    exact (matterQb64_soloSeed n).1
  have hfresh : event.said ≠ soloPfx n := by
    rw [hsaid]
    exact text_ne_soloPfx _ n
  rw [hmessage, soloSaid, soloDigested, ← hsaid]
  exact solo_accepted (cesrLaws_toy _) (jsonLaws_toy _) digestLaws_toy (signingLaws_toy _)
    (genuine_signerOf (length_soloSeed n)) hpfx (soloPfx_ne n) (soloPfx_not_digest n) hevent hlen
    hfresh

end Toy

/-! ### Two inceptions of one identifier -/

section

variable {X : Externals}

/-- **The first inception is admitted and the second conflicts with it**: the identifier is flagged,
and nothing changes for the others. -/
theorem stepJudge_pair {j : Judge} {a b : Bytes} {parsed parsed' : ParsedMessage} {size size' : ℕ}
    {pfx said said' : String} {sigs sigs' : Option Bytes} {k k' : Kever}
    (ha : parseNext X a = .ok (parsed, size))
    (hacc : AcceptedBy X none parsed (soloResult pfx said) sigs k)
    (hb : parseNext X b = .ok (parsed', size'))
    (hacc' : AcceptedBy X none parsed' (soloResult pfx said') sigs' k')
    (htrial : ∀ kevers, Judge.trialVerify X kevers (soloResult pfx said') parsed'.serder
      (extractControllerSigs parsed'.attachments) = .ok ⟨⟩)
    (hne : said ≠ said') (hflag : pfx ∉ j.flagged) (hnew : j.node.kevers.get pfx = none)
    (hunseen : j.node.store.tables.fels.get (snKey pfx 0) = none) :
    let j' := stepJudge X Disk.sound (stepJudge X Disk.sound j a) b
    j'.flagged = insert pfx j.flagged ∧ ∀ p, p ≠ pfx →
      j'.node.kevers.get p = j.node.kevers.get p ∧
        j'.node.store.tables.fels.get (snKey p 0) = j.node.store.tables.fels.get (snKey p 0) := by
  have hacc₁ : AcceptedBy X (j.node.kevers.get (soloResult pfx said).pfx) parsed
      (soloResult pfx said) sigs k := by
    rw [show (soloResult pfx said).pfx = pfx from rfl, hnew]
    exact hacc
  have hfirst : stepJudge X Disk.sound j a = _ :=
    stepJudge_of_ok (process_of_accepted ha hacc₁ hflag hunseen rfl rfl)
  let n₁ := j.called.node.logged (soloResult pfx said) parsed.serder.raw sigs k
  let j₁ : Judge := { j with node := n₁ }
  have hseen : j₁.node.store.tables.fels.get (snKey pfx 0) = some said := by
    simp [j₁, n₁, Node.logged, soloResult]
  have hevent : j₁.node.store.tables.evts.get said = some parsed.serder.raw := by
    simp [j₁, n₁, Node.logged, soloResult]
  have hsecond := (@Judge.processJudged_detected X Disk.sound j₁ _ _ _ _ hacc'.header).2
    ⟨hacc'.ilk_ne_rct, hflag, rfl, rfl, htrial _, said, parsed.serder.raw, hseen, hne, hevent, rfl,
      rfl⟩
  have hstep := stepJudge_of_ok
    (Judge.process_eq_ok.2 ⟨parsed', size', _, hb, hacc'.header, hsecond⟩)
  intro j'
  have hj' : j' = _ := (congrArg (fun j => stepJudge X Disk.sound j b) hfirst).trans hstep
  rw [hj']
  refine ⟨by rw [Judge.recordDuplicity_flagged]; rfl, ?_⟩
  intro p hp
  rw [Judge.recordDuplicity_node]
  have hkey : snKey p 0 ≠ snKey pfx 0 := fun h => hp (snKey_inj (by decide) (by decide) h).1
  constructor
  · exact Table.get_put_of_ne _ hp _
  · simp [j₁, n₁, Judge.called, Node.logged, soloResult, Table.get_put_of_ne _ hkey]

end

/-! ### A run -/

namespace Toy

/-- Two inceptions of each of the first `n` keys. -/
def soloMessages (n : ℕ) : List Bytes :=
  (List.range n).flatMap fun m => [soloMessage m "0", soloMessage m "1"]

/-- The first `n` keys are flagged, and nothing has been seen of those that follow. -/
structure Flags (n : ℕ) (j : Judge) : Prop where
  flagged : j.flagged = (Finset.range n).image soloPfx
  unseen : ∀ m, n ≤ m → m < 65536 → j.node.kevers.get (soloPfx m) = none ∧
    j.node.store.tables.fels.get (snKey (soloPfx m) 0) = none

/-- The next pair. -/
theorem Flags.step {n : ℕ} {j : Judge} (h : Flags n j) (hn : n < 65536) :
    Flags (n + 1) (stepJudge lib Disk.sound (stepJudge lib Disk.sound j (soloMessage n "0"))
      (soloMessage n "1")) := by
  have hplain : isPlain "0" = true ∧ isPlain "1" = true := by decide
  have hone : (strBytes "0").length = 1 ∧ (strBytes "1").length = 1 := by decide
  obtain ⟨parsed, size, sigs, k, hparse, hacc, -⟩ := soloMessage_accepted n hplain.1 hone.1
  obtain ⟨parsed', size', sigs', k', hparse', hacc', htrial⟩ :=
    soloMessage_accepted n hplain.2 hone.2
  obtain ⟨hnew, hunseen⟩ := h.unseen n le_rfl hn
  have hflag : soloPfx n ∉ j.flagged := by
    rw [h.flagged, Finset.mem_image]
    rintro ⟨m, hm, heq⟩
    rw [Finset.mem_range] at hm
    have hsame := soloPfx_inj (by omega) hn heq
    omega
  obtain ⟨hinsert, hrest⟩ := stepJudge_pair hparse hacc hparse' hacc' htrial (soloSaid_ne n)
    hflag hnew hunseen
  refine ⟨?_, ?_⟩
  · rw [hinsert, h.flagged, Finset.range_add_one, Finset.image_insert]
  · intro m hm hlt
    have hother : soloPfx m ≠ soloPfx n := by
      intro heq
      have hsame := soloPfx_inj hlt hn heq
      omega
    obtain ⟨hkever, hfel⟩ := hrest _ hother
    obtain ⟨hnone, hnone'⟩ := h.unseen m (by omega) hlt
    exact ⟨hkever.trans hnone, hfel.trans hnone'⟩

/-- **All identifiers of a run of such pairs are flagged.** -/
theorem flags_run {n : ℕ} (hn : n ≤ 65536) :
    Flags n (runJudge lib Disk.sound Store.empty (soloMessages n)) := by
  induction n with
  | zero => exact ⟨rfl, fun _ _ _ => ⟨rfl, rfl⟩⟩
  | succ n ih =>
      have hmessages : soloMessages (n + 1) =
          soloMessages n ++ [soloMessage n "0", soloMessage n "1"] := by
        simp [soloMessages, List.range_succ]
      have hprev := ih (by omega)
      rw [hmessages, runJudge_append, run_cons, run_cons, run_nil]
      exact hprev.step (by omega)

end Toy

/-- One identifier more than there is room for: it is flagged, and no evidence is kept. -/
theorem evidence_overflows :
    ¬ ∀ (X : Externals) (disk : Disk) (store : Store) (msgs : List Bytes),
      EvidenceMatches (runJudge X disk store msgs) := by
  intro hclaim
  have hmatches := hclaim Toy.lib Disk.sound Store.empty (Toy.soloMessages (maxDelTotal + 1))
  rw [(kept_runJudge _ _ _ _).matches_iff] at hmatches
  have hle : maxDelTotal + 1 ≤ 65536 := by decide
  rw [(Toy.flags_run hle).flagged, Finset.card_image_of_injOn, Finset.card_range] at hmatches
  · omega
  · intro m hm n hn heq
    rw [Finset.coe_range, Set.mem_Iio] at hm hn
    exact Toy.soloPfx_inj (by omega) (by omega) heq

end Keri
