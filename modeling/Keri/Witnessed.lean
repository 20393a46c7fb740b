/-
**Events with witness receipts.**

A controller's event and the receipts of its witnesses travel as one message: the signed event, and
behind it one group with a couple for each witness.  A receiver reads both back, and it accepts the
event exactly when enough of the witnesses are among the backers that the event leaves, each counted
once.

* `Keri.IsWitness`, `Keri.WitnessLaws` — a witness, and what is assumed of the texts of its keys
  and signatures;
* `Keri.Hab.witnessed`, `Keri.Hab.witnessKeys` — the message, and the keys of the witnesses;
* `Keri.CarriesEvent`, `Keri.carries_witnessed` — **what a receiver reads of the message**;
* `Keri.checkReceipts_iff` — the receipts of witnesses are counted by distinct backers;
* `Keri.CarriesEvent.inception`, `Keri.CarriesEvent.update` — **when a receiver processes it**.
-/

import Keri.Flagging
import Keri.WitnessReceipts
import Keri.Receipts
import Keri.Heard

set_option relaxedAutoImplicit false
set_option autoImplicit false

namespace Keri

open Outcome Machine

variable (X : Externals)

/-! ### Witnesses -/

/-- An identifier whose first public key is derived from the private one, of whatever algorithm. -/
def IsWitness (w : Hab) : Prop := ∃ s, w.signers.head? = some s ∧ s.Genuine X

/-- What is assumed of CESR besides: the keys and the signatures of witnesses have the size that the
table gives their codes. -/
structure WitnessLaws : Prop extends PrimitiveLaws X where
  matter_fixed : ∀ {m : Matter} {qb64 : String},
    m.code ∈ ["B", "D", "1AAA", "1AAB", "1AAI", "1AAJ", "0B"] →
    X.cesr.matterQb64 m = .ok qb64 → ∃ sizage, X.cesr.matterSizage m.code = some sizage ∧
      (strBytes qb64).length = sizage.fs ∧ minPrimitiveSize ≤ sizage.fs

namespace Hab

/-- The keys of witnesses, which are the prefixes of their receipts. -/
def witnessKeys (witnesses : List Hab) : Except KeriError (List String) :=
  witnesses.mapM fun w => do
    let signer ← okOr w.signers.head? (.config "index out of bounds")
    (signer.verfer.qb64 X).mapError KeriError.crypto

/-- A signed event with the receipts of witnesses behind it. -/
def witnessed (event : SignedEvent) (witnesses : List Hab) : Except KeriError Bytes := do
  let serder ← (Serder.fromRaw X event.raw).mapError .core
  let attachment ← composeWitnessReceiptAttachment X serder witnesses
  pure (event.composed ++ attachment)

end Hab

variable {X} {print : Value → Bytes}

/-- An identifier that has been created with a key is one. -/
theorem isWitness_of_inceptEvent {name : String} {config : InceptionConfig} {random : Bytes}
    {w : Hab} {event : Hab.SignedEvent} {bytes : Bytes}
    (h : Hab.inceptEvent X name config random = .ok (w, event, bytes)) (hcount : 0 < config.count) :
    IsWitness X w := by
  simp only [Hab.inceptEvent, bind_eq_ok, pure_eq_ok] at h
  obtain ⟨salter, -, signers, hsigners, nextSigners, -, keys, -, digests, -, event', -, record, -,
    heq⟩ := h
  obtain ⟨rfl, -⟩ := Prod.mk.inj heq
  have hlen := Hab.deriveSigners_length hsigners
  cases signers with
  | nil =>
      rw [List.length_nil] at hlen
      omega
  | cons s signers => exact ⟨s, rfl, genuine_of_deriveSigners hsigners s List.mem_cons_self⟩

/-! ### The receipts of witnesses -/

/-- The part of a witness in the attachment, as a couple of primitives that is a valid receipt. -/
theorem exists_couple (hcesr : CesrLaws X) (hsign : SigningLaws X) (hwit : WitnessLaws X)
    {serder : Serder} {w : Hab} {part : Bytes} (hw : IsWitness X w)
    (h : Hab.Composed X serder w part) :
    ∃ p q : Primitive X, part = p.bytes ++ q.bytes ∧
      (∃ s, w.signers.head? = some s ∧ s.verfer.qb64 X = .ok p.qb64) ∧
      ValidReceipt X serder.raw (p.qb64, q.matter.raw) := by
  obtain ⟨-, s, cigar, keyQb64, again, againQb64, hs, hcigar, hkey, hagain, htext, rfl⟩ :=
    Hab.composed_iff.1 h
  obtain ⟨s', hs', hgenuine⟩ := hw
  obtain rfl : s = s' := Option.some_inj.1 (hs.symm.trans hs')
  obtain ⟨raw, code, hraw, -, hnew⟩ := Signer.sign_eq_ok.1 hcigar
  have hcigarEq : cigar.raw = raw := by rw [Cigar.new_eq_ok hwit.toPrimitiveLaws hnew]; rfl
  have hagainEq := Cigar.new_eq_ok hwit.toPrimitiveLaws hagain
  have hkeyText : X.cesr.matterQb64 s.verfer.matter = .ok keyQb64 := mapError_eq_ok.1 hkey
  have hsigText : X.cesr.matterQb64 again.matter = .ok againQb64 := mapError_eq_ok.1 htext
  have hcode := hgenuine.code_valid hsign
  obtain ⟨ksz, hksz, hklen, hkmin⟩ := hwit.matter_fixed
    (List.mem_append_left ["0B"] hcode) hkeyText
  obtain ⟨ssz, hssz, hslen, hsmin⟩ := hwit.matter_fixed
    (by rw [hagainEq]; simp) hsigText
  refine ⟨⟨s.verfer.matter, keyQb64, ksz, hkeyText, hksz, hklen, hkmin⟩,
    ⟨again.matter, againQb64, ssz, hsigText, hssz, hslen, hsmin⟩, rfl, ⟨s, hs, hkey⟩,
    s.verfer, fromQb64_of_qb64 hcesr hsign hgenuine hkey, ?_⟩
  simp only [hagainEq, hcigarEq]
  exact hgenuine.verify hsign hraw

/-- The parts of witnesses, as couples of primitives that are valid receipts. -/
theorem exists_couples (hcesr : CesrLaws X) (hsign : SigningLaws X) (hwit : WitnessLaws X)
    {serder : Serder} {ws : List Hab} {parts : List Bytes} (hws : ∀ w ∈ ws, IsWitness X w)
    (h : List.Forall₂ (Hab.Composed X serder) ws parts) :
    ∃ couples : List (Primitive X × Primitive X),
      parts.flatten = couples.flatMap (fun c => c.1.bytes ++ c.2.bytes) ∧
      couples.length = ws.length ∧
      Hab.witnessKeys X ws = .ok (couples.map fun c => c.1.qb64) ∧
      ∀ c ∈ couples, ValidReceipt X serder.raw (c.1.qb64, c.2.matter.raw) := by
  simp only [Hab.witnessKeys, mapM_eq_ok]
  induction h with
  | nil => exact ⟨[], rfl, rfl, List.Forall₂.nil, by simp⟩
  | @cons w part ws parts hone _ ih =>
      obtain ⟨p, q, rfl, ⟨s, hs, hkey⟩, hvalid⟩ :=
        exists_couple hcesr hsign hwit (hws w List.mem_cons_self) hone
      obtain ⟨couples, hbytes, hlen, hkeys, hall⟩ := ih fun w' hw' =>
        hws w' (List.mem_cons_of_mem w hw')
      refine ⟨(p, q) :: couples, ?_, by rw [List.length_cons, List.length_cons, hlen], ?_, ?_⟩
      · rw [List.flatten_cons, List.flatMap_cons, hbytes]
      · refine List.Forall₂.cons ?_ hkeys
        simp only [bind_eq_ok, okOr_eq_ok, mapError_eq_ok]
        exact ⟨s, hs, hkey⟩
      · intro c hc
        rcases List.mem_cons.1 hc with rfl | hc
        · exact hvalid
        · exact hall c hc

/-- Receipts that are valid wherever they are by backers are all read. -/
theorem exists_validPrefixes {message : Bytes} {backers : List String}
    {couples : List (String × Bytes)}
    (h : ∀ c ∈ couples, ValidReceipt X message c) (acc : List String) :
    ∃ vs, validPrefixes X message backers acc couples = .ok vs := by
  induction couples generalizing acc with
  | nil => exact ⟨acc, rfl⟩
  | cons c couples ih =>
      have hrest := fun c' hc' => h c' (List.mem_cons_of_mem c hc')
      by_cases hskip : c.1 ∉ backers ∨ c.1 ∈ acc
      · obtain ⟨vs, hvs⟩ := ih hrest acc
        exact ⟨vs, validPrefixes_cons_eq_ok.2 (Or.inl ⟨hskip, hvs⟩)⟩
      · push Not at hskip
        obtain ⟨verfer, hverfer, hok⟩ := h c List.mem_cons_self
        obtain ⟨vs, hvs⟩ := ih hrest (acc ++ [c.1])
        exact ⟨vs, validPrefixes_cons_eq_ok.2 (Or.inr ⟨hskip, verfer, true, hverfer, hok, hvs⟩)⟩

/-- **The receipts of witnesses are counted by distinct backers.** -/
theorem checkReceipts_iff {s : KeyState} {message : Bytes} {couples : List (String × Bytes)}
    (h : ∀ c ∈ couples, ValidReceipt X message c) :
    checkReceipts X s message couples = .ok ⟨⟩ ↔
      s.backerThreshold ≤ (s.backers.toFinset ∩ (couples.map Prod.fst).toFinset).card := by
  obtain ⟨vs, hvs⟩ : ∃ vs, validPrefixes X message s.backers [] couples = .ok vs :=
    exists_validPrefixes h []
  obtain ⟨hnodup, hmem⟩ := validPrefixes_spec hvs List.nodup_nil
  have hcard : vs.length = (s.backers.toFinset ∩ (couples.map Prod.fst).toFinset).card := by
    rw [← List.toFinset_card_of_nodup hnodup]
    congr 1
    ext p
    simp only [List.mem_toFinset, Finset.mem_inter, hmem, List.not_mem_nil, false_or, List.mem_map]
    refine and_congr_right fun _ => exists_congr fun c => ?_
    constructor
    · rintro ⟨hc, hp, -⟩
      exact ⟨hc, hp⟩
    · rintro ⟨hc, hp⟩
      exact ⟨hc, hp, h c hc⟩
  rw [checkReceipts_eq_ok, verifyWitnessReceiptsStatic_eq_ok, ← hcard]
  constructor
  · rintro (hzero | ⟨vs', hvs', hle⟩)
    · omega
    · obtain rfl := Except.ok.inj (hvs.symm.trans hvs')
      exact hle
  · exact fun hle => Or.inr ⟨vs, hvs, hle⟩

/-! ### What a receiver reads -/

/-- The texts of signatures of fixed size. -/
theorem sigsText_indexed (sigs : List (IndexedSig X)) :
    sigsText X (sigs.map (·.siger)) = .ok (sigs.flatMap IndexedSig.bytes) := by
  induction sigs with
  | nil => rfl
  | cons sig sigs ih =>
      have htext : (sig.siger.qb64 X).mapError KeriError.crypto = .ok sig.qb64 :=
        mapError_eq_ok.2 (mapError_eq_ok.2 sig.encodes)
      rw [List.map_cons, sigsText, htext, ok_bind, ih, ok_bind]
      rfl

/-- A message carries a signed event: it is read as the event is by itself, with valid receipts of
given keys besides. -/
def CarriesEvent (X : Externals) (fields : Fields) (i : String) (event : Hab.SignedEvent)
    (keys : List String) (data : Bytes) : Prop :=
  ∃ base parsed couples, parseNext X event.composed = .ok (base, event.composed.length) ∧
    parseNext X data = .ok (parsed, data.length) ∧ Sealed X fields i event.said parsed.serder ∧
    parsed.serder = base.serder ∧ parsed.serder.raw = event.raw ∧
    extractControllerSigs parsed.attachments = base.controllerSigs ∧
    (∀ pfx, collectAttachments X pfx parsed.attachments = .ok (couples, event.signatures)) ∧
    event.signatures ≠ [] ∧ couples.map Prod.fst = keys ∧
    ∀ c ∈ couples, ValidReceipt X event.raw c

section

variable (hcesr : CesrLaws X) (hjson : JsonLaws X print) (hdigest : DigestLaws X)
  (hsign : SigningLaws X) {fields : Fields} {i : String} (hf : EventFields fields i)
  {signers : List Signer} (hne : signers ≠ []) (hs : ∀ s ∈ signers, s.Genuine X)
  {event : Hab.SignedEvent} (h : sealEvent X fields signers = .ok event)
  (hsize : event.raw.length < 2 ^ 24)
include hcesr hjson hdigest hsign hf hne hs h hsize

/-- A signed event is read back, with whatever groups are read behind it. -/
theorem parseNext_sealed_append :
    ∃ (serder : Serder) (sigs : List (IndexedSig X)), Serder.fromRaw X event.raw = .ok serder ∧
      serder.raw = event.raw ∧ Sealed X fields i event.said serder ∧
      event.signatures = sigs.flatMap IndexedSig.bytes ∧ event.signatures ≠ [] ∧
      ∀ {rest : Layout X} {bytes : Bytes} {atts : List Attachment}, rest.encode X = .ok bytes →
        rest.read = some atts → parseNext X (event.composed ++ bytes) =
          .ok (⟨serder, .controllerSigs (sigs.map (·.siger)) :: atts⟩,
            (event.composed ++ bytes).length) := by
  obtain ⟨serder, hsealed, hraw, hsigs, code, counter, qb64, hcode, hcounter, hqb64, hcomposed⟩ :=
    sealed_of_sealEvent hjson hdigest hf h hsize
  obtain ⟨sigs, hbytes, hsigned⟩ := signAll_spec hsign hs hsigs
  obtain ⟨v, hv⟩ := hsealed.version
  have hcount : sigs.length = signers.length := by
    rw [← hsigned.1, List.length_map]
  refine ⟨serder, sigs, hraw ▸ hsealed.read, hraw.symm, hsealed, hbytes, ?_, ?_⟩
  · obtain ⟨sig, more, rfl⟩ : ∃ sig more, sigs = sig :: more := by
      refine List.exists_cons_of_ne_nil fun hnil => hne (List.length_eq_zero_iff.1 ?_)
      rw [← hcount, hnil, List.length_nil]
    intro hnil
    have hmin := sig.min_le
    rw [hbytes, List.flatMap_cons, List.append_eq_nil_iff] at hnil
    rw [hnil.1, List.length_nil] at hmin
    exact absurd hmin (by decide)
  intro rest bytes atts hrest hatts
  -- the counter is that of one group of controller signatures
  have hencode : (Layout.group (.controllerSigs sigs) rest).encode X =
      .ok (strBytes qb64 ++ event.signatures ++ bytes) := by
    simp only [counterCodeFor, okOr_eq_ok, hsealed.table, GroupKind.code, Option.some_inj] at hcode
    obtain rfl := hcode
    obtain rfl := hsign.counter_new hcounter
    refine Layout.encode_group_eq_ok.2 ⟨_, bytes, ?_, hrest, rfl⟩
    simp only [Group.encode, sigsBytes, counterBytes, GroupKind.code, okOr, ok_bind, hcount, hqb64,
      hbytes]
    rfl
  have hread : (Layout.group (.controllerSigs sigs) rest).read =
      some (.controllerSigs (sigs.map (·.siger)) :: atts) := by
    rw [Layout.read, hatts]
    rfl
  have hassoc : event.composed ++ bytes =
      serder.raw ++ (strBytes qb64 ++ event.signatures ++ bytes) := by
    rw [hcomposed]
    simp only [List.append_assoc]
  rw [hassoc]
  exact parseNext_of_read hcesr hsealed.first (Or.inl rfl) hsealed.read hv hsealed.table hencode
    hread

/-- A signed event by itself. -/
theorem carries_alone : CarriesEvent X fields i event [] event.composed := by
  obtain ⟨serder, sigs, -, hraw, hsealed, hsigs, hsigned, hparse⟩ :=
    parseNext_sealed_append hcesr hjson hdigest hsign hf hne hs h hsize
  have hparse₀ := @hparse .nil _ _ rfl rfl
  rw [List.append_nil] at hparse₀
  refine ⟨_, _, [], hparse₀, hparse₀, hsealed, rfl, hraw, ?_, fun pfx => ?_, hsigned, rfl, by simp⟩
  · simp [extractControllerSigs, ParsedMessage.controllerSigs]
  · simp only [collectAttachments, sigsText_indexed, ok_bind, hsigs, List.append_nil]
    rfl

/-- **A signed event with the receipts of witnesses behind it.** -/
theorem carries_witnessed (hwit : WitnessLaws X) {ws : List Hab} (hws : ∀ w ∈ ws, IsWitness X w)
    {data : Bytes} (hdata : Hab.witnessed X event ws = .ok data) :
    ∃ keys, Hab.witnessKeys X ws = .ok keys ∧ CarriesEvent X fields i event keys data := by
  obtain ⟨serder, sigs, hread, hraw, hsealed, hsigs, hsigned, hparse⟩ :=
    parseNext_sealed_append hcesr hjson hdigest hsign hf hne hs h hsize
  have hparse₀ := @hparse .nil _ _ rfl rfl
  rw [List.append_nil] at hparse₀
  simp only [Hab.witnessed, bind_eq_ok, mapError_eq_ok, pure_eq_ok] at hdata
  obtain ⟨serder', hread', attachment, hatt, rfl⟩ := hdata
  obtain rfl := Except.ok.inj (hread.symm.trans hread')
  obtain ⟨counter, parts, hcounter, hparts, rfl⟩ :=
    Hab.composeWitnessReceiptAttachment_eq_ok.1 hatt
  obtain ⟨couples, hbytes, hlen, hkeys, hvalid⟩ := exists_couples hcesr hsign hwit hws hparts
  obtain ⟨code, c, qb64, hcode, hnew, hqb64, rfl⟩ := Hab.receiptCounter_eq_ok.1 hcounter
  simp only [counterCodeFor, okOr_eq_ok, hsealed.table, GroupKind.code, Option.some_inj] at hcode
  obtain rfl := hcode
  obtain rfl := hsign.counter_new hnew
  have hencode : (Layout.group (.receiptCouples couples) .nil).encode X =
      .ok (strBytes qb64 ++ parts.flatten) := by
    refine Layout.encode_group_eq_ok.2 ⟨_, [], ?_, rfl, List.append_nil _⟩
    simp only [Group.encode, couplesBytes, counterBytes, GroupKind.code, okOr, ok_bind, hlen, hqb64,
      hbytes]
    rfl
  refine ⟨_, hkeys, _, _, couples.map (fun c => (c.1.qb64, c.2.matter.raw)), hparse₀,
    hparse hencode rfl, hsealed, rfl, hraw, ?_, fun pfx => ?_, hsigned, ?_, ?_⟩
  · simp [extractControllerSigs, ParsedMessage.controllerSigs, Group.attachment]
  · simp only [collectAttachments, Group.attachment, sigsText_indexed, ok_bind, hsigs]
    simp [bind, Except.bind, pure, Except.pure]
  · rw [List.map_map]
    rfl
  · intro c hc
    obtain ⟨c', hc', rfl⟩ := List.mem_map.1 hc
    exact hraw ▸ hvalid c' hc'

end

/-! ### What it does -/

variable {fields : Fields} {i : String} {event : Hab.SignedEvent} {keys : List String}
  {data : Bytes} {n : Node}

/-- The message is processed exactly when its event is accepted, if it has one. -/
theorem processes_iff {parsed : ParsedMessage} {r : ProcessResult}
    (hheader : parsed.serder.header = .ok r)
    (hevent : isInception r.ilk ∨ isUpdate r.ilk ∧ (n.kevers.get r.pfx).isSome) :
    (∃ r' n', processParsed X .sound parsed n = .ok r' n') ↔
      ∃ sigs k, AcceptedBy X (n.kevers.get r.pfx) parsed r sigs k := by
  constructor
  · rintro ⟨r', n', hrun⟩
    obtain ⟨hheader', ⟨sigs, k, hlogs, -⟩ | ⟨hicp, hskip⟩⟩ := processParsed_ok hrun
    · obtain rfl := Except.ok.inj (hheader.symm.trans hheader')
      exact ⟨sigs, k, hlogs.1⟩
    · obtain rfl := Except.ok.inj (hheader.symm.trans hheader')
      rcases hevent with hevent | ⟨hup, hsome⟩
      · exact absurd hevent hicp
      · rw [(hskip hup).1] at hsome
        cases hsome
  · rintro ⟨sigs, k, hacc⟩
    exact ⟨r, _, processParsed_logs ⟨hacc, rfl⟩⟩

/-- The receiver with one more event of an identifier. -/
def Node.receives (n : Node) (event : Hab.SignedEvent) (k : Kever) : Node :=
  { store :=
      { tables := n.store.tables.putLogged event.said event.raw k.state.pfx k.state.sn
          (some event.signatures)
        calls := n.store.calls + 1 }
    kevers := n.kevers.put k.state.pfx k }

/-- A message is processed and leaves a verifier exactly when enough of its receipts are by
backers of the verifier. -/
structure Decides (X : Externals) (event : Hab.SignedEvent) (keys : List String) (data : Bytes)
    (k : Kever) (n : Node) : Prop where
  iff : (∃ r n', processMessage X .sound data n = .ok r n') ↔
    k.state.backerThreshold ≤ (k.state.backers.toFinset ∩ keys.toFinset).card
  result : ∀ r n', processMessage X .sound data n = .ok r n' → n' = n.receives event k

/-- **An update that a verifier accepts is received when enough backers have receipted it.** -/
theorem CarriesEvent.update (hc : CarriesEvent X fields i event keys data) {k k' : Kever}
    (haccept : k.accept X event = .ok k') (hknown : n.kevers.get k.state.pfx = some k) :
    Decides X event keys data k' n := by
  obtain ⟨base, parsed, couples, hbase, hparse, hsealed, hserder, hraw, hsigs, hcollect, hsigned,
    rfl, hvalid⟩ := hc
  rw [Kever.accept, hbase, ok_bind] at haccept
  obtain ⟨t, hverify, rfl⟩ := Kever.update_eq_ok.1 haccept
  obtain ⟨hinc, hok, ilk, hilk, hsn, hnext⟩ := Kever.verifyUpdate_eq_ok.1 hverify
  obtain ⟨hpfx, hi, hp, hd, hsn'⟩ := Kever.nextState_fields hnext
  rw [← hserder] at hok hilk hsn hnext hi hd
  obtain ⟨snStr, hs, hnum⟩ := Serder.sn_eq_ok.1 hsn
  have hsaid : event.said = t.lastEventDigest :=
    Value.string.inj (Option.some_inj.1 (hsealed.get_d.symm.trans hd))
  have hheader : parsed.serder.header =
      .ok { pfx := k.state.pfx, sn := t.sn, said := event.said, ilk := ilk } :=
    Serder.header_eq_ok.2 ⟨Serder.textField_eq_ok.2 hi, by rw [hsn, ← hsn'],
      Serder.textField_eq_ok.2 hsealed.get_d, hilk⟩
  have hup : isUpdate ilk := by
    rcases Kever.nextState_eq_ok.1 hnext with ⟨rfl, -⟩ | ⟨rfl, -⟩
    · exact Or.inl rfl
    · exact Or.inr (Or.inl rfl)
  have howned : k.verifyUpdateOwned X parsed.serder.raw parsed.serder.sad
      (extractControllerSigs parsed.attachments) = .ok t := by
    rw [Serder.verifySaid, hsealed.kind] at hok
    rw [hsigs]
    exact Kever.verifyUpdateOwned_eq_ok.2
      ⟨hinc, hok, ilk, snStr, Serder.textField_eq_ok.1 hilk, hs, hnum, hnext⟩
  -- what is verified, given that its receipts are
  have haccepts : ∀ {sigs : Option Bytes} {k'' : Kever}, AcceptedBy X (n.kevers.get k.state.pfx)
      parsed { pfx := k.state.pfx, sn := t.sn, said := event.said, ilk := ilk } sigs k'' ↔
      (sigs = some event.signatures ∧ k'' = k.applyVerifiedUpdate t) ∧
        checkReceipts X t event.raw couples = .ok ⟨⟩ := by
    intro sigs k''
    rw [hknown]
    constructor
    · intro hacc
      cases hacc with
      | inception _ _ hicp => exact absurd hup (not_isUpdate_of_isInception hicp)
      | update _ hcol _ hsome hnext' =>
          obtain ⟨howned', hreceipts⟩ := verifyNext_eq_ok.1 hnext'
          obtain ⟨rfl, rfl⟩ := Prod.mk.inj (Except.ok.inj ((hcollect _).symm.trans hcol))
          obtain rfl := Option.some_inj.1 hsome
          obtain rfl := Except.ok.inj (howned.symm.trans howned')
          rw [hraw] at hreceipts
          exact ⟨⟨if_neg hsigned, rfl⟩, hreceipts⟩
    · rintro ⟨⟨rfl, rfl⟩, hreceipts⟩
      have hstore : sigsToStore event.signatures = some event.signatures := if_neg hsigned
      rw [← hstore]
      exact .update hheader (hcollect _) hup rfl (verifyNext_eq_ok.2 ⟨howned, hraw ▸ hreceipts⟩)
  rw [show k.state.pfx = t.pfx from hpfx.symm] at hheader haccepts hknown
  refine ⟨?_, fun r n' hrun => ?_⟩
  · rw [processMessage_of_parse hparse, processes_iff hheader (Or.inr ⟨hup, by rw [hknown]; rfl⟩)]
    refine Iff.trans ?_ (checkReceipts_iff hvalid)
    constructor
    · rintro ⟨sigs, k'', hacc⟩
      exact (haccepts.1 hacc).2
    · intro hreceipts
      exact ⟨_, _, haccepts.2 ⟨⟨rfl, rfl⟩, hreceipts⟩⟩
  · rw [processMessage_of_parse hparse] at hrun
    obtain ⟨hheader', ⟨sigs, k'', hlogs, rfl⟩ | ⟨-, hskip⟩⟩ := processParsed_ok hrun
    · obtain rfl := Except.ok.inj (hheader.symm.trans hheader')
      obtain ⟨⟨rfl, rfl⟩, -⟩ := haccepts.1 hlogs.1
      unfold Node.logged Node.receives
      rw [hraw]
      rfl
    · obtain rfl := Except.ok.inj (hheader.symm.trans hheader')
      have hnone := (hskip hup).1
      rw [hknown] at hnone
      cases hnone

/-- **An inception that is valid is received when enough backers have receipted it.** -/
theorem CarriesEvent.inception (hc : CarriesEvent X fields i event keys data) {msg : ParsedMessage}
    {verfers : List Verfer} {k : Kever}
    (hparse₀ : parseNext X event.composed = .ok (msg, event.composed.length))
    (hverfers : verfersFromSerder X msg.serder = .ok verfers)
    (hnew : Kever.new X msg.serder msg.controllerSigs verfers = .ok k)
    (hunknown : n.kevers.get k.state.pfx = none) : Decides X event keys data k n := by
  obtain ⟨base, parsed, couples, hbase, hparse, hsealed, hserder, hraw, hsigs, hcollect, hsigned,
    rfl, hvalid⟩ := hc
  obtain ⟨rfl, -⟩ := Prod.mk.inj (Except.ok.inj (hparse₀.symm.trans hbase))
  rw [← hserder] at hverfers hnew
  rw [← hsigs] at hnew
  obtain ⟨hilk, hok, hincept⟩ := Kever.new_eq_ok.1 hnew
  obtain ⟨hi, hd, -⟩ := Kever.incept_fields hincept
  obtain ⟨icp, hicp, -, -, -, hstate, -⟩ := Kever.incept_eq_ok.1 hincept
  obtain ⟨hzero, bt, -, -, hstate⟩ := KeyState.fromInception_eq_ok.1 hstate
  obtain ⟨-, -, hs⟩ := InceptionEvent.fields hicp
  have hsn : k.state.sn = 0 := by
    rw [hstate]
    rfl
  have hsaid : event.said = k.state.lastEventDigest :=
    Value.string.inj (Option.some_inj.1 (hsealed.get_d.symm.trans hd))
  have hheader : parsed.serder.header =
      .ok { pfx := k.state.pfx, sn := k.state.sn, said := event.said, ilk := "icp" } :=
    Serder.header_eq_ok.2 ⟨Serder.textField_eq_ok.2 hi, Serder.sn_eq_ok.2 ⟨_, hs, hsn ▸ hzero⟩,
      Serder.textField_eq_ok.2 hsealed.get_d, hilk⟩
  have hnewParts : Kever.newFromParts X parsed.serder.raw parsed.serder.sad
      (extractControllerSigs parsed.attachments) verfers = .ok k := by
    rw [Serder.verifySaid, hsealed.kind] at hok
    exact Kever.newFromParts_eq_ok.2 ⟨Serder.textField_eq_ok.1 hilk, hok, hincept⟩
  have haccepts : ∀ {sigs : Option Bytes} {k' : Kever}, AcceptedBy X (n.kevers.get k.state.pfx)
      parsed { pfx := k.state.pfx, sn := k.state.sn, said := event.said, ilk := "icp" } sigs k' ↔
      (sigs = some event.signatures ∧ k' = k) ∧
        checkReceipts X k.state event.raw couples = .ok ⟨⟩ := by
    intro sigs k'
    rw [hunknown]
    constructor
    · intro hacc
      cases hacc with
      | update _ _ hup => exact absurd hup (not_isUpdate_of_isInception (Or.inl rfl))
      | inception _ hcol _ _ hverify =>
          obtain ⟨verfers', hverfers', hnew', hreceipts⟩ := verifyInception_eq_ok.1 hverify
          obtain ⟨rfl, rfl⟩ := Prod.mk.inj (Except.ok.inj ((hcollect _).symm.trans hcol))
          obtain rfl := Except.ok.inj (hverfers.symm.trans hverfers')
          obtain rfl := Except.ok.inj (hnewParts.symm.trans hnew')
          rw [hraw] at hreceipts
          exact ⟨⟨if_neg hsigned, rfl⟩, hreceipts⟩
    · rintro ⟨⟨rfl, rfl⟩, hreceipts⟩
      have hstore : sigsToStore event.signatures = some event.signatures := if_neg hsigned
      rw [← hstore]
      exact .inception hheader (hcollect _) (Or.inl rfl) rfl
        (verifyInception_eq_ok.2 ⟨verfers, hverfers, hnewParts, hraw ▸ hreceipts⟩)
  refine ⟨?_, fun r n' hrun => ?_⟩
  · rw [processMessage_of_parse hparse, processes_iff hheader (Or.inl (Or.inl rfl))]
    refine Iff.trans ?_ (checkReceipts_iff hvalid)
    constructor
    · rintro ⟨sigs, k', hacc⟩
      exact (haccepts.1 hacc).2
    · intro hreceipts
      exact ⟨_, _, haccepts.2 ⟨⟨rfl, rfl⟩, hreceipts⟩⟩
  · rw [processMessage_of_parse hparse] at hrun
    obtain ⟨hheader', ⟨sigs, k', hlogs, rfl⟩ | ⟨hicp, -⟩⟩ := processParsed_ok hrun
    · obtain rfl := Except.ok.inj (hheader.symm.trans hheader')
      obtain ⟨⟨rfl, rfl⟩, -⟩ := haccepts.1 hlogs.1
      unfold Node.logged Node.receives
      rw [hraw]
    · obtain rfl := Except.ok.inj (hheader.symm.trans hheader')
      exact absurd (Or.inl rfl) hicp

end Keri
