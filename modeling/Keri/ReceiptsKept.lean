/-
**Where receipts are kept.**

A receiver puts the receipts of a receipt message under the SAID of that message, in place of what
was there, and those attached to an event nowhere.  A receipt message has a SAID of its own, which
is not that of the event it receipts.

* `Keri.Carries` — a message that carries receipts for an event;
* `Keri.PutsReceipts`, `Keri.LastReceipts` — a message that puts receipts under a SAID, and the last
  one of a run;
* `Keri.get_receipts_run` — **what is kept under a SAID after a run**;
* `Keri.Carries.collision` — a message that carries receipts for an event puts none under its SAID,
  unless digests collide;
* `Keri.receipts_kept_iff` — **receipts for an event are kept under its SAID exactly when the last
  receipt message with that SAID has them**;
* `Keri.attached_receipts_lost` — a witnessed inception whose receipts are nowhere.
-/

import Keri.StoredBodies
import Keri.Sealing
import Keri.ParserStream
import Keri.Hab
import Keri.Backers

set_option relaxedAutoImplicit false
set_option autoImplicit false

namespace Keri

open Outcome Machine

variable (X : Externals) (disk : Disk)

/-! ### Receipts for an event -/

/-- The message carries the couples for the event: attached to the event itself, or to a receipt
message that some identifier has built for it. -/
inductive Carries (data : Bytes) (event : Serder) (couples : List (String × Bytes)) : Prop where
  | attached {attachments : List Attachment} {size : ℕ} {r : ProcessResult} {raw : Bytes} :
      parseNext X data = .ok ({ serder := event, attachments }, size) →
      event.header = .ok r → collectAttachments X r.pfx attachments = .ok (couples, raw) →
      Carries data event couples
  | receipt {witness : Hab} {witnessDisk : Disk} {s s' : Store} {parsed : ParsedMessage} {size : ℕ}
      {r : ProcessResult} {raw : Bytes} :
      witness.receiptMessage X witnessDisk event s = .ok data s' →
      parseNext X data = .ok (parsed, size) → parsed.serder.header = .ok r →
      collectAttachments X r.pfx parsed.attachments = .ok (couples, raw) →
      Carries data event couples

/-- The message is a receipt message with this SAID of its own, and its couples are stored. -/
def PutsReceipts (said : String) (n : Node) (data : Bytes) (couples : List (String × Bytes)) :
    Prop :=
  ∃ parsed size r raw, parseNext X data = .ok (parsed, size) ∧ parsed.serder.header = .ok r ∧
    collectAttachments X r.pfx parsed.attachments = .ok (couples, raw) ∧ r.ilk = "rct" ∧
    r.said = said ∧ couples ≠ [] ∧ disk n.store.calls = none

/-- The last message of a run that puts receipts under the SAID puts these. -/
def LastReceipts (msgs : List Bytes) (said : String) (couples : List (String × Bytes)) : Prop :=
  ∃ pre data, Last (stepDirect X disk) (fun n d => ∃ cs, PutsReceipts X disk said n d cs)
      Node.empty msgs pre data ∧
    PutsReceipts X disk said (runDirect X disk pre) data couples

/-- The couple is among what is read under the SAID. -/
def Receipted (n : Node) (said : String) (c : String × Bytes) : Prop :=
  ∃ bytes s, Store.getReceipts Disk.sound said n.store = .ok (some bytes) s ∧
    receiptBytes [c] <:+: bytes

variable {X disk}

/-! ### One message -/

theorem rcts_of_puts {said : String} {n : Node} {data : Bytes} {couples : List (String × Bytes)}
    (h : PutsReceipts X disk said n data couples) :
    (stepDirect X disk n data).store.tables.rcts.get said = some (receiptBytes couples) := by
  obtain ⟨parsed, size, r, raw, hparse, hheader, hcollect, hrct, rfl, hsome, hdisk⟩ := h
  have hicp : ¬ isInception r.ilk := by
    rw [hrct]
    unfold isInception
    decide
  have hup : ¬ isUpdate r.ilk := by
    rw [hrct]
    unfold isUpdate
    decide
  rw [stepDirect_of_parse hparse, processParsed_run hheader hcollect, if_neg hicp, if_neg hup,
    if_pos hrct, processReceipt, if_neg hsome, Store.putReceipts, stateAfter_onStore, if_pos hdisk]
  exact Table.get_put_self _ _ _

/-- A message that puts no receipts under a SAID leaves what is there. -/
theorem rcts_of_not_puts {said : String} {n : Node} {data : Bytes}
    (h : ∀ couples, ¬ PutsReceipts X disk said n data couples) :
    (stepDirect X disk n data).store.tables.rcts.get said = n.store.tables.rcts.get said := by
  cases hparse : parseNext X data with
  | error e => rw [stepDirect_of_error hparse]
  | ok p =>
      obtain ⟨parsed, size⟩ := p
      rw [stepDirect_of_parse hparse]
      have hprocessed := processParsed_processed X disk n parsed
      generalize stateAfter (processParsed X disk parsed n) = n' at hprocessed
      cases hprocessed with
      | logged hlogs => simp [Node.logged]
      | refused _ => rfl
      | unchanged => rfl
      | @receipts r couples raw hheader hcollect hrct hsome hdisk =>
          have hne : said ≠ r.said := by
            rintro rfl
            exact h couples
              ⟨parsed, size, r, raw, hparse, hheader, hcollect, hrct, rfl, hsome, hdisk⟩
          exact Table.get_put_of_ne _ hne _
      | body _ => rfl

/-- A message puts one list of receipts at most. -/
theorem PutsReceipts.unique {said : String} {n : Node} {data : Bytes}
    {couples couples' : List (String × Bytes)} (h : PutsReceipts X disk said n data couples)
    (h' : PutsReceipts X disk said n data couples') : couples = couples' := by
  have hget := rcts_of_puts h
  obtain ⟨parsed, size, r, raw, hparse, hheader, hcollect, -⟩ := h
  obtain ⟨parsed', size', r', raw', hparse', hheader', hcollect', -⟩ := h'
  obtain ⟨rfl, -⟩ := Prod.mk.inj (Except.ok.inj (hparse.symm.trans hparse'))
  obtain rfl := Except.ok.inj (hheader.symm.trans hheader')
  exact (Prod.mk.inj (Except.ok.inj (hcollect.symm.trans hcollect'))).1

/-! ### A run -/

/-- **What is kept under a SAID after a run**: the receipts of the last message that puts any
there. -/
theorem get_receipts_run {msgs : List Bytes} {said : String} {bytes : Bytes} :
    (runDirect X disk msgs).store.tables.rcts.get said = some bytes ↔
      ∃ couples, LastReceipts X disk msgs said couples ∧ bytes = receiptBytes couples := by
  induction msgs using List.reverseRecOn with
  | nil =>
      constructor
      · intro h
        cases h
      · rintro ⟨couples, ⟨pre, data, ⟨post, hnil, -⟩, -⟩, -⟩
        exact absurd hnil.symm (by simp)
  | append_singleton msgs data ih =>
      rw [runDirect_concat]
      by_cases hputs : ∃ cs, PutsReceipts X disk said (runDirect X disk msgs) data cs
      · obtain ⟨cs, hcs⟩ := hputs
        rw [rcts_of_puts hcs, Option.some_inj]
        constructor
        · rintro rfl
          exact ⟨cs, ⟨msgs, data, last_concat_self ⟨cs, hcs⟩, hcs⟩, rfl⟩
        · rintro ⟨couples, ⟨pre, data', hlast, hcouples⟩, rfl⟩
          rcases last_concat_iff.1 hlast with ⟨rfl, rfl, -⟩ | ⟨hnot, -⟩
          · rw [hcs.unique hcouples]
          · exact absurd ⟨cs, hcs⟩ hnot
      · rw [rcts_of_not_puts fun cs hcs => hputs ⟨cs, hcs⟩, ih]
        refine exists_congr fun couples => and_congr_left fun _ => ?_
        constructor
        · rintro ⟨pre, data', hlast, hcouples⟩
          exact ⟨pre, data', hlast.concat hputs, hcouples⟩
        · rintro ⟨pre, data', hlast, hcouples⟩
          rcases last_concat_iff.1 hlast with ⟨-, -, hhas⟩ | ⟨-, hlast⟩
          · exact absurd hhas hputs
          · exact ⟨pre, data', hlast, hcouples⟩

theorem receipted_iff {n : Node} {said : String} {c : String × Bytes} :
    Receipted n said c ↔ ∃ bytes, n.store.tables.rcts.get said = some bytes ∧
      receiptBytes [c] <:+: bytes := by
  unfold Receipted Store.getReceipts
  constructor
  · rintro ⟨bytes, s, hread, hin⟩
    exact ⟨bytes, (Store.read_ok.1 hread).2.1.symm, hin⟩
  · rintro ⟨bytes, hget, hin⟩
    exact ⟨bytes, _, Store.read_ok.2 ⟨rfl, hget.symm, rfl⟩, hin⟩

/-! ### The SAID of a receipt message -/

section

variable {print : Value → Bytes}

/-- A receipt of an event is made of these fields. -/
theorem receiptFields_eventFields (pfx : String) (sn : ℕ) :
    EventFields (Hab.receiptFields pfx sn) pfx where
  version := ⟨_, rfl⟩
  said := rfl
  pfx := rfl

/-- The body of a built receipt message is read back, and its SAID is the digest of a body that is a
receipt. -/
theorem receiptSerder_spec (hjson : JsonLaws X print) (hdigest : DigestLaws X) {pfx : String}
    {sn : ℕ} {serder : Serder} (h : Hab.receiptSerder X pfx sn = .ok serder)
    (hsize : serder.raw.length < 2 ^ 24) :
    ∃ said, Sealed X (Hab.receiptFields pfx sn) pfx said serder ∧ ∃ fields len bytes,
      Fields.get "t" fields = some (.string "rct") ∧
      serializeSad X (.object (dummied "d" len fields)) .json = .ok bytes ∧
      digestQb64 X "E" bytes = .ok said := by
  simp only [Hab.receiptSerder, bind_eq_ok, mapError_eq_ok] at h
  obtain ⟨fixed, hfixed, ⟨said, sad⟩, hsaid, hserder⟩ := h
  have hf := receiptFields_eventFields pfx sn
  refine ⟨said, sealed_of_new hjson hdigest hf hfixed hsaid hserder hsize, fixed, 44, ?_⟩
  obtain ⟨raw, -, rfl⟩ := (fixVersionString_eq_ok hf).1 hfixed
  obtain ⟨-, bytes, hbytes, htext⟩ := (computeSaid_sized hdigest hf).1 hsaid
  rw [← (dummied_sized hf raw.length 44).2] at hbytes
  refine ⟨bytes, ?_, hbytes, htext⟩
  rw [Fields.get_insert_of_ne (by decide)]
  rfl

/-- What is assumed of the serializers: they are injective, and the first byte of an object tells
the kind. -/
structure BodyLaws (X : Externals) : Prop where
  serialize_injective : ∀ {v w : Value} {kind : SerializationKind} {bytes : Bytes},
    X.serialize v kind = .ok bytes → X.serialize w kind = .ok bytes → v = w
  serialize_sniff : ∀ {fields : Fields} {kind : SerializationKind} {bytes : Bytes},
    X.serialize (.object fields) kind = .ok bytes → sniffKind bytes = .ok kind

/-- Two bodies have the same digest. -/
def Collision (X : Externals) : Prop :=
  ∃ as bs text, as ≠ bs ∧ digestQb64 X "E" as = .ok text ∧ digestQb64 X "E" bs = .ok text

/-- The digest of a receipt is the SAID of no event, unless digests collide. -/
theorem collision_of_said (hX : BodyLaws X) {event : Serder} {said : String}
    (hverify : event.verifySaid X "E" = .ok ()) (hsaid : event.said = .ok said)
    (hilk : event.ilk ≠ .ok "rct") {fields : Fields} {len : ℕ} {bytes : Bytes}
    (hrct : Fields.get "t" fields = some (.string "rct"))
    (hbytes : serializeSad X (.object (dummied "d" len fields)) .json = .ok bytes)
    (htext : digestQb64 X "E" bytes = .ok said) : Collision X := by
  obtain ⟨obj, said', len', bytes', hobj, hget, -, hbytes', hdigest⟩ := verifySaid_eq_ok.1 hverify
  have hd : event.sad.get "d" = some (.string said) := Serder.textField_eq_ok.1 hsaid
  rw [hobj, Value.get_object, hget, Option.some_inj, Value.string.injEq] at hd
  subst hd
  refine ⟨bytes, bytes', said', ?_, htext, hdigest⟩
  rintro rfl
  -- equal bodies would be of one kind and have the same ilk
  have hkind : SerializationKind.json = event.kind :=
    Except.ok.inj ((hX.serialize_sniff hbytes).symm.trans (hX.serialize_sniff hbytes'))
  rw [← hkind] at hbytes'
  have hsame := Value.object.inj (hX.serialize_injective hbytes hbytes')
  have ht := congrArg (Fields.get "t") hsame
  rw [dummied, dummied, get_fillSaid_of_ne (by decide) (by decide),
    get_fillSaid_of_ne (by decide) (by decide), hrct] at ht
  refine hilk (Serder.textField_eq_ok.2 ?_)
  rw [hobj, Value.get_object, ← ht]

/-- **A message that carries receipts for an event does not put them under its SAID**, unless
digests collide: the event is no receipt message, and a receipt message that is built has a SAID of
its own. -/
theorem Carries.collision (hX : BodyLaws X) (hjson : JsonLaws X print) (hdigest : DigestLaws X)
    {data : Bytes} {event : Serder} {couples : List (String × Bytes)}
    (h : Carries X data event couples) (hsize : data.length < 2 ^ 24) {said : String}
    (hsaid : event.said = .ok said) (hverify : event.verifySaid X "E" = .ok ())
    (hilk : event.ilk ≠ .ok "rct") {n : Node} {couples' : List (String × Bytes)}
    (hputs : PutsReceipts X disk said n data couples') : Collision X := by
  obtain ⟨parsed, size, r, raw, hparse, hheader, -, hrct, rfl, -⟩ := hputs
  obtain ⟨-, -, hrsaid, hrilk⟩ := Serder.header_eq_ok.1 hheader
  cases h with
  | attached hparse' _ _ =>
      obtain ⟨rfl, -⟩ := Prod.mk.inj (Except.ok.inj (hparse.symm.trans hparse'))
      exact absurd (hrct ▸ hrilk) hilk
  | receipt hbuild _ _ _ =>
      unfold Hab.receiptMessage at hbuild
      obtain ⟨pfx, s₁, hpfx, hbuild⟩ := bind_run_ok.1 hbuild
      obtain ⟨sn, s₂, hsn, hbuild⟩ := bind_run_ok.1 hbuild
      obtain ⟨key, s₃, hkey, hbuild⟩ := bind_run_ok.1 hbuild
      obtain ⟨serder, s₄, hserder, hbuild⟩ := bind_run_ok.1 hbuild
      obtain ⟨attachment, s₅, hattachment, hbuild⟩ := bind_run_ok.1 hbuild
      obtain ⟨⟨⟩, s₆, hput, hbuild⟩ := bind_run_ok.1 hbuild
      obtain ⟨rfl, -⟩ := EStateM.Result.ok.inj hbuild
      obtain ⟨hserder, -⟩ := lift_run_ok.1 hserder
      rw [List.length_append] at hsize
      obtain ⟨own, hsealed, fields, len, bytes, hfields, hbytes, htext⟩ :=
        receiptSerder_spec hjson hdigest hserder (by omega)
      -- what is parsed is the body that was built
      obtain ⟨v, hv⟩ := hsealed.version
      obtain ⟨-, -, -, -, hread, -⟩ := parseNextInner_eq_ok.1 hparse
      have hbody := Serder.fromRaw_append hsealed.read hv attachment
      obtain rfl := Except.ok.inj (hbody.symm.trans hread)
      have hown : parsed.serder.said = .ok own := Serder.textField_eq_ok.2 hsealed.get_d
      rw [hrsaid, Except.ok.injEq] at hown
      rw [← hown] at htext
      exact collision_of_said hX hverify hsaid hilk hfields hbytes htext

end

/-- **When receipts are kept under the event they are for.**  From a message on, the receipts it
carries for an event are among what is kept under the event's SAID exactly when the last message
that has put receipts there has them.  The message itself puts none there: one that does has the
event's SAID as its own. -/
theorem receipts_kept_iff {pre post : List Bytes} {data : Bytes} {event : Serder} {said : String}
    {couples : List (String × Bytes)} (h : Carries X data event couples)
    (hsaid : event.said = .ok said) :
    ((∀ post₁, post₁ <+: post → ∀ c ∈ couples,
        Receipted (runDirect X disk (pre ++ data :: post₁)) said c) ↔
      ∀ post₁, post₁ <+: post → ∀ c ∈ couples, ∃ couples',
        LastReceipts X disk (pre ++ data :: post₁) said couples' ∧
          receiptBytes [c] <:+: receiptBytes couples') ∧
      ∀ print, BodyLaws X → JsonLaws X print → DigestLaws X → data.length < 2 ^ 24 →
        event.verifySaid X "E" = .ok () → event.ilk ≠ .ok "rct" →
        ∀ n couples', PutsReceipts X disk said n data couples' → Collision X := by
  refine ⟨?_, fun print hX hjson hdigest hsize hverify hilk n couples' hputs =>
    h.collision hX hjson hdigest hsize hsaid hverify hilk hputs⟩
  refine forall₄_congr fun post₁ _ c _ => ?_
  rw [receipted_iff]
  simp only [get_receipts_run]
  constructor
  · rintro ⟨_, ⟨couples', hlast, rfl⟩, hin⟩
    exact ⟨couples', hlast, hin⟩
  · rintro ⟨couples', hlast, hin⟩
    exact ⟨_, ⟨couples', hlast, rfl⟩, hin⟩

/-! ### A witnessed inception -/

/-- An inception with a witness. -/
def toyReceipted : Serder := toyWitnessed "1" [5]

/-- The inception, signed, with the receipt of the witness. -/
def toyReceiptedMessage : Bytes :=
  Toy.signedBytes toyReceipted.raw 1 ++ strBytes ("-CAB" ++ Toy.keyText 5 ++
    Toy.primitiveText "0B" (Toy.seed 5 ++ Toy.checksumBytes 32 toyReceipted.raw))

/-- The receipt. -/
def toyReceipt : String × Bytes :=
  (Toy.keyText 5, Toy.seed 5 ++ Toy.checksumBytes 32 toyReceipted.raw)

theorem toyReceipted_carries :
    Carries Toy.lib toyReceiptedMessage toyReceipted [toyReceipt] := by
  have hmessage : (parseNext Toy.lib toyReceiptedMessage).toOption.any (fun m =>
      decide (m.1.serder = toyReceipted) &&
        m.1.serder.header.toOption.any fun r =>
          (collectAttachments Toy.lib r.pfx m.1.attachments).toOption.any fun c =>
            decide (c.1 = [toyReceipt])) = true := by
    decide +kernel
  obtain ⟨m, hparse, hread⟩ := exists_ok_of_any hmessage
  rw [Bool.and_eq_true] at hread
  obtain ⟨hevent, hread⟩ := hread
  obtain ⟨r, hheader, hread⟩ := exists_ok_of_any hread
  obtain ⟨c, hcollect, hcouples⟩ := exists_ok_of_any hread
  rw [← of_decide_eq_true hevent, ← of_decide_eq_true hcouples]
  exact .attached hparse hheader hcollect

/-- What there is to evaluate of the inception and its message. -/
theorem toyReceipted_sound : toyReceipted.said = .ok (Toy.saidOf toyReceipted) ∧
    toyReceipted.verifySaid Toy.lib "E" = .ok () ∧ toyReceipted.ilk ≠ .ok "rct" ∧
    toyReceiptedMessage.length < 2 ^ 24 := by
  decide +kernel

theorem bodyLaws_toy (digest : Bytes → Bytes) : BodyLaws (Toy.externals digest) where
  serialize_injective := (saidLaws_toy Toy.paddingDigest_injective).serialize_injective
  serialize_sniff := (saidLaws_toy Toy.paddingDigest_injective).serialize_sniff

/-- The receipt again, in a receipt message that has the SAID of the inception as its own. -/
def toyReceiptedLater : Bytes :=
  Toy.versioned [("v", .string ""), ("t", .string "rct"), ("d", .string (Toy.saidOf toyReceipted)),
    ("i", .string (Toy.keyText 1)), ("s", .string "0")] ++
  strBytes ("-CAB" ++ Toy.keyText 5 ++
    Toy.primitiveText "0B" (Toy.seed 5 ++ Toy.checksumBytes 32 toyReceipted.raw))

/-- The receipt is kept from that message on, and not before. -/
theorem receipts_kept_toy :
    (((∀ post₁, post₁ <+: [toyReceiptedLater] → ∀ c ∈ [toyReceipt],
        Receipted (runDirect Toy.lib Disk.sound ([] ++ toyReceiptedMessage :: post₁))
          (Toy.saidOf toyReceipted) c) ↔
      ∀ post₁, post₁ <+: [toyReceiptedLater] → ∀ c ∈ [toyReceipt], ∃ couples',
        LastReceipts Toy.lib Disk.sound ([] ++ toyReceiptedMessage :: post₁)
          (Toy.saidOf toyReceipted) couples' ∧ receiptBytes [c] <:+: receiptBytes couples') ∧
      ∀ n couples', PutsReceipts Toy.lib Disk.sound (Toy.saidOf toyReceipted) n
        toyReceiptedMessage couples' → Collision Toy.lib) ∧
    ¬ Receipted (runDirect Toy.lib Disk.sound [toyReceiptedMessage])
        (Toy.saidOf toyReceipted) toyReceipt ∧
      Receipted (runDirect Toy.lib Disk.sound [toyReceiptedMessage, toyReceiptedLater])
        (Toy.saidOf toyReceipted) toyReceipt := by
  obtain ⟨hsaid, hverify, hilk, hsize⟩ := toyReceipted_sound
  obtain ⟨hiff, hputs⟩ := @receipts_kept_iff Toy.lib Disk.sound [] [toyReceiptedLater] _ _ _ _
    toyReceipted_carries hsaid
  have hstates : (runDirect Toy.lib Disk.sound
        [toyReceiptedMessage]).store.tables.rcts.get (Toy.saidOf toyReceipted) = none ∧
      (runDirect Toy.lib Disk.sound
        [toyReceiptedMessage, toyReceiptedLater]).store.tables.rcts.get (Toy.saidOf toyReceipted) =
          some (receiptBytes [toyReceipt]) := by
    decide +kernel
  refine ⟨⟨hiff, hputs Toy.print (bodyLaws_toy _) (jsonLaws_toy _) digestLaws_toy hsize hverify
    hilk⟩, ?_, ?_⟩
  · rw [receipted_iff, hstates.1]
    rintro ⟨bytes, hbytes, -⟩
    cases hbytes
  · rw [receipted_iff, hstates.2]
    exact ⟨_, rfl, List.infix_rfl⟩

/-- The receipt of a witness, attached to the inception, is verified and nowhere kept. -/
theorem attached_receipts_lost :
    ¬ ∀ (X : Externals) (disk : Disk) (pre post : List Bytes) (data : Bytes) (event : Serder)
      (said : String) (couples : List (String × Bytes)) (r : ProcessResult) (n : Node),
      Carries X data event couples → event.said = .ok said →
      processMessage X disk data (runDirect X disk pre) = .ok r n →
      ∀ post₁, post₁ <+: post → ∀ c ∈ couples,
        Receipted (runDirect X disk (pre ++ data :: post₁)) said c := by
  intro hclaim
  obtain ⟨r, n, hrun, hnone⟩ := exists_run_of_okAnd
    (x := processMessage Toy.lib Disk.sound toyReceiptedMessage (runDirect Toy.lib Disk.sound []))
    (p := fun _ n => (n.store.tables.rcts.get (Toy.saidOf toyReceipted)).isNone) (by decide +kernel)
  have hkept := hclaim Toy.lib Disk.sound [] [] toyReceiptedMessage toyReceipted _ _ r n
    toyReceipted_carries toyReceipted_sound.1 hrun [] (List.prefix_refl []) toyReceipt
    (List.mem_singleton_self _)
  obtain ⟨bytes, hget, -⟩ := receipted_iff.1 hkept
  have hafter : runDirect Toy.lib Disk.sound ([] ++ [toyReceiptedMessage]) = n := by
    rw [runDirect_concat, stepDirect, hrun, stateAfter_ok]
  rw [hafter] at hget
  rw [hget] at hnone
  cases hnone

end Keri
