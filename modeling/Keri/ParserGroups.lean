/-
**Attachment groups, one by one.**

What a sender writes after a body is a list of groups, any stretch of which may sit in a quadlet
wrapper.  Reading it should give back the groups in order.  A transferable signature group has no
length of its own: the signatures of its last entry are read with the attachment loop itself, from
all that is left of the span, so the groups that follow it are taken for more of its signatures.

* `Keri.CesrLaws` — what is assumed of CESR, encoding and decoding being inverse;
* `Keri.Primitive`, `Keri.Group`, `Keri.Layout` — what a sender writes;
* `Keri.Layout.read` — what the parser makes of it;
* `Keri.parseAttachments_encode` — **the parser computes `Keri.Layout.read`**;
* `Keri.Layout.read_eq_iff` — **the groups are read one by one exactly when every transferable
  group is the last of its span**;
* `Keri.parseNext_encode_iff` — the same of a message.
-/

import Keri.ParserStream

set_option relaxedAutoImplicit false
set_option autoImplicit false

namespace Keri

open Outcome Reader

variable (X : Externals)

/-! ### CESR -/

/-- A text in Base64 that starts with a code, as long as its first character says, and not with the
dash of a counter. -/
def CodedText (code qb64 : String) : Prop :=
  isAscii (strBytes qb64) = true ∧ (strBytes qb64).head? ≠ some dash ∧ ∃ first hs,
    firstChar (strBytes qb64) = some first ∧ X.cesr.hardage first = some hs ∧
    hs ≤ (strBytes qb64).length ∧ textOf ((strBytes qb64).take hs) = code

/-- What is assumed of CESR: a text starts with its code and is decoded to what it encodes, and a
counter of two characters counts with two digits. -/
structure CesrLaws : Prop extends CounterLaws X where
  matter_coded : ∀ {m : Matter} {qb64 : String}, X.cesr.matterQb64 m = .ok qb64 →
    CodedText X m.code qb64
  matter_decode : ∀ {m : Matter} {qb64 : String}, X.cesr.matterQb64 m = .ok qb64 →
    X.cesr.matterFromQb64 qb64 = .ok m
  indexer_coded : ∀ {x : Indexer} {qb64 : String}, X.cesr.indexerQb64 x = .ok qb64 →
    CodedText X x.code qb64
  indexer_decode : ∀ {x : Indexer} {qb64 : String}, X.cesr.indexerQb64 x = .ok qb64 →
    X.cesr.indexerFromQb64 qb64 = .ok x ∧
    X.cesr.indexerNew x.code x.index x.ondex x.raw = .ok x
  counter_decode : ∀ {c : Counter} {qb64 : String}, X.cesr.counterQb64 c = .ok qb64 →
    X.cesr.counterFromQb64 qb64 = .ok c ∧ X.cesr.counterFullSize c = (strBytes qb64).length
  counter_text : ∀ {c : Counter} {qb64 : String}, X.cesr.counterQb64 c = .ok qb64 →
    isAscii (strBytes qb64) = true ∧
    ((strBytes c.code).head? = some dash → (strBytes qb64).head? = some dash)
  counter_small : ∀ {c : Counter} {qb64 : String}, X.cesr.counterQb64 c = .ok qb64 →
    (strBytes c.code).length = 2 → c.count < maxAttachmentCount

/-! ### What a sender writes -/

/-- A primitive of fixed size, with its text. -/
structure Primitive where
  matter : Matter
  qb64 : String
  sizage : Sizage
  encodes : X.cesr.matterQb64 matter = .ok qb64
  known : X.cesr.matterSizage matter.code = some sizage
  fixed : (strBytes qb64).length = sizage.fs
  min : minPrimitiveSize ≤ sizage.fs

/-- An indexed signature of fixed size, with its text. -/
structure IndexedSig where
  siger : Siger
  qb64 : String
  sizage : Sizage
  encodes : X.cesr.indexerQb64 siger.indexer = .ok qb64
  known : X.cesr.indexerSizage siger.indexer.code = some sizage
  fixed : (strBytes qb64).length = sizage.fs
  min : minPrimitiveSize ≤ sizage.fs

/-- An entry of a transferable signature group, with at least one signature. -/
structure TransEntry where
  pfx : Primitive X
  sn : Primitive X
  said : Primitive X
  sigs : List (IndexedSig X)
  sigs_ne : sigs ≠ []

/-- The attachment groups of the first table that are supported. -/
inductive Group where
  | controllerSigs (sigs : List (IndexedSig X))
  | witnessSigs (sigs : List (IndexedSig X))
  | receiptCouples (couples : List (Primitive X × Primitive X))
  | firstSeenReplayCouples (couples : List (Primitive X × Primitive X))
  | sealSourceCouples (couples : List (Primitive X × Primitive X))
  | transIdxSigGroups (entries : List (TransEntry X))

/-- A list of groups, any stretch of which may be in a quadlet wrapper. -/
inductive Layout where
  | nil
  | group (g : Group X) (rest : Layout)
  | wrap (inner rest : Layout)

/-! ### What it should be read as -/

section

variable {X}

def Primitive.bytes (p : Primitive X) : Bytes := strBytes p.qb64

def IndexedSig.bytes (s : IndexedSig X) : Bytes := strBytes s.qb64

def TransEntry.value (e : TransEntry X) : TransIdxSigGroup :=
  { pfx := e.pfx.qb64, sn := e.sn.qb64, said := e.said.qb64, sigs := e.sigs.map (·.siger) }

/-- A group's own contents. -/
def Group.attachment : Group X → Attachment
  | .controllerSigs sigs => .controllerSigs (sigs.map (·.siger))
  | .witnessSigs sigs => .witnessSigs (sigs.map (·.siger))
  | .receiptCouples couples =>
      .receiptCouples (couples.map fun c => (c.1.qb64, c.2.matter.raw))
  | .firstSeenReplayCouples couples =>
      .firstSeenReplayCouples (couples.map fun c => (c.1.qb64, c.2.qb64))
  | .sealSourceCouples couples =>
      .sealSourceCouples (couples.map fun c => (c.1.qb64, c.2.qb64))
  | .transIdxSigGroups entries => .transIdxSigGroups (entries.map (·.value))

/-- The groups of a layout, in order. -/
def Layout.attachments : Layout X → List Attachment
  | .nil => []
  | .group g rest => g.attachment :: rest.attachments
  | .wrap inner rest => inner.attachments ++ rest.attachments

end

/-! ### Encoding -/

/-- The counter of a group, under the first table. -/
def counterBytes (kind : GroupKind) (count : ℕ) : Except CesrError Bytes := do
  let code ← okOr (kind.code .v1) ⟨"no code"⟩
  let qb64 ← X.cesr.counterQb64 ⟨code, count⟩
  pure (strBytes qb64)

def sigsBytes (kind : GroupKind) (sigs : List (IndexedSig X)) : Except CesrError Bytes := do
  let counter ← counterBytes X kind sigs.length
  pure (counter ++ sigs.flatMap IndexedSig.bytes)

def couplesBytes (kind : GroupKind) (couples : List (Primitive X × Primitive X)) :
    Except CesrError Bytes := do
  let counter ← counterBytes X kind couples.length
  pure (counter ++ couples.flatMap fun c => c.1.bytes ++ c.2.bytes)

def TransEntry.encode (e : TransEntry X) : Except CesrError Bytes := do
  let sigs ← sigsBytes X .controllerIdxSigs e.sigs
  pure (e.pfx.bytes ++ (e.sn.bytes ++ e.said.bytes) ++ sigs)

def entriesBytes : List (TransEntry X) → Except CesrError Bytes
  | [] => pure []
  | e :: es => do
      let first ← e.encode X
      let more ← entriesBytes es
      pure (first ++ more)

def Group.encode : Group X → Except CesrError Bytes
  | .controllerSigs sigs => sigsBytes X .controllerIdxSigs sigs
  | .witnessSigs sigs => sigsBytes X .witnessIdxSigs sigs
  | .receiptCouples couples => couplesBytes X .nonTransReceiptCouples couples
  | .firstSeenReplayCouples couples => couplesBytes X .firstSeenReplayCouples couples
  | .sealSourceCouples couples => couplesBytes X .sealSourceCouples couples
  | .transIdxSigGroups entries => do
      let counter ← counterBytes X .transIdxSigGroups entries.length
      let body ← entriesBytes X entries
      pure (counter ++ body)

/-- Groups one after the other; a wrapper counts its contents in quadlets. -/
def Layout.encode : Layout X → Except CesrError Bytes
  | .nil => pure []
  | .group g rest => do
      let first ← g.encode X
      let more ← rest.encode
      pure (first ++ more)
  | .wrap inner rest => do
      let contents ← inner.encode
      ensure (contents.length % 4 = 0) ⟨"not aligned"⟩
      let counter ← counterBytes X .attachedMaterialQuadlets (contents.length / 4)
      let more ← rest.encode
      pure (counter ++ contents ++ more)

/-! ### Primitives are read back -/

section

variable {X}

theorem textOf_take_append {qb64 : String} {n : ℕ} (h : isAscii (strBytes qb64) = true)
    (hn : (strBytes qb64).length = n) (tail : Bytes) :
    textOf ((strBytes qb64 ++ tail).take n) = qb64 := by
  rw [← hn, List.take_left, textOf_strBytes h]

/-- A coded text is found to start with its code, whatever follows. -/
theorem CodedText.read {code qb64 : String} (h : CodedText X code qb64) (tail : Bytes) :
    ∃ first hs, firstChar (strBytes qb64 ++ tail) = some first ∧
      X.cesr.hardage first = some hs ∧ hs ≤ (strBytes qb64 ++ tail).length ∧
      textOf ((strBytes qb64 ++ tail).take hs) = code := by
  obtain ⟨-, -, first, hs, hfirst, hhs, hle, hcode⟩ := h
  refine ⟨first, hs, firstChar_append hfirst tail, hhs, ?_, ?_⟩
  · rw [List.length_append]
    omega
  · rw [List.take_append_of_le_length hle]
    exact hcode

theorem parseMatterQb64_bytes (hX : CesrLaws X) (p : Primitive X) (name : String) (i : ℕ)
    (tail : Bytes) :
    parseMatterQb64 X name i (p.bytes ++ tail) = .ok (p.qb64, p.bytes.length) := by
  have hcoded := hX.matter_coded p.encodes
  obtain ⟨first, hs, hfirst, hhs, hle, hcode⟩ := hcoded.read tail
  have hmin := p.min
  unfold minPrimitiveSize at hmin
  refine parseMatterQb64_eq_ok.2 ⟨first, hs, p.sizage, hfirst, hhs, hle, ?_, by omega, ?_, ?_,
    p.fixed⟩
  · unfold Primitive.bytes
    rw [hcode]
    exact p.known
  · rw [List.length_append, ← p.fixed]
    exact Nat.le_add_right _ _
  · exact (textOf_take_append hcoded.1 p.fixed tail).symm

theorem parseIndexedSig_bytes (hX : CesrLaws X) (s : IndexedSig X) (count i : ℕ) (tail : Bytes) :
    parseIndexedSig X count i (s.bytes ++ tail) = .ok (s.siger, s.bytes.length) := by
  have hcoded := hX.indexer_coded s.encodes
  obtain ⟨first, hs, hfirst, hhs, hle, hcode⟩ := hcoded.read tail
  obtain ⟨hdecode, hnew⟩ := hX.indexer_decode s.encodes
  refine parseIndexedSig_eq_ok.2 ⟨first, hs, s.sizage, s.siger.indexer, hfirst, hhs, hle, ?_, ?_,
    ?_, ?_, s.fixed⟩
  · unfold IndexedSig.bytes
    rw [hcode]
    exact s.known
  · rw [List.length_append, ← s.fixed]
    exact Nat.le_add_right _ _
  · unfold IndexedSig.bytes
    rw [textOf_take_append hcoded.1 s.fixed]
    exact hdecode
  · unfold Siger.new
    rw [hnew]
    rfl

/-- Two primitives in sequence. -/
theorem parsePair_bytes (hX : CesrLaws X) (p q : Primitive X) (name name' : String) (i : ℕ)
    (tail : Bytes) :
    both (parseMatterQb64 X name i) (parseMatterQb64 X name' i) (p.bytes ++ q.bytes ++ tail) =
      .ok ((p.qb64, q.qb64), (p.bytes ++ q.bytes).length) :=
  both_append (parseMatterQb64_bytes hX p name i _) (parseMatterQb64_bytes hX q name' i tail)

theorem parseReceiptCouple_bytes (hX : CesrLaws X) (p q : Primitive X) (i : ℕ) (tail : Bytes) :
    parseReceiptCouple X i (p.bytes ++ q.bytes ++ tail) =
      .ok ((p.qb64, q.matter.raw), (p.bytes ++ q.bytes).length) :=
  parseReceiptCouple_eq_ok.2 ⟨q.qb64, q.matter, parsePair_bytes hX p q _ _ i tail,
    hX.matter_decode q.encodes, rfl⟩

/-! ### Sizes and characters -/

theorem Primitive.isAscii_bytes (hX : CesrLaws X) (p : Primitive X) :
    isAscii p.bytes = true :=
  (hX.matter_coded p.encodes).1

theorem IndexedSig.isAscii_bytes (hX : CesrLaws X) (s : IndexedSig X) :
    isAscii s.bytes = true :=
  (hX.indexer_coded s.encodes).1

theorem Primitive.min_le (p : Primitive X) : minPrimitiveSize ≤ p.bytes.length :=
  p.min.trans_eq p.fixed.symm

theorem IndexedSig.min_le (s : IndexedSig X) : minPrimitiveSize ≤ s.bytes.length :=
  s.min.trans_eq s.fixed.symm

theorem isAscii_flatMap {α : Type} {enc : α → Bytes} {xs : List α}
    (h : ∀ x ∈ xs, isAscii (enc x) = true) : isAscii (xs.flatMap enc) = true := by
  induction xs with
  | nil => rfl
  | cons x xs ih =>
      rw [List.flatMap_cons, isAscii_append, h x List.mem_cons_self,
        ih fun y hy => h y (List.mem_cons_of_mem x hy)]
      rfl

theorem length_flatMap_ge {α : Type} {enc : α → Bytes} {m : ℕ} {xs : List α}
    (h : ∀ x ∈ xs, m ≤ (enc x).length) : xs.length * m ≤ (xs.flatMap enc).length := by
  induction xs with
  | nil => simp
  | cons x xs ih =>
      have hx := h x List.mem_cons_self
      have hxs := ih fun y hy => h y (List.mem_cons_of_mem x hy)
      rw [List.flatMap_cons, List.length_append, List.length_cons, Nat.succ_mul]
      omega

/-! ### Groups of primitives are read back -/

/-- A counter that is written is read back, in front of ASCII. -/
theorem parseCounter_qb64 (hX : CesrLaws X) {counter : Counter} {qb64 : String}
    (h : X.cesr.counterQb64 counter = .ok qb64) {tail : Bytes} (htail : isAscii tail = true) :
    parseCounter X (strBytes qb64 ++ tail) = .ok (counter, (strBytes qb64).length) := by
  obtain ⟨hdecode, hsize⟩ := hX.counter_decode h
  have hascii := (hX.counter_text h).1
  refine parseCounter_eq_ok.2 ⟨?_, ?_, hsize.symm⟩
  · rw [isAscii_append, hascii, htail]
    rfl
  · rw [textOf_append, textOf_strBytes hascii]
    exact hX.append hdecode _

theorem GroupKind.code_text {kind : GroupKind} {table : CounterTable} {code : String}
    (h : kind.code table = some code) :
    (strBytes code).head? = some dash ∧ (strBytes code).length = 2 := by
  cases table <;> cases kind <;>
    first
      | (rw [← Option.some_inj.1 h]; decide)
      | cases h

/-- A counter of a group starts like one, and counts with two digits. -/
theorem counterQb64_shape (hX : CesrLaws X) {kind : GroupKind} {table : CounterTable}
    {code qb64 : String} {count : ℕ} (hcode : kind.code table = some code)
    (h : X.cesr.counterQb64 ⟨code, count⟩ = .ok qb64) :
    isAscii (strBytes qb64) = true ∧ (strBytes qb64).head? = some dash ∧
      count < maxAttachmentCount := by
  obtain ⟨hascii, hdash⟩ := hX.counter_text h
  obtain ⟨hhead, hlen⟩ := GroupKind.code_text hcode
  exact ⟨hascii, hdash hhead, hX.counter_small h hlen⟩

theorem counterBytes_eq_ok {kind : GroupKind} {count : ℕ} {bytes : Bytes} :
    counterBytes X kind count = .ok bytes ↔ ∃ code qb64, kind.code .v1 = some code ∧
      X.cesr.counterQb64 ⟨code, count⟩ = .ok qb64 ∧ strBytes qb64 = bytes := by
  simp only [counterBytes, bind_eq_ok, okOr_eq_ok, pure_eq_ok]
  constructor
  · rintro ⟨code, hcode, qb64, hqb64, rfl⟩
    exact ⟨code, qb64, hcode, hqb64, rfl⟩
  · rintro ⟨code, qb64, hcode, hqb64, rfl⟩
    exact ⟨code, hcode, qb64, hqb64, rfl⟩

theorem parseCounter_bytes (hX : CesrLaws X) {kind : GroupKind} {count : ℕ} {bytes : Bytes}
    (h : counterBytes X kind count = .ok bytes) {tail : Bytes} (htail : isAscii tail = true) :
    ∃ code, GroupKind.classify code .v1 = some kind ∧
      parseCounter X (bytes ++ tail) = .ok (⟨code, count⟩, bytes.length) := by
  obtain ⟨code, qb64, hcode, hqb64, rfl⟩ := counterBytes_eq_ok.1 h
  exact ⟨code, GroupKind.classify_code hcode, parseCounter_qb64 hX hqb64 htail⟩

theorem counterBytes_shape (hX : CesrLaws X) {kind : GroupKind} {count : ℕ} {bytes : Bytes}
    (h : counterBytes X kind count = .ok bytes) :
    isAscii bytes = true ∧ bytes.head? = some dash ∧ count < maxAttachmentCount := by
  obtain ⟨code, qb64, hcode, hqb64, rfl⟩ := counterBytes_eq_ok.1 h
  exact counterQb64_shape hX hcode hqb64

/-- What is checked before a group is read holds of a list of encodings. -/
theorem checkGroup_flatMap {α : Type} {enc : α → Bytes} {xs : List α} (what : String)
    {perItem : ℕ} (hmin : ∀ x ∈ xs, perItem ≤ (enc x).length)
    (hascii : ∀ x ∈ xs, isAscii (enc x) = true) (hcount : xs.length < maxAttachmentCount)
    {tail : Bytes} (htail : isAscii tail = true) :
    checkGroup what perItem xs.length (xs.flatMap enc ++ tail) = .ok ⟨⟩ := by
  have hlen := length_flatMap_ge hmin
  refine checkGroup_eq_ok.2 ⟨hcount.le, ?_, ?_⟩
  · rw [List.length_append]
    omega
  · rw [isAscii_append, isAscii_flatMap hascii, htail]
    rfl

theorem parseIndexedSigs_flatMap (hX : CesrLaws X) {sigs : List (IndexedSig X)}
    (hcount : sigs.length < maxAttachmentCount) {tail : Bytes} (htail : isAscii tail = true) :
    parseIndexedSigs X sigs.length (sigs.flatMap IndexedSig.bytes ++ tail) =
      .ok (sigs.map (·.siger), (sigs.flatMap IndexedSig.bytes).length) := by
  unfold parseIndexedSigs
  rw [checkGroup_flatMap _ (fun s _ => s.min_le) (fun s _ => s.isAscii_bytes hX) hcount htail,
    ok_bind]
  exact times_flatMap (fun s _ i rest => parseIndexedSig_bytes hX s sigs.length i rest) 0 tail

theorem couple_min_le (c : Primitive X × Primitive X) :
    minPrimitiveSize * 2 ≤ (c.1.bytes ++ c.2.bytes).length := by
  have h₁ := c.1.min_le
  have h₂ := c.2.min_le
  rw [List.length_append]
  omega

theorem couple_isAscii (hX : CesrLaws X) (c : Primitive X × Primitive X) :
    isAscii (c.1.bytes ++ c.2.bytes) = true := by
  rw [isAscii_append, c.1.isAscii_bytes hX, c.2.isAscii_bytes hX]
  rfl

theorem parseReceiptCouples_flatMap (hX : CesrLaws X)
    {couples : List (Primitive X × Primitive X)} (hcount : couples.length < maxAttachmentCount)
    {tail : Bytes} (htail : isAscii tail = true) :
    parseReceiptCouples X couples.length
        (couples.flatMap (fun c => c.1.bytes ++ c.2.bytes) ++ tail) =
      .ok (couples.map fun c => (c.1.qb64, c.2.matter.raw),
        (couples.flatMap fun c => c.1.bytes ++ c.2.bytes).length) := by
  unfold parseReceiptCouples
  rw [checkGroup_flatMap _ (fun c _ => couple_min_le c) (fun c _ => couple_isAscii hX c) hcount
    htail, ok_bind]
  exact times_flatMap (fun c _ i rest => parseReceiptCouple_bytes hX c.1 c.2 i rest) 0 tail

theorem parseQb64Pairs_flatMap (hX : CesrLaws X) {couples : List (Primitive X × Primitive X)}
    (hcount : couples.length < maxAttachmentCount) {tail : Bytes}
    (htail : isAscii tail = true) :
    parseQb64Pairs X couples.length
        (couples.flatMap (fun c => c.1.bytes ++ c.2.bytes) ++ tail) =
      .ok (couples.map fun c => (c.1.qb64, c.2.qb64),
        (couples.flatMap fun c => c.1.bytes ++ c.2.bytes).length) := by
  unfold parseQb64Pairs
  rw [checkGroup_flatMap _ (fun c _ => couple_min_le c) (fun c _ => couple_isAscii hX c) hcount
    htail, ok_bind]
  exact times_flatMap (fun c _ i rest => parsePair_bytes hX c.1 c.2 _ _ i rest) 0 tail

/-! ### The loop without its fuel -/

theorem parseAttachments_of_ne {table : CounterTable} {strict : Bool} {data : Bytes}
    (h : data.head? ≠ some dash) : parseAttachments X table strict data = .ok ([], 0) :=
  parseAttachmentsFrom_of_ne h

/-- One turn of the loop, which goes on with the loop itself. -/
theorem parseAttachments_eq_ok (hX : CounterLaws X) {table : CounterTable} {strict : Bool}
    {data : Bytes} {counter : Counter} {size : ℕ} (hdash : data.head? = some dash)
    (hc : parseCounter X data = .ok (counter, size)) {atts : List Attachment} {n : ℕ} :
    parseAttachments X table strict data = .ok (atts, n) ↔ ∃ group consumed more rest,
      parseGroup X (parseAttachments X table strict) table strict counter (data.drop size) =
        .ok (group, consumed) ∧
      parseAttachments X table strict (data.drop (size + consumed)) = .ok (more, rest) ∧
      atts = group ++ more ∧ n = size + consumed + rest := by
  obtain ⟨hpos, hle⟩ := parseCounter_le hX hc
  have hfuel : ∀ k d, d = data.drop (size + k) →
      parseAttachmentsFrom X table strict data.length d = parseAttachments X table strict d := by
    intro k d hd
    refine parseAttachmentsFrom_fuel hX ?_ (Nat.lt_succ_self _)
    rw [hd, List.length_drop]
    omega
  have hgroup : parseGroup X (parseAttachmentsFrom X table strict data.length) table strict
      counter (data.drop size) =
      parseGroup X (parseAttachments X table strict) table strict counter (data.drop size) := by
    refine parseGroup_congr (N := (data.drop size).length) (fun d hd => ?_) table strict counter
      le_rfl
    refine parseAttachmentsFrom_fuel hX ?_ (Nat.lt_succ_self _)
    rw [List.length_drop] at hd
    omega
  have hturn : parseAttachmentsFrom X table strict (data.length + 1) data = .ok (atts, n) ↔ _ :=
    parseAttachmentsFrom_succ_eq_ok hdash
  unfold parseAttachments at hfuel ⊢
  rw [hturn]
  constructor
  · intro h
    obtain ⟨counter', size', group, consumed, more, rest, hc', hg, hm, hatts, hn⟩ := h
    obtain ⟨rfl, rfl⟩ := Prod.mk.inj (Except.ok.inj (hc.symm.trans hc'))
    rw [hfuel _ _ rfl] at hm
    exact ⟨group, consumed, more, rest, hgroup ▸ hg, hm, hatts, hn⟩
  · intro h
    obtain ⟨group, consumed, more, rest, hg, hm, hatts, hn⟩ := h
    refine ⟨counter, size, group, consumed, more, rest, hc, ?_, ?_, hatts, hn⟩
    · rw [hgroup]
      exact hg
    · rw [hfuel _ _ rfl]
      exact hm

/-- A group that is written with its counter, in front of ASCII. -/
theorem parseAttachments_counter (hX : CesrLaws X) {kind : GroupKind} {count : ℕ}
    {bytes : Bytes} (h : counterBytes X kind count = .ok bytes) {data : Bytes}
    (hdata : isAscii data = true) :
    ∃ code, GroupKind.classify code .v1 = some kind ∧ ∀ atts n,
      parseAttachments X .v1 true (bytes ++ data) = .ok (atts, n) ↔
        ∃ group consumed more rest,
        parseGroup X (parseAttachments X .v1 true) .v1 true ⟨code, count⟩ data =
          .ok (group, consumed) ∧
        parseAttachments X .v1 true (data.drop consumed) = .ok (more, rest) ∧
        atts = group ++ more ∧ n = bytes.length + consumed + rest := by
  obtain ⟨code, hkind, hc⟩ := parseCounter_bytes hX h hdata
  obtain ⟨-, hhead, -⟩ := counterBytes_shape hX h
  refine ⟨code, hkind, fun atts n => ?_⟩
  have hdash : (bytes ++ data).head? = some dash := by
    rw [List.head?_append, hhead]
    rfl
  have hdrop : ∀ k, (bytes ++ data).drop (bytes.length + k) = data.drop k := by
    intro k
    rw [← List.drop_drop, List.drop_left]
  rw [parseAttachments_eq_ok hX.toCounterLaws hdash hc, List.drop_left]
  simp only [hdrop]

/-- A group whose reading does not depend on what follows it. -/
theorem parseAttachments_plain (hX : CesrLaws X) {kind : GroupKind} {count : ℕ}
    {bytes body tail : Bytes} (h : counterBytes X kind count = .ok bytes) {group : Attachment}
    (hbody : isAscii body = true) (htail : isAscii tail = true)
    (hread : ∀ code, GroupKind.classify code .v1 = some kind →
      parseGroup X (parseAttachments X .v1 true) .v1 true ⟨code, count⟩ (body ++ tail) =
        .ok ([group], body.length)) (atts : List Attachment) (n : ℕ) :
    parseAttachments X .v1 true (bytes ++ body ++ tail) = .ok (atts, n) ↔ ∃ more rest,
      parseAttachments X .v1 true tail = .ok (more, rest) ∧
      atts = group :: more ∧ n = (bytes ++ body).length + rest := by
  have hdata : isAscii (body ++ tail) = true := by
    rw [isAscii_append, hbody, htail]
    rfl
  obtain ⟨code, hkind, hiff⟩ := parseAttachments_counter hX h hdata
  rw [List.append_assoc, hiff, hread code hkind]
  constructor
  · intro h
    obtain ⟨group', consumed, more, rest, hg, hm, hatts, hn⟩ := h
    obtain ⟨rfl, rfl⟩ := Prod.mk.inj (Except.ok.inj hg)
    rw [List.drop_left] at hm
    exact ⟨more, rest, hm, hatts, by rw [hn, List.length_append]⟩
  · intro h
    obtain ⟨more, rest, hm, hatts, hn⟩ := h
    refine ⟨[group], body.length, more, rest, rfl, ?_, hatts, ?_⟩
    · rw [List.drop_left]
      exact hm
    · rw [hn, List.length_append]

theorem sigsBytes_eq_ok {kind : GroupKind} {sigs : List (IndexedSig X)} {bytes : Bytes} :
    sigsBytes X kind sigs = .ok bytes ↔ ∃ counter, counterBytes X kind sigs.length = .ok counter ∧
      counter ++ sigs.flatMap IndexedSig.bytes = bytes := by
  simp only [sigsBytes, bind_eq_ok, pure_eq_ok]

theorem couplesBytes_eq_ok {kind : GroupKind} {couples : List (Primitive X × Primitive X)}
    {bytes : Bytes} :
    couplesBytes X kind couples = .ok bytes ↔ ∃ counter,
      counterBytes X kind couples.length = .ok counter ∧
      counter ++ (couples.flatMap fun c => c.1.bytes ++ c.2.bytes) = bytes := by
  simp only [couplesBytes, bind_eq_ok, pure_eq_ok]

theorem isAscii_sigs (hX : CesrLaws X) (sigs : List (IndexedSig X)) :
    isAscii (sigs.flatMap IndexedSig.bytes) = true :=
  isAscii_flatMap fun s _ => s.isAscii_bytes hX

/-- Signatures of the controller, in front of ASCII. -/
theorem parseAttachments_controllerSigs (hX : CesrLaws X) {sigs : List (IndexedSig X)}
    {bytes tail : Bytes} (h : sigsBytes X .controllerIdxSigs sigs = .ok bytes)
    (htail : isAscii tail = true) (atts : List Attachment) (n : ℕ) :
    parseAttachments X .v1 true (bytes ++ tail) = .ok (atts, n) ↔ ∃ more rest,
      parseAttachments X .v1 true tail = .ok (more, rest) ∧
      atts = .controllerSigs (sigs.map (·.siger)) :: more ∧ n = bytes.length + rest := by
  obtain ⟨counter, hcounter, rfl⟩ := sigsBytes_eq_ok.1 h
  refine parseAttachments_plain hX hcounter (isAscii_sigs hX sigs) htail ?_ atts n
  intro code hkind
  unfold parseGroup
  simp only [hkind, parseIndexedSigs_flatMap hX (counterBytes_shape hX hcounter).2.2 htail,
    ok_bind]
  rfl

/-! ### Transferable signature groups -/

/-- An entry that has taken in more signatures. -/
def TransEntry.valueWith (e : TransEntry X) (extra : List Siger) : TransIdxSigGroup :=
  { e.value with sigs := e.sigs.map (·.siger) ++ extra }

theorem TransEntry.valueWith_nil (e : TransEntry X) : e.valueWith [] = e.value := by
  simp [valueWith, value]

/-- The entries of a group whose last one has taken in more signatures. -/
def absorb : List (TransEntry X) → List Siger → List TransIdxSigGroup
  | [], _ => []
  | [e], extra => [e.valueWith extra]
  | e :: e' :: es, extra => e.value :: absorb (e' :: es) extra

theorem absorb_nil (entries : List (TransEntry X)) :
    absorb entries [] = entries.map (·.value) := by
  induction entries with
  | nil => rfl
  | cons e es ih =>
      cases es with
      | nil => rw [absorb, e.valueWith_nil, List.map_cons, List.map_nil]
      | cons e' es =>
          rw [absorb, ih]
          rfl

theorem collectSigs_index {i : ℕ} (j : ℕ) {atts : List Attachment} {sigs : List Siger}
    (h : collectSigs X i atts = .ok sigs) : collectSigs X j atts = .ok sigs := by
  induction atts generalizing sigs with
  | nil => exact h
  | cons a atts ih =>
      cases a with
      | controllerSigs first =>
          simp only [collectSigs, bind_eq_ok, pure_eq_ok] at h ⊢
          obtain ⟨more, hmore, hsigs⟩ := h
          exact ⟨more, ih hmore, hsigs⟩
      | _ => cases h

theorem TransEntry.encode_eq_ok {e : TransEntry X} {bytes : Bytes} :
    e.encode X = .ok bytes ↔ ∃ sigs, sigsBytes X .controllerIdxSigs e.sigs = .ok sigs ∧
      e.pfx.bytes ++ (e.sn.bytes ++ e.said.bytes) ++ sigs = bytes := by
  simp only [encode, bind_eq_ok, pure_eq_ok]

theorem entriesBytes_cons_eq_ok {e : TransEntry X} {es : List (TransEntry X)} {bytes : Bytes} :
    entriesBytes X (e :: es) = .ok bytes ↔ ∃ first more, e.encode X = .ok first ∧
      entriesBytes X es = .ok more ∧ first ++ more = bytes := by
  simp only [entriesBytes, bind_eq_ok, pure_eq_ok]
  constructor
  · intro h
    obtain ⟨first, hfirst, more, hmore, heq⟩ := h
    exact ⟨first, more, hfirst, hmore, heq⟩
  · intro h
    obtain ⟨first, more, hfirst, hmore, heq⟩ := h
    exact ⟨first, hfirst, more, hmore, heq⟩

/-- An entry is ASCII and does not start like a counter. -/
theorem TransEntry.encode_shape (hX : CesrLaws X) {e : TransEntry X} {bytes : Bytes}
    (h : e.encode X = .ok bytes) :
    isAscii bytes = true ∧ ∀ tail, (bytes ++ tail).head? ≠ some dash := by
  obtain ⟨sigs, hsigs, rfl⟩ := TransEntry.encode_eq_ok.1 h
  obtain ⟨counter, hcounter, rfl⟩ := sigsBytes_eq_ok.1 hsigs
  obtain ⟨hascii, hhead, first, -, hfirst, -⟩ := hX.matter_coded e.pfx.encodes
  refine ⟨?_, fun tail => ?_⟩
  · simp only [isAscii_append, e.pfx.isAscii_bytes hX, e.sn.isAscii_bytes hX,
      e.said.isAscii_bytes hX, (counterBytes_shape hX hcounter).1, isAscii_sigs hX, Bool.and_self]
  · obtain ⟨b, bs, hbytes⟩ : ∃ b bs, strBytes e.pfx.qb64 = b :: bs := by
      cases hbytes : strBytes e.pfx.qb64 with
      | nil =>
          rw [hbytes] at hfirst
          cases hfirst
      | cons b bs => exact ⟨b, bs, rfl⟩
    rw [hbytes] at hhead
    unfold Primitive.bytes
    rw [hbytes]
    exact hhead

theorem entriesBytes_isAscii (hX : CesrLaws X) {entries : List (TransEntry X)} {bytes : Bytes}
    (h : entriesBytes X entries = .ok bytes) : isAscii bytes = true := by
  induction entries generalizing bytes with
  | nil =>
      rw [← pure_eq_ok.1 h]
      rfl
  | cons e es ih =>
      obtain ⟨first, more, hfirst, hmore, rfl⟩ := entriesBytes_cons_eq_ok.1 h
      rw [isAscii_append, (TransEntry.encode_shape hX hfirst).1, ih hmore]
      rfl

/-- An entry takes in the signatures of whatever groups follow it. -/
theorem parseTransIdxSigGroup_encode (hX : CesrLaws X) {e : TransEntry X} {bytes tail : Bytes}
    (h : e.encode X = .ok bytes) (htail : isAscii tail = true) (i : ℕ) (g : TransIdxSigGroup)
    (n : ℕ) :
    parseTransIdxSigGroup X (parseAttachments X .v1 true) i (bytes ++ tail) = .ok (g, n) ↔
      ∃ more rest extra, parseAttachments X .v1 true tail = .ok (more, rest) ∧
      collectSigs X 0 more = .ok extra ∧ g = e.valueWith extra ∧ n = bytes.length + rest := by
  obtain ⟨sigs, hsigs, rfl⟩ := TransEntry.encode_eq_ok.1 h
  have hhead := both_append
    (parseMatterQb64_bytes hX e.pfx "transferable sig group prefix" i _)
    (parsePair_bytes hX e.sn e.said "transferable sig group sn" "transferable sig group said" i
      (sigs ++ tail))
  rw [← List.append_assoc] at hhead
  rw [parseTransIdxSigGroup_eq_ok]
  constructor
  · intro h
    obtain ⟨k, inner, consumed, hboth, hnested, hcollect, -, hn⟩ := h
    obtain ⟨hvalue, rfl⟩ := Prod.mk.inj (Except.ok.inj (hhead.symm.trans hboth))
    rw [List.append_assoc, List.drop_left, parseAttachments_controllerSigs hX hsigs htail]
      at hnested
    obtain ⟨more, rest, hmore, rfl, rfl⟩ := hnested
    simp only [collectSigs, bind_eq_ok, pure_eq_ok] at hcollect
    obtain ⟨extra, hextra, hgsigs⟩ := hcollect
    refine ⟨more, rest, extra, hmore, collectSigs_index 0 hextra, ?_, ?_⟩
    · cases g
      obtain ⟨rfl, rfl, rfl⟩ := by simpa using hvalue
      simp only [TransEntry.valueWith, TransEntry.value] at hgsigs ⊢
      rw [hgsigs]
    · rw [hn]
      simp only [List.length_append]
      omega
  · intro h
    obtain ⟨more, rest, extra, hmore, hextra, rfl, rfl⟩ := h
    refine ⟨_, .controllerSigs (e.sigs.map (·.siger)) :: more, sigs.length + rest, hhead, ?_, ?_,
      ?_, ?_⟩
    · rw [List.append_assoc, List.drop_left, parseAttachments_controllerSigs hX hsigs htail]
      exact ⟨more, rest, hmore, rfl, rfl⟩
    · simp only [collectSigs, bind_eq_ok, pure_eq_ok]
      exact ⟨extra, collectSigs_index i hextra, rfl⟩
    · simp [TransEntry.valueWith, e.sigs_ne]
    · simp only [List.length_append]
      omega

/-- **The last entry of a group takes in the signatures of whatever groups follow.** -/
theorem times_entriesBytes (hX : CesrLaws X) {entries : List (TransEntry X)}
    (hne : entries ≠ []) {bytes tail : Bytes} (h : entriesBytes X entries = .ok bytes)
    (htail : isAscii tail = true) (i : ℕ) (gs : List TransIdxSigGroup) (n : ℕ) :
    times (parseTransIdxSigGroup X (parseAttachments X .v1 true)) i entries.length
      (bytes ++ tail) = .ok (gs, n) ↔
      ∃ more rest extra, parseAttachments X .v1 true tail = .ok (more, rest) ∧
      collectSigs X 0 more = .ok extra ∧ gs = absorb entries extra ∧ n = bytes.length + rest := by
  induction entries generalizing bytes i gs n with
  | nil => exact absurd rfl hne
  | cons e es ih =>
      obtain ⟨first, more, hfirst, hmore, rfl⟩ := entriesBytes_cons_eq_ok.1 h
      rw [List.length_cons, times_succ_eq_ok, List.append_assoc]
      cases es with
      | nil =>
          obtain rfl := pure_eq_ok.1 hmore
          simp only [List.nil_append, List.append_nil,
            parseTransIdxSigGroup_encode hX hfirst htail]
          constructor
          · intro h
            obtain ⟨g, k, _, _, ⟨atts, rest, extra, hatts, hextra, rfl, rfl⟩, hnil, rfl, rfl⟩ := h
            obtain ⟨rfl, rfl⟩ := Prod.mk.inj (Except.ok.inj hnil)
            exact ⟨atts, rest, extra, hatts, hextra, rfl, rfl⟩
          · intro h
            obtain ⟨atts, rest, extra, hatts, hextra, rfl, rfl⟩ := h
            exact ⟨_, _, [], 0, ⟨atts, rest, extra, hatts, hextra, rfl, rfl⟩, rfl, rfl, rfl⟩
      | cons e' es =>
          -- another entry follows, which does not start like a group
          have hascii : isAscii (more ++ tail) = true := by
            rw [isAscii_append, entriesBytes_isAscii hX hmore, htail]
            rfl
          have hstop : parseAttachments X .v1 true (more ++ tail) = .ok ([], 0) := by
            obtain ⟨second, more', hsecond, -, rfl⟩ := entriesBytes_cons_eq_ok.1 hmore
            rw [List.append_assoc]
            exact parseAttachments_of_ne ((TransEntry.encode_shape hX hsecond).2 _)
          have hentry : parseTransIdxSigGroup X (parseAttachments X .v1 true) i
              (first ++ (more ++ tail)) = .ok (e.value, first.length) :=
            (parseTransIdxSigGroup_encode hX hfirst hascii i _ _).2
              ⟨[], 0, [], hstop, rfl, e.valueWith_nil.symm, rfl⟩
          constructor
          · intro h
            obtain ⟨g, k, gs', k', hg, hgs, rfl, rfl⟩ := h
            obtain ⟨rfl, rfl⟩ := Prod.mk.inj (Except.ok.inj (hentry.symm.trans hg))
            rw [List.drop_left] at hgs
            obtain ⟨atts, rest, extra, hatts, hextra, rfl, rfl⟩ :=
              (ih (List.cons_ne_nil _ _) hmore (i + 1) _ _).1 hgs
            refine ⟨atts, rest, extra, hatts, hextra, rfl, ?_⟩
            rw [List.length_append]
            omega
          · intro h
            obtain ⟨atts, rest, extra, hatts, hextra, rfl, rfl⟩ := h
            refine ⟨e.value, first.length, absorb (e' :: es) extra, more.length + rest, hentry, ?_,
              rfl, ?_⟩
            · rw [List.drop_left]
              exact (ih (List.cons_ne_nil _ _) hmore (i + 1) _ _).2
                ⟨atts, rest, extra, hatts, hextra, rfl, rfl⟩
            · rw [List.length_append]
              omega

/-! ### Layouts -/

/-- What follows a group, once it is known whether the group takes it in. -/
def Group.andThen (g : Group X) (more : List Attachment) : Option (List Attachment) :=
  match g with
  | .transIdxSigGroups (e :: es) =>
      (collectSigs X 0 more).toOption.map fun extra =>
        [.transIdxSigGroups (absorb (e :: es) extra)]
  | g => some (g.attachment :: more)

/-- **What the parser makes of a layout**: a transferable group takes in the rest of its span, and
fails if there is anything but signatures in it. -/
def Layout.read : Layout X → Option (List Attachment)
  | .nil => some []
  | .group g rest => rest.read.bind g.andThen
  | .wrap inner rest => inner.read.bind fun first => rest.read.map fun more => first ++ more

theorem Layout.encode_group_eq_ok {g : Group X} {rest : Layout X} {bytes : Bytes} :
    (Layout.group g rest).encode X = .ok bytes ↔ ∃ first more, g.encode X = .ok first ∧
      rest.encode X = .ok more ∧ first ++ more = bytes := by
  simp only [encode, bind_eq_ok, pure_eq_ok]
  constructor
  · intro h
    obtain ⟨first, hfirst, more, hmore, heq⟩ := h
    exact ⟨first, more, hfirst, hmore, heq⟩
  · intro h
    obtain ⟨first, more, hfirst, hmore, heq⟩ := h
    exact ⟨first, hfirst, more, hmore, heq⟩

theorem Layout.encode_wrap_eq_ok {inner rest : Layout X} {bytes : Bytes} :
    (Layout.wrap inner rest).encode X = .ok bytes ↔ ∃ contents counter more,
      inner.encode X = .ok contents ∧ contents.length % 4 = 0 ∧
      counterBytes X .attachedMaterialQuadlets (contents.length / 4) = .ok counter ∧
      rest.encode X = .ok more ∧ counter ++ contents ++ more = bytes := by
  simp only [encode, bind_eq_ok, ensure_eq_ok, pure_eq_ok]
  constructor
  · intro h
    obtain ⟨contents, hcontents, -, haligned, counter, hcounter, more, hmore, heq⟩ := h
    exact ⟨contents, counter, more, hcontents, haligned, hcounter, hmore, heq⟩
  · intro h
    obtain ⟨contents, counter, more, hcontents, haligned, hcounter, hmore, heq⟩ := h
    exact ⟨contents, hcontents, ⟨⟩, haligned, counter, hcounter, more, hmore, heq⟩

theorem isAscii_couples (hX : CesrLaws X) (couples : List (Primitive X × Primitive X)) :
    isAscii (couples.flatMap fun c => c.1.bytes ++ c.2.bytes) = true :=
  isAscii_flatMap fun c _ => couple_isAscii hX c

theorem Group.encode_isAscii (hX : CesrLaws X) {g : Group X} {bytes : Bytes}
    (h : g.encode X = .ok bytes) : isAscii bytes = true := by
  have hsigs : ∀ {kind sigs bytes}, sigsBytes X kind sigs = .ok bytes →
      isAscii bytes = true := by
    intro kind sigs bytes h
    obtain ⟨counter, hcounter, rfl⟩ := sigsBytes_eq_ok.1 h
    rw [isAscii_append, (counterBytes_shape hX hcounter).1, isAscii_sigs hX]
    rfl
  have hcouples : ∀ {kind couples bytes}, couplesBytes X kind couples = .ok bytes →
      isAscii bytes = true := by
    intro kind couples bytes h
    obtain ⟨counter, hcounter, rfl⟩ := couplesBytes_eq_ok.1 h
    rw [isAscii_append, (counterBytes_shape hX hcounter).1, isAscii_couples hX]
    rfl
  cases g with
  | controllerSigs sigs => exact hsigs h
  | witnessSigs sigs => exact hsigs h
  | receiptCouples couples => exact hcouples h
  | firstSeenReplayCouples couples => exact hcouples h
  | sealSourceCouples couples => exact hcouples h
  | transIdxSigGroups entries =>
      simp only [encode, bind_eq_ok, pure_eq_ok] at h
      obtain ⟨counter, hcounter, body, hbody, rfl⟩ := h
      rw [isAscii_append, (counterBytes_shape hX hcounter).1, entriesBytes_isAscii hX hbody]
      rfl

theorem Layout.encode_isAscii (hX : CesrLaws X) {l : Layout X} {bytes : Bytes}
    (h : l.encode X = .ok bytes) : isAscii bytes = true := by
  induction l generalizing bytes with
  | nil =>
      rw [← pure_eq_ok.1 h]
      rfl
  | group g rest ih =>
      obtain ⟨first, more, hfirst, hmore, rfl⟩ := encode_group_eq_ok.1 h
      rw [isAscii_append, Group.encode_isAscii hX hfirst, ih hmore]
      rfl
  | wrap inner rest ih₁ ih₂ =>
      obtain ⟨contents, counter, more, hcontents, -, hcounter, hmore, rfl⟩ :=
        encode_wrap_eq_ok.1 h
      simp only [isAscii_append, (counterBytes_shape hX hcounter).1, ih₁ hcontents, ih₂ hmore,
        Bool.and_self]

/-- A group that is not transferable, or has no entries, is read on its own. -/
theorem parseAttachments_group (hX : CesrLaws X) {g : Group X} {bytes tail : Bytes}
    (h : g.encode X = .ok bytes) (hg : ∀ e es, g ≠ .transIdxSigGroups (e :: es))
    (htail : isAscii tail = true) (atts : List Attachment) (n : ℕ) :
    parseAttachments X .v1 true (bytes ++ tail) = .ok (atts, n) ↔ ∃ more rest,
      parseAttachments X .v1 true tail = .ok (more, rest) ∧
      atts = g.attachment :: more ∧ n = bytes.length + rest := by
  cases g with
  | controllerSigs sigs => exact parseAttachments_controllerSigs hX h htail atts n
  | witnessSigs sigs =>
      obtain ⟨counter, hcounter, rfl⟩ := sigsBytes_eq_ok.1 h
      refine parseAttachments_plain hX hcounter (isAscii_sigs hX sigs) htail ?_ atts n
      intro code hkind
      unfold parseGroup
      simp only [hkind, ok_bind,
        parseIndexedSigs_flatMap hX (counterBytes_shape hX hcounter).2.2 htail]
      rfl
  | receiptCouples couples =>
      obtain ⟨counter, hcounter, rfl⟩ := couplesBytes_eq_ok.1 h
      refine parseAttachments_plain hX hcounter (isAscii_couples hX couples) htail ?_ atts n
      intro code hkind
      unfold parseGroup
      simp only [hkind, ok_bind,
        parseReceiptCouples_flatMap hX (counterBytes_shape hX hcounter).2.2 htail]
      rfl
  | firstSeenReplayCouples couples =>
      obtain ⟨counter, hcounter, rfl⟩ := couplesBytes_eq_ok.1 h
      refine parseAttachments_plain hX hcounter (isAscii_couples hX couples) htail ?_ atts n
      intro code hkind
      unfold parseGroup
      simp only [hkind, ok_bind,
        parseQb64Pairs_flatMap hX (counterBytes_shape hX hcounter).2.2 htail]
      rfl
  | sealSourceCouples couples =>
      obtain ⟨counter, hcounter, rfl⟩ := couplesBytes_eq_ok.1 h
      refine parseAttachments_plain hX hcounter (isAscii_couples hX couples) htail ?_ atts n
      intro code hkind
      unfold parseGroup
      simp only [hkind, ok_bind,
        parseQb64Pairs_flatMap hX (counterBytes_shape hX hcounter).2.2 htail]
      rfl
  | transIdxSigGroups entries =>
      cases entries with
      | cons e es => exact absurd rfl (hg e es)
      | nil =>
          simp only [Group.encode, bind_eq_ok, pure_eq_ok] at h
          obtain ⟨counter, hcounter, body, hbody, rfl⟩ := h
          obtain rfl := pure_eq_ok.1 hbody
          refine parseAttachments_plain hX hcounter rfl htail ?_ atts n
          intro code hkind
          have hcheck : checkGroup "transferable sig group" 0 0 tail = .ok ⟨⟩ :=
            checkGroup_eq_ok.2 ⟨Nat.zero_le _, by omega, htail⟩
          unfold parseGroup
          simp only [hkind, List.length_nil, List.nil_append, parseTransIdxSigGroups, hcheck,
            ok_bind]
          rfl

/-- A transferable group with entries takes in what follows it. -/
theorem parseAttachments_trans (hX : CesrLaws X) {e : TransEntry X} {es : List (TransEntry X)}
    {bytes tail : Bytes} (h : (Group.transIdxSigGroups (e :: es)).encode X = .ok bytes)
    (htail : isAscii tail = true)
    (hall : ∀ more rest, parseAttachments X .v1 true tail = .ok (more, rest) →
      rest = tail.length) (atts : List Attachment) (n : ℕ) :
    parseAttachments X .v1 true (bytes ++ tail) = .ok (atts, n) ↔ ∃ more rest extra,
      parseAttachments X .v1 true tail = .ok (more, rest) ∧ collectSigs X 0 more = .ok extra ∧
      atts = [.transIdxSigGroups (absorb (e :: es) extra)] ∧ n = bytes.length + rest := by
  simp only [Group.encode, bind_eq_ok, pure_eq_ok] at h
  obtain ⟨counter, hcounter, body, hbody, rfl⟩ := h
  have hdata : isAscii (body ++ tail) = true := by
    rw [isAscii_append, entriesBytes_isAscii hX hbody, htail]
    rfl
  obtain ⟨code, hkind, hiff⟩ := parseAttachments_counter hX hcounter hdata
  have hcheck : checkGroup "transferable sig group" 0 (e :: es).length (body ++ tail) =
      .ok ⟨⟩ :=
    checkGroup_eq_ok.2 ⟨(counterBytes_shape hX hcounter).2.2.le, by omega, hdata⟩
  have hgroup : ∀ group consumed,
      parseGroup X (parseAttachments X .v1 true) .v1 true ⟨code, (e :: es).length⟩
        (body ++ tail) = .ok (group, consumed) ↔ ∃ more rest extra,
        parseAttachments X .v1 true tail = .ok (more, rest) ∧ collectSigs X 0 more = .ok extra ∧
        group = [.transIdxSigGroups (absorb (e :: es) extra)] ∧
        consumed = body.length + rest := by
    intro group consumed
    unfold parseGroup
    simp only [hkind, parseTransIdxSigGroups, hcheck, ok_bind, bind_eq_ok, pure_eq_ok,
      Prod.exists, Prod.mk.injEq, times_entriesBytes hX (List.cons_ne_nil _ _) hbody htail]
    constructor
    · intro h
      obtain ⟨_, _, ⟨more, rest, extra, hmore, hextra, rfl, rfl⟩, rfl, rfl⟩ := h
      exact ⟨more, rest, extra, hmore, hextra, rfl, rfl⟩
    · intro h
      obtain ⟨more, rest, extra, hmore, hextra, rfl, rfl⟩ := h
      exact ⟨_, _, ⟨more, rest, extra, hmore, hextra, rfl, rfl⟩, rfl, rfl⟩
  -- after the group nothing is left, so the loop stops
  have hend : ∀ rest, rest = tail.length → (body ++ tail).drop (body.length + rest) = [] := by
    intro rest hrest
    rw [List.drop_eq_nil_of_le]
    rw [List.length_append, hrest]
  have hnil : parseAttachments X .v1 true [] = .ok ([], 0) := rfl
  rw [List.append_assoc, hiff]
  simp only [hgroup]
  constructor
  · intro h
    obtain ⟨_, _, _, _, ⟨more, rest, extra, hmore, hextra, rfl, rfl⟩, hstop, rfl, rfl⟩ := h
    rw [hend rest (hall more rest hmore), hnil] at hstop
    obtain ⟨rfl, rfl⟩ := Prod.mk.inj (Except.ok.inj hstop)
    refine ⟨more, rest, extra, hmore, hextra, List.append_nil _, ?_⟩
    simp only [List.length_append]
    omega
  · intro h
    obtain ⟨more, rest, extra, hmore, hextra, rfl, rfl⟩ := h
    refine ⟨_, _, [], 0, ⟨more, rest, extra, hmore, hextra, rfl, rfl⟩, ?_,
      (List.append_nil _).symm, ?_⟩
    · rw [hend rest (hall more rest hmore)]
      exact hnil
    · simp only [List.length_append]
      omega

/-- A wrapper is read in its own span, and then the rest. -/
theorem parseAttachments_wrap (hX : CesrLaws X) {counter contents tail : Bytes}
    (hcounter : counterBytes X .attachedMaterialQuadlets (contents.length / 4) = .ok counter)
    (haligned : contents.length % 4 = 0) (hcontents : isAscii contents = true)
    (htail : isAscii tail = true) (atts : List Attachment) (n : ℕ) :
    parseAttachments X .v1 true (counter ++ contents ++ tail) = .ok (atts, n) ↔
      ∃ inner more rest, parseAttachments X .v1 true contents = .ok (inner, contents.length) ∧
      parseAttachments X .v1 true tail = .ok (more, rest) ∧ atts = inner ++ more ∧
      n = (counter ++ contents).length + rest := by
  have hdata : isAscii (contents ++ tail) = true := by
    rw [isAscii_append, hcontents, htail]
    rfl
  have hcount : contents.length / 4 * 4 = contents.length := by omega
  have hbound : contents.length < u64Bound := by
    have := (counterBytes_shape hX hcounter).2.2
    unfold maxAttachmentCount at this
    unfold u64Bound
    omega
  obtain ⟨code, hkind, hiff⟩ := parseAttachments_counter hX hcounter hdata
  rw [List.append_assoc, hiff]
  have hgroup : ∀ group consumed,
      parseGroup X (parseAttachments X .v1 true) .v1 true ⟨code, contents.length / 4⟩
        (contents ++ tail) = .ok (group, consumed) ↔
      parseAttachments X .v1 true contents = .ok (group, contents.length) ∧
        consumed = contents.length := by
    intro group consumed
    unfold parseGroup
    simp only [hkind]
    rw [parseQuadlets_eq_ok, hcount, List.take_left]
    constructor
    · intro h
      exact ⟨h.2.2.1, h.2.2.2⟩
    · intro h
      refine ⟨hbound, ?_, h.1, h.2⟩
      rw [List.length_append]
      omega
  simp only [hgroup]
  constructor
  · intro h
    obtain ⟨inner, _, more, rest, ⟨hinner, rfl⟩, hmore, rfl, rfl⟩ := h
    rw [List.drop_left] at hmore
    exact ⟨inner, more, rest, hinner, hmore, rfl, by rw [List.length_append]⟩
  · intro h
    obtain ⟨inner, more, rest, hinner, hmore, rfl, rfl⟩ := h
    refine ⟨inner, contents.length, more, rest, ⟨hinner, rfl⟩, ?_, rfl, ?_⟩
    · rw [List.drop_left]
      exact hmore
    · rw [List.length_append]

theorem Group.andThen_of_ne {g : Group X} (hg : ∀ e es, g ≠ .transIdxSigGroups (e :: es))
    (more : List Attachment) : g.andThen more = some (g.attachment :: more) := by
  unfold andThen
  split
  · exact absurd rfl (hg _ _)
  · rfl

theorem Group.trans_or (g : Group X) :
    (∃ e es, g = .transIdxSigGroups (e :: es)) ∨ ∀ e es, g ≠ .transIdxSigGroups (e :: es) := by
  by_cases h : ∃ e es, g = .transIdxSigGroups (e :: es)
  · exact Or.inl h
  · exact Or.inr fun e es heq => h ⟨e, es, heq⟩

/-- **The parser computes `Layout.read`**, and uses all of the encoding. -/
theorem parseAttachments_encode (hX : CesrLaws X) {l : Layout X} {bytes : Bytes}
    (h : l.encode X = .ok bytes) (atts : List Attachment) (n : ℕ) :
    parseAttachments X .v1 true bytes = .ok (atts, n) ↔
      l.read = some atts ∧ n = bytes.length := by
  induction l generalizing bytes atts n with
  | nil =>
      obtain rfl := pure_eq_ok.1 h
      have hnil : parseAttachments X .v1 true [] = .ok ([], 0) := rfl
      rw [hnil, Layout.read, Except.ok.injEq, Prod.mk.injEq, Option.some_inj]
      exact and_congr_right fun _ => eq_comm
  | group g rest ih =>
      obtain ⟨first, more, hfirst, hmore, rfl⟩ := Layout.encode_group_eq_ok.1 h
      have htail := Layout.encode_isAscii hX hmore
      rw [Layout.read, Option.bind_eq_some_iff]
      rcases g.trans_or with htrans | hg
      · obtain ⟨e, es, rfl⟩ := htrans
        have hall : ∀ atts k, parseAttachments X .v1 true more = .ok (atts, k) →
            k = more.length := fun atts k hk => ((ih hmore atts k).1 hk).2
        rw [parseAttachments_trans hX hfirst htail hall]
        simp only [ih hmore, Group.andThen, Option.map_eq_some_iff]
        constructor
        · intro h
          obtain ⟨more', k, extra, ⟨hread, rfl⟩, hextra, rfl, rfl⟩ := h
          refine ⟨⟨more', hread, extra, ?_, rfl⟩, List.length_append.symm⟩
          rw [hextra]
          rfl
        · intro h
          obtain ⟨⟨more', hread, extra, hextra, rfl⟩, rfl⟩ := h
          refine ⟨more', more.length, extra, ⟨hread, rfl⟩, ?_, rfl, List.length_append⟩
          cases hcollect : collectSigs X 0 more' with
          | ok sigs =>
              rw [hcollect] at hextra
              exact congrArg Except.ok (Option.some_inj.1 hextra)
          | error e =>
              rw [hcollect] at hextra
              cases hextra
      · rw [parseAttachments_group hX hfirst hg htail]
        simp only [ih hmore, Group.andThen_of_ne hg, Option.some_inj]
        constructor
        · intro h
          obtain ⟨more', k, ⟨hread, rfl⟩, rfl, rfl⟩ := h
          exact ⟨⟨more', hread, rfl⟩, List.length_append.symm⟩
        · intro h
          obtain ⟨⟨more', hread, rfl⟩, rfl⟩ := h
          exact ⟨more', more.length, ⟨hread, rfl⟩, rfl, List.length_append⟩
  | wrap inner rest ih₁ ih₂ =>
      obtain ⟨contents, counter, more, hcontents, haligned, hcounter, hmore, rfl⟩ :=
        Layout.encode_wrap_eq_ok.1 h
      rw [parseAttachments_wrap hX hcounter haligned (Layout.encode_isAscii hX hcontents)
        (Layout.encode_isAscii hX hmore)]
      simp only [ih₁ hcontents, ih₂ hmore, and_true, Layout.read, Option.bind_eq_some_iff,
        Option.map_eq_some_iff]
      constructor
      · intro h
        obtain ⟨first, more', k, hfirst, ⟨hread, rfl⟩, rfl, rfl⟩ := h
        exact ⟨⟨first, hfirst, more', hread, rfl⟩, List.length_append.symm⟩
      · intro h
        obtain ⟨⟨first, hfirst, more', hread, rfl⟩, rfl⟩ := h
        exact ⟨first, more', more.length, hfirst, ⟨hread, rfl⟩, rfl, List.length_append⟩

/-! ### When groups are read one by one -/

/-- Every transferable group with entries is the last group of its span. -/
def Layout.Closed : Layout X → Prop
  | .nil => True
  | .group g rest =>
      ((∃ e es, g = .transIdxSigGroups (e :: es)) → rest.attachments = []) ∧ rest.Closed
  | .wrap inner rest => inner.Closed ∧ rest.Closed

/-- Without groups there is nothing to read. -/
theorem Layout.read_of_empty {l : Layout X} (h : l.attachments = []) :
    l.read = some [] ∧ l.Closed := by
  induction l with
  | nil => exact ⟨rfl, trivial⟩
  | group g rest ih => cases h
  | wrap inner rest ih₁ ih₂ =>
      obtain ⟨hinner, hrest⟩ := List.append_eq_nil_iff.1 h
      obtain ⟨hread₁, hclosed₁⟩ := ih₁ hinner
      obtain ⟨hread₂, hclosed₂⟩ := ih₂ hrest
      refine ⟨?_, hclosed₁, hclosed₂⟩
      rw [read, hread₁, hread₂]
      rfl

/-- Groups may be lost to the one before them, never invented. -/
theorem Layout.read_length {l : Layout X} {atts : List Attachment} (h : l.read = some atts) :
    atts.length ≤ l.attachments.length := by
  induction l generalizing atts with
  | nil =>
      rw [← Option.some_inj.1 h]
      exact le_rfl
  | group g rest ih =>
      rw [read, Option.bind_eq_some_iff] at h
      obtain ⟨more, hmore, h⟩ := h
      have hle := ih hmore
      rw [attachments, List.length_cons]
      rcases g.trans_or with htrans | hg
      · obtain ⟨e, es, rfl⟩ := htrans
        simp only [Group.andThen, Option.map_eq_some_iff] at h
        obtain ⟨extra, -, rfl⟩ := h
        rw [List.length_singleton]
        omega
      · rw [Group.andThen_of_ne hg, Option.some_inj] at h
        rw [← h, List.length_cons]
        omega
  | wrap inner rest ih₁ ih₂ =>
      rw [read, Option.bind_eq_some_iff] at h
      obtain ⟨first, hfirst, h⟩ := h
      obtain ⟨more, hmore, rfl⟩ := Option.map_eq_some_iff.1 h
      have hle₁ := ih₁ hfirst
      have hle₂ := ih₂ hmore
      rw [attachments, List.length_append, List.length_append]
      omega

/-- **The groups are read one by one exactly when every transferable group is the last of its
span.** -/
theorem Layout.read_eq_iff {l : Layout X} : l.read = some l.attachments ↔ l.Closed := by
  induction l with
  | nil => exact ⟨fun _ => trivial, fun _ => rfl⟩
  | group g rest ih =>
      rw [read, Option.bind_eq_some_iff, Closed, attachments]
      rcases g.trans_or with htrans | hg
      · obtain ⟨e, es, rfl⟩ := htrans
        constructor
        · intro h
          obtain ⟨more, hmore, h⟩ := h
          simp only [Group.andThen, Option.map_eq_some_iff, List.cons.injEq] at h
          obtain ⟨extra, -, -, hrest⟩ := h
          exact ⟨fun _ => hrest.symm, (read_of_empty hrest.symm).2⟩
        · intro h
          have hrest := h.1 ⟨e, es, rfl⟩
          refine ⟨[], (read_of_empty hrest).1, ?_⟩
          rw [hrest]
          simp only [Group.andThen, collectSigs, Except.toOption, Option.map_some, absorb_nil]
          rfl
      · simp only [Group.andThen_of_ne hg, Option.some_inj, List.cons.injEq, true_and]
        constructor
        · intro h
          obtain ⟨more, hmore, rfl⟩ := h
          exact ⟨fun htrans => absurd htrans.choose_spec.choose_spec (hg _ _), ih.1 hmore⟩
        · intro h
          exact ⟨_, ih.2 h.2, rfl⟩
  | wrap inner rest ih₁ ih₂ =>
      rw [read, Option.bind_eq_some_iff, Closed, attachments]
      constructor
      · intro h
        obtain ⟨first, hfirst, h⟩ := h
        obtain ⟨more, hmore, h⟩ := Option.map_eq_some_iff.1 h
        have hle₁ := read_length hfirst
        have hle₂ := read_length hmore
        have hlen := congrArg List.length h
        rw [List.length_append, List.length_append] at hlen
        obtain ⟨rfl, rfl⟩ := List.append_inj h (by omega)
        exact ⟨ih₁.1 hfirst, ih₂.1 hmore⟩
      · intro h
        refine ⟨_, ih₁.2 h.1, ?_⟩
        rw [ih₂.2 h.2]
        rfl

/-! ### Messages -/

/-- A body that is read in front of groups that are read to their end. -/
theorem parseNext_append {s : Serder} {first : UInt8} {body : Bytes} {atts : List Attachment}
    (hfirst : s.raw.head? = some first)
    (hstart : first = '{'.toUInt8 ∨ isCborStart first ∨ isMsgPackStart first)
    (hread : Serder.fromRaw X (s.raw ++ body) = .ok s)
    (hatts : parseAttachments X s.table true body = .ok (atts, body.length)) :
    parseNext X (s.raw ++ body) =
      .ok ({ serder := s, attachments := atts }, (s.raw ++ body).length) := by
  have hhead : (s.raw ++ body).head? = some first := by
    rw [List.head?_append, hfirst]
    rfl
  have hdrop : (s.raw ++ body).drop s.size = body := List.drop_left
  refine parseNextInner_eq_ok.2 ⟨first, hhead, hstart, body.length, hread, ?_, List.length_append⟩
  rw [hdrop]
  exact hatts

/-- A message is what its body and its groups are read as. -/
theorem parseNext_of_read (hX : CesrLaws X) {s : Serder} {v : Version} {first : UInt8}
    (hfirst : s.raw.head? = some first)
    (hstart : first = '{'.toUInt8 ∨ isCborStart first ∨ isMsgPackStart first)
    (hread : Serder.fromRaw X s.raw = .ok s) (hv : extractVersionFromRaw s.raw = some v)
    (htable : s.table = .v1) {l : Layout X} {bytes : Bytes} (h : l.encode X = .ok bytes)
    {atts : List Attachment} (hatts : l.read = some atts) :
    parseNext X (s.raw ++ bytes) =
      .ok ({ serder := s, attachments := atts }, (s.raw ++ bytes).length) := by
  refine parseNext_append hfirst hstart (Serder.fromRaw_append hread hv bytes) ?_
  rw [htable]
  exact (parseAttachments_encode hX h _ _).2 ⟨hatts, rfl⟩

/-- **When the groups of a message are read one by one.**  Behind a body of the first version that
is read on its own, the groups that are written are those that are read, in order and with nothing
left, exactly when every transferable group is the last of the message or of its wrapper. -/
theorem parseNext_encode_iff (hX : CesrLaws X) {s : Serder} {v : Version}
    (hbody : parseNext X s.raw = .ok ({ serder := s, attachments := [] }, s.raw.length))
    (hv : extractVersionFromRaw s.raw = some v) (htable : s.table = .v1) {l : Layout X}
    {bytes : Bytes} (h : l.encode X = .ok bytes) :
    parseNext X (s.raw ++ bytes) =
      .ok ({ serder := s, attachments := l.attachments }, (s.raw ++ bytes).length) ↔
      l.Closed := by
  obtain ⟨first, hfirst, hstart, _, hread, -, -⟩ := parseNextInner_eq_ok.1 hbody
  have hdrop : (s.raw ++ bytes).drop s.size = bytes := List.drop_left
  rw [← Layout.read_eq_iff]
  constructor
  · intro hparse
    obtain ⟨_, -, -, n, -, hatts, -⟩ := parseNextInner_eq_ok.1 hparse
    rw [htable, hdrop] at hatts
    exact ((parseAttachments_encode hX h _ _).1 hatts).1
  · intro hatts
    exact parseNext_of_read hX hfirst hstart hread hv htable h hatts

end

/-! ### An instance -/

/-- A text behind a code whose length its first character says. -/
theorem codedText_append {X : Externals} {code : String} {first : Char} {body : Bytes}
    (hcode : isAscii (strBytes code) = true) (hhead : (strBytes code).head? ≠ some dash)
    (hfirst : firstChar (strBytes code) = some first)
    (hhs : X.cesr.hardage first = some (strBytes code).length) (hbody : isAscii body = true) :
    CodedText X code (code ++ textOf body) := by
  unfold CodedText
  rw [strBytes_append, strBytes_textOf hbody]
  refine ⟨?_, ?_, first, _, firstChar_append hfirst body, hhs, ?_, ?_⟩
  · rw [isAscii_append, hcode, hbody]
    rfl
  · cases h : strBytes code with
    | nil =>
        rw [h] at hfirst
        cases hfirst
    | cons b bs =>
        rw [h] at hhead
        exact hhead
  · rw [List.length_append]
    omega
  · rw [List.take_left, textOf_strBytes hcode]

/-- The toy texts are as assumed. -/
theorem cesrLaws_toy (digest : Bytes → Bytes) : CesrLaws (Toy.externals digest) := by
  have hcodes : ∀ code ∈ ["A", "B", "D", "E", "0A", "0B"],
      isAscii (strBytes code) = true ∧ (strBytes code).head? ≠ some dash ∧
      ∃ first, firstChar (strBytes code) = some first ∧
        Toy.hardage first = some (strBytes code).length := by
    intro code hcode
    simp only [List.mem_cons, List.not_mem_nil, or_false] at hcode
    rcases hcode with rfl | rfl | rfl | rfl | rfl | rfl
    all_goals exact ⟨by decide, by decide, _, rfl, by decide⟩
  have hcoded : ∀ code ∈ ["A", "B", "D", "E", "0A", "0B"], ∀ body, isAscii body = true →
      CodedText (Toy.externals digest) code (code ++ textOf body) := by
    intro code hcode body hbody
    obtain ⟨hascii, hhead, first, hfirst, hhs⟩ := hcodes code hcode
    exact codedText_append hascii hhead hfirst hhs hbody
  constructor
  · exact counterLaws_toy digest
  · intro m qb64 h
    obtain ⟨hcode, body, hbody, rfl⟩ := Toy.matterQb64_eq_ok h
    exact hcoded m.code hcode body hbody
  · intro m qb64 h
    exact Toy.matterFromQb64_matterQb64 h
  · intro x qb64 h
    obtain ⟨-, hcode, body, hbody, rfl⟩ := Toy.indexerQb64_eq_ok h
    refine hcoded x.code ?_ body hbody
    simp only [List.mem_cons, List.not_mem_nil, or_false] at hcode
    rcases hcode with hcode | hcode
    · rw [hcode]
      exact List.mem_cons_self
    · rw [hcode]
      exact List.mem_cons_of_mem _ List.mem_cons_self
  · intro x qb64 h
    obtain ⟨hread, hcode, -⟩ := Toy.indexerQb64_eq_ok h
    exact ⟨hread, if_pos (by rw [Toy.indexerSizage, if_pos hcode]; rfl)⟩
  · intro c qb64 h
    obtain ⟨hread, -, -, bytes, -, hlen, hbytes, -⟩ := Toy.counterQb64_eq_ok h
    exact ⟨hread, by rw [hbytes, hlen]; rfl⟩
  · intro c qb64 h
    obtain ⟨-, -, -, bytes, hascii, -, hbytes, hhead⟩ := Toy.counterQb64_eq_ok h
    rw [hbytes]
    exact ⟨hascii, fun _ => hhead⟩
  · intro c qb64 h _
    exact (Toy.counterQb64_eq_ok h).2.1

/-- The text of key 1, which is also an identifier. -/
def toyKey : Primitive Toy.lib where
  matter := ⟨"D", Toy.seed 1⟩
  qb64 := Toy.keyText 1
  sizage := ⟨44⟩
  encodes := by decide +kernel
  known := by rfl
  fixed := by decide +kernel
  min := by decide

/-- A sequence number. -/
def toySn : Primitive Toy.lib where
  matter := ⟨"0A", List.replicate 16 0⟩
  qb64 := Toy.primitiveText "0A" (List.replicate 16 0)
  sizage := ⟨24⟩
  encodes := by decide +kernel
  known := by rfl
  fixed := by decide +kernel
  min := by decide

def toySig : IndexedSig Toy.lib where
  siger := Toy.siger 1 0 []
  qb64 := Toy.primitiveText "AA" (Toy.siger 1 0 []).raw
  sizage := ⟨88⟩
  encodes := by decide +kernel
  known := by rfl
  fixed := by decide +kernel
  min := by decide

def toyEntry : TransEntry Toy.lib where
  pfx := toyKey
  sn := toySn
  said := toyKey
  sigs := [toySig]
  sigs_ne := by decide

/-- Controller signatures, and after them a transferable signature group. -/
def toyLayout : Layout Toy.lib :=
  .group (.controllerSigs [toySig]) (.group (.transIdxSigGroups [toyEntry, toyEntry]) .nil)

/-- A transferable signature group, and after it controller signatures. -/
def toyOpen : Layout Toy.lib :=
  .group (.transIdxSigGroups [toyEntry]) (.group (.controllerSigs [toySig]) .nil)

/-- The inception without attachments is read on its own. -/
theorem toyAlone : ∃ v, parseNext Toy.lib Toy.icp.raw =
      .ok ({ serder := Toy.icp, attachments := [] }, Toy.icp.raw.length) ∧
    extractVersionFromRaw Toy.icp.raw = some v ∧ Toy.icp.table = .v1 := by
  obtain ⟨v, hv⟩ := Option.isSome_iff_exists.1
    (show (extractVersionFromRaw Toy.icp.raw).isSome = true by decide +kernel)
  exact ⟨v, by decide +kernel, hv, by decide +kernel⟩

theorem parseNext_encode_toy : ∃ bytes, toyLayout.encode Toy.lib = .ok bytes ∧
    (parseNext Toy.lib (Toy.icp.raw ++ bytes) =
      .ok ({ serder := Toy.icp, attachments := toyLayout.attachments },
        (Toy.icp.raw ++ bytes).length) ↔ toyLayout.Closed) ∧ toyLayout.Closed := by
  obtain ⟨v, hbody, hv, htable⟩ := toyAlone
  obtain ⟨bytes, hbytes, -⟩ := exists_ok_of_any (x := toyLayout.encode Toy.lib)
    (p := fun _ => true) (by decide +kernel)
  refine ⟨bytes, hbytes, parseNext_encode_iff (cesrLaws_toy _) hbody hv htable hbytes, ?_⟩
  refine ⟨fun htrans => ?_, fun _ => rfl, trivial⟩
  obtain ⟨e, es, h⟩ := htrans
  cases h

/-- The signatures that follow a transferable group are taken for its own. -/
theorem group_swallowed :
    ¬ ∀ (X : Externals), CesrLaws X → ∀ (s : Serder) (v : Version),
      parseNext X s.raw = .ok ({ serder := s, attachments := [] }, s.raw.length) →
      extractVersionFromRaw s.raw = some v → s.table = .v1 →
      ∀ (l : Layout X) (bytes : Bytes), l.encode X = .ok bytes →
      parseNext X (s.raw ++ bytes) =
        .ok ({ serder := s, attachments := l.attachments }, (s.raw ++ bytes).length) := by
  intro hclaim
  obtain ⟨v, hbody, hv, htable⟩ := toyAlone
  obtain ⟨bytes, hbytes, h⟩ := exists_ok_of_any (x := toyOpen.encode Toy.lib)
    (p := fun bytes => (parseNext Toy.lib (Toy.icp.raw ++ bytes)).toOption.any fun m =>
      m.1.attachments.length = 1) (by decide +kernel)
  have hwhole := hclaim Toy.lib (cesrLaws_toy _) _ v hbody hv htable toyOpen bytes hbytes
  rw [hwhole] at h
  cases h

end Keri
