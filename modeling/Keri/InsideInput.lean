/-
**The parser terminates and stays inside its input.**

The sizes and counts that the parser computes its offsets from are declared by the sender of the
stream.  None of them makes it leave its buffer, cut a character, run over a machine word, call
itself on a span that is not shorter or go on for ever: the parser with its offsets agrees with the
parser that is handed what is left, function by function, and the offset that it reaches is where it
began, moved by what that one has used.

* `Keri.ParserLaws` — what is assumed of the crates under the parser;
* `Keri.fromRaw_agrees`, `Keri.parseMatterQb64_agrees`, `Keri.parseIndexedSigs_agrees` — bodies and
  primitives;
* `Keri.parseGroup_bounded`, `Keri.parseAttachmentsFrom_bounded` — no more is used than there is;
* `Keri.parseGroup_agrees`, `Keri.parseAttachmentsFrom_agrees` — **groups, and the two kinds that
  hold groups again**;
* `Keri.parseNextInner_agrees`, `Keri.parseAllInner_agrees` — **messages**;
* `Keri.parser_stays_inside` — **no fault, and a message is inside of what has been read**.
-/

import Keri.Offsets
import Keri.ParserStream

set_option relaxedAutoImplicit false
set_option autoImplicit false

namespace Keri

open Outcome Reader Checked

variable (X : Externals)

/-- The bound that the language has on the bytes of a slice, of which there are at most
`isize::MAX`. -/
def sliceBound : ℕ := 2 ^ 63

/-- What is assumed of the crates under the parser: a counter has at least one character and is no
longer than the text that it is read from, the sizes in the code tables are sizes of slices, and
there is no value in no bytes. -/
structure ParserLaws : Prop where
  fullSize_pos : ∀ {text : String} {c : Counter}, X.cesr.counterFromQb64 text = .ok c →
    0 < X.cesr.counterFullSize c
  fullSize_le : ∀ {text : String} {c : Counter}, X.cesr.counterFromQb64 text = .ok c →
    X.cesr.counterFullSize c ≤ (strBytes text).length
  hardage_lt : ∀ {first : Char} {hs : ℕ}, X.cesr.hardage first = some hs → hs < sliceBound
  indexer_lt : ∀ {code : String} {sizage : Sizage}, X.cesr.indexerSizage code = some sizage →
    sizage.fs < sliceBound
  no_empty : ∀ (kind : SerializationKind) (v : Value), deserializeValue X [] kind ≠ .ok v

variable {X}

/-- Two sizes of slices have a sum that is a machine word. -/
theorem add_lt_wordBound {m n : ℕ} (hm : m < sliceBound) (hn : n < sliceBound) :
    m + n < wordBound := by
  unfold sliceBound at hm hn
  unfold wordBound
  omega

theorem lt_wordBound {m n : ℕ} (h : m ≤ n) (hn : n < sliceBound) : m < wordBound := by
  unfold sliceBound at hn
  unfold wordBound
  omega

/-! ### Text -/

theorem fromUtf8_ascii {bytes : Bytes} (h : isAscii bytes = true) :
    fromUtf8 bytes = some (textOf bytes) := by
  rw [← fromUtf8_strBytes (textOf bytes), strBytes_textOf h]

theorem text_ascii {bytes : Bytes} (h : isAscii bytes = true) :
    Offsets.text bytes = textOf bytes := by
  rw [Offsets.text, fromUtf8_ascii h, Option.getD_some]

theorem firstChar_ascii {bytes : Bytes} (h : isAscii bytes = true) :
    Offsets.firstChar bytes = firstChar bytes := by
  rw [Offsets.firstChar, text_ascii h, textOf, String.toList_ofList, List.head?_map]
  rfl

theorem lt_of_isAscii {bytes : Bytes} (h : isAscii bytes = true) : ∀ b ∈ bytes, b < 128 := by
  intro b hb
  exact of_decide_eq_true (List.all_eq_true.1 h b hb)

/-! ### Bodies -/

/-- A slice of a version string that has been found to be ASCII. -/
theorem versionSlice {vs : Bytes} (hlen : keriVerFullsize ≤ vs.length)
    (hascii : isAscii (vs.take keriVerFullsize) = true) {a b : ℕ} (hab : a ≤ b)
    (hb : b < keriVerFullsize) :
    (strSlice vs a b : Offsets.Run Bytes) = .ok ((vs.drop a).take (b - a)) ∧
      Offsets.text ((vs.drop a).take (b - a)) = textOf ((vs.drop a).take (b - a)) := by
  have hbyte : ∀ i < keriVerFullsize, ∀ c, vs[i]? = some c → c < 128 := by
    intro i hi c hc
    have hmem : c ∈ vs.take keriVerFullsize :=
      List.mem_of_getElem? ((List.getElem?_take_of_lt hi).trans hc)
    exact lt_of_isAscii hascii c hmem
  constructor
  · exact strSlice_ok hab (by omega) (hbyte a (by omega)) (hbyte b hb)
  · have hsub : (vs.drop a).take (b - a) = ((vs.take keriVerFullsize).drop a).take (b - a) := by
      rw [List.drop_take, List.take_take, Nat.min_eq_left (by omega)]
    rw [hsub]
    exact text_ascii (isAscii_take (isAscii_drop hascii a) (b - a))

theorem index_getD {vs : Bytes} {i : ℕ} (h : i < vs.length) :
    (index vs i : Offsets.Run UInt8) = .ok (vs.getD i 0) := by
  rw [List.getD_eq_getElem vs 0 h]
  exact index_ok (List.getElem?_eq_getElem h)

theorem parseStr_agrees (vs : String) :
    Agrees (Offsets.parseStr (strBytes vs)) (Version.parseStr vs) := by
  unfold Offsets.parseStr Version.parseStr
  refine Agrees.check_bind Iff.rfl ?_
  intro hlen
  rw [sliceTo_ok hlen, ok_bind]
  refine Agrees.check_bind Iff.rfl ?_
  intro hascii
  obtain ⟨hprotocol, hprotocol'⟩ := versionSlice hlen hascii (a := 0) (b := 4) (by decide)
    (by decide)
  obtain ⟨hkind, hkind'⟩ := versionSlice hlen hascii (a := 6) (b := 10) (by decide) (by decide)
  obtain ⟨hsize, hsize'⟩ := versionSlice hlen hascii (a := 10) (b := 16) (by decide) (by decide)
  have hbyte : ∀ i < keriVerFullsize, i < (strBytes vs).length := fun i hi => by omega
  rw [hprotocol, ok_bind, index_getD (hbyte 4 (by decide)), ok_bind,
    index_getD (hbyte 5 (by decide)), ok_bind]
  refine Agrees.need_bind ?_
  intro major _
  refine Agrees.need_bind ?_
  intro minor _
  rw [hkind, ok_bind, hkind']
  refine (Agrees.lift _).bind ?_
  intro kind _
  rw [hsize, ok_bind, hsize']
  refine Agrees.need_bind ?_
  intro size _
  rw [index_getD (hbyte 16 (by decide)), ok_bind]
  refine Agrees.check_bind Iff.rfl ?_
  intro _
  rw [hprotocol']
  exact Agrees.pure _

theorem parse_agrees (data : Bytes) : Agrees (Offsets.parse data) (Version.parse data) := by
  unfold Offsets.parse Version.parse
  refine Agrees.check_bind Iff.rfl ?_
  intro hlen
  rw [sliceTo_ok hlen, ok_bind]
  refine Agrees.need_bind ?_
  intro vs _
  exact parseStr_agrees vs

/-- The version string is looked for inside of the buffer. -/
theorem extractVersionFromRaw_ok (data : Bytes) :
    Offsets.extractVersionFromRaw data = .ok (extractVersionFromRaw data) := by
  have hwindow : data.take (min data.length versionSearchWindow) =
      data.take versionSearchWindow := by
    rw [Nat.min_comm, ← List.take_take, List.take_length]
  unfold Offsets.extractVersionFromRaw extractVersionFromRaw
  rw [sliceTo_ok (Nat.min_le_left _ _), ok_bind, hwindow]
  dsimp only
  cases hpos : (protocolTags.filterMap fun proto =>
      position proto (data.take versionSearchWindow)).min? with
  | none => rfl
  | some pos =>
      obtain ⟨tag, -, htag⟩ := List.mem_filterMap.1 (List.min?_mem hpos)
      have hlt := position_lt htag
      rw [List.length_take] at hlt
      have hsum : pos + keriVerFullsize < wordBound := by
        unfold versionSearchWindow at hlt
        unfold keriVerFullsize wordBound
        omega
      simp only [add_ok hsum, ok_bind, Option.bind_eq_bind, Option.bind_some]
      split
      · rfl
      · rw [sliceFrom_ok (show pos ≤ data.length by omega), ok_bind, (parse_agrees _).attempt]

theorem sniffKind_agrees (data : Bytes) : Agrees (Offsets.sniffKind data) (sniffKind data) := by
  cases data with
  | nil => exact Agrees.raise _ _
  | cons b bs =>
      have hindex : (index (b :: bs) 0 : Offsets.Run UInt8) = .ok b := index_ok rfl
      rw [Offsets.sniffKind, check_ok (List.cons_ne_nil b bs), ok_bind, hindex, ok_bind]
      exact Agrees.lift _

/-- A body is read from inside of the buffer. -/
theorem fromRaw_agrees (raw : Bytes) :
    Agrees (Offsets.fromRaw X raw) (Serder.fromRaw X raw) := by
  unfold Offsets.fromRaw Serder.fromRaw
  refine Agrees.check_bind Iff.rfl ?_
  intro _
  refine (sniffKind_agrees raw).bind ?_
  intro kind _
  rw [extractVersionFromRaw_ok, ok_bind]
  refine Agrees.check_bind Iff.rfl ?_
  intro hlen
  rw [sliceTo_ok hlen, ok_bind]
  refine (Agrees.lift _).bind ?_
  intro sad _
  cases extractVersionFromRaw raw with
  | some v => exact Agrees.pure _
  | none =>
      cases versionText sad with
      | none => exact Agrees.pure _
      | some vs =>
          simp only [(parseStr_agrees vs).attempt, ok_bind]
          exact Agrees.pure _

/-! ### Primitives -/

theorem parseMatterQb64_bounded (name : String) (i : ℕ) : Bounded (parseMatterQb64 X name i) :=
  (parseMatterQb64_local (fun _ => False) name i).bounded

theorem parseMatterQb64_agrees (name : String) (i : ℕ) {data : Bytes}
    (hascii : isAscii data = true) :
    Agrees (Offsets.parseMatterQb64 X name i data) (parseMatterQb64 X name i data) := by
  have hsmall := lt_of_isAscii hascii
  unfold Offsets.parseMatterQb64 parseMatterQb64
  rw [firstChar_ascii hascii]
  cases data with
  | nil => exact Agrees.raise _ _
  | cons b bs =>
      rw [check_ok (List.cons_ne_nil b bs), ok_bind]
      refine Agrees.need_bind ?_
      intro first _
      refine Agrees.need_bind ?_
      intro hs _
      refine Agrees.check_bind Iff.rfl ?_
      intro hle
      rw [strSliceTo_ascii hsmall hle, ok_bind, text_ascii (isAscii_take hascii hs)]
      refine Agrees.need_bind ?_
      intro sizage _
      refine Agrees.check_bind Iff.rfl ?_
      intro _
      refine Agrees.check_bind Iff.rfl ?_
      intro hfs
      rw [strSliceTo_ascii hsmall hfs, ok_bind, text_ascii (isAscii_take hascii sizage.fs)]
      exact Agrees.pure _

/-- Slices of what is left, at an offset of the whole. -/
theorem strSlice_shifted {data : Bytes} (hascii : isAscii data = true) {offset k : ℕ}
    (hk : offset + k ≤ data.length) :
    (strSlice data offset (offset + k) : Offsets.Run Bytes) = .ok ((data.drop offset).take k) ∧
      Offsets.text ((data.drop offset).take k) = textOf ((data.drop offset).take k) := by
  constructor
  · rw [strSlice_ascii (lt_of_isAscii hascii) (Nat.le_add_right offset k) hk,
      Nat.add_sub_cancel_left]
  · exact text_ascii (isAscii_take (isAscii_drop hascii offset) k)

theorem parseIndexedSig_agrees (hX : ParserLaws X) {data : Bytes} (hascii : isAscii data = true)
    (hlen : data.length < sliceBound) (count i : ℕ) {offset : ℕ} (h : offset ≤ data.length) :
    Agrees (Offsets.parseIndexedSig X data count i offset)
      (shifted offset (parseIndexedSig X count i (data.drop offset))) := by
  have hoffset : offset < sliceBound := by omega
  have hleft : (data.drop offset).length = data.length - offset := List.length_drop
  unfold Offsets.parseIndexedSig parseIndexedSig
  by_cases hend : offset < data.length
  · rw [check_ok hend, ok_bind, strSliceFrom_ascii (lt_of_isAscii hascii) h, ok_bind,
      firstChar_ascii (isAscii_drop hascii offset), shifted_bind]
    refine Agrees.need_bind ?_
    intro first _
    rw [shifted_bind]
    refine Agrees.need_bind ?_
    intro hs hhs
    rw [add_ok (add_lt_wordBound hoffset (hX.hardage_lt hhs)), ok_bind, shifted_bind]
    refine Agrees.check_bind (show offset + hs ≤ data.length ↔ hs ≤ (data.drop offset).length by
      omega) ?_
    intro hle
    rw [hleft] at hle
    obtain ⟨hcode, hcode'⟩ := strSlice_shifted hascii (show offset + hs ≤ data.length by omega)
    rw [hcode, ok_bind, hcode', shifted_bind]
    refine Agrees.need_bind ?_
    intro sizage hsizage
    have hend' := add_lt_wordBound hoffset (hX.indexer_lt hsizage)
    rw [add_ok hend', ok_bind]
    by_cases hfs : data.length < offset + sizage.fs
    · -- the source subtracts to say how much there is
      rw [if_pos hfs, sub_ok h, ok_bind, ensure, if_neg (by omega)]
      exact Agrees.raise _ _
    · obtain ⟨hqb64, hqb64'⟩ :=
        strSlice_shifted hascii (show offset + sizage.fs ≤ data.length by omega)
      rw [if_neg hfs, hqb64, ok_bind, hqb64', ensure, if_pos (by omega), ok_bind, shifted_bind]
      refine (Agrees.lift _).bind ?_
      intro indexer _
      rw [shifted_bind]
      refine (Agrees.lift _).bind ?_
      intro siger _
      exact Agrees.pure _
  · have hnil : data.drop offset = [] := List.drop_eq_nil_of_le (by omega)
    rw [hnil, Checked.check, ensure, if_neg hend]
    exact Agrees.raise _ _

/-- A primitive is read from the slice at an offset, and the offset can be moved past it. -/
theorem Agrees.primitive {β : Type} (name : String) (i : ℕ) {data : Bytes}
    (hascii : isAscii data = true) (hlen : data.length < sliceBound) {offset : ℕ}
    (h : offset ≤ data.length) {f : String × ℕ → Offsets.Run β}
    {g : String × ℕ → Except CoreError β}
    (hf : ∀ qb64 n, offset + n ≤ data.length →
      (add offset n : Offsets.Run ℕ) = .ok (offset + n) → Agrees (f (qb64, n)) (g (qb64, n))) :
    Agrees (strSliceFrom data offset >>= fun tail => Offsets.parseMatterQb64 X name i tail >>= f)
      (parseMatterQb64 X name i (data.drop offset) >>= g) := by
  rw [strSliceFrom_ascii (lt_of_isAscii hascii) h, ok_bind]
  refine (parseMatterQb64_agrees name i (isAscii_drop hascii offset)).bind ?_
  rintro ⟨qb64, n⟩ hn
  have hle := parseMatterQb64_bounded name i _ _ _ hn
  rw [List.length_drop] at hle
  have hsum : offset + n ≤ data.length := by omega
  exact hf qb64 n hsum (add_ok (lt_wordBound hsum hlen))

theorem parsePair_agrees (name name' : String) {data : Bytes} (hascii : isAscii data = true)
    (hlen : data.length < sliceBound) (i : ℕ) {offset : ℕ} (h : offset ≤ data.length) :
    Agrees (Offsets.parsePair X name name' data i offset) (shifted offset
      (both (parseMatterQb64 X name i) (parseMatterQb64 X name' i) (data.drop offset))) := by
  unfold Offsets.parsePair both
  rw [shifted_bind]
  refine Agrees.primitive name i hascii hlen h ?_
  intro first n hn hadd
  dsimp only
  rw [hadd, ok_bind, shifted_bind, List.drop_drop]
  refine Agrees.primitive name' i hascii hlen hn ?_
  intro second m _ hadd'
  dsimp only
  rw [hadd', ok_bind, Nat.add_assoc]
  exact Agrees.pure _

theorem parseReceiptCouple_agrees {data : Bytes} (hascii : isAscii data = true)
    (hlen : data.length < sliceBound) (i : ℕ) {offset : ℕ} (h : offset ≤ data.length) :
    Agrees (Offsets.parseReceiptCouple X data i offset)
      (shifted offset (parseReceiptCouple X i (data.drop offset))) := by
  unfold Offsets.parseReceiptCouple parseReceiptCouple
  rw [shifted_bind]
  refine (parsePair_agrees "prefix" "signature" hascii hlen i h).bind_shifted ?_
  rintro ⟨pfx, sig⟩ n -
  dsimp only
  rw [shifted_bind]
  refine (Agrees.lift _).bind ?_
  intro m _
  exact Agrees.pure _

/-! ### Groups of primitives -/

theorem checkGroup_agrees {what : String} {minBytes : ℕ → Offsets.Run ℕ} {perItem count : ℕ}
    (hmin : count ≤ maxAttachmentCount → minBytes count = .ok (count * perItem)) (data : Bytes) :
    Agrees (Offsets.checkGroup what minBytes count data) (checkGroup what perItem count data) := by
  unfold Offsets.checkGroup checkGroup
  refine Agrees.check_bind Iff.rfl ?_
  intro hmax
  rw [hmin hmax, ok_bind]
  refine Agrees.check_bind Iff.rfl ?_
  intro _
  -- ASCII is UTF-8, so the second of the two checks is never the one that fails
  by_cases hascii : isAscii data = true
  · have hutf8 : (fromUtf8 data).isSome = true := by rw [fromUtf8_ascii hascii]; rfl
    rw [check_ok hascii, ok_bind, check_ok hutf8, ensure, if_pos hascii]
    exact Agrees.ok _
  · rw [Checked.check, ensure, if_neg hascii, ensure, if_neg hascii]
    exact Agrees.raise _ _

theorem minBytes_one {count : ℕ} (h : count ≤ maxAttachmentCount) :
    (mul count minPrimitiveSize : Offsets.Run ℕ) = .ok (count * minPrimitiveSize) := by
  refine mul_ok ?_
  unfold maxAttachmentCount at h
  unfold minPrimitiveSize wordBound
  omega

theorem minBytes_couple {count : ℕ} (h : count ≤ maxAttachmentCount) :
    Offsets.coupleBytes count = .ok (count * (minPrimitiveSize * 2)) := by
  rw [Offsets.coupleBytes, minBytes_one h, ok_bind, ← Nat.mul_assoc]
  refine mul_ok ?_
  unfold maxAttachmentCount at h
  unfold minPrimitiveSize wordBound
  omega

/-- A group of items, each of which is read at its offset as it is read from what is left. -/
theorem Agrees.group {β : Type} {what : String} {minBytes : ℕ → Offsets.Run ℕ}
    {perItem count : ℕ} {body : ℕ → ℕ → Offsets.Run (β × ℕ)}
    {read : ℕ → Bytes → Except CoreError (β × ℕ)} {data : Bytes}
    (hmin : count ≤ maxAttachmentCount → minBytes count = .ok (count * perItem))
    (hbody : isAscii data = true → ∀ i offset, offset ≤ data.length →
      Agrees (body i offset) (shifted offset (read i (data.drop offset))))
    (hread : ∀ i, Bounded (read i)) :
    Agrees (Offsets.checkGroup what minBytes count data >>= fun _ => forCount body count 0 0)
      (checkGroup what perItem count data >>= fun _ => times read 0 count data) := by
  refine (checkGroup_agrees hmin data).bind ?_
  intro _ hcheck
  obtain ⟨-, -, hascii⟩ := checkGroup_eq_ok.1 hcheck
  have hloop := Agrees.forCount (hbody hascii) hread count 0 (Nat.zero_le _)
  rwa [List.drop_zero, shifted_zero] at hloop

variable {data : Bytes}

theorem parseIndexedSigs_agrees (hX : ParserLaws X) (hlen : data.length < sliceBound)
    (count : ℕ) :
    Agrees (Offsets.parseIndexedSigs X count data) (parseIndexedSigs X count data) :=
  Agrees.group minBytes_one
    (fun hascii i _ h => parseIndexedSig_agrees hX hascii hlen count i h)
    (fun i => (parseIndexedSig_local (fun _ => False) count i).bounded)

theorem parseReceiptCouples_agrees (hlen : data.length < sliceBound) (count : ℕ) :
    Agrees (Offsets.parseReceiptCouples X count data) (parseReceiptCouples X count data) :=
  Agrees.group minBytes_couple
    (fun hascii i _ h => parseReceiptCouple_agrees hascii hlen i h)
    (fun i => (parseReceiptCouple_local (fun _ => False) i).bounded)

theorem parseQb64Pairs_agrees (hlen : data.length < sliceBound) (count : ℕ) :
    Agrees (Offsets.parseQb64Pairs X count data) (parseQb64Pairs X count data) :=
  Agrees.group minBytes_couple
    (fun hascii i _ h => parsePair_agrees _ _ hascii hlen i h)
    (fun i => ((parseMatterQb64_local (fun _ => False) _ i).both
      (parseMatterQb64_local (fun _ => False) _ i)).bounded)

/-! ### No more is used than there is -/

section

variable {nested : Bytes → Except CoreError (List Attachment × ℕ)}

theorem parseGroup_bounded (h : Bounded nested) (table : CounterTable) (strict : Bool)
    (counter : Counter) : Bounded (parseGroup X nested table strict counter) := by
  have hraw : ∀ error, Bounded (uninterpreted strict error counter.code counter.count) := by
    intro error data atts n hread
    unfold uninterpreted at hread
    split at hread
    · cases hread
    · cases hread
      exact le_rfl
  unfold parseGroup
  cases GroupKind.classify counter.code table with
  | none => exact hraw _
  | some kind =>
      cases kind with
      | attachedMaterialQuadlets =>
          exact (parseQuadlets_local (fun _ => False) counter.count).bounded
      | controllerIdxSigs =>
          exact (tagged_local _ (parseIndexedSigs_local counter.count)).bounded
      | witnessIdxSigs => exact (tagged_local _ (parseIndexedSigs_local counter.count)).bounded
      | nonTransReceiptCouples =>
          exact (tagged_local _ (parseReceiptCouples_local counter.count)).bounded
      | firstSeenReplayCouples =>
          exact (tagged_local _ (parseQb64Pairs_local counter.count)).bounded
      | sealSourceCouples => exact (tagged_local _ (parseQb64Pairs_local counter.count)).bounded
      | transIdxSigGroups =>
          exact (tagged_local _ (parseTransIdxSigGroups_local (fun _ hrest => hrest.elim)
            h.toLocal counter.count)).bounded
      | transReceiptQuadruples => exact hraw _

end

theorem ParserLaws.counter_le (hX : ParserLaws X) {data : Bytes} {c : Counter} {n : ℕ}
    (h : parseCounter X data = .ok (c, n)) : 0 < n ∧ n ≤ data.length :=
  parseCounter_within (fun hc => ⟨hX.fullSize_pos hc, hX.fullSize_le hc⟩) h

theorem parseAttachmentsFrom_bounded (hX : ParserLaws X) (table : CounterTable) (strict : Bool)
    (fuel : ℕ) : Bounded (parseAttachmentsFrom X table strict fuel) := by
  induction fuel with
  | zero =>
      intro data atts n h
      cases h
      exact Nat.zero_le _
  | succ fuel ih =>
      intro data atts n h
      by_cases hdash : data.head? = some dash
      · obtain ⟨counter, size, group, consumed, more, k, hc, hg, hm, rfl, rfl⟩ :=
          (parseAttachmentsFrom_succ_eq_ok hdash).1 h
        obtain ⟨hpos, hsize⟩ := hX.counter_le hc
        have hconsumed := parseGroup_bounded ih table strict counter _ _ _ hg
        have hk := ih _ _ _ hm
        rw [List.length_drop] at hconsumed hk
        omega
      · rw [parseAttachmentsFrom_of_ne hdash] at h
        cases h
        exact Nat.zero_le _

/-! ### Groups of groups -/

section

variable {nested : Bytes → Except CoreError (List Attachment × ℕ)}
  {nestedRun : Bytes → Offsets.Run (List Attachment × ℕ)} {offset : ℕ}

theorem parseTransIdxSigGroup_agrees
    (hnested : ∀ span : Bytes, span.length ≤ data.length → Agrees (nestedRun span) (nested span))
    (hbound : Bounded nested) (hascii : isAscii data = true) (hlen : data.length < sliceBound)
    (i : ℕ) (h : offset ≤ data.length) :
    Agrees (Offsets.parseTransIdxSigGroup X nestedRun data i offset)
      (shifted offset (parseTransIdxSigGroup X nested i (data.drop offset))) := by
  unfold Offsets.parseTransIdxSigGroup parseTransIdxSigGroup both
  rw [shifted_bind, bind_assoc]
  refine Agrees.primitive _ i hascii hlen h ?_
  intro pfx n hn hadd
  dsimp only
  rw [hadd, ok_bind, bind_assoc, bind_assoc, List.drop_drop]
  refine Agrees.primitive _ i hascii hlen hn ?_
  intro sn m hm hadd
  dsimp only
  rw [hadd, ok_bind, bind_assoc, List.drop_drop]
  refine Agrees.primitive _ i hascii hlen hm ?_
  intro said l hl hadd
  dsimp only
  rw [hadd, ok_bind, sliceFrom_ok hl, ok_bind]
  simp only [pure_bind, List.drop_drop]
  have hsize : offset + (n + (m + l)) = offset + n + m + l := by omega
  rw [shifted_bind, hsize]
  refine (hnested _ (by rw [List.length_drop]; omega)).bind ?_
  rintro ⟨inner, consumed⟩ hinner
  have hle := hbound _ _ _ hinner
  rw [List.length_drop] at hle
  dsimp only
  rw [add_ok (lt_wordBound (show offset + n + m + l + consumed ≤ data.length by omega) hlen),
    ok_bind, shifted_bind]
  refine (Agrees.lift _).bind ?_
  intro sigs _
  rw [shifted_bind]
  refine Agrees.check_bind Iff.rfl ?_
  intro _
  have hend : offset + n + m + l + consumed = offset + (n + (m + l) + consumed) := by omega
  rw [hend]
  exact Agrees.pure _

theorem parseTransIdxSigGroups_agrees
    (hnested : ∀ span : Bytes, span.length ≤ data.length → Agrees (nestedRun span) (nested span))
    (hbound : Bounded nested) (hlen : data.length < sliceBound) (count : ℕ) :
    Agrees (Offsets.parseTransIdxSigGroups X nestedRun count data)
      (parseTransIdxSigGroups X nested count data) :=
  Agrees.group (fun _ => rfl)
    (fun hascii i _ h => parseTransIdxSigGroup_agrees hnested hbound hascii hlen i h)
    (fun i => (parseTransIdxSigGroup_local hbound.toLocal i).bounded)

/-- A quadlet group hands on its own span. -/
theorem parseQuadlets_agrees
    (hnested : ∀ span : Bytes, span.length ≤ data.length - offset →
      Agrees (nestedRun span) (nested span))
    (hlen : data.length < sliceBound) (count : ℕ) (h : offset ≤ data.length) :
    Agrees (Offsets.parseQuadlets nestedRun count data offset)
      (shifted offset (parseQuadlets nested count (data.drop offset))) := by
  have hleft : (data.drop offset).length = data.length - offset := List.length_drop
  unfold Offsets.parseQuadlets parseQuadlets
  by_cases hmul : count * 4 < wordBound
  · have hmul' : count * 4 < u64Bound := hmul
    rw [checkedMul, if_pos hmul, ensure, if_pos hmul']
    simp only [need, okOr, ok_bind]
    by_cases hfit : offset + count * 4 ≤ data.length
    · have hspan : ((data.drop offset).take (count * 4)).length ≤ data.length - offset := by
        rw [List.length_take, hleft]
        exact Nat.min_le_right _ _
      rw [checkedAdd, if_pos (lt_wordBound hfit hlen), ensure, if_pos (by omega)]
      simp only [ok_bind, if_neg (not_lt.2 hfit)]
      rw [slice_ok (Nat.le_add_right _ _) hfit, ok_bind, Nat.add_sub_cancel_left, shifted_bind]
      refine (hnested _ hspan).bind ?_
      rintro ⟨inner, consumed⟩ -
      dsimp only
      rw [shifted_bind]
      refine Agrees.check_bind Iff.rfl ?_
      intro _
      exact Agrees.pure _
    · -- an end past the machine word is refused with a text of its own
      rw [ensure, if_neg (by omega)]
      by_cases hstop : offset + count * 4 < wordBound
      · rw [checkedAdd, if_pos hstop]
        simp only [ok_bind, if_pos (not_le.1 hfit)]
        rw [sub_ok h]
        exact Agrees.raise _ _
      · rw [checkedAdd, if_neg hstop]
        exact Agrees.raise _ _
  · have hmul' : ¬ count * 4 < u64Bound := hmul
    rw [checkedMul, if_neg hmul, ensure, if_neg hmul']
    exact Agrees.raise _ _

theorem tagged_agrees {β : Type} (tag : β → Attachment) {read : Bytes → Offsets.Run (β × ℕ)}
    {read' : Bytes → Except CoreError (β × ℕ)} (hlen : data.length < sliceBound)
    (h : offset ≤ data.length) (hread : Agrees (read (data.drop offset)) (read' (data.drop offset)))
    (hbound : Bounded read') :
    Agrees (Offsets.tagged tag read data offset)
      (shifted offset (read' (data.drop offset) >>= fun p => pure ([tag p.1], p.2))) := by
  unfold Offsets.tagged
  rw [sliceFrom_ok h, ok_bind, shifted_bind]
  refine hread.bind ?_
  rintro ⟨x, k⟩ hx
  have hle := hbound _ _ _ hx
  rw [List.length_drop] at hle
  dsimp only
  rw [add_ok (lt_wordBound (show offset + k ≤ data.length by omega) hlen), ok_bind]
  exact Agrees.pure _

/-- A group that is not interpreted ends where the buffer does. -/
theorem uninterpreted_agrees (strict : Bool) (error : String) (counter : Counter)
    (h : offset ≤ data.length) :
    Agrees (Offsets.uninterpreted strict error counter data offset) (shifted offset
      (uninterpreted strict error counter.code counter.count (data.drop offset))) := by
  unfold Offsets.uninterpreted uninterpreted
  cases strict with
  | true => exact Agrees.raise _ _
  | false =>
      have hend : offset + (data.drop offset).length = data.length := by
        rw [List.length_drop]
        omega
      rw [if_neg Bool.false_ne_true, if_neg Bool.false_ne_true, sliceFrom_ok h, ok_bind, shifted,
        ok_bind, hend]
      exact Agrees.pure _

/-- **A group is read at its offset as it is read from what is left.** -/
theorem parseGroup_agrees (hX : ParserLaws X)
    (hnested : ∀ span : Bytes, span.length ≤ data.length - offset →
      Agrees (nestedRun span) (nested span))
    (hbound : Bounded nested) (hlen : data.length < sliceBound) (h : offset ≤ data.length)
    (table : CounterTable) (strict : Bool) (counter : Counter) :
    Agrees (Offsets.parseGroup X nestedRun table strict counter data offset)
      (shifted offset (parseGroup X nested table strict counter (data.drop offset))) := by
  have hleft : (data.drop offset).length = data.length - offset := List.length_drop
  have hlen' : (data.drop offset).length < sliceBound := by omega
  have htrans := parseTransIdxSigGroups_agrees (X := X) (fun span hspan => hnested span (by omega))
    hbound hlen' counter.count
  unfold Offsets.parseGroup parseGroup
  cases GroupKind.classify counter.code table with
  | none => exact uninterpreted_agrees strict _ counter h
  | some kind =>
      cases kind with
      | attachedMaterialQuadlets => exact parseQuadlets_agrees hnested hlen counter.count h
      | controllerIdxSigs =>
          exact tagged_agrees _ hlen h (parseIndexedSigs_agrees hX hlen' counter.count)
            (parseIndexedSigs_local counter.count).bounded
      | witnessIdxSigs =>
          exact tagged_agrees _ hlen h (parseIndexedSigs_agrees hX hlen' counter.count)
            (parseIndexedSigs_local counter.count).bounded
      | nonTransReceiptCouples =>
          exact tagged_agrees _ hlen h (parseReceiptCouples_agrees hlen' counter.count)
            (parseReceiptCouples_local counter.count).bounded
      | firstSeenReplayCouples =>
          exact tagged_agrees _ hlen h (parseQb64Pairs_agrees hlen' counter.count)
            (parseQb64Pairs_local counter.count).bounded
      | sealSourceCouples =>
          exact tagged_agrees _ hlen h (parseQb64Pairs_agrees hlen' counter.count)
            (parseQb64Pairs_local counter.count).bounded
      | transIdxSigGroups =>
          exact tagged_agrees _ hlen h htrans (parseTransIdxSigGroups_local
            (fun _ hrest => hrest.elim) hbound.toLocal counter.count).bounded
      | transReceiptQuadruples => exact uninterpreted_agrees strict _ counter h

end

/-- A counter is read from ASCII, which is UTF-8. -/
theorem Agrees.counter {β : Type} {rest : Bytes} {e₁ e₂ : CoreError} {e : CesrError → CoreError}
    {f : Counter → Offsets.Run β} {g : Counter × ℕ → Except CoreError β}
    (hf : ∀ counter, parseCounter X rest = .ok (counter, X.cesr.counterFullSize counter) →
      Agrees (f counter) (g (counter, X.cesr.counterFullSize counter))) :
    Agrees (check (isAscii rest) e₁ >>= fun _ => check ((fromUtf8 rest).isSome) e₂ >>= fun _ =>
        Checked.lift ((X.cesr.counterFromQb64 (Offsets.text rest)).mapError e) >>= f)
      (parseCounter X rest >>= g) := by
  rw [parseCounter, bind_assoc]
  refine Agrees.check_bind Iff.rfl ?_
  intro hascii
  have hutf8 : (fromUtf8 rest).isSome = true := by
    rw [fromUtf8_ascii hascii]
    rfl
  rw [check_ok hutf8, ok_bind, text_ascii hascii, bind_assoc]
  cases hc : X.cesr.counterFromQb64 (textOf rest) with
  | error e => exact Agrees.raise _ _
  | ok counter => exact hf counter (parseCounter_eq_ok.2 ⟨hascii, hc, rfl⟩)

/-- **The attachment loop, at an offset.**  Each turn reads a counter, so what is left gets shorter;
the induction is on the fuel, of which there is more than there is left. -/
theorem parseAttachmentsFrom_agrees (hX : ParserLaws X) (table : CounterTable) (strict : Bool)
    {fuel offset : ℕ} (hlen : data.length < sliceBound) (h : offset ≤ data.length)
    (hfuel : data.length - offset < fuel) :
    Agrees (Offsets.parseAttachmentsFrom X table strict fuel data offset)
      (shifted offset (parseAttachmentsFrom X table strict fuel (data.drop offset))) := by
  induction fuel generalizing data offset with
  | zero => omega
  | succ fuel ih =>
      rw [Offsets.parseAttachmentsFrom, parseAttachmentsFrom]
      by_cases hend : data.length ≤ offset
      · have hnil : data.drop offset = [] := List.drop_eq_nil_of_le hend
        rw [if_pos hend, hnil, if_pos (show ([] : Bytes).head? ≠ some dash by simp)]
        exact Agrees.pure _
      · have hget := List.getElem?_eq_getElem (not_le.1 hend)
        have hhead : (data.drop offset).head? = data[offset]? := List.head?_drop
        rw [if_neg hend, index_ok hget, ok_bind, hhead, hget]
        by_cases hdash : data[offset] = dash
        · rw [if_neg (not_not.2 hdash), if_neg (by simp [hdash]), sliceFrom_ok h, ok_bind,
            shifted_bind]
          refine Agrees.counter ?_
          intro counter hcounter
          obtain ⟨hpos, hle⟩ := hX.counter_le hcounter
          rw [List.length_drop] at hle
          have hstart : offset + X.cesr.counterFullSize counter ≤ data.length := by omega
          have hbound := parseAttachmentsFrom_bounded hX table strict fuel
          rw [add_ok (lt_wordBound hstart hlen), ok_bind]
          dsimp only
          rw [shifted_bind, List.drop_drop]
          refine (parseGroup_agrees hX ?_ hbound hlen hstart table strict counter).bind_shifted ?_
          · -- a nested call is on what follows the counter, or on less
            intro span hspan
            have hnested := @ih span 0 (by omega) (Nat.zero_le _) (by omega)
            rw [List.drop_zero, shifted_zero] at hnested
            rwa [within_ok (show span.length < data.length by omega)]
          · intro group consumed hgroup
            have hconsumed := parseGroup_bounded hbound table strict counter _ _ _ hgroup
            rw [List.length_drop] at hconsumed
            dsimp only
            rw [shifted_bind, List.drop_drop, ← Nat.add_assoc]
            refine (@ih data _ hlen (by omega) (by omega)).bind_shifted ?_
            intro more rest _
            have hsum : offset + X.cesr.counterFullSize counter + consumed + rest =
                offset + (X.cesr.counterFullSize counter + consumed + rest) := by omega
            dsimp only
            rw [hsum]
            exact Agrees.pure _
        · rw [if_pos hdash, if_pos (by simpa using hdash)]
          exact Agrees.pure _

theorem parseAttachments_agrees (hX : ParserLaws X) (table : CounterTable) (strict : Bool)
    (hlen : data.length < sliceBound) :
    Agrees (Offsets.parseAttachments X table strict data)
      (parseAttachments X table strict data) := by
  have hloop := parseAttachmentsFrom_agrees hX table strict hlen (Nat.zero_le _)
    (show data.length - 0 < data.length + 1 by omega)
  rwa [List.drop_zero, shifted_zero] at hloop

/-! ### Messages -/

theorem parseNextSad_agrees (hX : ParserLaws X) (strict : Bool) {stream : Bytes}
    (hlen : stream.length < sliceBound) :
    Agrees (Offsets.parseNextSad X strict stream) (parseNextSad X strict stream) := by
  unfold Offsets.parseNextSad parseNextSad
  refine (fromRaw_agrees stream).bind ?_
  intro serder hread
  have hsize := Serder.raw_length_le hread
  have hleft : (stream.drop serder.size).length = stream.length - serder.size := List.length_drop
  rw [sliceFrom_ok hsize, ok_bind]
  refine (parseAttachments_agrees hX serder.table strict (by omega)).bind ?_
  rintro ⟨attachments, consumed⟩ hatts
  have hconsumed := parseAttachmentsFrom_bounded hX _ _ _ _ _ _ hatts
  dsimp only
  rw [add_ok (lt_wordBound (show serder.size + consumed ≤ stream.length by omega) hlen), ok_bind]
  exact Agrees.pure _

/-- **A message is read with its offsets as it is read without.** -/
theorem parseNextInner_agrees (hX : ParserLaws X) (strict : Bool) {stream : Bytes}
    (hlen : stream.length < sliceBound) :
    Agrees (Offsets.parseNextInner X strict stream) (parseNextInner X strict stream) := by
  cases stream with
  | nil => exact Agrees.raise _ _
  | cons b bs =>
      have hindex : (index (b :: bs) 0 : Offsets.Run UInt8) = .ok b := index_ok rfl
      rw [Offsets.parseNextInner, check_ok (List.cons_ne_nil b bs), ok_bind, hindex, ok_bind,
        parseNextInner]
      by_cases hstart : b = '{'.toUInt8 ∨ isCborStart b ∨ isMsgPackStart b
      · rw [if_pos hstart, if_pos hstart]
        exact parseNextSad_agrees hX strict hlen
      · rw [if_neg hstart, if_neg hstart]
        exact Agrees.raise _ _

/-- Where a message ends, and its body. -/
theorem parseNextInner_span (hX : ParserLaws X) {strict : Bool} {stream : Bytes}
    {m : ParsedMessage} {n : ℕ} (h : parseNextInner X strict stream = .ok (m, n)) :
    0 < n ∧ n ≤ stream.length ∧ m.serder.size ≤ n ∧
      m.serder.raw = stream.take m.serder.size := by
  obtain ⟨_, -, -, k, hread, hatts, rfl⟩ := parseNextInner_eq_ok.1 h
  have hsize := Serder.raw_length_le hread
  have hk := parseAttachmentsFrom_bounded hX _ _ _ _ _ _ hatts
  rw [List.length_drop] at hk
  -- a body without bytes has no value
  have hpos : 0 < m.serder.size := by
    obtain ⟨-, -, -, -, hsad, -⟩ := Serder.fromRaw_eq_ok.1 hread
    refine List.length_pos_iff.2 fun hnil => ?_
    rw [hnil] at hsad
    exact hX.no_empty _ _ hsad
  exact ⟨by omega, by omega, Nat.le_add_right _ _, Serder.raw_eq_take hread⟩

/-- White space is skipped inside of the stream. -/
theorem skipWhitespaceFrom_ok {stream : Bytes} {fuel offset : ℕ}
    (hlen : stream.length < sliceBound) (h : offset ≤ stream.length)
    (hfuel : stream.length - offset < fuel) :
    ∃ start, Offsets.skipWhitespaceFrom fuel stream offset = .ok start ∧ offset ≤ start ∧
      start ≤ stream.length ∧ stream.drop start = skipWhitespace (stream.drop offset) := by
  induction fuel generalizing offset with
  | zero => omega
  | succ fuel ih =>
      rw [Offsets.skipWhitespaceFrom]
      by_cases hend : stream.length ≤ offset
      · refine ⟨offset, if_pos hend, le_rfl, h, ?_⟩
        rw [List.drop_eq_nil_of_le hend]
        rfl
      · have hlt := not_le.1 hend
        have hdrop : stream.drop offset = stream[offset] :: stream.drop (offset + 1) :=
          List.drop_eq_getElem_cons hlt
        rw [if_neg hend, index_ok (List.getElem?_eq_getElem hlt), ok_bind]
        by_cases hspace : isAsciiWhitespace stream[offset] = true
        · obtain ⟨start, hstart, hle, hle', htail⟩ := @ih (offset + 1) hlt (by omega)
          refine ⟨start, ?_, by omega, hle', ?_⟩
          · have hnext : offset + 1 ≤ stream.length := hlt
            rw [if_pos hspace, add_ok (lt_wordBound hnext hlen), ok_bind, hstart]
          · rw [htail, hdrop, skipWhitespace, skipWhitespace, List.dropWhile_cons_of_pos hspace]
        · refine ⟨offset, if_neg hspace, le_rfl, h, ?_⟩
          rw [hdrop, skipWhitespace, List.dropWhile_cons_of_neg hspace]

/-- **The message loop, at an offset.**  Each turn reads a message, which has at least one byte. -/
theorem parseAllFrom_agrees (hX : ParserLaws X) (strict : Bool) {stream : Bytes}
    {fuel offset : ℕ} (hlen : stream.length < sliceBound) (h : offset ≤ stream.length)
    (hfuel : stream.length - offset < fuel) :
    Agrees (Offsets.parseAllFrom X strict fuel stream offset)
      (parseAllFrom X strict fuel (stream.drop offset)) := by
  induction fuel generalizing offset with
  | zero => omega
  | succ fuel ih =>
      rw [Offsets.parseAllFrom, parseAllFrom_succ]
      by_cases hend : stream.length ≤ offset
      · rw [if_pos hend, List.drop_eq_nil_of_le hend]
        exact Agrees.pure _
      · obtain ⟨start, hskip, hle, hstart, htail⟩ := skipWhitespaceFrom_ok hlen h
          (show stream.length - offset < stream.length + 1 by omega)
        rw [if_neg hend, hskip, ok_bind, ← htail]
        by_cases hlast : stream.length ≤ start
        · rw [if_pos hlast, if_pos (List.drop_eq_nil_of_le hlast)]
          exact Agrees.pure _
        · have hleft : (stream.drop start).length = stream.length - start := List.length_drop
          have hne : stream.drop start ≠ [] := List.length_pos_iff.1 (by omega)
          rw [if_neg hlast, if_neg hne, sliceFrom_ok hstart, ok_bind]
          refine (parseNextInner_agrees hX strict (by omega)).bind ?_
          rintro ⟨msg, consumed⟩ hmsg
          obtain ⟨hpos, hconsumed, -, -⟩ := parseNextInner_span hX hmsg
          dsimp only
          refine Agrees.check_bind Iff.rfl ?_
          intro _
          have hnext : start + consumed ≤ stream.length := by omega
          rw [add_ok (lt_wordBound hnext hlen), ok_bind, List.drop_drop]
          refine (@ih (start + consumed) hnext (by omega)).bind ?_
          intro more _
          exact Agrees.pure _

/-- **A stream is read with its offsets as it is read without.** -/
theorem parseAllInner_agrees (hX : ParserLaws X) (strict : Bool) {stream : Bytes}
    (hlen : stream.length < sliceBound) :
    Agrees (Offsets.parseAllInner X strict stream) (parseAllInner X strict stream) :=
  parseAllFrom_agrees hX strict hlen (Nat.zero_le _) (Nat.lt_succ_self _)

/-- **The parser terminates and stays inside its input.**  On no stream, strict or lenient, does it
leave a buffer, cut a character, run over a machine word, go on for longer than its input or call
itself on a span that is not shorter; and a message that it reads ends inside of the stream, with a
body that is the front of it. -/
theorem parser_stays_inside (hX : ParserLaws X) (strict : Bool) {stream : Bytes}
    (hlen : stream.length < sliceBound) :
    (∀ fault, Offsets.parseNextInner X strict stream ≠ .error (.fault fault)) ∧
    (∀ fault, Offsets.parseAllInner X strict stream ≠ .error (.fault fault)) ∧
    ∀ m n, Offsets.parseNextInner X strict stream = .ok (m, n) →
      0 < n ∧ n ≤ stream.length ∧ m.serder.size ≤ n ∧
        m.serder.raw = stream.take m.serder.size := by
  have hnext := parseNextInner_agrees hX strict hlen
  refine ⟨hnext.1, (parseAllInner_agrees hX strict hlen).1, ?_⟩
  intro m n h
  exact parseNextInner_span hX ((hnext.2 (m, n)).1 h)

/-- The toy texts and bodies are as assumed. -/
theorem parserLaws_toy (digest : Bytes → Bytes) : ParserLaws (Toy.externals digest) := by
  have hcounters := counterLaws_toy digest
  refine ⟨hcounters.fullSize_pos, hcounters.fullSize_le, ?_, ?_, ?_⟩
  · intro first hs h
    change Toy.hardage first = some hs at h
    unfold Toy.hardage at h
    split_ifs at h <;> cases h <;> decide
  · intro code sizage h
    change Toy.indexerSizage code = some sizage at h
    unfold Toy.indexerSizage at h
    split_ifs at h
    cases h
    decide
  · intro kind v h
    cases kind with
    | json =>
        have hnil : Toy.fromSlice [] = .error ⟨"malformed JSON"⟩ := rfl
        change (Toy.fromSlice []).mapError CoreError.json = .ok v at h
        rw [hnil] at h
        cases h
    | cbor => cases h
    | msgPack => cases h

theorem parser_stays_inside_toy : toySigned.length < sliceBound ∧ ∃ m n,
    Offsets.parseNextInner Toy.lib true toySigned = .ok (m, n) ∧
    0 < n ∧ n ≤ toySigned.length ∧ m.serder.size ≤ n ∧
    m.serder.raw = toySigned.take m.serder.size := by
  have hlen : toySigned.length < sliceBound := by decide +kernel
  obtain ⟨p, hp, -⟩ := exists_ok_of_any
    (x := Offsets.parseNextInner Toy.lib true toySigned) (p := fun _ => true) (by decide +kernel)
  obtain ⟨-, -, hspan⟩ := parser_stays_inside (parserLaws_toy Toy.checksumDigest) true hlen
  exact ⟨hlen, p.1, p.2, hp, hspan p.1 p.2 hp⟩

end Keri
