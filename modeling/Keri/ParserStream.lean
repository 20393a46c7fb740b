/-
**Streams and their messages.**

Reading a stream should be reading its messages: what follows a message should not matter to it.
The readers of primitives and groups are local in this sense, and so are bodies that carry their
version string.  The counters of attachment groups are not: before a counter is read, all that is
left of the stream is required to be ASCII.

* `Keri.CounterLaws` — what is assumed of counters;
* `Keri.parseAttachmentsFrom_fuel`, `Keri.parseAllFrom_fuel` — the fuel does not matter;
* `Keri.parseAttachmentsFrom_local` — **ASCII that does not start a group changes nothing**;
* `Keri.Plain` — a stream without an attachment group;
* `Keri.parseAll_append_iff` — **when a stream is read as its two parts are**: the first has no
  attachment group, or the second is ASCII.
-/

import Keri.Parser
import Keri.Toy

set_option relaxedAutoImplicit false
set_option autoImplicit false

namespace Keri

open Outcome Reader

variable (X : Externals)

/-- What is assumed of counters: one has at least one character, is no longer than the text it is
read from, and is read off the front. -/
structure CounterLaws : Prop where
  fullSize_pos : ∀ {text : String} {c : Counter}, X.cesr.counterFromQb64 text = .ok c →
    0 < X.cesr.counterFullSize c
  fullSize_le : ∀ {text : String} {c : Counter}, X.cesr.counterFromQb64 text = .ok c →
    X.cesr.counterFullSize c ≤ (strBytes text).length
  append : ∀ {text : String} {c : Counter}, X.cesr.counterFromQb64 text = .ok c →
    ∀ rest, X.cesr.counterFromQb64 (text ++ rest) = .ok c

variable {X}

/-! ### Primitives are local -/

theorem firstChar_append {text : Bytes} {c : Char} (h : firstChar text = some c) (rest : Bytes) :
    firstChar (text ++ rest) = some c := by
  cases text with
  | nil => cases h
  | cons b bs => exact h

theorem parseMatterQb64_eq_ok {name : String} {index n : ℕ} {text : Bytes} {qb64 : String} :
    parseMatterQb64 X name index text = .ok (qb64, n) ↔ ∃ first hs sizage,
      firstChar text = some first ∧ X.cesr.hardage first = some hs ∧ hs ≤ text.length ∧
      X.cesr.matterSizage (textOf (text.take hs)) = some sizage ∧ 0 < sizage.fs ∧
      sizage.fs ≤ text.length ∧ qb64 = textOf (text.take sizage.fs) ∧ n = sizage.fs := by
  simp only [parseMatterQb64, bind_eq_ok, okOr_eq_ok, ensure_eq_ok, pure_eq_ok, Prod.mk.injEq]
  constructor
  · rintro ⟨first, hfirst, hs, hhs, -, hle, sizage, hsizage, -, hpos, -, hfs, rfl, rfl⟩
    exact ⟨first, hs, sizage, hfirst, hhs, hle, hsizage, hpos, hfs, rfl, rfl⟩
  · rintro ⟨first, hs, sizage, hfirst, hhs, hle, hsizage, hpos, hfs, rfl, rfl⟩
    exact ⟨first, hfirst, hs, hhs, ⟨⟩, hle, sizage, hsizage, ⟨⟩, hpos, ⟨⟩, hfs, rfl, rfl⟩

theorem parseMatterQb64_local (Q : Bytes → Prop) (name : String) (index : ℕ) :
    Local Q (parseMatterQb64 X name index) := by
  intro text qb64 n h
  obtain ⟨first, hs, sizage, hfirst, hhs, hle, hsizage, hpos, hfs, rfl, rfl⟩ :=
    parseMatterQb64_eq_ok.1 h
  refine ⟨hfs, fun rest _ => parseMatterQb64_eq_ok.2 ⟨first, hs, sizage,
    firstChar_append hfirst rest, hhs, ?_, ?_, hpos, ?_, ?_, rfl⟩⟩
  · rw [List.length_append]
    omega
  · rw [List.take_append_of_le_length hle, hsizage]
  · rw [List.length_append]
    omega
  · rw [List.take_append_of_le_length hfs]

theorem parseIndexedSig_eq_ok {count index n : ℕ} {text : Bytes} {siger : Siger} :
    parseIndexedSig X count index text = .ok (siger, n) ↔ ∃ first hs sizage indexer,
      firstChar text = some first ∧ X.cesr.hardage first = some hs ∧ hs ≤ text.length ∧
      X.cesr.indexerSizage (textOf (text.take hs)) = some sizage ∧ sizage.fs ≤ text.length ∧
      X.cesr.indexerFromQb64 (textOf (text.take sizage.fs)) = .ok indexer ∧
      Siger.new X indexer.code indexer.index indexer.ondex indexer.raw = .ok siger ∧
      n = sizage.fs := by
  simp only [parseIndexedSig, bind_eq_ok, okOr_eq_ok, ensure_eq_ok, mapError_eq_ok, pure_eq_ok,
    Prod.mk.injEq]
  constructor
  · rintro ⟨first, hfirst, hs, hhs, -, hle, sizage, hsizage, -, hfs, indexer, hindexer, _, hnew,
      rfl, rfl⟩
    exact ⟨first, hs, sizage, indexer, hfirst, hhs, hle, hsizage, hfs, hindexer, hnew, rfl⟩
  · rintro ⟨first, hs, sizage, indexer, hfirst, hhs, hle, hsizage, hfs, hindexer, hnew, rfl⟩
    exact ⟨first, hfirst, hs, hhs, ⟨⟩, hle, sizage, hsizage, ⟨⟩, hfs, indexer, hindexer, siger,
      hnew, rfl, rfl⟩

theorem parseIndexedSig_local (Q : Bytes → Prop) (count index : ℕ) :
    Local Q (parseIndexedSig X count index) := by
  intro text siger n h
  obtain ⟨first, hs, sizage, indexer, hfirst, hhs, hle, hsizage, hfs, hindexer, hnew, rfl⟩ :=
    parseIndexedSig_eq_ok.1 h
  refine ⟨hfs, fun rest _ => parseIndexedSig_eq_ok.2 ⟨first, hs, sizage, indexer,
    firstChar_append hfirst rest, hhs, ?_, ?_, ?_, ?_, hnew, rfl⟩⟩
  · rw [List.length_append]
    omega
  · rw [List.take_append_of_le_length hle, hsizage]
  · rw [List.length_append]
    omega
  · rw [List.take_append_of_le_length hfs, hindexer]

theorem parseReceiptCouple_eq_ok {index n : ℕ} {text : Bytes} {couple : String × Bytes} :
    parseReceiptCouple X index text = .ok (couple, n) ↔ ∃ sigQb64 m,
      both (parseMatterQb64 X "prefix" index) (parseMatterQb64 X "signature" index) text =
        .ok ((couple.1, sigQb64), n) ∧
      X.cesr.matterFromQb64 sigQb64 = .ok m ∧ couple.2 = m.raw := by
  simp only [parseReceiptCouple, bind_eq_ok, mapError_eq_ok, pure_eq_ok, Prod.exists,
    Prod.mk.injEq]
  constructor
  · rintro ⟨_, sigQb64, _, hboth, m, hm, rfl, rfl⟩
    exact ⟨sigQb64, m, hboth, hm, rfl⟩
  · rintro ⟨sigQb64, m, hboth, hm, hraw⟩
    exact ⟨couple.1, sigQb64, n, hboth, m, hm, by rw [← hraw], rfl⟩

theorem parseReceiptCouple_local (Q : Bytes → Prop) (index : ℕ) :
    Local Q (parseReceiptCouple X index) := by
  intro text couple n h
  obtain ⟨sigQb64, m, hboth, hm, hraw⟩ := parseReceiptCouple_eq_ok.1 h
  obtain ⟨hle, hboth'⟩ := (parseMatterQb64_local Q "prefix" index).both
    (parseMatterQb64_local Q "signature" index) _ _ _ hboth
  exact ⟨hle, fun rest hrest =>
    parseReceiptCouple_eq_ok.2 ⟨sigQb64, m, hboth' rest hrest, hm, hraw⟩⟩

/-! ### Groups are local -/

theorem checkGroup_eq_ok {what : String} {perItem count : ℕ} {data : Bytes} {u : Unit} :
    checkGroup what perItem count data = .ok u ↔ count ≤ maxAttachmentCount ∧
      count * perItem ≤ data.length ∧ isAscii data = true := by
  simp only [checkGroup, bind_eq_ok, ensure_eq_ok]
  constructor
  · rintro ⟨-, hmax, -, hlen, hascii⟩
    exact ⟨hmax, hlen, hascii⟩
  · rintro ⟨hmax, hlen, hascii⟩
    exact ⟨⟨⟩, hmax, ⟨⟩, hlen, hascii⟩

/-- What can follow a group: ASCII that does not start another. -/
def EndsGroups (rest : Bytes) : Prop := isAscii rest = true ∧ rest.head? ≠ some dash

/-- A group of items, each read locally, is read locally. -/
theorem checked_local {β : Type} {Q : Bytes → Prop} (hQ : ∀ rest, Q rest → isAscii rest = true)
    {what : String} {perItem count : ℕ} {read : Bytes → Except CoreError (β × ℕ)}
    (h : Local Q read) :
    Local Q (fun data => checkGroup what perItem count data >>= fun _ => read data) := by
  intro data x k hread
  obtain ⟨_, hcheck, hread⟩ := bind_eq_ok.1 hread
  obtain ⟨hmax, hlen, hascii⟩ := checkGroup_eq_ok.1 hcheck
  obtain ⟨hle, hread'⟩ := h data x k hread
  refine ⟨hle, fun rest hrest => bind_eq_ok.2 ⟨⟨⟩, checkGroup_eq_ok.2 ⟨hmax, ?_, ?_⟩,
    hread' rest hrest⟩⟩
  · rw [List.length_append]
    omega
  · rw [isAscii_append, hascii, hQ rest hrest]
    rfl

theorem EndsGroups.ascii {rest : Bytes} (h : EndsGroups rest) : isAscii rest = true := h.1

theorem parseIndexedSigs_local (count : ℕ) : Local EndsGroups (parseIndexedSigs X count) :=
  checked_local (fun _ => EndsGroups.ascii)
    (Local.times (fun i => parseIndexedSig_local EndsGroups count i) 0 count)

theorem parseReceiptCouples_local (count : ℕ) : Local EndsGroups (parseReceiptCouples X count) :=
  checked_local (fun _ => EndsGroups.ascii)
    (Local.times (fun i => parseReceiptCouple_local EndsGroups i) 0 count)

theorem parseQb64Pairs_local (count : ℕ) : Local EndsGroups (parseQb64Pairs X count) :=
  checked_local (fun _ => EndsGroups.ascii)
    (Local.times (fun i => (parseMatterQb64_local EndsGroups _ i).both
      (parseMatterQb64_local EndsGroups _ i)) 0 count)

section

variable {nested : Bytes → Except CoreError (List Attachment × ℕ)} {Q : Bytes → Prop}

theorem parseTransIdxSigGroup_eq_ok {index n : ℕ} {data : Bytes} {g : TransIdxSigGroup} :
    parseTransIdxSigGroup X nested index data = .ok (g, n) ↔ ∃ k inner consumed,
      both (parseMatterQb64 X "transferable sig group prefix" index)
        (both (parseMatterQb64 X "transferable sig group sn" index)
          (parseMatterQb64 X "transferable sig group said" index)) data =
        .ok ((g.pfx, g.sn, g.said), k) ∧
      nested (data.drop k) = .ok (inner, consumed) ∧ collectSigs X index inner = .ok g.sigs ∧
      g.sigs ≠ [] ∧ n = k + consumed := by
  simp only [parseTransIdxSigGroup, bind_eq_ok, ensure_eq_ok, pure_eq_ok, Prod.exists,
    Prod.mk.injEq]
  constructor
  · rintro ⟨_, _, _, k, hboth, inner, consumed, hnested, sigs, hsigs, -, hne, rfl, rfl⟩
    exact ⟨k, inner, consumed, hboth, hnested, hsigs, hne, rfl⟩
  · rintro ⟨k, inner, consumed, hboth, hnested, hsigs, hne, rfl⟩
    exact ⟨_, _, _, k, hboth, inner, consumed, hnested, g.sigs, hsigs, ⟨⟩, hne, rfl, rfl⟩

theorem parseTransIdxSigGroup_local (h : Local Q nested) (index : ℕ) :
    Local Q (parseTransIdxSigGroup X nested index) := by
  intro data g n hread
  obtain ⟨k, inner, consumed, hboth, hnested, hsigs, hne, rfl⟩ :=
    parseTransIdxSigGroup_eq_ok.1 hread
  obtain ⟨hk, hboth'⟩ := (parseMatterQb64_local Q _ index).both
    ((parseMatterQb64_local Q _ index).both
      (parseMatterQb64_local Q _ index)) _ _ _ hboth
  obtain ⟨hconsumed, hnested'⟩ := h _ _ _ hnested
  rw [List.length_drop] at hconsumed
  refine ⟨by omega, fun rest hrest => parseTransIdxSigGroup_eq_ok.2
    ⟨k, inner, consumed, hboth' rest hrest, ?_, hsigs, hne, rfl⟩⟩
  rw [List.drop_append_of_le_length hk]
  exact hnested' rest hrest

theorem parseTransIdxSigGroups_local (hQ : ∀ rest, Q rest → isAscii rest = true)
    (h : Local Q nested) (count : ℕ) : Local Q (parseTransIdxSigGroups X nested count) :=
  checked_local hQ (Local.times (fun i => parseTransIdxSigGroup_local h i) 0 count)

theorem parseQuadlets_eq_ok {count n : ℕ} {data : Bytes} {atts : List Attachment} :
    parseQuadlets nested count data = .ok (atts, n) ↔ count * 4 < u64Bound ∧
      count * 4 ≤ data.length ∧ nested (data.take (count * 4)) = .ok (atts, count * 4) ∧
      n = count * 4 := by
  simp only [parseQuadlets, bind_eq_ok, ensure_eq_ok, pure_eq_ok, Prod.exists, Prod.mk.injEq]
  constructor
  · rintro ⟨-, hbound, -, hlen, inner, consumed, hnested, -, rfl, rfl, rfl⟩
    exact ⟨hbound, hlen, hnested, rfl⟩
  · rintro ⟨hbound, hlen, hnested, rfl⟩
    exact ⟨⟨⟩, hbound, ⟨⟩, hlen, atts, _, hnested, ⟨⟩, rfl, rfl, rfl⟩

/-- A quadlet group is handed its own span only. -/
theorem parseQuadlets_local (Q : Bytes → Prop) (count : ℕ) :
    Local Q (parseQuadlets nested count) := by
  intro data atts n hread
  obtain ⟨hbound, hlen, hnested, rfl⟩ := parseQuadlets_eq_ok.1 hread
  refine ⟨hlen, fun rest _ => parseQuadlets_eq_ok.2 ⟨hbound, ?_, ?_, rfl⟩⟩
  · rw [List.length_append]
    omega
  · rw [List.take_append_of_le_length hlen, hnested]

/-- Naming the group read keeps locality. -/
theorem tagged_local {β : Type} {read : Bytes → Except CoreError (β × ℕ)} (tag : β → Attachment)
    (h : Local Q read) : Local Q (fun data => read data >>= fun p => pure ([tag p.1], p.2)) := by
  intro data atts n hread
  obtain ⟨⟨x, k⟩, hx, heq⟩ := bind_eq_ok.1 hread
  rw [pure_eq_ok, Prod.mk.injEq] at heq
  obtain ⟨rfl, rfl⟩ := heq
  obtain ⟨hle, hx'⟩ := h _ _ _ hx
  exact ⟨hle, fun rest hrest => bind_eq_ok.2 ⟨(x, k), hx' rest hrest, rfl⟩⟩

theorem parseGroup_local (h : Local EndsGroups nested) (table : CounterTable)
    (counter : Counter) : Local EndsGroups (parseGroup X nested table true counter) := by
  unfold parseGroup
  cases GroupKind.classify counter.code table with
  | none =>
      intro data atts n hread
      cases hread
  | some kind =>
      cases kind with
      | attachedMaterialQuadlets => exact parseQuadlets_local EndsGroups counter.count
      | controllerIdxSigs => exact tagged_local _ (parseIndexedSigs_local counter.count)
      | witnessIdxSigs => exact tagged_local _ (parseIndexedSigs_local counter.count)
      | nonTransReceiptCouples => exact tagged_local _ (parseReceiptCouples_local counter.count)
      | firstSeenReplayCouples => exact tagged_local _ (parseQb64Pairs_local counter.count)
      | sealSourceCouples => exact tagged_local _ (parseQb64Pairs_local counter.count)
      | transIdxSigGroups =>
          exact tagged_local _
            (parseTransIdxSigGroups_local (fun _ => EndsGroups.ascii) h counter.count)
      | transReceiptQuadruples =>
          intro data atts n hread
          cases hread

end

/-! ### The attachment loop is local -/

theorem parseCounter_eq_ok {data : Bytes} {c : Counter} {n : ℕ} :
    parseCounter X data = .ok (c, n) ↔ isAscii data = true ∧
      X.cesr.counterFromQb64 (textOf data) = .ok c ∧ n = X.cesr.counterFullSize c := by
  simp only [parseCounter, bind_eq_ok, ensure_eq_ok, mapError_eq_ok, pure_eq_ok, Prod.mk.injEq]
  constructor
  · rintro ⟨-, hascii, _, hc, rfl, rfl⟩
    exact ⟨hascii, hc, rfl⟩
  · rintro ⟨hascii, hc, rfl⟩
    exact ⟨⟨⟩, hascii, c, hc, rfl, rfl⟩

/-- A counter is inside of what it is read from, as it is inside of the text. -/
theorem parseCounter_within (hX : ∀ {text : String} {c : Counter},
      X.cesr.counterFromQb64 text = .ok c →
      0 < X.cesr.counterFullSize c ∧ X.cesr.counterFullSize c ≤ (strBytes text).length)
    {data : Bytes} {c : Counter} {n : ℕ} (h : parseCounter X data = .ok (c, n)) :
    0 < n ∧ n ≤ data.length := by
  obtain ⟨hascii, hc, rfl⟩ := parseCounter_eq_ok.1 h
  obtain ⟨hpos, hle⟩ := hX hc
  rw [strBytes_textOf hascii] at hle
  exact ⟨hpos, hle⟩

theorem parseCounter_le (hX : CounterLaws X) {data : Bytes} {c : Counter} {n : ℕ}
    (h : parseCounter X data = .ok (c, n)) : 0 < n ∧ n ≤ data.length :=
  parseCounter_within (fun hc => ⟨hX.fullSize_pos hc, hX.fullSize_le hc⟩) h

theorem parseAttachmentsFrom_of_ne {table : CounterTable} {strict : Bool} {fuel : ℕ}
    {data : Bytes} (h : data.head? ≠ some dash) :
    parseAttachmentsFrom X table strict fuel data = .ok ([], 0) := by
  cases fuel with
  | zero => rfl
  | succ fuel => rw [parseAttachmentsFrom, if_pos h]

/-- One turn of the attachment loop. -/
theorem parseAttachmentsFrom_succ_eq_ok {table : CounterTable} {strict : Bool} {fuel n : ℕ}
    {data : Bytes} {atts : List Attachment} (h : data.head? = some dash) :
    parseAttachmentsFrom X table strict (fuel + 1) data = .ok (atts, n) ↔
      ∃ counter size group consumed more rest, parseCounter X data = .ok (counter, size) ∧
        parseGroup X (parseAttachmentsFrom X table strict fuel) table strict counter
          (data.drop size) = .ok (group, consumed) ∧
        parseAttachmentsFrom X table strict fuel (data.drop (size + consumed)) =
          .ok (more, rest) ∧
        atts = group ++ more ∧ n = size + consumed + rest := by
  have hnot : ¬ data.head? ≠ some dash := not_not.2 h
  rw [parseAttachmentsFrom, if_neg hnot]
  simp only [bind_eq_ok, pure_eq_ok, Prod.exists, Prod.mk.injEq]
  constructor
  · rintro ⟨counter, size, hc, group, consumed, hg, more, rest, hm, rfl, rfl⟩
    exact ⟨counter, size, group, consumed, more, rest, hc, hg, hm, rfl, rfl⟩
  · rintro ⟨counter, size, group, consumed, more, rest, hc, hg, hm, rfl, rfl⟩
    exact ⟨counter, size, hc, group, consumed, hg, more, rest, hm, rfl, rfl⟩

/-- **ASCII that does not start a group changes nothing** in how the groups before it are read. -/
theorem parseAttachmentsFrom_local (hX : CounterLaws X) (table : CounterTable) (fuel : ℕ) :
    Local EndsGroups (parseAttachmentsFrom X table true fuel) := by
  induction fuel with
  | zero =>
      intro data atts n h
      cases h
      exact ⟨Nat.zero_le _, fun rest _ => rfl⟩
  | succ fuel ih =>
      intro data atts n h
      by_cases hdash : data.head? = some dash
      · obtain ⟨counter, size, group, consumed, more, k, hc, hg, hm, rfl, rfl⟩ :=
          (parseAttachmentsFrom_succ_eq_ok hdash).1 h
        obtain ⟨hpos, hsize⟩ := parseCounter_le hX hc
        obtain ⟨hconsumed, hg'⟩ := parseGroup_local ih table counter _ _ _ hg
        obtain ⟨hk, hm'⟩ := ih _ _ _ hm
        rw [List.length_drop] at hconsumed hk
        refine ⟨by omega, fun rest hrest => (parseAttachmentsFrom_succ_eq_ok ?_).2
          ⟨counter, size, group, consumed, more, k, ?_, ?_, ?_, rfl, rfl⟩⟩
        · rw [List.head?_append, hdash]
          rfl
        · obtain ⟨hascii, hcounter, rfl⟩ := parseCounter_eq_ok.1 hc
          refine parseCounter_eq_ok.2 ⟨?_, ?_, rfl⟩
          · rw [isAscii_append, hascii, hrest.1]
            rfl
          · rw [textOf_append]
            exact hX.append hcounter _
        · rw [List.drop_append_of_le_length hsize]
          exact hg' rest hrest
        · rw [List.drop_append_of_le_length (by omega)]
          exact hm' rest hrest
      · rw [parseAttachmentsFrom_of_ne hdash] at h
        cases h
        refine ⟨Nat.zero_le _, fun rest hrest => parseAttachmentsFrom_of_ne ?_⟩
        cases data with
        | nil => exact hrest.2
        | cons b bs => exact hdash

/-! ### Fuel -/

section

variable {nested nested' : Bytes → Except CoreError (List Attachment × ℕ)} {N : ℕ}

theorem parseTransIdxSigGroup_congr (h : ∀ data, data.length ≤ N → nested data = nested' data)
    (index : ℕ) {data : Bytes} (hlen : data.length ≤ N) :
    parseTransIdxSigGroup X nested index data = parseTransIdxSigGroup X nested' index data := by
  unfold parseTransIdxSigGroup
  congr 1
  funext ⟨⟨pfx, sn, said⟩, size⟩
  have hdrop : (data.drop size).length ≤ N := by
    rw [List.length_drop]
    omega
  simp only [h _ hdrop]

/-- A group read with nested readers that agree on short inputs is read alike on them. -/
theorem parseGroup_congr (h : ∀ data, data.length ≤ N → nested data = nested' data)
    (table : CounterTable) (strict : Bool) (counter : Counter) {data : Bytes}
    (hlen : data.length ≤ N) :
    parseGroup X nested table strict counter data =
      parseGroup X nested' table strict counter data := by
  have htrans : parseTransIdxSigGroups X nested counter.count data =
      parseTransIdxSigGroups X nested' counter.count data := by
    unfold parseTransIdxSigGroups
    rw [Reader.times_congr (fun i data hd => parseTransIdxSigGroup_congr h i hd) 0 _ hlen]
  have hquad : parseQuadlets nested counter.count data =
      parseQuadlets nested' counter.count data := by
    have htake : (data.take (counter.count * 4)).length ≤ N := by
      rw [List.length_take]
      omega
    unfold parseQuadlets
    rw [h _ htake]
  unfold parseGroup
  rw [htrans, hquad]

end

/-- The attachment loop does not depend on its fuel, once there is more of it than input. -/
theorem parseAttachmentsFrom_fuel (hX : CounterLaws X) {table : CounterTable} {strict : Bool}
    {n m : ℕ} {data : Bytes} (hn : data.length < n) (hm : data.length < m) :
    parseAttachmentsFrom X table strict n data = parseAttachmentsFrom X table strict m data := by
  induction n generalizing m data with
  | zero => omega
  | succ n ih =>
      cases m with
      | zero => omega
      | succ m =>
          by_cases hdash : data.head? = some dash
          · have hnot : ¬ data.head? ≠ some dash := not_not.2 hdash
            rw [parseAttachmentsFrom, parseAttachmentsFrom, if_neg hnot, if_neg hnot]
            cases hc : parseCounter X data with
            | error e => rfl
            | ok p =>
                obtain ⟨counter, size⟩ := p
                -- the counter has at least one character, so what follows is shorter
                obtain ⟨hpos, hle⟩ := parseCounter_le hX hc
                have hshort : ∀ k, (data.drop (size + k)).length < n ∧
                    (data.drop (size + k)).length < m := by
                  intro k
                  rw [List.length_drop]
                  omega
                have hagree : ∀ d : Bytes, d.length ≤ (data.drop size).length →
                    parseAttachmentsFrom X table strict n d =
                      parseAttachmentsFrom X table strict m d := by
                  intro d hd
                  obtain ⟨h₁, h₂⟩ := hshort 0
                  rw [Nat.add_zero] at h₁ h₂
                  exact ih (by omega) (by omega)
                simp only [ok_bind]
                rw [parseGroup_congr hagree table strict counter le_rfl]
                congr 1
                funext ⟨group, consumed⟩
                rw [ih (hshort consumed).1 (hshort consumed).2]
          · rw [parseAttachmentsFrom_of_ne hdash, parseAttachmentsFrom_of_ne hdash]

/-- One turn of the message loop depends on what follows the white space. -/
theorem parseAllFrom_succ (strict : Bool) (fuel : ℕ) (stream : Bytes) :
    parseAllFrom X strict (fuel + 1) stream =
      if skipWhitespace stream = [] then .ok []
      else parseNextInner X strict (skipWhitespace stream) >>= fun p =>
        ensure (p.2 ≠ 0) (.parseError "parse_next consumed zero bytes") >>= fun _ =>
        parseAllFrom X strict fuel ((skipWhitespace stream).drop p.2) >>= fun more =>
        pure (p.1 :: more) := rfl

theorem skipWhitespace_length (stream : Bytes) :
    (skipWhitespace stream).length ≤ stream.length :=
  (List.dropWhile_suffix _).length_le

/-- The message loop does not depend on its fuel, once there is more of it than input. -/
theorem parseAllFrom_fuel {strict : Bool} {n m : ℕ} (stream : Bytes) (hn : stream.length < n)
    (hm : stream.length < m) :
    parseAllFrom X strict n stream = parseAllFrom X strict m stream := by
  induction n generalizing m stream with
  | zero => omega
  | succ n ih =>
      cases m with
      | zero => omega
      | succ m =>
          rw [parseAllFrom_succ, parseAllFrom_succ]
          by_cases hend : skipWhitespace stream = []
          · rw [if_pos hend, if_pos hend]
          · rw [if_neg hend, if_neg hend]
            congr 1
            funext ⟨msg, consumed⟩
            by_cases hzero : consumed = 0
            · simp [hzero, ensure]
            · have hlen := skipWhitespace_length stream
              have hshort : ((skipWhitespace stream).drop consumed).length < stream.length := by
                have := List.length_pos_iff.2 hend
                rw [List.length_drop]
                omega
              simp only [ih ((skipWhitespace stream).drop consumed)
                (show _ < n by omega) (show _ < m by omega)]

/-! ### Streams in two parts -/

variable (X) in
/-- A stream of bodies and white space, with no attachment group. -/
inductive Plain : Bytes → Prop where
  | space {stream : Bytes} : skipWhitespace stream = [] → Plain stream
  | body {stream : Bytes} {s : Serder} : skipWhitespace stream ≠ [] →
      Serder.fromRaw X (skipWhitespace stream) = .ok s →
      ((skipWhitespace stream).drop s.size).head? ≠ some dash →
      Plain ((skipWhitespace stream).drop s.size) → Plain stream

theorem skipWhitespace_append {a b : Bytes} (h : skipWhitespace a ≠ []) :
    skipWhitespace (a ++ b) = skipWhitespace a ++ b := by
  unfold skipWhitespace at h ⊢
  rw [List.dropWhile_append]
  simp [h]

theorem skipWhitespace_append_of_nil {a b : Bytes} (h : skipWhitespace a = []) :
    skipWhitespace (a ++ b) = skipWhitespace b := by
  unfold skipWhitespace at h ⊢
  rw [List.dropWhile_append]
  simp [h]

theorem parseNextInner_eq_ok {strict : Bool} {stream : Bytes} {m : ParsedMessage} {k : ℕ} :
    parseNextInner X strict stream = .ok (m, k) ↔ ∃ first, stream.head? = some first ∧
      (first = '{'.toUInt8 ∨ isCborStart first ∨ isMsgPackStart first) ∧ ∃ n,
      Serder.fromRaw X stream = .ok m.serder ∧
      parseAttachments X m.serder.table strict (stream.drop m.serder.size) =
        .ok (m.attachments, n) ∧ k = m.serder.size + n := by
  have hsad : parseNextSad X strict stream = .ok (m, k) ↔ ∃ n,
      Serder.fromRaw X stream = .ok m.serder ∧
      parseAttachments X m.serder.table strict (stream.drop m.serder.size) =
        .ok (m.attachments, n) ∧ k = m.serder.size + n := by
    simp only [parseNextSad, bind_eq_ok, pure_eq_ok, Prod.exists, Prod.mk.injEq]
    constructor
    · rintro ⟨serder, hs, atts, n, hatts, rfl, rfl⟩
      exact ⟨n, hs, hatts, rfl⟩
    · rintro ⟨n, hs, hatts, rfl⟩
      exact ⟨m.serder, hs, m.attachments, n, hatts, rfl, rfl⟩
  cases stream with
  | nil => simp [parseNextInner]
  | cons b bs =>
      simp only [parseNextInner, List.head?_cons, Option.some_inj, exists_eq_left']
      split
      · rename_i hstart
        rw [hsad]
        exact (and_iff_right hstart).symm
      · rename_i hstart
        simp [hstart]

/-- A stream that is read does not start with a counter. -/
theorem head_ne_dash {b : Bytes} {B : List ParsedMessage} {n : ℕ}
    (h : parseAllFrom X true (n + 1) b = .ok B) : b.head? ≠ some dash := by
  intro hdash
  cases b with
  | nil => cases hdash
  | cons x xs =>
      obtain rfl : x = dash := by simpa using hdash
      have hskip : skipWhitespace (dash :: xs) = dash :: xs := rfl
      rw [parseAllFrom_succ, hskip, if_neg (List.cons_ne_nil _ _)] at h
      obtain ⟨⟨m, k⟩, hm, -⟩ := bind_eq_ok.1 h
      obtain ⟨first, hfirst, hstart, -⟩ := parseNextInner_eq_ok.1 hm
      obtain rfl : dash = first := by simpa using hfirst
      rcases hstart with hstart | hstart | hstart
      · exact absurd hstart (by decide)
      · exact absurd hstart (by decide)
      · exact absurd hstart (by decide)

/-- The first message of a stream: its bytes, and what is left of the stream after it. -/
theorem parseAllFrom_cons {n : ℕ} {a : Bytes} {A : List ParsedMessage}
    (h : parseAllFrom X true (n + 1) a = .ok A) (hne : skipWhitespace a ≠ []) :
    ∃ m k A', parseNextInner X true (skipWhitespace a) = .ok (m, k) ∧ k ≠ 0 ∧
      parseAllFrom X true n ((skipWhitespace a).drop k) = .ok A' ∧ A = m :: A' := by
  rw [parseAllFrom_succ, if_neg hne] at h
  obtain ⟨⟨m, k⟩, hm, h⟩ := bind_eq_ok.1 h
  obtain ⟨_, hk, h⟩ := bind_eq_ok.1 h
  obtain ⟨A', hA', h⟩ := bind_eq_ok.1 h
  exact ⟨m, k, A', hm, ensure_eq_ok.1 hk, hA', (pure_eq_ok.1 h).symm⟩

theorem parseAllFrom_of_cons {N k : ℕ} {s : Bytes} {m : ParsedMessage} {A : List ParsedMessage}
    (hne : skipWhitespace s ≠ []) (hm : parseNextInner X true (skipWhitespace s) = .ok (m, k))
    (hk : k ≠ 0) (hA : parseAllFrom X true N ((skipWhitespace s).drop k) = .ok A) :
    parseAllFrom X true (N + 1) s = .ok (m :: A) := by
  rw [parseAllFrom_succ, if_neg hne]
  exact bind_eq_ok.2 ⟨(m, k), hm, bind_eq_ok.2 ⟨⟨⟩, ensure_eq_ok.2 hk,
    bind_eq_ok.2 ⟨A, hA, rfl⟩⟩⟩

/-- A message with a version string is read in the same way when the stream goes on with something
that it is not confused by. -/
theorem parseNextInner_append (hX : CounterLaws X) {s b : Bytes} {m : ParsedMessage} {k : ℕ}
    {v : Version} (h : parseNextInner X true s = .ok (m, k))
    (hv : extractVersionFromRaw m.serder.raw = some v) (hb : b.head? ≠ some dash)
    (hend : isAscii b = true ∨ (s.drop m.serder.size).head? ≠ some dash) :
    k ≤ s.length ∧ parseNextInner X true (s ++ b) = .ok (m, k) := by
  obtain ⟨first, hfirst, hstart, n, hread, hatts, rfl⟩ := parseNextInner_eq_ok.1 h
  have hsize := Serder.raw_length_le hread
  have hraw : s = m.serder.raw ++ s.drop m.serder.size := by
    rw [Serder.raw_eq_take hread]
    exact (List.take_append_drop _ _).symm
  have hvs : extractVersionFromRaw s = some v := by
    rw [hraw]
    exact extractVersionFromRaw_append hv _
  have hlocal : n ≤ (s.drop m.serder.size).length ∧
      parseAttachments X m.serder.table true ((s ++ b).drop m.serder.size) =
        .ok (m.attachments, n) := by
    rw [List.drop_append_of_le_length hsize]
    unfold parseAttachments at hatts ⊢
    rcases hend with hascii | hplain
    · obtain ⟨hle, happ⟩ := parseAttachmentsFrom_local hX _ _ _ _ _ hatts
      refine ⟨hle, ?_⟩
      rw [← happ b ⟨hascii, hb⟩]
      -- the attachments are read with the fuel of the longer stream
      have hlocal := parseAttachmentsFrom_local hX m.serder.table
        ((s.drop m.serder.size ++ b).length + 1) (s.drop m.serder.size) m.attachments n
      rw [parseAttachmentsFrom_fuel hX (m := (s.drop m.serder.size).length + 1)
        (by rw [List.length_append]; omega) (by omega)] at hlocal
      rw [(hlocal hatts).2 b ⟨hascii, hb⟩, happ b ⟨hascii, hb⟩]
    · rw [parseAttachmentsFrom_of_ne hplain] at hatts
      obtain ⟨hnone, rfl⟩ := Prod.mk.inj (Except.ok.inj hatts)
      rw [← hnone]
      refine ⟨Nat.zero_le _, parseAttachmentsFrom_of_ne ?_⟩
      cases hd : s.drop m.serder.size with
      | nil => exact hb
      | cons x xs => rwa [hd] at hplain
  rw [List.length_drop] at hlocal
  refine ⟨by omega, parseNextInner_eq_ok.2 ⟨first, ?_, hstart, n, ?_, hlocal.2, rfl⟩⟩
  · rw [List.head?_append, hfirst]
    rfl
  · exact Serder.fromRaw_append hread hvs b

section

variable {b : Bytes} {B : List ParsedMessage}

/-- If the first part has no attachment group, or the second is ASCII, the messages of the two parts
are the messages of the whole. -/
theorem parseAllFrom_append (hX : CounterLaws X) (hb : parseAll X b = .ok B) {n N : ℕ} {a : Bytes}
    {A : List ParsedMessage} (hn : a.length < n) (hN : (a ++ b).length < N)
    (ha : parseAllFrom X true n a = .ok A)
    (hv : ∀ m ∈ A, ∃ v, extractVersionFromRaw m.serder.raw = some v)
    (h : Plain X a ∨ isAscii b = true) :
    parseAllFrom X true N (a ++ b) = .ok (A ++ B) := by
  have hdash := head_ne_dash hb
  induction n generalizing a A N with
  | zero => omega
  | succ n ih =>
      obtain ⟨N, rfl⟩ : ∃ N', N = N' + 1 := ⟨N - 1, by omega⟩
      by_cases hend : skipWhitespace a = []
      · rw [parseAllFrom_succ, if_pos hend] at ha
        cases ha
        rw [parseAllFrom_succ, skipWhitespace_append_of_nil hend, ← parseAllFrom_succ,
          List.nil_append, ← hb]
        rw [List.length_append] at hN
        exact parseAllFrom_fuel _ (by omega) (by omega)
      · obtain ⟨m, k, A', hm, hk, hA', rfl⟩ := parseAllFrom_cons ha hend
        obtain ⟨v, hmv⟩ := hv m List.mem_cons_self
        have hplain : isAscii b = true ∨
            ((skipWhitespace a).drop m.serder.size).head? ≠ some dash := by
          rcases h with hp | hascii
          · cases hp with
            | space hsp => exact absurd hsp hend
            | body _ hread hnot _ =>
                obtain ⟨_, -, -, _, hread', -, -⟩ := parseNextInner_eq_ok.1 hm
                obtain rfl := Except.ok.inj (hread.symm.trans hread')
                exact Or.inr hnot
          · exact Or.inl hascii
        obtain ⟨hle, hm'⟩ := parseNextInner_append hX hm hmv hdash hplain
        have hskip := skipWhitespace_append (b := b) hend
        have hlen := skipWhitespace_length a
        have hpos := List.length_pos_iff.2 hend
        rw [List.length_append] at hN
        refine parseAllFrom_of_cons (by rw [hskip]; simp [hend]) (by rw [hskip]; exact hm') hk ?_
        rw [hskip, List.drop_append_of_le_length hle]
        refine ih (by rw [List.length_drop]; omega) ?_ hA'
          (fun m' hm' => hv m' (List.mem_cons_of_mem _ hm')) ?_
        · rw [List.length_append, List.length_drop]
          omega
        · rcases h with hp | hascii
          · cases hp with
            | space hsp => exact absurd hsp hend
            | body _ hread hnot hrest =>
                obtain ⟨_, -, -, n', hread', hatts, rfl⟩ := parseNextInner_eq_ok.1 hm
                obtain rfl := Except.ok.inj (hread.symm.trans hread')
                rw [parseAttachments, parseAttachmentsFrom_of_ne hnot] at hatts
                obtain ⟨-, rfl⟩ := Prod.mk.inj (Except.ok.inj hatts)
                exact Or.inl hrest
          · exact Or.inr hascii

/-- If the first part has an attachment group and the second is not ASCII, the whole is refused. -/
theorem parseAllFrom_append_error (hX : CounterLaws X) (hb : parseAll X b = .ok B)
    (hascii : isAscii b ≠ true) {n N : ℕ} {a : Bytes} {A : List ParsedMessage}
    (hn : a.length < n) (hN : (a ++ b).length < N) (ha : parseAllFrom X true n a = .ok A)
    (hv : ∀ m ∈ A, ∃ v, extractVersionFromRaw m.serder.raw = some v) (h : ¬ Plain X a) :
    ∀ C, parseAllFrom X true N (a ++ b) ≠ .ok C := by
  have hdash := head_ne_dash hb
  induction n generalizing a A N with
  | zero => omega
  | succ n ih =>
      obtain ⟨N, rfl⟩ : ∃ N', N = N' + 1 := ⟨N - 1, by omega⟩
      intro C hC
      by_cases hend : skipWhitespace a = []
      · exact h (Plain.space hend)
      · obtain ⟨m, k, A', hm, hk, hA', rfl⟩ := parseAllFrom_cons ha hend
        obtain ⟨v, hmv⟩ := hv m List.mem_cons_self
        have hskip := skipWhitespace_append (b := b) hend
        obtain ⟨m', k', C', hm', hk', hC', rfl⟩ :=
          parseAllFrom_cons hC (by rw [hskip]; simp [hend])
        rw [hskip] at hm' hC'
        obtain ⟨_, -, -, n', hread, hatts, rfl⟩ := parseNextInner_eq_ok.1 hm
        by_cases hgroup : ((skipWhitespace a).drop m.serder.size).head? = some dash
        · -- the first group of `a`: its counter is not read with `b` in sight
          have hsize := Serder.raw_length_le hread
          have hraw : skipWhitespace a =
              m.serder.raw ++ (skipWhitespace a).drop m.serder.size := by
            rw [Serder.raw_eq_take hread]
            exact (List.take_append_drop _ _).symm
          have hvs : extractVersionFromRaw (skipWhitespace a) = some v := by
            rw [hraw]
            exact extractVersionFromRaw_append hmv _
          obtain ⟨_, -, -, n'', hread', hatts', -⟩ := parseNextInner_eq_ok.1 hm'
          rw [Serder.fromRaw_append hread hvs b] at hread'
          rw [← Except.ok.inj hread', List.drop_append_of_le_length hsize, parseAttachments]
            at hatts'
          have hhead : ((skipWhitespace a).drop m.serder.size ++ b).head? = some dash := by
            rw [List.head?_append, hgroup]
            rfl
          obtain ⟨counter, size, _, _, _, _, hc, -⟩ :=
            (parseAttachmentsFrom_succ_eq_ok hhead).1 hatts'
          obtain ⟨hall, -⟩ := parseCounter_eq_ok.1 hc
          rw [isAscii_append, Bool.and_eq_true] at hall
          exact hascii hall.2
        · obtain ⟨hle, hm''⟩ := parseNextInner_append hX hm hmv hdash (Or.inr hgroup)
          obtain ⟨rfl, rfl⟩ := Prod.mk.inj (Except.ok.inj (hm''.symm.trans hm'))
          rw [parseAttachments, parseAttachmentsFrom_of_ne hgroup] at hatts
          obtain ⟨-, rfl⟩ := Prod.mk.inj (Except.ok.inj hatts)
          rw [List.drop_append_of_le_length hle] at hC'
          have hlen := skipWhitespace_length a
          have hpos := List.length_pos_iff.2 hend
          rw [List.length_append] at hN
          refine ih (by rw [List.length_drop]; omega) ?_ hA'
            (fun m' hm' => hv m' (List.mem_cons_of_mem _ hm')) ?_ C' hC'
          · rw [List.length_append, List.length_drop]
            omega
          · intro hrest
            exact h (Plain.body hend hread hgroup hrest)

end

/-- **When a stream is read as its two parts are.**  Of two streams that are read, the first with a
version string in every body, the messages of the whole are those of the parts exactly when no
message of the first part is followed by an attachment group or the second part is ASCII. -/
theorem parseAll_append_iff (hX : CounterLaws X) {a b : Bytes} {A B : List ParsedMessage}
    (ha : parseAll X a = .ok A) (hb : parseAll X b = .ok B)
    (hv : ∀ m ∈ A, ∃ v, extractVersionFromRaw m.serder.raw = some v) :
    parseAll X (a ++ b) = .ok (A ++ B) ↔ Plain X a ∨ isAscii b = true := by
  constructor
  · intro h
    by_contra hcond
    rw [not_or] at hcond
    exact parseAllFrom_append_error hX hb hcond.2 (Nat.lt_succ_self _) (Nat.lt_succ_self _) ha hv
      hcond.1 _ h
  · exact parseAllFrom_append hX hb (Nat.lt_succ_self _) (Nat.lt_succ_self _) ha hv

/-- The toy counters are as assumed. -/
theorem counterLaws_toy (digest : Bytes → Bytes) : CounterLaws (Toy.externals digest) := by
  have hshape : ∀ {text : String} {c : Counter}, Toy.counterFromQb64 text = .ok c →
      ∃ x d e rest, strBytes text = 45 :: x :: d :: e :: rest := by
    intro text c h
    unfold Toy.counterFromQb64 at h
    split at h
    · exact ⟨_, _, _, _, ‹_›⟩
    · cases h
  refine ⟨fun _ => (by decide : 0 < 4), ?_, ?_⟩
  · intro text c h
    obtain ⟨x, d, e, rest, htext⟩ := hshape h
    rw [htext]
    exact Nat.le_add_left 4 rest.length
  · intro text c h rest
    obtain ⟨x, d, e, tail, htext⟩ := hshape h
    have happ : strBytes (text ++ rest) = 45 :: x :: d :: e :: (tail ++ strBytes rest) := by
      rw [strBytes_append, htext]
      rfl
    have h' : Toy.counterFromQb64 text = .ok c := h
    change Toy.counterFromQb64 (text ++ rest) = .ok c
    rw [← h']
    unfold Toy.counterFromQb64
    rw [happ, htext]
    rfl

/-- A signed inception, and a body that has a letter outside ASCII in it. -/
def toySigned : Bytes := Toy.signedBytes Toy.icp.raw 1

def toyLetter : Bytes :=
  Toy.print (.object [("v", .string "KERI10JSON000022_"), ("n", .string "é")])

theorem parseAll_append_toy : ∃ A B, parseAll Toy.lib toySigned = .ok A ∧
    parseAll Toy.lib Toy.ixn.raw = .ok B ∧
    (parseAll Toy.lib (toySigned ++ Toy.ixn.raw) = .ok (A ++ B) ↔
      Plain Toy.lib toySigned ∨ isAscii Toy.ixn.raw = true) ∧
    isAscii Toy.ixn.raw = true := by
  obtain ⟨A, hA, h⟩ := exists_ok_of_any (x := parseAll Toy.lib toySigned)
    (p := fun A => A.all fun m => (extractVersionFromRaw m.serder.raw).isSome)
    (by decide +kernel)
  obtain ⟨B, hB, hascii⟩ := exists_ok_of_any (x := parseAll Toy.lib Toy.ixn.raw)
    (p := fun _ => isAscii Toy.ixn.raw) (by decide +kernel)
  refine ⟨A, B, hA, hB, parseAll_append_iff (counterLaws_toy _) hA hB ?_, hascii⟩
  intro m hm
  exact Option.isSome_iff_exists.1 (List.all_eq_true.1 h m hm)

/-- A letter of a later message makes an earlier one fail. -/
theorem later_message_matters :
    ¬ ∀ (X : Externals) (a b : Bytes) (A B : List ParsedMessage), CounterLaws X →
      parseAll X a = .ok A → parseAll X b = .ok B →
      (∀ m ∈ A, ∃ v, extractVersionFromRaw m.serder.raw = some v) →
      parseAll X (a ++ b) = .ok (A ++ B) := by
  intro hclaim
  obtain ⟨A, hA, h⟩ := exists_ok_of_any (x := parseAll Toy.lib toySigned)
    (p := fun A => (A.all fun m => (extractVersionFromRaw m.serder.raw).isSome) &&
      !(parseAll Toy.lib (toySigned ++ toyLetter)).isOk) (by decide +kernel)
  obtain ⟨B, hB, -⟩ := exists_ok_of_any (x := parseAll Toy.lib toyLetter)
    (p := fun _ => true) (by decide +kernel)
  rw [Bool.and_eq_true] at h
  have hwhole := hclaim _ _ _ A B (counterLaws_toy Toy.checksumDigest) hA hB
    fun m hm => Option.isSome_iff_exists.1 (List.all_eq_true.1 h.1 m hm)
  have herror := h.2
  change (!(parseAll (Toy.externals Toy.checksumDigest) (toySigned ++ toyLetter)).isOk) = true
    at herror
  rw [hwhole] at herror
  cases herror

end Keri
