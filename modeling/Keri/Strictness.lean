/-
**Strict and lenient parsing.**

A group that the parser does not interpret ends a strict parse with an error; a lenient one records
it, with everything up to the end of the span it stands in.  The mode is handed down through
quadlet wrappers and transferable groups, and matters nowhere else, so a strict parse is a lenient
parse that has recorded no such group.

* `Keri.Interpreted` — no group among the attachments is uninterpreted;
* `Keri.parseGroup_strict_iff` — one group, given that the readers of nested groups agree;
* `Keri.parseAttachmentsFrom_strict_iff` — **the attachment loop**, by induction on its fuel and so
  at every depth of nesting;
* `Keri.parseSpans` — the messages of a stream with the place and the length of each;
* `Keri.strict_iff_lenient` — **strict parsing is lenient parsing without the unknown**.
-/

import Keri.ParserStream

set_option relaxedAutoImplicit false
set_option autoImplicit false

namespace Keri

open Outcome Reader

variable {X : Externals}

/-! ### Groups -/

/-- A group that could not be interpreted. -/
def Attachment.isUnknown : Attachment → Bool
  | .unknown .. => true
  | _ => false

/-- No group among the attachments is uninterpreted. -/
def Interpreted (atts : List Attachment) : Prop := ∀ a ∈ atts, a.isUnknown = false

theorem interpreted_append {atts more : List Attachment} :
    Interpreted (atts ++ more) ↔ Interpreted atts ∧ Interpreted more := by
  simp only [Interpreted, List.mem_append]
  constructor
  · intro h
    exact ⟨fun a ha => h a (Or.inl ha), fun a ha => h a (Or.inr ha)⟩
  · rintro ⟨hatts, hmore⟩ a (ha | ha)
    · exact hatts a ha
    · exact hmore a ha

theorem hasUninterpreted_eq_false {m : ParsedMessage} :
    m.hasUninterpretedAttachments = false ↔ Interpreted m.attachments := by
  have hany : m.hasUninterpretedAttachments = m.attachments.any Attachment.isUnknown := by
    unfold ParsedMessage.hasUninterpretedAttachments
    congr 1
  simp only [hany, List.any_eq_false, Bool.not_eq_true, Interpreted]

/-- The signatures of a nested group are collected only when every group in it is interpreted. -/
theorem interpreted_of_collectSigs {index : ℕ} {atts : List Attachment} {sigs : List Siger}
    (h : collectSigs X index atts = .ok sigs) : Interpreted atts := by
  induction atts generalizing sigs with
  | nil => exact fun a ha => absurd ha List.not_mem_nil
  | cons att atts ih =>
      cases att with
      | controllerSigs own =>
          obtain ⟨more, hmore, -⟩ := bind_eq_ok.1 h
          intro a ha
          rcases List.mem_cons.1 ha with rfl | ha
          · rfl
          · exact ih hmore a ha
      | witnessSigs => cases h
      | receiptCouples => cases h
      | firstSeenReplayCouples => cases h
      | sealSourceCouples => cases h
      | transIdxSigGroups => cases h
      | unknown => cases h

section

variable {strictly leniently : Bytes → Except CoreError (List Attachment × ℕ)}

/-- The readers of nested groups agree, but for what the strict one refuses. -/
def Refines (strictly leniently : Bytes → Except CoreError (List Attachment × ℕ)) : Prop :=
  ∀ data atts n, strictly data = .ok (atts, n) ↔ leniently data = .ok (atts, n) ∧ Interpreted atts

/-- A transferable group is read alike in both modes: it refuses a nested group that is not one of
signatures. -/
theorem parseTransIdxSigGroup_strict_iff (h : Refines strictly leniently) (index : ℕ)
    (data : Bytes) (g : TransIdxSigGroup) (n : ℕ) :
    parseTransIdxSigGroup X strictly index data = .ok (g, n) ↔
      parseTransIdxSigGroup X leniently index data = .ok (g, n) := by
  rw [parseTransIdxSigGroup_eq_ok, parseTransIdxSigGroup_eq_ok]
  constructor
  · rintro ⟨k, inner, consumed, hboth, hnested, hsigs, hne, rfl⟩
    exact ⟨k, inner, consumed, hboth, ((h _ _ _).1 hnested).1, hsigs, hne, rfl⟩
  · rintro ⟨k, inner, consumed, hboth, hnested, hsigs, hne, rfl⟩
    exact ⟨k, inner, consumed, hboth,
      (h _ _ _).2 ⟨hnested, interpreted_of_collectSigs hsigs⟩, hsigs, hne, rfl⟩

theorem parseTransIdxSigGroups_strict_iff (h : Refines strictly leniently) (count : ℕ)
    (data : Bytes) (groups : List TransIdxSigGroup) (n : ℕ) :
    parseTransIdxSigGroups X strictly count data = .ok (groups, n) ↔
      parseTransIdxSigGroups X leniently count data = .ok (groups, n) := by
  unfold parseTransIdxSigGroups
  simp only [bind_eq_ok]
  rw [times_ok_congr (parseTransIdxSigGroup_strict_iff h)]

theorem parseQuadlets_strict_iff (h : Refines strictly leniently) (count : ℕ) (data : Bytes)
    (atts : List Attachment) (n : ℕ) :
    parseQuadlets strictly count data = .ok (atts, n) ↔
      parseQuadlets leniently count data = .ok (atts, n) ∧ Interpreted atts := by
  rw [parseQuadlets_eq_ok, parseQuadlets_eq_ok, h]
  constructor
  · rintro ⟨hbound, hlen, ⟨hnested, hint⟩, rfl⟩
    exact ⟨⟨hbound, hlen, hnested, rfl⟩, hint⟩
  · rintro ⟨⟨hbound, hlen, hnested, rfl⟩, hint⟩
    exact ⟨hbound, hlen, ⟨hnested, hint⟩, rfl⟩

/-- A group whose reader does not depend on the mode. -/
theorem tagged_strict_iff {β : Type} {read read' : Bytes → Except CoreError (β × ℕ)}
    {tag : β → Attachment} (htag : ∀ x, (tag x).isUnknown = false)
    (h : ∀ data x k, read data = .ok (x, k) ↔ read' data = .ok (x, k)) (data : Bytes)
    (atts : List Attachment) (n : ℕ) :
    (read data >>= fun p => pure ([tag p.1], p.2)) = .ok (atts, n) ↔
      (read' data >>= fun p => pure ([tag p.1], p.2)) = .ok (atts, n) ∧ Interpreted atts := by
  simp only [bind_eq_ok, pure_eq_ok, Prod.mk.injEq, Prod.exists, h]
  constructor
  · rintro ⟨x, k, hx, rfl, rfl⟩
    refine ⟨⟨x, k, hx, rfl, rfl⟩, fun a ha => ?_⟩
    rw [List.mem_singleton.1 ha]
    exact htag x
  · rintro ⟨h, -⟩
    exact h

/-- A group that is not interpreted is an error in one mode and is recorded in the other. -/
theorem uninterpreted_strict_iff {error code : String} {count n : ℕ} {data : Bytes}
    {atts : List Attachment} :
    uninterpreted true error code count data = .ok (atts, n) ↔
      uninterpreted false error code count data = .ok (atts, n) ∧ Interpreted atts := by
  constructor
  · intro h
    cases h
  · rintro ⟨h, hint⟩
    obtain ⟨rfl, -⟩ := Prod.mk.inj (Except.ok.inj h)
    have hfalse := hint _ (List.mem_singleton_self _)
    cases hfalse

/-- **One group**, read with nested readers that agree but for what the strict one refuses. -/
theorem parseGroup_strict_iff (h : Refines strictly leniently) (table : CounterTable)
    (counter : Counter) (data : Bytes) (atts : List Attachment) (n : ℕ) :
    parseGroup X strictly table true counter data = .ok (atts, n) ↔
      parseGroup X leniently table false counter data = .ok (atts, n) ∧ Interpreted atts := by
  unfold parseGroup
  cases GroupKind.classify counter.code table with
  | none => exact uninterpreted_strict_iff
  | some kind =>
      cases kind with
      | attachedMaterialQuadlets => exact parseQuadlets_strict_iff h _ _ _ _
      | controllerIdxSigs => exact tagged_strict_iff (fun _ => rfl) (fun _ _ _ => Iff.rfl) _ _ _
      | witnessIdxSigs => exact tagged_strict_iff (fun _ => rfl) (fun _ _ _ => Iff.rfl) _ _ _
      | nonTransReceiptCouples =>
          exact tagged_strict_iff (fun _ => rfl) (fun _ _ _ => Iff.rfl) _ _ _
      | firstSeenReplayCouples =>
          exact tagged_strict_iff (fun _ => rfl) (fun _ _ _ => Iff.rfl) _ _ _
      | sealSourceCouples => exact tagged_strict_iff (fun _ => rfl) (fun _ _ _ => Iff.rfl) _ _ _
      | transIdxSigGroups =>
          exact tagged_strict_iff (fun _ => rfl)
            (parseTransIdxSigGroups_strict_iff h counter.count) _ _ _
      | transReceiptQuadruples => exact uninterpreted_strict_iff

end

/-- **The attachment loop.**  The induction is on the fuel, which bounds the depth of nesting as
well as the number of turns. -/
theorem parseAttachmentsFrom_strict_iff (table : CounterTable) (fuel : ℕ) :
    Refines (parseAttachmentsFrom X table true fuel) (parseAttachmentsFrom X table false fuel) := by
  induction fuel with
  | zero =>
      intro data atts n
      refine (and_iff_left_of_imp fun h => ?_).symm
      obtain ⟨rfl, -⟩ := Prod.mk.inj (Except.ok.inj h)
      exact fun a ha => absurd ha List.not_mem_nil
  | succ fuel ih =>
      intro data atts n
      by_cases hdash : data.head? = some dash
      · rw [parseAttachmentsFrom_succ_eq_ok hdash, parseAttachmentsFrom_succ_eq_ok hdash]
        simp only [parseGroup_strict_iff ih, ih _ _ _]
        constructor
        · rintro ⟨counter, size, group, consumed, more, rest, hc, ⟨hg, hgroup⟩, ⟨hm, hmore⟩, rfl,
            rfl⟩
          exact ⟨⟨counter, size, group, consumed, more, rest, hc, hg, hm, rfl, rfl⟩,
            interpreted_append.2 ⟨hgroup, hmore⟩⟩
        · rintro ⟨⟨counter, size, group, consumed, more, rest, hc, hg, hm, rfl, rfl⟩, hint⟩
          obtain ⟨hgroup, hmore⟩ := interpreted_append.1 hint
          exact ⟨counter, size, group, consumed, more, rest, hc, ⟨hg, hgroup⟩, ⟨hm, hmore⟩, rfl,
            rfl⟩
      · rw [parseAttachmentsFrom_of_ne hdash, parseAttachmentsFrom_of_ne hdash]
        refine (and_iff_left_of_imp fun h => ?_).symm
        obtain ⟨rfl, -⟩ := Prod.mk.inj (Except.ok.inj h)
        exact fun a ha => absurd ha List.not_mem_nil

/-! ### Messages -/

/-- One message: a strict parse is a lenient one that has recorded no uninterpreted group, and
uses as many bytes. -/
theorem parseNextInner_strict_iff {stream : Bytes} {m : ParsedMessage} {n : ℕ} :
    parseNextInner X true stream = .ok (m, n) ↔
      parseNextInner X false stream = .ok (m, n) ∧ m.hasUninterpretedAttachments = false := by
  have hsad : parseNextSad X true stream = .ok (m, n) ↔
      parseNextSad X false stream = .ok (m, n) ∧ m.hasUninterpretedAttachments = false := by
    simp only [parseNextSad, parseAttachments, bind_eq_ok, pure_eq_ok, Prod.mk.injEq, Prod.exists,
      parseAttachmentsFrom_strict_iff _ _ _ _ _]
    constructor
    · rintro ⟨serder, hs, atts, k, ⟨hatts, hint⟩, rfl, rfl⟩
      exact ⟨⟨serder, hs, atts, k, hatts, rfl, rfl⟩, hasUninterpreted_eq_false.2 hint⟩
    · rintro ⟨⟨serder, hs, atts, k, hatts, rfl, rfl⟩, hint⟩
      exact ⟨serder, hs, atts, k, ⟨hatts, hasUninterpreted_eq_false.1 hint⟩, rfl, rfl⟩
  cases stream with
  | nil => simp [parseNextInner]
  | cons b bs =>
      simp only [parseNextInner]
      split
      · exact hsad
      · simp

/-- A message of a stream: where it starts, and how many bytes it has. -/
structure Span where
  msg : ParsedMessage
  start : ℕ
  size : ℕ
  deriving DecidableEq

variable (X) in
/-- The message loop, with the place and the length of each message. -/
def parseSpansFrom (strict : Bool) : ℕ → ℕ → Bytes → Except CoreError (List Span)
  | 0, _, _ => .ok []
  | fuel + 1, offset, stream =>
      if skipWhitespace stream = [] then .ok []
      else do
        let start := offset + (stream.length - (skipWhitespace stream).length)
        let (msg, consumed) ← parseNextInner X strict (skipWhitespace stream)
        ensure (consumed ≠ 0) (.parseError "parse_next consumed zero bytes")
        let more ← parseSpansFrom strict fuel (start + consumed)
          ((skipWhitespace stream).drop consumed)
        pure ({ msg, start, size := consumed } :: more)

variable (X) in
/-- The messages of a stream, with their boundaries. -/
def parseSpans (strict : Bool) (stream : Bytes) : Except CoreError (List Span) :=
  parseSpansFrom X strict (stream.length + 1) 0 stream

/-- One turn of the loop. -/
theorem parseSpansFrom_succ_eq_ok {strict : Bool} {fuel offset : ℕ} {stream : Bytes}
    (h : skipWhitespace stream ≠ []) {spans : List Span} :
    parseSpansFrom X strict (fuel + 1) offset stream = .ok spans ↔ ∃ msg consumed more,
      parseNextInner X strict (skipWhitespace stream) = .ok (msg, consumed) ∧ consumed ≠ 0 ∧
        parseSpansFrom X strict fuel
          (offset + (stream.length - (skipWhitespace stream).length) + consumed)
          ((skipWhitespace stream).drop consumed) = .ok more ∧
        spans = { msg, start := offset + (stream.length - (skipWhitespace stream).length),
                  size := consumed } :: more := by
  rw [parseSpansFrom, if_neg h]
  simp only [bind_eq_ok, ensure_eq_ok, pure_eq_ok, Prod.exists]
  constructor
  · rintro ⟨msg, consumed, hm, -, hne, more, hmore, rfl⟩
    exact ⟨msg, consumed, more, hm, hne, hmore, rfl⟩
  · rintro ⟨msg, consumed, more, hm, hne, hmore, rfl⟩
    exact ⟨msg, consumed, hm, ⟨⟩, hne, more, hmore, rfl⟩

/-- The messages are those of the message loop. -/
theorem parseAllFrom_eq_spans (strict : Bool) (fuel offset : ℕ) (stream : Bytes) :
    parseAllFrom X strict fuel stream =
      (parseSpansFrom X strict fuel offset stream).map fun spans => spans.map Span.msg := by
  induction fuel generalizing offset stream with
  | zero => rfl
  | succ fuel ih =>
      rw [parseAllFrom, parseSpansFrom]
      by_cases hend : skipWhitespace stream = []
      · rw [if_pos hend, if_pos hend]
        rfl
      · rw [if_neg hend, if_neg hend]
        rcases ok_or_error (parseNextInner X strict (skipWhitespace stream)) with
          ⟨⟨msg, consumed⟩, hm⟩ | ⟨e, he⟩
        · rw [hm, ok_bind, ok_bind]
          simp only
          by_cases hzero : consumed = 0
          · simp [ensure, hzero, Except.map]
          · rw [ih (offset + (stream.length - (skipWhitespace stream).length) + consumed)]
            simp only [ensure, ne_eq, hzero, not_false_eq_true, if_true, ok_bind]
            cases parseSpansFrom X strict fuel
              (offset + (stream.length - (skipWhitespace stream).length) + consumed)
              ((skipWhitespace stream).drop consumed) with
            | ok more => rfl
            | error e => rfl
        · rw [he]
          rfl

/-- The loop: the induction is on its fuel. -/
theorem parseSpansFrom_strict_iff (fuel offset : ℕ) (stream : Bytes) (spans : List Span) :
    parseSpansFrom X true fuel offset stream = .ok spans ↔
      parseSpansFrom X false fuel offset stream = .ok spans ∧
        ∀ s ∈ spans, s.msg.hasUninterpretedAttachments = false := by
  induction fuel generalizing offset stream spans with
  | zero =>
      refine (and_iff_left_of_imp fun h => ?_).symm
      obtain rfl := Except.ok.inj h
      exact fun s hs => absurd hs List.not_mem_nil
  | succ fuel ih =>
      by_cases hend : skipWhitespace stream = []
      · rw [parseSpansFrom, parseSpansFrom, if_pos hend, if_pos hend]
        refine (and_iff_left_of_imp fun h => ?_).symm
        obtain rfl := Except.ok.inj h
        exact fun s hs => absurd hs List.not_mem_nil
      · rw [parseSpansFrom_succ_eq_ok hend, parseSpansFrom_succ_eq_ok hend]
        simp only [parseNextInner_strict_iff, ih]
        constructor
        · rintro ⟨msg, consumed, more, ⟨hm, hint⟩, hne, ⟨hmore, hall⟩, rfl⟩
          refine ⟨⟨msg, consumed, more, hm, hne, hmore, rfl⟩, fun s hs => ?_⟩
          rcases List.mem_cons.1 hs with rfl | hs
          · exact hint
          · exact hall s hs
        · rintro ⟨⟨msg, consumed, more, hm, hne, hmore, rfl⟩, hall⟩
          exact ⟨msg, consumed, more, ⟨hm, hall _ List.mem_cons_self⟩, hne,
            ⟨hmore, fun s hs => hall s (List.mem_cons_of_mem _ hs)⟩, rfl⟩

/-- **Strict parsing is lenient parsing without the unknown.**  A stream is parsed strictly into
messages at given places exactly when it is parsed leniently into them and none has an uninterpreted
group; so a stream in which a lenient parse records such a group, at whatever depth, is refused. -/
theorem strict_iff_lenient (stream : Bytes) :
    (∀ spans, parseSpans X true stream = .ok spans ↔ parseSpans X false stream = .ok spans ∧
        ∀ s ∈ spans, s.msg.hasUninterpretedAttachments = false) ∧
      (∀ strict, parseAllInner X strict stream =
        (parseSpans X strict stream).map fun spans => spans.map Span.msg) ∧
      (∀ ms, parseAll X stream = .ok ms ↔ parseAllLenient X stream = .ok ms ∧
        ∀ m ∈ ms, m.hasUninterpretedAttachments = false) ∧
      ∀ ms, parseAllLenient X stream = .ok ms →
        (∃ m ∈ ms, m.hasUninterpretedAttachments = true) → ∃ e, parseAll X stream = .error e := by
  have hspans : ∀ spans, parseSpans X true stream = .ok spans ↔
      parseSpans X false stream = .ok spans ∧
        ∀ s ∈ spans, s.msg.hasUninterpretedAttachments = false :=
    parseSpansFrom_strict_iff _ _ _
  have hmsgs : ∀ strict, parseAllInner X strict stream =
      (parseSpans X strict stream).map fun spans => spans.map Span.msg :=
    fun strict => parseAllFrom_eq_spans strict _ 0 stream
  have hall : ∀ ms, parseAll X stream = .ok ms ↔ parseAllLenient X stream = .ok ms ∧
      ∀ m ∈ ms, m.hasUninterpretedAttachments = false := by
    intro ms
    unfold parseAll parseAllLenient
    rw [hmsgs, hmsgs]
    constructor
    · intro h
      obtain ⟨spans, hs, rfl⟩ := map_eq_ok.1 h
      obtain ⟨hlenient, hint⟩ := (hspans spans).1 hs
      refine ⟨map_eq_ok.2 ⟨spans, hlenient, rfl⟩, fun m hm => ?_⟩
      obtain ⟨s, hs, rfl⟩ := List.mem_map.1 hm
      exact hint s hs
    · rintro ⟨h, hint⟩
      obtain ⟨spans, hlenient, rfl⟩ := map_eq_ok.1 h
      exact map_eq_ok.2 ⟨spans, (hspans spans).2 ⟨hlenient,
        fun s hs => hint s.msg (List.mem_map_of_mem hs)⟩, rfl⟩
  refine ⟨hspans, hmsgs, hall, fun ms hms => ?_⟩
  rintro ⟨m, hm, hunknown⟩
  refine (ok_or_error (parseAll X stream)).resolve_left ?_
  rintro ⟨ms', hms'⟩
  -- a strict parse would be this one, which has an uninterpreted group
  obtain ⟨hlenient, hint⟩ := (hall ms').1 hms'
  obtain rfl := Except.ok.inj (hms.symm.trans hlenient)
  rw [hint m hm] at hunknown
  cases hunknown

end Keri
