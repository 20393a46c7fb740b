/-
**Thresholds as text.**

A threshold is read from a field of an event and written in two ways: as a JSON value, and through a
serializer.  A weight has several spellings and is written in one; this module shows that what is
written is read back, at any number of clauses and weights, and that both ways write the same.

* `Keri.Serializer`, `Keri.ThresholdValue.serialize` — what is handed to a serializer;
* `Keri.Weight.Sound`, `Keri.Threshold.Sound` — what is read: no zero denominator, no empty clause;
* `Keri.Weight.parse_toFractionString` — a weight is read back;
* `Keri.Threshold.encoding_round_trip` — **a threshold that is read is sound, is read back from
  what it is written as, and is written the same in both ways**.
-/

import Keri.EventLogs
import Keri.Threshold

set_option relaxedAutoImplicit false
set_option autoImplicit false

namespace Keri

open Outcome

/-! ### Writing through a serializer -/

/-- What a serializer makes of a text, and of a sequence from what it has made of the items. -/
structure Serializer (α : Type) where
  str : String → α
  seq : List α → α

/-- The serializer into JSON values. -/
def Serializer.json : Serializer Value := { str := .string, seq := .array }

/-- A threshold, as a field of an event. -/
structure ThresholdValue where
  threshold : Threshold
  deriving DecidableEq, Repr

namespace ThresholdValue

def serialize {α : Type} (S : Serializer α) (t : ThresholdValue) : α :=
  match t.threshold with
  | .simple n => S.str (decimal n)
  | .weighted clauses =>
      S.seq (clauses.map fun clause => S.seq ((clause.map Weight.toFractionString).map S.str))

def deserialize (value : Value) : Except CoreError ThresholdValue := do
  let threshold ← Threshold.fromJsonValue value
  pure { threshold }

/-- **Both encoders write the same.** -/
theorem serialize_json (t : Threshold) :
    serialize Serializer.json { threshold := t } = t.toJsonValue := by
  cases t with
  | simple n => rfl
  | weighted clauses =>
      simp only [serialize, Serializer.json, Threshold.toJsonValue, List.map_map]
      rfl

end ThresholdValue

/-! ### Weights -/

theorem splitOnce_append {c : Char} {a b : String} (h : c ∉ a.toList) :
    splitOnce c (a ++ String.ofList (c :: b.toList)) = some (a, b) := by
  have hne : ∀ d ∈ a.toList, decide (d ≠ c) = true := by
    intro d hd
    exact decide_eq_true fun heq => h (heq ▸ hd)
  unfold splitOnce
  rw [String.toList_append, String.toList_ofList, List.dropWhile_append_of_pos hne,
    List.takeWhile_append_of_pos hne]
  simp

theorem splitOnce_of_not_mem {c : Char} {s : String} (h : c ∉ s.toList) :
    splitOnce c s = none := by
  have hdrop : s.toList.dropWhile (· ≠ c) = [] := by
    rw [List.dropWhile_eq_nil_iff]
    intro d hd
    exact decide_eq_true fun heq => h (heq ▸ hd)
  rw [splitOnce, hdrop]

namespace Weight

/-- The denominator is not zero, and both parts fit. -/
structure Sound (w : Weight) : Prop where
  den_ne : w.den ≠ 0
  num_lt : w.num < u32Bound
  den_lt : w.den < u32Bound

theorem parse_sound {s : String} {w : Weight} (h : parse s = .ok w) : w.Sound := by
  have hbound : 0 < u32Bound := by decide
  unfold parse at h
  split at h
  · simp only [new, bind_eq_ok, okOr_eq_ok, ensure_eq_ok, pure_eq_ok] at h
    obtain ⟨num, hnum, den, hden, -, hne, rfl⟩ := h
    exact ⟨hne, fromStrRadix_lt hbound hnum, fromStrRadix_lt hbound hden⟩
  · simp only [new, bind_eq_ok, okOr_eq_ok, ensure_eq_ok, pure_eq_ok] at h
    obtain ⟨num, hnum, -, hne, rfl⟩ := h
    exact ⟨hne, fromStrRadix_lt hbound hnum, (by decide : 1 < u32Bound)⟩

/-- **A weight is read back from what it is written as.** -/
theorem parse_toFractionString {w : Weight} (h : w.Sound) : parse w.toFractionString = .ok w := by
  have hnum := fromStrRadix_decimal h.num_lt
  have hden := fromStrRadix_decimal h.den_lt
  have hnew : new w.num w.den = .ok w := by
    simp only [new, ensure, if_pos h.den_ne, ok_bind]
    rfl
  have hslash : digitVal 10 '/' = none := by decide
  unfold toFractionString parse
  by_cases hone : w.den = 1
  · rw [if_pos hone, splitOnce_of_not_mem (not_mem_decimal hslash _)]
    simp only [hnum, okOr, ok_bind]
    rw [← hone, hnew]
  · have hsplit : splitOnce '/' (decimal w.num ++ "/" ++ decimal w.den) =
        some (decimal w.num, decimal w.den) := by
      have htext : decimal w.num ++ "/" ++ decimal w.den =
          decimal w.num ++ String.ofList ('/' :: (decimal w.den).toList) := by
        apply String.toList_injective
        simp
      rw [htext, splitOnce_append (not_mem_decimal hslash _)]
    rw [if_neg hone, hsplit]
    simp only [hnum, hden, okOr, ok_bind, hnew]

end Weight

/-! ### Thresholds -/

namespace Threshold

/-- A threshold of at least one signature, or of clauses of which none is empty. -/
def Sound : Threshold → Prop
  | .simple n => 1 ≤ n ∧ n < u64Bound
  | .weighted clauses => clauses ≠ [] ∧ ∀ clause ∈ clauses, clause ≠ [] ∧ ∀ w ∈ clause, w.Sound

theorem weightOf_sound {v : Value} {w : Weight} (h : weightOf v = .ok w) : w.Sound := by
  simp only [weightOf, bind_eq_ok, okOr_eq_ok] at h
  obtain ⟨s, -, hparse⟩ := h
  exact Weight.parse_sound hparse

/-- The results of reading the items of an array are sound, and as many. -/
theorem mapM_sound {α : Type} {f : Value → Except CoreError α} {P : α → Prop}
    (hf : ∀ v a, f v = .ok a → P a) {vs : List Value} {as : List α} (h : vs.mapM f = .ok as) :
    (vs ≠ [] → as ≠ []) ∧ ∀ a ∈ as, P a := by
  have hall := mapM_eq_ok.1 h
  refine ⟨?_, ?_⟩
  · rintro hne rfl
    exact hne (List.forall₂_nil_right_iff.1 hall)
  · intro a ha
    obtain ⟨v, -, hv⟩ := exists_of_mem_mapM h ha
    exact hf v a hv

theorem clauseOf_sound {v : Value} {clause : List Weight} (h : clauseOf v = .ok clause) :
    clause ≠ [] ∧ ∀ w ∈ clause, w.Sound := by
  simp only [clauseOf, bind_eq_ok, okOr_eq_ok, ensure_eq_ok] at h
  obtain ⟨arr, -, -, hne, hmap⟩ := h
  obtain ⟨hclause, hall⟩ := mapM_sound (fun v w => weightOf_sound) hmap
  exact ⟨hclause hne, hall⟩

/-- **A threshold that is read is sound**, its numbers being 64-bit ones. -/
theorem fromJsonValue_sound {v : Value} (hv : ∀ n, v = .number (.posInt n) → n < u64Bound)
    {t : Threshold} (h : fromJsonValue v = .ok t) : t.Sound := by
  unfold fromJsonValue at h
  split at h
  · simp only [bind_eq_ok, okOr_eq_ok, ensure_eq_ok, pure_eq_ok] at h
    obtain ⟨n, hn, -, hne, rfl⟩ := h
    exact ⟨Nat.one_le_iff_ne_zero.2 hne, fromStrRadix_lt (by decide) hn⟩
  · simp only [bind_eq_ok, ensure_eq_ok, pure_eq_ok] at h
    obtain ⟨-, hne, rfl⟩ := h
    exact ⟨Nat.one_le_iff_ne_zero.2 hne, hv _ rfl⟩
  · cases h
  · simp only [bind_eq_ok, ensure_eq_ok, pure_eq_ok] at h
    obtain ⟨-, hne, clauses, hmap, rfl⟩ := h
    obtain ⟨hclauses, hall⟩ := mapM_sound (fun v c => clauseOf_sound) hmap
    exact ⟨hclauses hne, hall⟩
  · cases h

/-- Reading what has been written, item by item. -/
theorem mapM_map_ok {α : Type} {f : Value → Except CoreError α} {g : α → Value} {as : List α}
    (h : ∀ a ∈ as, f (g a) = .ok a) : (as.map g).mapM f = .ok as := by
  rw [mapM_eq_ok, List.forall₂_map_left_iff]
  exact List.forall₂_same.2 h

theorem clauseOf_written {clause : List Weight} (hne : clause ≠ [])
    (h : ∀ w ∈ clause, w.Sound) :
    clauseOf (.array (clause.map fun w => .string w.toFractionString)) = .ok clause := by
  have hread : ∀ w ∈ clause, weightOf (.string w.toFractionString) = .ok w := by
    intro w hw
    rw [weightOf]
    exact Weight.parse_toFractionString (h w hw)
  simp only [clauseOf, bind_eq_ok, okOr_eq_ok, ensure_eq_ok]
  exact ⟨_, rfl, ⟨⟩, by simpa using hne, mapM_map_ok hread⟩

/-- **A sound threshold is read back from what it is written as.** -/
theorem fromJsonValue_toJsonValue {t : Threshold} (h : t.Sound) :
    fromJsonValue t.toJsonValue = .ok t := by
  cases t with
  | simple n =>
      simp only [toJsonValue, fromJsonValue, bind_eq_ok, okOr_eq_ok, ensure_eq_ok, pure_eq_ok]
      exact ⟨n, fromStrRadix_decimal h.2, ⟨⟩, Nat.one_le_iff_ne_zero.1 h.1, rfl⟩
  | weighted clauses =>
      have hread : ∀ clause ∈ clauses,
          clauseOf (.array (clause.map fun w => .string w.toFractionString)) = .ok clause :=
        fun clause hc => clauseOf_written (h.2 clause hc).1 (h.2 clause hc).2
      simp only [toJsonValue, fromJsonValue, bind_eq_ok, ensure_eq_ok, pure_eq_ok]
      exact ⟨⟨⟩, by simpa using h.1, clauses, mapM_map_ok hread, rfl⟩

/-- What goes through a serializer is read back from the value. -/
theorem deserialize_serialize {t : Threshold} (h : t.Sound) :
    ThresholdValue.deserialize (ThresholdValue.serialize Serializer.json { threshold := t }) =
      .ok { threshold := t } := by
  rw [ThresholdValue.serialize_json, ThresholdValue.deserialize, fromJsonValue_toJsonValue h]
  rfl

/-- **The encoding of thresholds round-trips.**  A threshold that is read, from any spelling, is
read back from its JSON value, is serialized as that value, and has at least one signature or
clause, no empty clause and no zero denominator. -/
theorem encoding_round_trip {v : Value} (hv : ∀ n, v = .number (.posInt n) → n < u64Bound)
    {t : Threshold} (h : fromJsonValue v = .ok t) :
    fromJsonValue t.toJsonValue = .ok t ∧
      ThresholdValue.serialize Serializer.json { threshold := t } = t.toJsonValue ∧
      ((∃ n, t = .simple n ∧ 1 ≤ n) ∨
        ∃ clauses, t = .weighted clauses ∧ clauses ≠ [] ∧
          ∀ clause ∈ clauses, clause ≠ [] ∧ ∀ w ∈ clause, w.den ≠ 0) := by
  have hsound := fromJsonValue_sound hv h
  refine ⟨fromJsonValue_toJsonValue hsound, ThresholdValue.serialize_json t, ?_⟩
  cases t with
  | simple n => exact Or.inl ⟨n, rfl, hsound.1⟩
  | weighted clauses =>
      refine Or.inr ⟨clauses, rfl, hsound.1, fun clause hc => ?_⟩
      obtain ⟨hne, hall⟩ := hsound.2 clause hc
      exact ⟨hne, fun w hw => (hall w hw).den_ne⟩

/-- Spellings of a weight: with a sign, with zeros in front, over one. -/
def toySpellings : Value :=
  .array [.array [.string "+1/2", .string "01/002", .string "3/1"], .array [.string "1"]]

theorem encoding_round_trip_toy :
    ∃ t, fromJsonValue toySpellings = .ok t ∧ fromJsonValue t.toJsonValue = .ok t ∧
      t.toJsonValue =
        .array [.array [.string "1/2", .string "1/2", .string "3"], .array [.string "1"]] := by
  have hread : fromJsonValue toySpellings =
      .ok (.weighted [[⟨1, 2⟩, ⟨1, 2⟩, ⟨3, 1⟩], [⟨1, 1⟩]]) := by
    decide +kernel
  have hnumber : ∀ n, toySpellings = .number (.posInt n) → n < u64Bound := by
    intro n h
    cases h
  refine ⟨_, hread, (encoding_round_trip hnumber hread).1, ?_⟩
  decide +kernel

end Threshold

end Keri
