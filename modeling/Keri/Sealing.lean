/-
**From the fields of an event to its bytes.**

An event is written with placeholders to learn its size, then with its size to learn its SAID, then
with its SAID, and each time its length has to come out the same.  It does as long as the size fits
the six digits of the version string, because compact JSON writes a plain text as it stands.

* `Keri.JsonLaws` — what is assumed of the JSON serializer;
* `Keri.length_print_insert` — overwriting a field changes the length by that of the value;
* `Keri.Version.parseStr_toVersionString` — a version string is read back;
* `Keri.Guarded`, `Keri.extractVersionFromRaw_guarded` — and found where no protocol tag starts
  before it, as at the start of a body that has it first;
* `Keri.Sealed` — what there is to say of the body of a sealed event;
* `Keri.sealed_of_sealEvent` — **a sealed event is read back, and its SAID verifies**.
-/

import Keri.Hab
import Keri.ParserGroups

set_option relaxedAutoImplicit false
set_option autoImplicit false

namespace Keri

open Outcome

/-! ### Plain texts -/

/-- Printable ASCII without quotes and backslashes. -/
def isPlainByte (b : UInt8) : Bool := decide (32 ≤ b ∧ b < 127 ∧ b ≠ 34 ∧ b ≠ 92)

/-- A text that JSON writes as it stands. -/
def isPlain (s : String) : Bool := (strBytes s).all isPlainByte

theorem isPlain_append (s t : String) : isPlain (s ++ t) = (isPlain s && isPlain t) := by
  simp [isPlain, strBytes_append]

theorem strBytes_ofList_of_ascii {cs : List Char} (h : ∀ c ∈ cs, c.toNat < 128) :
    strBytes (String.ofList cs) = cs.map fun c => UInt8.ofNat c.toNat := by
  rw [strBytes_ofList]
  induction cs with
  | nil => rfl
  | cons c cs ih =>
      have hc : String.utf8EncodeChar c = [UInt8.ofNat c.toNat] := by
        have hlt : c.val.toNat ≤ 127 := Nat.le_of_lt_succ (h c List.mem_cons_self)
        unfold String.utf8EncodeChar
        simp only
        rw [if_pos hlt]
        rfl
      rw [List.flatMap_cons, hc, ih fun d hd => h d (List.mem_cons_of_mem c hd)]
      rfl

/-- The digits of a numeral. -/
def digitChars : List Char :=
  ['0', '1', '2', '3', '4', '5', '6', '7', '8', '9', 'a', 'b', 'c', 'd', 'e', 'f']

theorem digitChar_mem {d : ℕ} (h : d < 16) : Nat.digitChar d ∈ digitChars := by
  interval_cases d <;> decide

theorem mem_toDigits {radix n : ℕ} (hone : 1 < radix) (hradix : radix ≤ 16) :
    ∀ c ∈ Nat.toDigits radix n, c ∈ digitChars := by
  induction n using Nat.strong_induction_on with
  | _ n ih =>
      intro c hc
      rcases Nat.lt_or_ge n radix with hlt | hge
      · rw [Nat.toDigits_of_lt_base hlt, List.mem_singleton] at hc
        exact hc ▸ digitChar_mem (by omega)
      · rw [Nat.toDigits_of_base_le hone hge, List.mem_append, List.mem_singleton] at hc
        have hmod : n % radix < 16 := (Nat.mod_lt n (by omega)).trans_le hradix
        rcases hc with hc | hc
        · exact ih (n / radix) (Nat.div_lt_self (by omega) hone) c hc
        · exact hc ▸ digitChar_mem hmod

theorem digitChars_byte {c : Char} (h : c ∈ digitChars) : c.toNat < 128 ∧
    isPlainByte (UInt8.ofNat c.toNat) = true ∧ UInt8.ofNat c.toNat < 128 ∧
    UInt8.ofNat c.toNat ≠ 95 := by
  have hn : c.toNat ∈ digitChars.map Char.toNat := List.mem_map_of_mem h
  have hall : ∀ n ∈ digitChars.map Char.toNat, n < 128 ∧ isPlainByte (UInt8.ofNat n) = true ∧
      UInt8.ofNat n < 128 ∧ UInt8.ofNat n ≠ 95 := by simp [digitChars, isPlainByte]
  exact hall _ hn

theorem strBytes_of_digitChars {s : String} (h : ∀ c ∈ s.toList, c ∈ digitChars) :
    strBytes s = s.toList.map fun c => UInt8.ofNat c.toNat := by
  have hbytes := strBytes_ofList_of_ascii fun c hc => (digitChars_byte (h c hc)).1
  rwa [String.ofList_toList] at hbytes

/-- A text of digits is plain, and as many bytes as characters. -/
theorem plain_of_digitChars {s : String} (h : ∀ c ∈ s.toList, c ∈ digitChars) :
    isPlain s = true ∧ (strBytes s).length = s.toList.length ∧ isAscii (strBytes s) = true := by
  have hbytes := strBytes_of_digitChars h
  refine ⟨?_, ?_, ?_⟩
  · rw [isPlain, hbytes, List.all_map, List.all_eq_true]
    exact fun c hc => (digitChars_byte (h c hc)).2.1
  · rw [hbytes, List.length_map]
  · rw [isAscii, hbytes, List.all_map, List.all_eq_true]
    intro c hc
    simpa using (digitChars_byte (h c hc)).2.2.1

/-- Digits are not the terminator of a version string. -/
theorem terminator_not_mem_digits {s : String} (h : ∀ c ∈ s.toList, c ∈ digitChars) :
    (95 : UInt8) ∉ strBytes s := by
  rw [strBytes_of_digitChars h, List.mem_map]
  rintro ⟨c, hc, heq⟩
  exact (digitChars_byte (h c hc)).2.2.2 heq

theorem digitChars_hexLower (n : ℕ) : ∀ c ∈ (hexLower n).toList, c ∈ digitChars := by
  simpa [hexLower] using mem_toDigits (n := n) (by omega) (le_refl 16)

theorem digitChars_zeroPad (width : ℕ) {s : String} (h : ∀ c ∈ s.toList, c ∈ digitChars) :
    ∀ c ∈ (zeroPad width s).toList, c ∈ digitChars := by
  intro c hc
  simp only [zeroPad, String.toList_append, String.toList_ofList, List.mem_append] at hc
  rcases hc with hc | hc
  · rw [List.eq_of_mem_replicate hc]
    decide
  · exact h c hc

/-! ### Compact JSON -/

/-- What is assumed of the JSON serializer: it writes compact JSON with the fields of an object in
order and plain texts as they stand, and what it writes is read back. -/
structure JsonLaws (X : Externals) (print : Value → Bytes) : Prop where
  toVec_eq : ∀ {v : Value} {bytes : Bytes}, X.json.toVec v = .ok bytes → bytes = print v
  decode : ∀ {v : Value} {bytes : Bytes}, X.json.toVec v = .ok bytes →
    X.json.fromSlice bytes = .ok v
  object : ∀ fields : Fields, print (.object fields) =
    123 :: List.intercalate [44]
      (fields.map fun f => print (.string f.1) ++ 58 :: print f.2) ++ [125]
  string : ∀ {s : String}, isPlain s = true → print (.string s) = 34 :: strBytes s ++ [34]

theorem length_intercalate {α : Type} (sep : List α) {xs : List (List α)} (h : xs ≠ []) :
    (sep.intercalate xs).length + sep.length =
      (xs.map fun x => x.length + sep.length).sum := by
  induction xs with
  | nil => exact absurd rfl h
  | cons x xs ih =>
      cases xs with
      | nil => simp
      | cons y ys =>
          have hrest := ih (List.cons_ne_nil y ys)
          rw [List.intercalate_cons_of_ne_nil (List.cons_ne_nil y ys), List.length_append,
            List.length_append, List.map_cons, List.sum_cons, ← hrest]
          omega

theorem intercalate_cons_eq {α : Type} (sep x : List α) (xs : List (List α)) :
    ∃ tail, sep.intercalate (x :: xs) = x ++ tail := by
  cases xs with
  | nil => exact ⟨[], by simp⟩
  | cons y ys =>
      refine ⟨sep ++ sep.intercalate (y :: ys), ?_⟩
      rw [List.intercalate_cons_of_ne_nil (List.cons_ne_nil y ys), List.append_assoc]

section

variable {X : Externals} {print : Value → Bytes}

/-- **Overwriting a field changes the length of an object by that of the value.** -/
theorem length_print_insert (hX : JsonLaws X print) {k : String} {x y : Value} {fields : Fields}
    (h : Fields.get k fields = some x) :
    (print (.object (Fields.insert k y fields))).length + (print x).length =
      (print (.object fields)).length + (print y).length := by
  have hsum : ((Fields.insert k y fields).map fun f =>
        (print (.string f.1) ++ 58 :: print f.2).length + 1).sum + (print x).length =
      (fields.map fun f => (print (.string f.1) ++ 58 :: print f.2).length + 1).sum +
        (print y).length := by
    induction fields with
    | nil => cases h
    | cons f fs ih =>
        obtain ⟨kf, vf⟩ := f
        by_cases hk : kf = k
        · simp only [Fields.get, hk, if_true, Option.some_inj] at h
          simp only [Fields.insert, hk, if_true, List.map_cons, List.sum_cons, List.length_append,
            List.length_cons, h]
          omega
        · simp only [Fields.get, hk, if_false] at h
          simp only [Fields.insert, hk, if_false, List.map_cons, List.sum_cons]
          have := ih h
          omega
  have hlen : ∀ fs : Fields, fs ≠ [] → (print (.object fs)).length =
      (fs.map fun f => (print (.string f.1) ++ 58 :: print f.2).length + 1).sum + 1 := by
    intro fs hne
    have hitems : (fs.map fun f => print (.string f.1) ++ 58 :: print f.2) ≠ [] := by
      simpa using hne
    have hjoin := length_intercalate [(44 : UInt8)] hitems
    rw [hX.object, List.length_append, List.length_cons, List.length_singleton]
    rw [List.map_map, List.length_singleton] at hjoin
    simp only [Function.comp_def] at hjoin
    omega
  have hne : fields ≠ [] := by
    rintro rfl
    cases h
  have hne' : Fields.insert k y fields ≠ [] := by
    intro hnil
    have := Fields.get_insert_self k y fields
    rw [hnil] at this
    cases this
  rw [hlen _ hne, hlen _ hne']
  omega

theorem length_print_string (hX : JsonLaws X print) {s : String} (h : isPlain s = true) :
    (print (.string s)).length = (strBytes s).length + 2 := by
  rw [hX.string h, List.length_append, List.length_cons, List.length_singleton]

end

/-! ### Version strings -/

theorem isPlain_hexLower (n : ℕ) : isPlain (hexLower n) = true :=
  (plain_of_digitChars (digitChars_hexLower n)).1

theorem isPlain_zeroPad (width n : ℕ) : isPlain (zeroPad width (hexLower n)) = true :=
  (plain_of_digitChars (digitChars_zeroPad _ (digitChars_hexLower n))).1

theorem length_zeroPad_ge (width n : ℕ) :
    width ≤ (strBytes (zeroPad width (hexLower n))).length := by
  rw [(plain_of_digitChars (digitChars_zeroPad _ (digitChars_hexLower n))).2.1]
  simp only [zeroPad, String.toList_append, String.toList_ofList, List.length_append,
    List.length_replicate]
  omega

theorem length_hexLower_pos (n : ℕ) : 0 < (strBytes (hexLower n)).length := by
  rw [(plain_of_digitChars (digitChars_hexLower n)).2.1]
  simp only [hexLower, String.toList_ofList]
  exact List.length_pos_iff.2 Nat.toDigits_ne_nil

theorem isPlain_of_mem_protocolTags {tag : Bytes} (h : tag ∈ protocolTags) :
    tag.all isPlainByte = true := by
  simp only [protocolTags, List.mem_cons, List.not_mem_nil, or_false] at h
  rcases h with rfl | rfl | rfl <;> decide +kernel

theorem isPlain_versionString {v : Version} (h : strBytes v.protocol ∈ protocolTags) :
    isPlain v.toVersionString = true := by
  have hprotocol : isPlain v.protocol = true := isPlain_of_mem_protocolTags h
  have htag : isPlain v.kind.tag = true := by
    cases v.kind <;> decide
  have hend : isPlain "_" = true := by decide
  simp only [Version.toVersionString, isPlain_append, isPlain_hexLower, isPlain_zeroPad, hprotocol,
    htag, hend, Bool.and_true]

/-- A version string is plain, and no shorter than seventeen bytes. -/
theorem plain_toVersionString {v : Version} (h : v.protocol = "KERI") :
    isPlain v.toVersionString = true ∧ keriVerFullsize ≤ (strBytes v.toVersionString).length := by
  constructor
  · refine isPlain_versionString ?_
    rw [h]
    exact List.mem_cons_self
  · have htag : (strBytes v.kind.tag).length = 4 := by
      cases v.kind <;> decide
    have hmajor := length_hexLower_pos v.major
    have hminor := length_hexLower_pos v.minor
    have hsize := length_zeroPad_ge 6 v.size
    have hkeri : (strBytes "KERI").length = 4 := by decide
    have hend : (strBytes "_").length = 1 := by decide
    unfold Version.toVersionString keriVerFullsize
    rw [h]
    simp only [strBytes_append, List.length_append]
    omega

/-- A number below sixteen is one digit. -/
theorem strBytes_hexLower_of_lt {n : ℕ} (h : n < 16) :
    ∃ b, strBytes (hexLower n) = [b] ∧ isAscii [b] = true ∧ hexDigit b = some n := by
  refine ⟨UInt8.ofNat (Nat.digitChar n).toNat, ?_, ?_, ?_⟩
  · rw [strBytes_of_digitChars (digitChars_hexLower n), hexLower, String.toList_ofList,
      Nat.toDigits_of_lt_base h, List.map_singleton]
  · simpa [isAscii] using (digitChars_byte (digitChar_mem h)).2.2.1
  · interval_cases n <;> decide

namespace Version

/-- A version that a version string can carry, its size apart. -/
structure Wellformed (v : Version) : Prop where
  length_protocol : (strBytes v.protocol).length = 4
  ascii_protocol : isAscii (strBytes v.protocol) = true
  major_lt : v.major < 16
  minor_lt : v.minor < 16

theorem wellformed_defaultV1 (kind : SerializationKind) (n : ℕ) : (defaultV1 kind n).Wellformed :=
  ⟨(by decide : (strBytes "KERI").length = 4), (by decide : isAscii (strBytes "KERI") = true),
    (by decide : 1 < 16), (by decide : 0 < 16)⟩

theorem hexDigit_lt {b : UInt8} {n : ℕ} (h : hexDigit b = some n) : n < 16 := by
  rw [hexDigit, digitVal, Option.filter_eq_some_iff] at h
  simpa using h.2

/-- A version that has been read can be written, whatever its size becomes. -/
theorem wellformed_of_parseStr {vs : String} {v : Version} (h : parseStr vs = .ok v) (n : ℕ) :
    ({ v with size := n } : Version).Wellformed := by
  simp only [parseStr, bind_eq_ok, ensure_eq_ok, okOr_eq_ok, pure_eq_ok] at h
  obtain ⟨-, hlen, -, hascii, major, hmajor, minor, hminor, -, -, -, -, -, -, rfl⟩ := h
  have hfour : isAscii ((strBytes vs).take 4) = true := by
    have htake := isAscii_take hascii 4
    rwa [List.take_take] at htake
  unfold keriVerFullsize at hlen
  constructor
  · simp only [strBytes_textOf hfour, List.length_take]
    omega
  · simp only [strBytes_textOf hfour]
    exact hfour
  · exact hexDigit_lt hmajor
  · exact hexDigit_lt hminor

/-- The bytes of a version string: ten of them, the digits of the size, and the terminator. -/
theorem strBytes_toVersionString {v : Version} (hv : v.Wellformed) :
    ∃ a b c d m n t₁ t₂ t₃ t₄,
      strBytes v.toVersionString = a :: b :: c :: d :: m :: n :: t₁ :: t₂ :: t₃ :: t₄ ::
        (strBytes (zeroPad 6 (hexLower v.size)) ++ [95]) ∧
      isAscii [a, b, c, d, m, n, t₁, t₂, t₃, t₄] = true ∧ textOf [a, b, c, d] = v.protocol ∧
      hexDigit m = some v.major ∧ hexDigit n = some v.minor ∧
      SerializationKind.fromTag (textOf [t₁, t₂, t₃, t₄]) = .ok v.kind := by
  obtain ⟨a, b, c, d, hprotocol⟩ : ∃ a b c d, strBytes v.protocol = [a, b, c, d] := by
    have hlen := hv.length_protocol
    rcases hp : strBytes v.protocol with - | ⟨a, - | ⟨b, - | ⟨c, - | ⟨d, - | ⟨e, rest⟩⟩⟩⟩⟩
    all_goals rw [hp] at hlen
    all_goals first
      | exact ⟨a, b, c, d, rfl⟩
      | (simp at hlen)
  obtain ⟨m, hmajor, hm, hmd⟩ := strBytes_hexLower_of_lt hv.major_lt
  obtain ⟨n, hminor, hn, hnd⟩ := strBytes_hexLower_of_lt hv.minor_lt
  obtain ⟨t₁, t₂, t₃, t₄, htag, ht, htd⟩ : ∃ t₁ t₂ t₃ t₄, strBytes v.kind.tag = [t₁, t₂, t₃, t₄] ∧
      isAscii [t₁, t₂, t₃, t₄] = true ∧
      SerializationKind.fromTag (textOf [t₁, t₂, t₃, t₄]) = .ok v.kind := by
    cases v.kind with
    | json => exact ⟨74, 83, 79, 78, by decide, by decide, by decide⟩
    | cbor => exact ⟨67, 66, 79, 82, by decide, by decide, by decide⟩
    | msgPack => exact ⟨77, 71, 80, 75, by decide, by decide, by decide⟩
  have hend : strBytes "_" = [95] := by decide
  refine ⟨a, b, c, d, m, n, t₁, t₂, t₃, t₄, ?_, ?_, ?_, hmd, hnd, htd⟩
  · simp only [toVersionString, strBytes_append, hprotocol, hmajor, hminor, htag, hend,
      List.cons_append, List.nil_append]
  · have hp := hv.ascii_protocol
    rw [hprotocol] at hp
    have hsplit : [a, b, c, d, m, n, t₁, t₂, t₃, t₄] =
        [a, b, c, d] ++ ([m] ++ ([n] ++ [t₁, t₂, t₃, t₄])) := rfl
    rw [hsplit, isAscii_append, isAscii_append, isAscii_append, hp, hm, hn, ht]
    rfl
  · rw [← hprotocol, textOf_strBytes hv.ascii_protocol]

/-- A version string has as many bytes beyond seventeen as its size has digits beyond six. -/
theorem length_toVersionString {v : Version} (hv : v.Wellformed) :
    (v.size < 2 ^ 24 → (strBytes v.toVersionString).length = keriVerFullsize) ∧
      (2 ^ 24 ≤ v.size → keriVerFullsize < (strBytes v.toVersionString).length) := by
  obtain ⟨a, b, c, d, m, n, t₁, t₂, t₃, t₄, hbytes, -⟩ := strBytes_toVersionString hv
  have hdigits := (plain_of_digitChars (digitChars_zeroPad 6 (digitChars_hexLower v.size))).2.1
  have hlen : (strBytes v.toVersionString).length =
      (zeroPad 6 (hexLower v.size)).toList.length + 11 := by
    rw [hbytes]
    simp only [List.length_cons, List.length_append, List.length_nil, hdigits]
  unfold keriVerFullsize
  constructor
  · intro h
    rw [hlen, length_zeroPad 6 (by omega) (by omega)]
  · intro h
    have hseven : ¬ (Nat.toDigits 16 v.size).length ≤ 6 := by
      rw [Nat.length_toDigits_le_iff (by omega) (by omega)]
      omega
    have hge : (Nat.toDigits 16 v.size).length ≤ (zeroPad 6 (hexLower v.size)).toList.length := by
      simp [zeroPad, hexLower]
    omega

/-- **A version string is read back as the version it was written for, as long as the size fits six
digits.** -/
theorem parseStr_toVersionString {v : Version} (hv : v.Wellformed) (h : v.size < 2 ^ 24) :
    parseStr v.toVersionString = .ok v := by
  obtain ⟨a, b, c, d, m, n, t₁, t₂, t₃, t₄, hbytes, hascii, hprotocol, hmajor, hminor, hkind⟩ :=
    strBytes_toVersionString hv
  have hlen := (length_toVersionString hv).1 h
  have hplain := plain_of_digitChars (digitChars_zeroPad 6 (digitChars_hexLower v.size))
  have hsix : (strBytes (zeroPad 6 (hexLower v.size))).length = 6 := by
    rw [hplain.2.1, length_zeroPad 6 (by omega) (by omega)]
  have hdrop : ((strBytes v.toVersionString).drop 10).take 6 =
      strBytes (zeroPad 6 (hexLower v.size)) := by
    rw [hbytes]
    exact List.take_left' hsix
  have hend : (strBytes v.toVersionString).getD 16 0 = 95 := by
    rw [hbytes]
    simp only [List.getD_cons_succ]
    rw [List.getD_append_right _ _ _ _ hsix.le, hsix]
    rfl
  have hfull : isAscii ((strBytes v.toVersionString).take keriVerFullsize) = true := by
    have happ : strBytes v.toVersionString = [a, b, c, d, m, n, t₁, t₂, t₃, t₄] ++
        (strBytes (zeroPad 6 (hexLower v.size)) ++ [95]) := by
      simp only [hbytes, List.cons_append, List.nil_append]
    rw [List.take_of_length_le hlen.le, happ, isAscii_append, hascii, isAscii_append, hplain.2.2]
    rfl
  simp only [parseStr, bind_eq_ok, ensure_eq_ok, okOr_eq_ok, pure_eq_ok]
  refine ⟨⟨⟩, hlen.ge, ⟨⟩, hfull, v.major, ?_, v.minor, ?_, v.kind, ?_, v.size, ?_, ⟨⟩, ?_, ?_⟩
  · rw [hbytes]
    exact hmajor
  · rw [hbytes]
    exact hminor
  · rw [hbytes]
    exact hkind
  · rw [hdrop, textOf_strBytes hplain.2.2]
    exact fromStrRadix_zeroPad (by unfold u64Bound; omega) 6
  · rw [hend]
    decide
  · have hfour : textOf ((strBytes v.toVersionString).take 4) = v.protocol := by
      rw [hbytes]
      exact hprotocol
    rw [hfour]

/-- A size of more digits moves the terminator, and the version string is not read any more. -/
theorem size_lt_of_parseStr {v w : Version} (hv : v.Wellformed)
    (h : parseStr v.toVersionString = .ok w) : v.size < 2 ^ 24 := by
  by_contra hlt
  obtain ⟨a, b, c, d, m, n, t₁, t₂, t₃, t₄, hbytes, -⟩ := strBytes_toVersionString hv
  have hlen := (length_toVersionString hv).2 (Nat.le_of_not_lt hlt)
  have hnot := terminator_not_mem_digits (digitChars_zeroPad 6 (digitChars_hexLower v.size))
  simp only [parseStr, bind_eq_ok, ensure_eq_ok] at h
  obtain ⟨-, -, -, -, -, -, -, -, -, -, -, -, -, hend, -⟩ := h
  rw [hbytes] at hend hlen
  simp only [List.length_cons, List.length_append, List.length_nil] at hlen
  have hsix : 6 < (strBytes (zeroPad 6 (hexLower v.size))).length := by
    unfold keriVerFullsize at hlen
    omega
  simp only [List.getD_cons_succ] at hend
  rw [List.getD_append _ _ _ _ hsix, List.getD_eq_getElem _ _ hsix] at hend
  refine hnot ?_
  have hmem := List.getElem_mem hsix
  rw [hend] at hmem
  exact hmem

end Version

theorem versionStringOf_eq (n : ℕ) :
    versionStringOf n = (Version.defaultV1 .json n).toVersionString := by
  simp only [versionStringOf, Version.toVersionString, Version.defaultV1]
  rfl

theorem protocol_of_parseStr {vs : String} {v : Version} (h : Version.parseStr vs = .ok v) :
    v.protocol = textOf ((strBytes vs).take 4) := by
  simp only [Version.parseStr, bind_eq_ok, pure_eq_ok] at h
  obtain ⟨_, -, _, -, _, -, _, -, _, -, _, -, _, -, rfl⟩ := h
  rfl

theorem length_versionStringOf {n : ℕ} (h : n < 2 ^ 24) :
    (strBytes (versionStringOf n)).length = keriVerFullsize := by
  rw [versionStringOf_eq]
  exact (Version.length_toVersionString (Version.wellformed_defaultV1 .json n)).1 h

/-- **A version string is read back.** -/
theorem parseStr_versionStringOf {n : ℕ} (h : n < 2 ^ 24) :
    Version.parseStr (versionStringOf n) = .ok (Version.defaultV1 .json n) := by
  rw [versionStringOf_eq]
  exact Version.parseStr_toVersionString (Version.wellformed_defaultV1 .json n) h

/-! ### Finding the version string -/

/-- A byte that no protocol tag has. -/
def NoCapital (b : UInt8) : Prop := ¬ (65 ≤ b ∧ b ≤ 90)

/-- Each window of four bytes that starts here has a byte that is no capital. -/
def Guarded : Bytes → Prop
  | [] => True
  | b :: bs => (∃ c ∈ (b :: bs).take 4, NoCapital c) ∧ Guarded bs

theorem capital_of_tag {tag : Bytes} (h : tag ∈ protocolTags) : ∀ c ∈ tag, ¬ NoCapital c := by
  simp only [protocolTags, List.mem_cons, List.not_mem_nil, or_false] at h
  unfold NoCapital
  rcases h with rfl | rfl | rfl <;> decide +kernel

/-- A tag does not start where the windows are guarded. -/
theorem position_guarded {bytes : Bytes} (h : Guarded bytes) {tag : Bytes}
    (htag : tag ∈ protocolTags) (more : Bytes) :
    position tag (bytes ++ more) = (position tag more).map (· + bytes.length) := by
  induction bytes with
  | nil => simp
  | cons b bs ih =>
      obtain ⟨⟨c, hc, hno⟩, hrest⟩ := h
      have hnot : ¬ tag <+: b :: (bs ++ more) := by
        rintro ⟨rest, heq⟩
        have hlen := protocolTags_length htag
        have htake : (b :: bs).take 4 <+: tag := by
          have hwhole : (b :: (bs ++ more)).take 4 = tag := by
            rw [← heq, List.take_left' hlen]
          rw [← hwhole, ← List.cons_append, List.take_append]
          exact List.prefix_append _ _
        exact capital_of_tag htag c (htake.subset hc) hno
      rw [List.cons_append, position, if_neg hnot, ih hrest, Option.map_map]
      rfl

/-- A tag is found where it stands first. -/
theorem position_append_self {tag : Bytes} (h : tag ∈ protocolTags) (more : Bytes) :
    position tag (tag ++ more) = some 0 := by
  have hlen := protocolTags_length h
  cases tag with
  | nil => cases hlen
  | cons b bs => rw [List.cons_append, position, if_pos ⟨more, rfl⟩]

/-- **The version string is found behind a guarded opening.** -/
theorem extractVersionFromRaw_guarded {front : Bytes} (hguarded : Guarded front)
    (hshort : front.length ≤ 9) {v : Version} (hv : v.Wellformed) (hsize : v.size < 2 ^ 24)
    (hprotocol : strBytes v.protocol ∈ protocolTags) (more : Bytes) :
    extractVersionFromRaw (front ++ (strBytes v.toVersionString ++ more)) = some v := by
  have hlen := (Version.length_toVersionString hv).1 hsize
  obtain ⟨body, hbody⟩ : ∃ body, strBytes v.toVersionString = strBytes v.protocol ++ body := by
    simp only [Version.toVersionString, strBytes_append, List.append_assoc]
    exact ⟨_, rfl⟩
  -- the window is the opening and what follows it, which starts with the tag
  have hwindow : (front ++ (strBytes v.toVersionString ++ more)).take versionSearchWindow =
      front ++ (strBytes v.protocol ++
        (body ++ more).take (versionSearchWindow - front.length - 4)) := by
    have htag := hv.length_protocol
    have hlong : front.length + 4 ≤ versionSearchWindow := by unfold versionSearchWindow; omega
    rw [List.take_append, List.take_of_length_le (by omega), hbody, List.append_assoc,
      List.take_append, htag, List.take_of_length_le (by omega)]
  have hpos : (protocolTags.filterMap fun proto => position proto (front ++
      (strBytes v.protocol ++ (body ++ more).take
        (versionSearchWindow - front.length - 4)))).min? = some front.length := by
    rw [List.min?_eq_some_iff]
    constructor
    · refine List.mem_filterMap.2 ⟨strBytes v.protocol, hprotocol, ?_⟩
      rw [position_guarded hguarded hprotocol, position_append_self hprotocol, Option.map_some,
        Nat.zero_add]
    · intro m hm
      obtain ⟨tag, htag, hposition⟩ := List.mem_filterMap.1 hm
      rw [position_guarded hguarded htag] at hposition
      obtain ⟨m', -, rfl⟩ := Option.map_eq_some_iff.1 hposition
      exact Nat.le_add_left _ m'
  have hparse : Version.parse (strBytes v.toVersionString ++ more) = .ok v := by
    rw [Version.parse_append hlen.ge, Version.parse]
    simp only [bind_eq_ok, ensure_eq_ok, okOr_eq_ok]
    refine ⟨⟨⟩, hlen.ge, v.toVersionString, ?_, Version.parseStr_toVersionString hv hsize⟩
    rw [List.take_of_length_le hlen.le, fromUtf8_strBytes]
  have hfits : ¬ (front ++ (strBytes v.toVersionString ++ more)).length <
      front.length + keriVerFullsize := by
    rw [List.length_append, List.length_append, hlen]
    omega
  unfold extractVersionFromRaw
  rw [hwindow]
  simp only [Option.bind_eq_bind, hpos, Option.bind_some]
  rw [if_neg hfits, List.drop_left, hparse]
  rfl

/-- The opening of an object whose first field is the version string. -/
def versionOpening : Bytes := [123, 34, 118, 34, 58, 34]

theorem guarded_versionOpening : Guarded versionOpening := by
  have hquote : NoCapital 34 := by unfold NoCapital; decide
  have hcolon : NoCapital 58 := by unfold NoCapital; decide
  simp [versionOpening, Guarded, hquote, hcolon]

section

variable {X : Externals} {print : Value → Bytes}

/-- **The version string is found at the start of a body that has it first.** -/
theorem extractVersionFromRaw_print (hX : JsonLaws X print) {n : ℕ} (h : n < 2 ^ 24)
    (rest : Fields) :
    extractVersionFromRaw (print (.object (("v", .string (versionStringOf n)) :: rest))) =
      some (Version.defaultV1 .json n) := by
  have htag : strBytes (Version.defaultV1 .json n).protocol ∈ protocolTags := List.mem_cons_self
  have hplain : isPlain (versionStringOf n) = true := by
    rw [versionStringOf_eq]
    exact isPlain_versionString htag
  obtain ⟨tail, htail⟩ := intercalate_cons_eq [(44 : UInt8)]
    (print (.string "v") ++ 58 :: print (.string (versionStringOf n)))
    (rest.map fun f => print (.string f.1) ++ 58 :: print f.2)
  have hdata : print (.object (("v", .string (versionStringOf n)) :: rest)) =
      versionOpening ++ (strBytes (versionStringOf n) ++ 34 :: (tail ++ [125])) := by
    have hv : strBytes "v" = [118] := by decide
    rw [hX.object, List.map_cons, htail, hX.string (by decide), hX.string hplain, hv]
    simp [versionOpening]
  rw [hdata, versionStringOf_eq]
  exact extractVersionFromRaw_guarded guarded_versionOpening (by decide)
    (Version.wellformed_defaultV1 .json n) h htag _

/-! ### The size of a body -/

/-- The version that `Serder.new` gives a body, by the version string that it has. -/
def versionOf (vs : String) (size : ℕ) : Version :=
  match Version.parseStr vs with
  | .ok ver => { ver with size }
  | .error _ => Version.defaultV1 .json size

/-- A body with a version string is serialized three times. -/
theorem serder_new_eq_ok {sad : Value} {vs : String} {s : Serder}
    (hv : versionText sad = some vs) :
    Serder.new X .json sad = .ok s ↔ ∃ raw₀ raw₁ : Bytes, X.json.toVec sad = .ok raw₀ ∧
      X.json.toVec (setVersionField sad (versionOf vs raw₀.length).toVersionString) = .ok raw₁ ∧
      s.version = some { versionOf vs raw₀.length with size := raw₁.length } ∧
      s.sad = setVersionField
        (setVersionField sad (versionOf vs raw₀.length).toVersionString)
        (Version.toVersionString { versionOf vs raw₀.length with size := raw₁.length }) ∧
      X.json.toVec s.sad = .ok s.raw ∧ s.kind = .json := by
  simp only [Serder.new_eq_ok hv, serializeValue, Externals.serialize, mapError_eq_ok]
  rfl

theorem versionOf_versionStringOf (n size : ℕ) :
    (versionOf (versionStringOf n) size).protocol = "KERI" ∧
      (n < 2 ^ 24 → versionOf (versionStringOf n) size = Version.defaultV1 .json size) := by
  unfold versionOf
  cases hp : Version.parseStr (versionStringOf n) with
  | ok ver =>
      have hhead : textOf ((strBytes (versionStringOf n)).take 4) = "KERI" := by
        have hkeri : (strBytes "KERI10JSON").take 4 = [75, 69, 82, 73] := by decide
        rw [versionStringOf, strBytes_append, strBytes_append, List.append_assoc,
          List.take_append_of_le_length (by decide), hkeri]
        decide
      refine ⟨(protocol_of_parseStr hp).trans hhead, ?_⟩
      intro hn
      rw [parseStr_versionStringOf hn] at hp
      rw [← Except.ok.inj hp]
      rfl
  | error e => exact ⟨rfl, fun _ => rfl⟩

section

variable {body : Fields} {v₀ : String} {n : ℕ}

/-- The length of a body with any version string of the protocol. -/
theorem length_versioned (hX : JsonLaws X print) (hv : Fields.get "v" body = some (.string v₀))
    (hplain : isPlain v₀ = true) (hlen : (strBytes v₀).length = keriVerFullsize)
    (hn : (print (.object body)).length = n) {v : Version} (hprotocol : v.protocol = "KERI") :
    (print (.object (Fields.insert "v" (.string v.toVersionString) body))).length +
      keriVerFullsize = n + (strBytes v.toVersionString).length := by
  have hinsert := length_print_insert hX (y := .string v.toVersionString) hv
  rw [length_print_string hX hplain, hlen, hn,
    length_print_string hX (plain_toVersionString hprotocol).1] at hinsert
  omega

/-- With six digits for the size every version string has the same length. -/
theorem length_sized (hX : JsonLaws X print) (hv : Fields.get "v" body = some (.string v₀))
    (hplain : isPlain v₀ = true) (hlen : (strBytes v₀).length = keriVerFullsize)
    (hn : (print (.object body)).length = n) (hfits : n < 2 ^ 24) :
    (print (.object (Fields.insert "v" (.string (versionStringOf n)) body))).length = n := by
  have hsized := length_versioned hX hv hplain hlen hn (v := Version.defaultV1 .json n) rfl
  rw [← versionStringOf_eq, length_versionStringOf hfits] at hsized
  omega

theorem versionText_versioned :
    versionText (.object (Fields.insert "v" (.string (versionStringOf n)) body)) =
      some (versionStringOf n) := by
  rw [versionText, Value.get_object, Fields.get_insert_self]
  rfl

theorem setVersionField_versioned (s t : String) :
    setVersionField (.object (Fields.insert "v" (.string s) body)) t =
      .object (Fields.insert "v" (.string t) body) := by
  rw [setVersionField, Fields.insert_insert_self]

/-- **A body that has its size in it is serialized as it is.** -/
theorem serder_new_iff (hX : JsonLaws X print) {serder : Serder}
    (hv : Fields.get "v" body = some (.string v₀)) (hplain : isPlain v₀ = true)
    (hlen : (strBytes v₀).length = keriVerFullsize) (hn : (print (.object body)).length = n)
    (hfits : n < 2 ^ 24) :
    Serder.new X .json (.object (Fields.insert "v" (.string (versionStringOf n)) body)) =
        .ok serder ↔
      X.json.toVec serder.sad = .ok serder.raw ∧
        serder.sad = .object (Fields.insert "v" (.string (versionStringOf n)) body) ∧
        serder.version = some (Version.defaultV1 .json n) ∧ serder.kind = .json := by
  have hsame : ∀ raw : Bytes,
      raw = print (.object (Fields.insert "v" (.string (versionStringOf n)) body)) →
      raw.length = n := by
    rintro raw rfl
    exact length_sized hX hv hplain hlen hn hfits
  have hexact : ∀ size, versionOf (versionStringOf n) size = Version.defaultV1 .json size :=
    fun size => (versionOf_versionStringOf n size).2 hfits
  have hdefault : ({ Version.defaultV1 .json n with size := n } : Version) =
      Version.defaultV1 .json n := rfl
  constructor
  · intro h
    obtain ⟨raw₀, raw₁, hraw₀, hraw₁, hversion, hsad, hraw, hkind⟩ :=
      (serder_new_eq_ok versionText_versioned).1 h
    rw [hexact, hsame raw₀ (hX.toVec_eq hraw₀)] at hraw₁ hversion hsad
    rw [setVersionField_versioned, ← versionStringOf_eq] at hraw₁ hsad
    rw [hsame raw₁ (hX.toVec_eq hraw₁), hdefault] at hversion hsad
    rw [setVersionField_versioned, ← versionStringOf_eq] at hsad
    exact ⟨hraw, hsad, hversion, hkind⟩
  · rintro ⟨hraw, hsad, hversion, hkind⟩
    have hlength := hsame serder.raw ((hX.toVec_eq hraw).trans (by rw [hsad]))
    rw [hsad] at hraw
    refine (serder_new_eq_ok versionText_versioned).2 ⟨serder.raw, serder.raw, hraw, ?_⟩
    rw [hexact, hlength, hdefault, setVersionField_versioned, setVersionField_versioned,
      ← versionStringOf_eq, hsad]
    exact ⟨hraw, hversion, rfl, hraw, hkind⟩

/-- **A body keeps the size it was measured at**, as long as it fits its version string. -/
theorem serder_of_new (hX : JsonLaws X print) {serder : Serder}
    (hv : Fields.get "v" body = some (.string v₀)) (hplain : isPlain v₀ = true)
    (hlen : (strBytes v₀).length = keriVerFullsize) (hn : (print (.object body)).length = n)
    (h : Serder.new X .json (.object (Fields.insert "v" (.string (versionStringOf n)) body)) =
      .ok serder) (hsize : serder.raw.length < 2 ^ 24) :
    n < 2 ^ 24 ∧ serder.raw.length = n ∧ X.json.toVec serder.sad = .ok serder.raw ∧
      serder.sad = .object (Fields.insert "v" (.string (versionStringOf n)) body) ∧
      serder.version = some (Version.defaultV1 .json n) ∧ serder.kind = .json := by
  have hfits : n < 2 ^ 24 := by
    obtain ⟨raw₀, raw₁, -, -, -, hsad, hraw, -⟩ :=
      (serder_new_eq_ok versionText_versioned).1 h
    have hprotocol := (versionOf_versionStringOf n raw₀.length).1
    generalize versionOf (versionStringOf n) raw₀.length = ver at hsad hprotocol
    rw [setVersionField_versioned, setVersionField_versioned] at hsad
    -- the last version string is no shorter than the first
    have hlast := length_versioned hX hv hplain hlen hn (v := { ver with size := raw₁.length })
      hprotocol
    have hge := (plain_toVersionString (v := { ver with size := raw₁.length }) hprotocol).2
    rw [← hsad, ← hX.toVec_eq hraw] at hlast
    omega
  obtain ⟨hraw, hsad, hversion, hkind⟩ := (serder_new_iff hX hv hplain hlen hn hfits).1 h
  refine ⟨hfits, ?_, hraw, hsad, hversion, hkind⟩
  rw [hX.toVec_eq hraw, hsad]
  exact length_sized hX hv hplain hlen hn hfits

end

/-! ### The SAID of a body -/

/-- What is assumed of digests: their texts are plain and as long as the placeholder, and a digest
is kept as it was computed. -/
structure DigestLaws (X : Externals) : Prop where
  size : X.cesr.matterSizage "E" = some ⟨44⟩
  plain : ∀ {data : Bytes} {text : String}, digestQb64 X "E" data = .ok text →
    isPlain text = true ∧ (strBytes text).length = 44
  new : ∀ {data : Bytes} {m : Matter}, X.cesr.matterNew "E" (X.digest .blake3_256 data) = .ok m →
    m = ⟨"E", X.digest .blake3_256 data⟩

theorem isPlain_dummyText (len : ℕ) :
    isPlain (dummyText len) = true ∧ (strBytes (dummyText len)).length = len := by
  have hbytes : strBytes (dummyText len) = List.replicate len 35 := by
    rw [dummyText, strBytes_ofList_of_ascii]
    · rw [List.map_replicate]
      rfl
    · intro c hc
      rw [List.eq_of_mem_replicate hc]
      decide
  rw [isPlain, hbytes, List.length_replicate, List.all_eq_true]
  refine ⟨?_, rfl⟩
  intro b hb
  rw [List.eq_of_mem_replicate hb]
  decide

variable {fields : Fields} {i : String}

/-- What is measured is what is digested. -/
theorem placeheld_eq (hd : Fields.get "d" fields = some (.string ""))
    (hi : Fields.get "i" fields = some (.string i)) : placeheld fields = dummied "d" 44 fields := by
  have hsa : isSelfAddressing "d" fields =
      decide (Fields.get "d" fields = Fields.get "i" fields) := by
    rw [isSelfAddressing, if_pos rfl, hd, hi]
    simp
  rw [dummied, hsa, fillSaid]
  simp only [placeheld, decide_eq_true_eq]

/-- A field that is neither label nor `i` is put in before or after the SAID is. -/
theorem fillSaid_insert {k : String} (hd : k ≠ "d") (hi : k ≠ "i") (sa : Bool) (t : String)
    {obj : Fields} (hk : (Fields.get k obj).isSome) (v : Value) :
    fillSaid "d" sa t (Fields.insert k v obj) = Fields.insert k v (fillSaid "d" sa t obj) := by
  have hfirst := Fields.insert_comm hd hk v (.string t)
  have hk' : (Fields.get k (Fields.insert "d" (.string t) obj)).isSome := by
    rw [Fields.get_insert_of_ne hd]
    exact hk
  cases sa with
  | false =>
      simp only [fillSaid]
      exact hfirst.symm
  | true =>
      simp only [fillSaid, if_true]
      rw [← hfirst, Fields.insert_comm hi hk' v (.string t)]

/-- Two texts of one length give bodies of one length. -/
theorem length_print_fillSaid (hX : JsonLaws X print) {sa : Bool} {s t : String} {obj : Fields}
    (hs : isPlain s = true) (ht : isPlain t = true)
    (hlen : (strBytes s).length = (strBytes t).length) :
    (print (.object (fillSaid "d" sa s obj))).length =
      (print (.object (fillSaid "d" sa t obj))).length := by
  have hprint : (print (.string s)).length = (print (.string t)).length := by
    rw [length_print_string hX hs, length_print_string hX ht, hlen]
  have hlabel : ∀ (k : String) (fs : Fields),
      (print (.object (Fields.insert k (.string s) fs))).length =
        (print (.object (Fields.insert k (.string t) fs))).length := by
    intro k fs
    have hover := length_print_insert hX (y := .string s)
      (Fields.get_insert_self k (.string t) fs)
    rw [Fields.insert_insert_self] at hover
    omega
  cases sa with
  | false => exact hlabel "d" obj
  | true =>
      -- the label is overwritten first, then `i`
      have hne : ("i" : String) ≠ "d" := by decide
      simp only [fillSaid, if_true]
      rw [hlabel "i"]
      have hget : Fields.get "d"
          (Fields.insert "i" (.string t) (Fields.insert "d" (.string s) obj)) =
          some (.string s) := by
        rw [Fields.get_insert_of_ne hne.symm, Fields.get_insert_self]
      have hover := length_print_insert hX (y := .string t) hget
      rw [Fields.insert_comm hne.symm (by simp) (.string t) (.string t),
        Fields.insert_insert_self] at hover
      omega

/-! ### Sealed events -/

/-- The fields that a sealed event is made of: the version string is the first, `d` is empty, and
`i` is empty or the identifier. -/
structure EventFields (fields : Fields) (i : String) : Prop where
  version : ∃ rest, fields = ("v", .string "KERI10JSON000000_") :: rest
  said : Fields.get "d" fields = some (.string "")
  pfx : Fields.get "i" fields = some (.string i)

variable (X) in
/-- What there is to say of the body of an event: it is read back from its bytes, it has the fields
it was made of besides its version string, its SAID and its identifier, and its SAID verifies unless
it is the identifier of another event. -/
structure Sealed (fields : Fields) (i said : String) (serder : Serder) : Prop where
  read : Serder.fromRaw X serder.raw = .ok serder
  first : serder.raw.head? = some '{'.toUInt8
  version : ∃ v, extractVersionFromRaw serder.raw = some v
  table : serder.table = .v1
  get_of_ne : ∀ k, k ≠ "v" → k ≠ "d" → k ≠ "i" → serder.sad.get k = Fields.get k fields
  get_v : ∃ vs, serder.sad.get "v" = some (.string vs)
  get_d : serder.sad.get "d" = some (.string said)
  get_i : serder.sad.get "i" = some (.string (if i = "" then said else i))
  digest : ∃ data, digestQb64 X "E" data = .ok said
  verify : (i = "" ∨ said ≠ i) → serder.verifySaid X "E" = .ok ⟨⟩

/-- Measuring a body changes its version string only: what is in `d` and `i` is put back. -/
theorem fixVersionString_eq_ok {fixed : Fields} (hf : EventFields fields i) :
    fixVersionString X fields = .ok fixed ↔
      ∃ raw, X.json.toVec (.object (dummied "d" 44 fields)) = .ok raw ∧
        fixed = Fields.insert "v" (.string (versionStringOf raw.length)) fields := by
  obtain ⟨rest, hrest⟩ := hf.version
  have hv : (Fields.get "v" fields).isSome := by
    rw [hrest]
    rfl
  simp only [fixVersionString, bind_eq_ok, mapError_eq_ok, pure_eq_ok,
    placeheld_eq hf.said hf.pfx]
  refine exists_congr fun raw => and_congr_right fun _ => ?_
  have hne : ("i" : String) ≠ "d" := by decide
  rw [dummied, ← fillSaid_insert (by decide) (by decide) _ _ hv, eq_comm]
  generalize hbody : Fields.insert "v" (.string (versionStringOf raw.length)) fields = body
  have hd : Fields.get "d" body = some (.string "") := by
    rw [← hbody, Fields.get_insert_of_ne (by decide), hf.said]
  have hi : Fields.get "i" body = some (.string i) := by
    rw [← hbody, Fields.get_insert_of_ne (by decide), hf.pfx]
  rw [hf.said, hf.pfx, Option.getD_some, Option.getD_some]
  cases isSelfAddressing "d" fields with
  | false =>
      simp only [fillSaid, Bool.false_eq_true, if_false]
      rw [Fields.insert_insert_self, Fields.insert_of_get hd, Fields.insert_of_get hi]
  | true =>
      simp only [fillSaid, if_true]
      rw [Fields.insert_comm hne.symm (by simp) (.string "") (.string (dummyText 44)),
        Fields.insert_insert_self, Fields.insert_insert_self, Fields.insert_of_get hd,
        Fields.insert_of_get hi]

/-- What is in `d` and in `i` once the SAID is filled in. -/
theorem get_fillSaid (sa : Bool) (t : String) (obj : Fields) :
    Fields.get "d" (fillSaid "d" sa t obj) = some (.string t) ∧
      Fields.get "i" (fillSaid "d" sa t obj) =
        if sa then some (.string t) else Fields.get "i" obj := by
  have hne : ("i" : String) ≠ "d" := by decide
  cases sa with
  | false => simp [fillSaid, Fields.get_insert_of_ne hne]
  | true => simp [fillSaid, Fields.get_insert_of_ne hne.symm]

/-- A body that was serialized with its size in it is read back from its bytes. -/
theorem fromRaw_of_serialized (hX : JsonLaws X print) {rest : Fields} {n : ℕ} {serder : Serder}
    (hfits : n < 2 ^ 24) (hlen : serder.raw.length = n)
    (hraw : X.json.toVec serder.sad = .ok serder.raw)
    (hsad : serder.sad = .object (("v", .string (versionStringOf n)) :: rest))
    (hversion : serder.version = some (Version.defaultV1 .json n)) (hkind : serder.kind = .json) :
    Serder.fromRaw X serder.raw = .ok serder ∧ serder.raw.head? = some '{'.toUInt8 ∧
      extractVersionFromRaw serder.raw = some (Version.defaultV1 .json n) := by
  have hprint := hX.toVec_eq hraw
  rw [hsad] at hprint
  have hfound := extractVersionFromRaw_print hX hfits rest
  rw [← hprint] at hfound
  obtain ⟨more, hmore⟩ : ∃ more, serder.raw = 123 :: more := by
    rw [hprint, hX.object]
    exact ⟨_, rfl⟩
  have hsize : ((extractVersionFromRaw serder.raw).map (·.size)).getD serder.raw.length =
      serder.raw.length := by
    rw [hfound, hlen]
    rfl
  refine ⟨Serder.fromRaw_eq_ok.2 ⟨?_, ?_, hsize.le, ?_, ?_, ?_⟩, ?_, hfound⟩
  · rw [hmore]
    exact List.cons_ne_nil _ _
  · rw [hmore, hkind]
    rfl
  · rw [hsize, List.take_length]
  · rw [hkind]
    exact mapError_eq_ok.2 (hX.decode hraw)
  · rw [hfound, hversion]
    rfl
  · rw [hmore]
    rfl

/-- What is digested is what was measured, with its size. -/
theorem dummied_sized (hf : EventFields fields i) (n len : ℕ) :
    isSelfAddressing "d" (Fields.insert "v" (.string (versionStringOf n)) fields) =
      isSelfAddressing "d" fields ∧
    dummied "d" len (Fields.insert "v" (.string (versionStringOf n)) fields) =
      Fields.insert "v" (.string (versionStringOf n)) (dummied "d" len fields) := by
  obtain ⟨rest, hrest⟩ := hf.version
  have hv : (Fields.get "v" fields).isSome := by
    rw [hrest]
    rfl
  have hsa : isSelfAddressing "d" (Fields.insert "v" (.string (versionStringOf n)) fields) =
      isSelfAddressing "d" fields := by
    unfold isSelfAddressing
    rw [Fields.get_insert_of_ne (by decide), Fields.get_insert_of_ne (by decide)]
  refine ⟨hsa, ?_⟩
  rw [dummied, hsa, dummied, fillSaid_insert (by decide) (by decide) _ _ hv]

/-- **The SAID of a body with its size in it**: it is the digest of the body with placeholders, and
is put in their place. -/
theorem computeSaid_sized (hdigest : DigestLaws X) (hf : EventFields fields i) {n : ℕ}
    {said : String} {sad : Value} :
    computeSaid X (.object (Fields.insert "v" (.string (versionStringOf n)) fields)) "d" "E"
        .json = .ok (said, sad) ↔
      sad = .object (Fields.insert "v" (.string (versionStringOf n))
        (fillSaid "d" (isSelfAddressing "d" fields) said fields)) ∧
      ∃ digested, serializeSad X (.object (Fields.insert "v" (.string (versionStringOf n))
        (dummied "d" 44 fields))) .json = .ok digested ∧ digestQb64 X "E" digested = .ok said := by
  obtain ⟨rest, hrest⟩ := hf.version
  have hv : (Fields.get "v" fields).isSome := by
    rw [hrest]
    rfl
  obtain ⟨hsa, hdummied⟩ := dummied_sized hf n 44
  have hlen : dummyLen X "E" = .ok 44 := by
    simp [dummyLen, hdigest.size, okOr, ensure, bind, Except.bind, pure, Except.pure]
  have hlabel :
      (Fields.get "d" (Fields.insert "v" (.string (versionStringOf n)) fields)).isSome := by
    rw [Fields.get_insert_of_ne (by decide), hf.said]
    rfl
  have hfilled : fillSaid "d" (isSelfAddressing "d" fields) said
      (Fields.insert "v" (.string (versionStringOf n)) (dummied "d" 44 fields)) =
      Fields.insert "v" (.string (versionStringOf n))
        (fillSaid "d" (isSelfAddressing "d" fields) said fields) := by
    have hv' : (Fields.get "v" (dummied "d" 44 fields)).isSome := by
      rw [dummied, get_fillSaid_of_ne (by decide) (by decide)]
      exact hv
    rw [fillSaid_insert (by decide) (by decide) _ _ hv', dummied,
      fillSaid_fillSaid fun _ => rfl]
  rw [computeSaid_eq_ok]
  constructor
  · rintro ⟨obj, len, digested, hobj, hlen', -, hdigested, htext, rfl⟩
    obtain rfl := Value.object.inj hobj
    obtain rfl := Except.ok.inj (hlen.symm.trans hlen')
    rw [hdummied] at hdigested
    rw [hsa, hdummied, hfilled]
    exact ⟨rfl, digested, hdigested, htext⟩
  · rintro ⟨rfl, digested, hdigested, htext⟩
    rw [← hdummied] at hdigested
    refine ⟨_, 44, digested, rfl, hlen, hlabel, hdigested, htext, ?_⟩
    rw [hsa, hdummied, hfilled]

/-- **A body with its size and SAID put in is read back, and its SAID verifies.** -/
theorem sealed_of_new (hX : JsonLaws X print) (hdigest : DigestLaws X) (hf : EventFields fields i)
    {fixed : Fields} {said : String} {sad : Value} {serder : Serder}
    (hfixed : fixVersionString X fields = .ok fixed)
    (hsaid : computeSaid X (.object fixed) "d" "E" .json = .ok (said, sad))
    (hserder : Serder.new X .json sad = .ok serder) (hsize : serder.raw.length < 2 ^ 24) :
    Sealed X fields i said serder := by
  obtain ⟨measured, hmeasured, rfl⟩ := (fixVersionString_eq_ok hf).1 hfixed
  obtain ⟨rest, hrest⟩ := hf.version
  have hv : Fields.get "v" fields = some (.string "KERI10JSON000000_") := by
    rw [hrest]
    rfl
  obtain ⟨rfl, digested, hdigested, htext⟩ := (computeSaid_sized hdigest hf).1 hsaid
  generalize hsa : isSelfAddressing "d" fields = sa at hserder
  obtain ⟨hplain, hlen44⟩ := hdigest.plain htext
  have hn : (print (.object (fillSaid "d" sa said fields))).length = measured.length := by
    rw [hX.toVec_eq hmeasured, dummied, hsa]
    exact length_print_fillSaid hX hplain (isPlain_dummyText 44).1
      (hlen44.trans (isPlain_dummyText 44).2.symm)
  have hbodyV : Fields.get "v" (fillSaid "d" sa said fields) =
      some (.string "KERI10JSON000000_") := by
    rw [get_fillSaid_of_ne (by decide) (by decide), hv]
  obtain ⟨hfits, hlength, hraw, hsad, hversion, hkind⟩ :=
    serder_of_new hX hbodyV (by decide) (by decide) hn hserder hsize
  have hfirst : Fields.insert "v" (.string (versionStringOf measured.length))
      (fillSaid "d" sa said fields) =
      ("v", .string (versionStringOf measured.length)) :: fillSaid "d" sa said rest := by
    rw [hrest]
    cases sa <;> simp [fillSaid, Fields.insert]
  obtain ⟨hread, hhead, hfound⟩ :=
    fromRaw_of_serialized hX hfits hlength hraw (hfirst ▸ hsad) hversion hkind
  have hiff : sa = true ↔ i = "" := by
    rw [← hsa, isSelfAddressing_iff hf.said, hf.pfx]
    simp
  have hgetD : serder.sad.get "d" = some (.string said) := by
    rw [hsad, Value.get_object, Fields.get_insert_of_ne (by decide),
      (get_fillSaid sa said fields).1]
  have hgetI : serder.sad.get "i" = some (.string (if i = "" then said else i)) := by
    rw [hsad, Value.get_object, Fields.get_insert_of_ne (by decide),
      (get_fillSaid sa said fields).2, hf.pfx]
    by_cases hi : i = ""
    · rw [if_pos (hiff.2 hi), if_pos hi]
    · rw [if_neg (hiff.not.2 hi), if_neg hi]
  refine ⟨hread, hhead, ⟨_, hfound⟩, ?_, ?_, ?_, hgetD, hgetI, ⟨_, htext⟩, ?_⟩
  · rw [Serder.table, hversion]
    rfl
  · intro k hkv hkd hki
    rw [hsad, Value.get_object, Fields.get_insert_of_ne hkv, get_fillSaid_of_ne hkd hki]
  · refine ⟨versionStringOf measured.length, ?_⟩
    rw [hsad, Value.get_object, Fields.get_insert_self]
  · intro hown
    rw [Serder.verifySaid, hkind]
    refine verifySaid_eq_ok.2 ⟨_, said, 44, digested, hsad, ?_, ?_, ?_, htext⟩
    · rw [← Value.get_object, ← hsad, hgetD]
    · simp [dummyLen, hdigest.size, okOr, ensure]
    · -- the body is still an inception exactly when it was one before
      have hself : isSelfAddressing "d"
          (Fields.insert "v" (.string (versionStringOf measured.length))
            (fillSaid "d" sa said fields)) = sa := by
        rw [Bool.eq_iff_iff, isSelfAddressing_iff (d := .string said)
          (by rw [← Value.get_object, ← hsad, hgetD]), ← Value.get_object, ← hsad, hgetI, hiff]
        by_cases hi : i = ""
        · simp [hi]
        · have hne := hown.resolve_left hi
          simp [hi, Ne.symm hne]
      rw [dummied, hself, fillSaid_insert (by decide) (by decide) _ _
        (Option.isSome_of_eq_some hbodyV), fillSaid_fillSaid fun _ => rfl]
      rw [dummied, hsa] at hdigested
      exact hdigested

/-- **A sealed event is read back, and its SAID verifies.** -/
theorem sealed_of_sealEvent (hX : JsonLaws X print) (hdigest : DigestLaws X)
    (hf : EventFields fields i) {signers : List Signer} {event : Hab.SignedEvent}
    (h : sealEvent X fields signers = .ok event) (hsize : event.raw.length < 2 ^ 24) :
    ∃ serder, Sealed X fields i event.said serder ∧ event.raw = serder.raw ∧
      signAll X serder.raw 0 signers = .ok event.signatures ∧
      ∃ code counter qb64, counterCodeFor serder .controllerIdxSigs = .ok code ∧
        X.cesr.counterNew code signers.length = .ok counter ∧
        X.cesr.counterQb64 counter = .ok qb64 ∧
        event.composed = serder.raw ++ strBytes qb64 ++ event.signatures := by
  simp only [sealEvent, bind_eq_ok, mapError_eq_ok, pure_eq_ok] at h
  obtain ⟨fixed, hfixed, ⟨said, sad⟩, hsaid, serder, hserder, signatures, hsigs, code, hcode,
    counter, hcounter, qb64, hqb64, rfl⟩ := h
  exact ⟨serder, sealed_of_new hX hdigest hf hfixed hsaid hserder hsize, rfl, hsigs, code, counter,
    qb64, hcode, hcounter, hqb64, rfl⟩

end

/-! ### An instance -/

namespace Toy

theorem flatMap_escape {bs : Bytes} (h : bs.all isPlainByte = true) : bs.flatMap escape = bs := by
  induction bs with
  | nil => rfl
  | cons b bs ih =>
      rw [List.all_cons, Bool.and_eq_true] at h
      obtain ⟨hlow, -, hquote, hslash⟩ := of_decide_eq_true h.1
      have hline : b ≠ 10 := by
        rintro rfl
        exact absurd hlow (by decide)
      rw [List.flatMap_cons, ih h.2, escape, if_neg (by simp [hquote, hslash]), if_neg hline]
      rfl

theorem printString_of_plain {s : String} (h : isPlain s = true) :
    printString s = 34 :: strBytes s ++ [34] := by
  rw [printString, flatMap_escape h]

theorem printFields_eq (fields : Fields) :
    printFields fields = List.intercalate [44]
      (fields.map fun f => print (.string f.1) ++ 58 :: print f.2) := by
  induction fields with
  | nil =>
      rw [printFields]
      rfl
  | cons f fields ih =>
      obtain ⟨k, x⟩ := f
      have hkey : print (.string k) = printString k := by rw [print]
      cases fields with
      | nil => simp [printFields, hkey, List.intercalate]
      | cons g fields =>
          rw [printFields, ih, ← hkey]
          · simp [List.intercalate]
          · intro heq
            cases heq

theorem length_encode (bs : Bytes) : (encode bs).length = bs.length / 3 * 4 := by
  fun_induction encode bs with
  | case1 a b c bs n ih =>
      simp only [List.length_cons, ih]
      omega
  | case2 bs hshort =>
      have hlt : bs.length < 3 := by
        by_contra hge
        rcases bs with _ | ⟨a, _ | ⟨b, _ | ⟨c, bs⟩⟩⟩
        · simp at hge
        · simp at hge
        · simp at hge
        · exact hshort a b c bs rfl
      have hzero : bs.length / 3 = 0 := by omega
      rw [hzero]
      rfl

theorem isPlainByte_digit (n : ℕ) : isPlainByte (digit n) = true := by
  have h : (digit n).toNat = 45 ∨ (digit n).toNat = 95 ∨ 48 ≤ (digit n).toNat ∧
      (digit n).toNat ≤ 57 ∨ 65 ≤ (digit n).toNat ∧ (digit n).toNat ≤ 122 ∧
      (digit n).toNat ≠ 92 := by
    unfold digit
    rw [UInt8.toNat_ofNat']
    split_ifs <;> omega
  simp only [isPlainByte, decide_eq_true_eq, UInt8.le_iff_toNat_le, UInt8.lt_iff_toNat_lt, ne_eq,
    ← UInt8.toNat_inj]
  change 32 ≤ (digit n).toNat ∧ (digit n).toNat < 127 ∧ ¬ (digit n).toNat = 34 ∧
    ¬ (digit n).toNat = 92
  omega

theorem plain_encode (bs : Bytes) : (encode bs).all isPlainByte = true := by
  fun_induction encode bs with
  | case1 a b c bs n ih => simp [isPlainByte_digit, ih]
  | case2 => rfl

end Toy

/-- The JSON of the instance is compact. -/
theorem jsonLaws_toy (digest : Bytes → Bytes) : JsonLaws (Toy.externals digest) Toy.print := by
  constructor
  · intro v bytes h
    change Toy.toVec v = .ok bytes at h
    unfold Toy.toVec at h
    simp only at h
    split at h
    · exact (Except.ok.inj h).symm
    · cases h
  · intro v bytes h
    exact Toy.fromSlice_toVec h
  · intro fields
    rw [Toy.print, Toy.printFields_eq]
  · intro s hs
    rw [Toy.print, Toy.printString_of_plain hs]

/-- A digest of 32 bytes has a text of 44 characters. -/
theorem digestLaws_toy : DigestLaws Toy.lib := by
  constructor
  · rfl
  · intro data text h
    have hqb64 : (Toy.matterQb64 ⟨"E", Toy.checksumDigest data⟩).mapError CryptoError.cesr =
        .ok text := h
    have htext : text = Toy.primitiveText "E" (Toy.checksumDigest data) := by
      have hm := mapError_eq_ok.1 hqb64
      unfold Toy.matterQb64 at hm
      simp only at hm
      split at hm
      · exact (Except.ok.inj hm).symm
      · cases hm
    have hascii : isAscii ((Toy.encode (0 :: Toy.checksumDigest data)).drop 1) = true :=
      isAscii_drop (Toy.isAscii_encode _) 1
    have hbytes : strBytes text =
        69 :: (Toy.encode (0 :: Toy.checksumDigest data)).drop 1 := by
      rw [htext, Toy.primitiveText, strBytes_append, show (strBytes "E").length % 4 = 1 from rfl,
        List.replicate_one, List.singleton_append, strBytes_textOf hascii]
      rfl
    have hlen : (Toy.checksumDigest data).length = 32 := rfl
    constructor
    · rw [isPlain, hbytes, List.all_cons, Bool.and_eq_true]
      refine ⟨by decide, List.all_eq_true.2 ?_⟩
      intro b hb
      exact List.all_eq_true.1 (Toy.plain_encode _) b (List.mem_of_mem_drop hb)
    · rw [hbytes, List.length_cons, List.length_drop, Toy.length_encode, List.length_cons, hlen]
  · intro data m h
    exact (Except.ok.inj h).symm

end Keri
