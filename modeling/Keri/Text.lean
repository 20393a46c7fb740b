/-
**Bytes, text and numerals.**

The repository reads and writes byte strings, text slices of them and numbers written as text.
This module fixes how each is represented: a byte string is a list of bytes, text is a `String`,
and the standard library's conversions between the two are given under one name each.

* `Keri.strBytes`, `Keri.fromUtf8`, `Keri.textOf` — `str::as_bytes`, `str::from_utf8`, and a text
  slice of ASCII bytes;
* `Keri.fromStrRadix` — `from_str_radix` of the unsigned integer types;
* `Keri.hexLower`, `Keri.decimal` — the `{:x}` and `{}` formats of a number;
* `Keri.u64Succ` — `n + 1` on `u64`, which wraps in a release build.

The conversions are inverse where they meet: `Keri.fromUtf8_strBytes` on any text, and
`Keri.textOf_strBytes`, `Keri.strBytes_textOf` on ASCII.
-/

import Keri.Lib.Machine
import Keri.Lib.Table

set_option relaxedAutoImplicit false
set_option autoImplicit false

namespace Keri

/-- A byte string, `Vec<u8>` or `&[u8]`. -/
abbrev Bytes := List UInt8

/-! ### Text -/

/-- The UTF-8 bytes of a text, `str::as_bytes`. -/
def strBytes (s : String) : Bytes := s.toByteArray.data.toList

/-- `std::str::from_utf8`. -/
def fromUtf8 (bs : Bytes) : Option String := String.fromUTF8? ⟨bs.toArray⟩

/-- The text slice whose bytes are `bs`; the source takes such slices of ASCII text only. -/
def textOf (bs : Bytes) : String := String.ofList (bs.map fun b => Char.ofNat b.toNat)

/-- `<[u8]>::is_ascii`. -/
def isAscii (bs : Bytes) : Bool := bs.all (· < 128)

@[simp] theorem fromUtf8_strBytes (s : String) : fromUtf8 (strBytes s) = some s := by
  have hb : (⟨(strBytes s).toArray⟩ : ByteArray) = s.toByteArray := by
    cases hs : s.toByteArray
    simp [strBytes, hs]
  have hv : (⟨(strBytes s).toArray⟩ : ByteArray).IsValidUTF8 := hb ▸ s.isValidUTF8
  simp only [fromUtf8, String.fromUTF8?, dif_pos hv, Option.some_inj]
  exact String.toByteArray_inj.1 (by simpa [String.fromUTF8] using hb)

theorem strBytes_ofList (cs : List Char) :
    strBytes (String.ofList cs) = cs.flatMap String.utf8EncodeChar := by
  simp [strBytes, String.ofList, List.utf8Encode]

/-- A character that is encoded in ASCII is encoded as its own number. -/
theorem utf8EncodeChar_of_ascii {c : Char} (h : isAscii (String.utf8EncodeChar c) = true) :
    String.utf8EncodeChar c = [UInt8.ofNat c.toNat] ∧ c.toNat < 128 := by
  unfold String.utf8EncodeChar at h ⊢
  simp only at h ⊢
  split at h
  · rename_i hle
    rw [if_pos hle]
    exact ⟨rfl, by change c.val.toNat < 128; omega⟩
  · -- the first byte of a longer encoding has its high bit set
    exfalso
    split at h
    · simp [isAscii, UInt8.lt_iff_toNat_lt] at h
      omega
    · split at h
      · simp [isAscii, UInt8.lt_iff_toNat_lt] at h
        omega
      · simp [isAscii, UInt8.lt_iff_toNat_lt] at h
        omega

theorem textOf_strBytes {s : String} (h : isAscii (strBytes s) = true) :
    textOf (strBytes s) = s := by
  obtain ⟨cs, rfl⟩ : ∃ cs, String.ofList cs = s := ⟨s.toList, String.ofList_toList⟩
  rw [strBytes_ofList] at h ⊢
  unfold textOf
  congr 1
  induction cs with
  | nil => rfl
  | cons c cs ih =>
      rw [List.flatMap_cons, isAscii, List.all_append, Bool.and_eq_true] at h
      obtain ⟨hc, hlt⟩ := utf8EncodeChar_of_ascii h.1
      have hnum : (UInt8.ofNat c.toNat).toNat = c.toNat := by
        simp
        omega
      rw [List.flatMap_cons, hc, List.singleton_append, List.map_cons, ih h.2, hnum,
        Char.ofNat_toNat]

theorem strBytes_textOf {bs : Bytes} (h : isAscii bs = true) : strBytes (textOf bs) = bs := by
  rw [textOf, strBytes_ofList]
  induction bs with
  | nil => rfl
  | cons b bs ih =>
      simp only [isAscii, List.all_cons, Bool.and_eq_true, decide_eq_true_eq] at h
      have hlt : b.toNat < 128 := by simpa [UInt8.lt_iff_toNat_lt] using h.1
      have hval : (Char.ofNat b.toNat).val.toNat = b.toNat := by
        unfold Char.ofNat
        rw [dif_pos (show b.toNat.isValidChar by left; omega)]
        rfl
      have hb : String.utf8EncodeChar (Char.ofNat b.toNat) = [b] := by
        unfold String.utf8EncodeChar
        simp only [hval]
        rw [if_pos (by omega)]
        simp
      rw [List.map_cons, List.flatMap_cons, hb, List.singleton_append, ih h.2]

theorem textOf_append (as bs : Bytes) : textOf (as ++ bs) = textOf as ++ textOf bs := by
  simp [textOf]

theorem strBytes_append (s t : String) : strBytes (s ++ t) = strBytes s ++ strBytes t := by
  simp [strBytes]

theorem isAscii_append (a b : Bytes) : isAscii (a ++ b) = (isAscii a && isAscii b) := by
  simp [isAscii]

theorem isAscii_drop {a : Bytes} (h : isAscii a = true) (n : ℕ) : isAscii (a.drop n) = true := by
  simp only [isAscii, List.all_eq_true] at h ⊢
  exact fun b hb => h b (List.mem_of_mem_drop hb)

theorem isAscii_take {a : Bytes} (h : isAscii a = true) (n : ℕ) : isAscii (a.take n) = true := by
  simp only [isAscii, List.all_eq_true] at h ⊢
  exact fun b hb => h b (List.mem_of_mem_take hb)

/-! ### Numerals -/

/-- The number of values of `u64`, and of `usize` on the 64-bit targets the crates are for. -/
def u64Bound : ℕ := 2 ^ 64

/-- The number of values of `u32`. -/
def u32Bound : ℕ := 2 ^ 32

/-- `n + 1` on `u64`.  The workspace leaves overflow checks off in release builds, so the sum
wraps. -/
def u64Succ (n : ℕ) : ℕ := (n + 1) % u64Bound

theorem u64Succ_of_lt {n : ℕ} (h : n + 1 < u64Bound) : u64Succ n = n + 1 :=
  Nat.mod_eq_of_lt h

theorem u64Succ_lt (n : ℕ) : u64Succ n < u64Bound := Nat.mod_lt _ (by decide)

/-- The value of a digit in a radix of at most sixteen, `char::to_digit`. -/
def digitVal (radix : ℕ) (c : Char) : Option ℕ :=
  let v :=
    if '0' ≤ c ∧ c ≤ '9' then some (c.toNat - '0'.toNat)
    else if 'a' ≤ c ∧ c ≤ 'f' then some (c.toNat - 'a'.toNat + 10)
    else if 'A' ≤ c ∧ c ≤ 'F' then some (c.toNat - 'A'.toNat + 10)
    else none
  v.filter (· < radix)

/-- The digits of a numeral, read left to right with an overflow check at each. -/
def parseDigits (radix bound : ℕ) : ℕ → List Char → Option ℕ
  | acc, [] => some acc
  | acc, c :: cs =>
      match digitVal radix c with
      | none => none
      | some d =>
          if acc * radix + d < bound then parseDigits radix bound (acc * radix + d) cs else none

/-- The digits after an optional `+`. -/
def stripPlus : List Char → List Char
  | '+' :: cs => cs
  | cs => cs

/-- `from_str_radix` of an unsigned type with `bound` values: an optional `+`, then at least one
digit. -/
def fromStrRadix (radix bound : ℕ) (s : String) : Option ℕ :=
  if stripPlus s.toList = [] then none else parseDigits radix bound 0 (stripPlus s.toList)

theorem parseDigits_lt {radix bound : ℕ} {cs : List Char} {acc n : ℕ} (hacc : acc < bound)
    (h : parseDigits radix bound acc cs = some n) : n < bound := by
  induction cs generalizing acc with
  | nil =>
      simp only [parseDigits, Option.some_inj] at h
      exact h ▸ hacc
  | cons c cs ih =>
      unfold parseDigits at h
      split at h
      · cases h
      · split at h
        · rename_i hlt
          exact ih hlt h
        · cases h

/-- A parsed numeral fits its type. -/
theorem fromStrRadix_lt {radix bound : ℕ} (hb : 0 < bound) {s : String} {n : ℕ}
    (h : fromStrRadix radix bound s = some n) : n < bound := by
  unfold fromStrRadix at h
  split at h
  · cases h
  · exact parseDigits_lt hb h

/-- The `{:x}` format. -/
def hexLower (n : ℕ) : String := String.ofList (Nat.toDigits 16 n)

/-- The `{}` format of an unsigned number. -/
def decimal (n : ℕ) : String := String.ofList (Nat.toDigits 10 n)

/-- Pad with zeros on the left to `width` characters. -/
def zeroPad (width : ℕ) (s : String) : String :=
  String.ofList (List.replicate (width - s.toList.length) '0') ++ s

/-! ### Numerals are read back -/

theorem parseDigits_append (radix bound acc : ℕ) (cs ds : List Char) :
    parseDigits radix bound acc (cs ++ ds) =
      (parseDigits radix bound acc cs).bind fun n => parseDigits radix bound n ds := by
  induction cs generalizing acc with
  | nil => rfl
  | cons c cs ih =>
      simp only [List.cons_append, parseDigits]
      cases digitVal radix c with
      | none => rfl
      | some d =>
          simp only
          split
          · exact ih _
          · rfl

theorem digitVal_digitChar {radix d : ℕ} (hradix : radix ≤ 16) (h : d < radix) :
    digitVal radix (Nat.digitChar d) = some d := by
  have hhex : digitVal 16 (Nat.digitChar d) = some d := by
    have hd : d < 16 := by omega
    interval_cases d <;> rfl
  obtain ⟨hval, -⟩ := Option.filter_eq_some_iff.1 hhex
  exact Option.filter_eq_some_iff.2 ⟨hval, by simpa using h⟩

/-- The digits of a number are read back as it. -/
theorem parseDigits_toDigits {radix bound n : ℕ} (hone : 1 < radix) (hradix : radix ≤ 16)
    (h : n < bound) : parseDigits radix bound 0 (Nat.toDigits radix n) = some n := by
  induction n using Nat.strong_induction_on with
  | _ n ih =>
      rcases Nat.lt_or_ge n radix with hlt | hge
      · rw [Nat.toDigits_of_lt_base hlt]
        simp [parseDigits, digitVal_digitChar hradix hlt, h]
      · have hdiv : n / radix < n := Nat.div_lt_self (by omega) hone
        have hsum : n / radix * radix + n % radix = n := Nat.div_add_mod' n radix
        rw [Nat.toDigits_of_base_le hone hge, parseDigits_append,
          ih (n / radix) hdiv (hdiv.trans h), Option.bind_some]
        simp [parseDigits, digitVal_digitChar hradix (Nat.mod_lt n (by omega)), hsum, h]

/-- What is not a digit is not in a text of digits. -/
theorem not_mem_of_parseDigits {radix bound acc n : ℕ} {c : Char} (hc : digitVal radix c = none)
    {cs : List Char} (h : parseDigits radix bound acc cs = some n) : c ∉ cs := by
  induction cs generalizing acc with
  | nil => exact List.not_mem_nil
  | cons c' cs ih =>
      unfold parseDigits at h
      cases hd : digitVal radix c' with
      | none =>
          rw [hd] at h
          cases h
      | some d =>
          rw [hd] at h
          simp only at h
          split at h
          · intro hmem
            rcases List.mem_cons.1 hmem with heq | hmem
            · rw [heq, hd] at hc
              cases hc
            · exact ih h hmem
          · cases h

theorem not_mem_decimal {c : Char} (hc : digitVal 10 c = none) (n : ℕ) :
    c ∉ (decimal n).toList := by
  have hlist : (decimal n).toList = Nat.toDigits 10 n := by simp [decimal]
  rw [hlist]
  exact not_mem_of_parseDigits hc
    (parseDigits_toDigits (by omega) (by omega) (Nat.lt_succ_self n))

theorem parseDigits_zeros {bound : ℕ} (h : 0 < bound) (k : ℕ) (cs : List Char) :
    parseDigits 16 bound 0 (List.replicate k '0' ++ cs) = parseDigits 16 bound 0 cs := by
  induction k with
  | zero => rfl
  | succ k ih =>
      have hzero : digitVal 16 '0' = some 0 := rfl
      rw [List.replicate_succ, List.cons_append]
      simp [parseDigits, hzero, h, ih]

/-- A numeral without a sign. -/
theorem fromStrRadix_of_parseDigits {radix bound n : ℕ} {s : String} (hne : s.toList ≠ [])
    (h : parseDigits radix bound 0 s.toList = some n) : fromStrRadix radix bound s = some n := by
  have hstrip : stripPlus s.toList = s.toList := by
    unfold stripPlus
    split
    · rename_i cs hcs
      have hplus : digitVal radix '+' = none := rfl
      rw [hcs] at h
      simp [parseDigits, hplus] at h
    · rfl
  rw [fromStrRadix, hstrip, if_neg hne, h]

/-- A number written in decimal is read back. -/
theorem fromStrRadix_decimal {bound n : ℕ} (h : n < bound) :
    fromStrRadix 10 bound (decimal n) = some n := by
  have hlist : (decimal n).toList = Nat.toDigits 10 n := by simp [decimal]
  refine fromStrRadix_of_parseDigits ?_ ?_
  · rw [hlist]
    exact Nat.toDigits_ne_nil
  · rw [hlist, parseDigits_toDigits (by omega) (by omega) h]

/-- A number written in hexadecimal is read back. -/
theorem fromStrRadix_hexLower {bound n : ℕ} (h : n < bound) :
    fromStrRadix 16 bound (hexLower n) = some n := by
  have hlist : (hexLower n).toList = Nat.toDigits 16 n := by simp [hexLower]
  refine fromStrRadix_of_parseDigits ?_ ?_
  · rw [hlist]
    exact Nat.toDigits_ne_nil
  · rw [hlist, parseDigits_toDigits (by omega) le_rfl h]

/-- **A number written in hexadecimal and padded is read back.** -/
theorem fromStrRadix_zeroPad {bound n : ℕ} (h : n < bound) (width : ℕ) :
    fromStrRadix 16 bound (zeroPad width (hexLower n)) = some n := by
  have hlist : (zeroPad width (hexLower n)).toList =
      List.replicate (width - (hexLower n).toList.length) '0' ++ Nat.toDigits 16 n := by
    simp [zeroPad, hexLower]
  refine fromStrRadix_of_parseDigits ?_ ?_
  · rw [hlist]
    simp [Nat.toDigits_ne_nil]
  · rw [hlist, parseDigits_zeros (by omega), parseDigits_toDigits (by omega) le_rfl h]

/-- A number of at most `width` digits fills exactly `width` characters. -/
theorem length_zeroPad (width : ℕ) {n : ℕ} (hw : 0 < width) (h : n < 16 ^ width) :
    (zeroPad width (hexLower n)).toList.length = width := by
  have hle := (Nat.length_toDigits_le_iff (b := 16) (by omega) hw).2 h
  simp only [zeroPad, hexLower, String.toList_append, String.toList_ofList, List.length_append,
    List.length_replicate]
  omega

end Keri
