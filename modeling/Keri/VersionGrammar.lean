/-
**The grammar of version strings.**

A version string is seventeen ASCII bytes: a protocol of four, a digit each for the major and the
minor version, a tag of four for the serialization, six digits of size and an underscore.  This
module states that grammar over bytes, apart from the parser, and says which strings the parser
accepts.

Main definitions:

* `Keri.VersionGrammar.IsHex`, `hexValue`, `hexNumber` — hexadecimal digits and what they write;
* `Keri.VersionGrammar.Framed` — the grammar, the size apart;
* `Keri.VersionGrammar.readOff` — the fields that the bytes write.

Main results:

* `Keri.VersionGrammar.parseStr_iff` — **what the parser accepts**: the grammar, and beside it a
  size of a plus sign and five digits, which the integer parser of the standard library takes;
* `Keri.VersionGrammar.exact_iff_unsigned` — a string is read as the grammar says exactly when its
  size is not written with a sign, and every version that fits is read back from its string.
-/

import Keri.Sealing

set_option relaxedAutoImplicit false
set_option autoImplicit false

namespace Keri.VersionGrammar

open Outcome

/-! ### Hexadecimal digits -/

/-- A hexadecimal digit, of either case. -/
def IsHex (b : UInt8) : Prop :=
  48 ≤ b ∧ b ≤ 57 ∨ 65 ≤ b ∧ b ≤ 70 ∨ 97 ≤ b ∧ b ≤ 102

instance (b : UInt8) : Decidable (IsHex b) :=
  inferInstanceAs (Decidable (48 ≤ b ∧ b ≤ 57 ∨ 65 ≤ b ∧ b ≤ 70 ∨ 97 ≤ b ∧ b ≤ 102))

/-- What a hexadecimal digit stands for. -/
def hexValue (b : UInt8) : ℕ :=
  if b ≤ 57 then b.toNat - 48 else if b ≤ 70 then b.toNat - 55 else b.toNat - 87

/-- The number that digits write, the most significant one first. -/
def hexNumber (ds : Bytes) : ℕ := ds.foldl (fun n b => n * 16 + hexValue b) 0

/-- A run of digits. -/
def Digits (ds : Bytes) : Prop := ∀ b ∈ ds, IsHex b

theorem digits_cons {b : UInt8} {ds : Bytes} : Digits (b :: ds) ↔ IsHex b ∧ Digits ds :=
  List.forall_mem_cons

theorem hexDigit_eq (b : UInt8) : hexDigit b = if IsHex b then some (hexValue b) else none := by
  have hall : ∀ n : Fin 256, hexDigit (UInt8.ofFin n) =
      if IsHex (UInt8.ofFin n) then some (hexValue (UInt8.ofFin n)) else none := by
    decide +kernel
  exact hall b.toFin

theorem hexDigit_eq_some {b : UInt8} {n : ℕ} :
    hexDigit b = some n ↔ IsHex b ∧ n = hexValue b := by
  rw [hexDigit_eq]
  split
  · rename_i hb
    rw [Option.some_inj]
    exact ⟨fun h => ⟨hb, h.symm⟩, fun h => h.2.symm⟩
  · rename_i hb
    simp [hb]

theorem hexValue_lt {b : UInt8} (h : IsHex b) : hexValue b < 16 :=
  Version.hexDigit_lt (hexDigit_eq_some.2 ⟨h, rfl⟩)

theorem char_eq_plus {b : UInt8} : Char.ofNat b.toNat = '+' ↔ b = 43 := by
  have hall : ∀ n : Fin 256,
      Char.ofNat (UInt8.ofFin n).toNat = '+' ↔ (UInt8.ofFin n) = 43 := by
    decide +kernel
  exact hall b.toFin

/-- The digit loop of the integer parser, on a field that cannot overflow. -/
theorem parseDigits_bytes {bound : ℕ} (ds : Bytes) {acc n : ℕ}
    (h : (acc + 1) * 16 ^ ds.length ≤ bound) :
    parseDigits 16 bound acc (ds.map fun b => Char.ofNat b.toNat) = some n ↔
      Digits ds ∧ n = ds.foldl (fun n b => n * 16 + hexValue b) acc := by
  induction ds generalizing acc with
  | nil => simp [parseDigits, Digits, eq_comm]
  | cons b ds ih =>
      have hdigit := hexDigit_eq b
      rw [hexDigit] at hdigit
      rw [List.map_cons, parseDigits, hdigit, digits_cons, List.foldl_cons]
      by_cases hb : IsHex b
      · have hlt := hexValue_lt hb
        have hpow : 0 < 16 ^ ds.length := Nat.pow_pos (by omega)
        have hstep : (acc * 16 + hexValue b + 1) * 16 ^ ds.length ≤ bound := by
          calc (acc * 16 + hexValue b + 1) * 16 ^ ds.length
              ≤ (acc + 1) * 16 * 16 ^ ds.length := Nat.mul_le_mul_right _ (by omega)
            _ = (acc + 1) * 16 ^ (b :: ds).length := by rw [List.length_cons, pow_succ]; ring
            _ ≤ bound := h
        have hfit : acc * 16 + hexValue b < bound := by
          have hle := Nat.le_mul_of_pos_right (acc * 16 + hexValue b + 1) hpow
          omega
        simp only [if_pos hb, if_pos hfit]
        rw [ih hstep]
        simp [hb]
      · simp [hb]

/-! ### The grammar -/

/-- The digits of the size. -/
def sizeField (bs : Bytes) : Bytes := (bs.drop 10).take 6

/-- The grammar of a version string, its size apart. -/
structure Framed (bs : Bytes) (kind : SerializationKind) : Prop where
  length_ge : 17 ≤ bs.length
  ascii : ∀ b ∈ bs.take 17, b < 128
  major : IsHex (bs.getD 4 0)
  minor : IsHex (bs.getD 5 0)
  tag : (bs.drop 6).take 4 = strBytes kind.tag
  terminator : bs.getD 16 0 = 95

/-- The version that the bytes write. -/
def readOff (bs : Bytes) (kind : SerializationKind) (size : ℕ) : Version :=
  { protocol := textOf (bs.take 4), major := hexValue (bs.getD 4 0),
    minor := hexValue (bs.getD 5 0), kind, size }

/-- A plus sign, and digits. -/
def Signed (ds : Bytes) : Prop := ∃ rest, ds = 43 :: rest ∧ Digits rest

theorem toList_textOf (ds : Bytes) :
    (textOf ds).toList = ds.map fun b => Char.ofNat b.toNat := by
  simp [textOf]

/-- A sign is taken off before the digits are read. -/
theorem fromStrRadix_signed {rest : Bytes} (h : rest.length = 5) {n : ℕ} :
    fromStrRadix 16 u64Bound (textOf (43 :: rest)) = some n ↔
      Digits rest ∧ n = hexNumber rest := by
  have hstrip : stripPlus (textOf (43 :: rest)).toList =
      rest.map fun b => Char.ofNat b.toNat := by
    rw [toList_textOf, List.map_cons, char_eq_plus.2 rfl]
    rfl
  have hne : rest.map (fun b => Char.ofNat b.toNat) ≠ [] := by
    intro hnil
    rw [List.map_eq_nil_iff.1 hnil] at h
    simp at h
  have hfive : (0 + 1) * 16 ^ rest.length ≤ u64Bound := by
    rw [h]
    decide
  rw [fromStrRadix, hstrip, if_neg hne, parseDigits_bytes rest hfive]
  rfl

theorem fromStrRadix_unsigned {b : UInt8} {rest : Bytes} (hb : b ≠ 43) (h : rest.length = 5)
    {n : ℕ} : fromStrRadix 16 u64Bound (textOf (b :: rest)) = some n ↔
      Digits (b :: rest) ∧ n = hexNumber (b :: rest) := by
  have hstrip : stripPlus (textOf (b :: rest)).toList =
      (b :: rest).map fun b => Char.ofNat b.toNat := by
    rw [toList_textOf, List.map_cons]
    unfold stripPlus
    split
    · rename_i cs hcs
      exact absurd (char_eq_plus.1 (List.cons.inj hcs).1) hb
    · rfl
  have hne : (b :: rest).map (fun b => Char.ofNat b.toNat) ≠ [] := by simp
  have hsix : (0 + 1) * 16 ^ (b :: rest).length ≤ u64Bound := by
    rw [List.length_cons, h]
    decide
  rw [fromStrRadix, hstrip, if_neg hne, parseDigits_bytes (b :: rest) hsix]
  rfl

/-- What the integer parser makes of the six bytes of a size. -/
theorem fromStrRadix_bytes {ds : Bytes} (h : ds.length = 6) {n : ℕ} :
    fromStrRadix 16 u64Bound (textOf ds) = some n ↔
      Digits ds ∧ n = hexNumber ds ∨ Signed ds ∧ n = hexNumber ds.tail := by
  rcases ds with - | ⟨b, rest⟩
  · simp at h
  have hfive : rest.length = 5 := by simpa using h
  by_cases hb : b = 43
  · subst hb
    have hplus : ¬ Digits (43 :: rest) := fun hd => absurd (digits_cons.1 hd).1 (by decide)
    have hsigned : Signed (43 :: rest) ↔ Digits rest := by
      simp [Signed]
    rw [fromStrRadix_signed hfive, hsigned, List.tail_cons]
    simp only [hplus, false_and, false_or]
  · have hsigned : ¬ Signed (b :: rest) := by
      rintro ⟨rest', hcons, -⟩
      exact hb (List.cons.inj hcons).1
    rw [fromStrRadix_unsigned hb hfive]
    simp only [hsigned, false_and, or_false]

theorem fromTag_bytes {bs : Bytes} (h : isAscii bs = true) {kind : SerializationKind} :
    SerializationKind.fromTag (textOf bs) = .ok kind ↔ bs = strBytes kind.tag := by
  have htext : ∀ t : String, isAscii (strBytes t) = true → (textOf bs = t ↔ bs = strBytes t) := by
    intro t ht
    constructor
    · rintro rfl
      exact (strBytes_textOf h).symm
    · rintro rfl
      exact textOf_strBytes ht
  have hjson := htext "JSON" (by decide)
  have hcbor := htext "CBOR" (by decide)
  have hmgpk := htext "MGPK" (by decide)
  simp only [SerializationKind.fromTag, hjson, hcbor, hmgpk]
  constructor
  · intro hok
    split at hok
    · rename_i hbs
      cases hok
      exact hbs
    · split at hok
      · rename_i hbs
        cases hok
        exact hbs
      · split at hok
        · rename_i hbs
          cases hok
          exact hbs
        · cases hok
  · rintro rfl
    cases kind <;> decide

/-- **What the parser accepts**: a framed string whose size is six digits, or a sign and five. -/
theorem parseStr_iff {vs : String} {v : Version} :
    Version.parseStr vs = .ok v ↔ ∃ kind, Framed (strBytes vs) kind ∧
      (Digits (sizeField (strBytes vs)) ∧
          v = readOff (strBytes vs) kind (hexNumber (sizeField (strBytes vs))) ∨
        Signed (sizeField (strBytes vs)) ∧
          v = readOff (strBytes vs) kind (hexNumber (sizeField (strBytes vs)).tail)) := by
  have hsix : 17 ≤ (strBytes vs).length → (sizeField (strBytes vs)).length = 6 := by
    intro hlen
    simp only [sizeField, List.length_take, List.length_drop]
    omega
  have hascii : isAscii ((strBytes vs).take 17) = true ↔ ∀ b ∈ (strBytes vs).take 17, b < 128 := by
    simp [isAscii]
  have htag : isAscii ((strBytes vs).take 17) = true →
      isAscii (((strBytes vs).drop 6).take 4) = true := by
    intro h
    have hdrop := isAscii_take (isAscii_drop h 6) 4
    rwa [List.drop_take, List.take_take] at hdrop
  simp only [Version.parseStr, bind_eq_ok, ensure_eq_ok, okOr_eq_ok, pure_eq_ok,
    hexDigit_eq_some]
  constructor
  · rintro ⟨-, hlen, -, ha, major, ⟨hmajor, rfl⟩, minor, ⟨hminor, rfl⟩, kind, hkind, size, hsize, -,
      hend, rfl⟩
    have hframed : Framed (strBytes vs) kind :=
      ⟨hlen, hascii.1 ha, hmajor, hminor, (fromTag_bytes (htag ha)).1 hkind, hend⟩
    rcases (fromStrRadix_bytes (hsix hlen)).1 hsize with ⟨hd, rfl⟩ | ⟨hs, rfl⟩
    · exact ⟨kind, hframed, Or.inl ⟨hd, rfl⟩⟩
    · exact ⟨kind, hframed, Or.inr ⟨hs, rfl⟩⟩
  · rintro ⟨kind, hframed, hsize⟩
    have ha := hascii.2 hframed.ascii
    have hkind := (fromTag_bytes (htag ha)).2 hframed.tag
    have hlen := hsix hframed.length_ge
    refine ⟨⟨⟩, hframed.length_ge, ⟨⟩, ha, _, ⟨hframed.major, rfl⟩, _, ⟨hframed.minor, rfl⟩, kind,
      hkind, v.size, ?_, ⟨⟩, hframed.terminator, ?_⟩
    · refine (fromStrRadix_bytes hlen).2 ?_
      rcases hsize with ⟨hd, rfl⟩ | ⟨hs, rfl⟩
      · exact Or.inl ⟨hd, rfl⟩
      · exact Or.inr ⟨hs, rfl⟩
    · rcases hsize with ⟨-, rfl⟩ | ⟨-, rfl⟩ <;> rfl

/-! ### Exactness -/

/-- A string is read as the grammar says: accepted exactly when it is framed around six digits of
size, and then as the version that its bytes write. -/
def Exact (vs : String) : Prop :=
  ∀ v, Version.parseStr vs = .ok v ↔ ∃ kind, Framed (strBytes vs) kind ∧
    Digits (sizeField (strBytes vs)) ∧
    v = readOff (strBytes vs) kind (hexNumber (sizeField (strBytes vs)))

/-- A framed string whose size is a plus sign and five digits. -/
def SignedSize (vs : String) : Prop :=
  (∃ kind, Framed (strBytes vs) kind) ∧ Signed (sizeField (strBytes vs))

theorem not_digits_of_signed {ds : Bytes} (h : Signed ds) : ¬ Digits ds := by
  obtain ⟨rest, rfl, -⟩ := h
  intro hd
  exact absurd (hd 43 List.mem_cons_self) (by decide)

/-- **A string is read as the grammar says exactly when its size has no sign**, and a version that
a version string can carry is read back. -/
theorem exact_iff_unsigned (vs : String) :
    (Exact vs ↔ ¬ SignedSize vs) ∧
      ∀ v : Version, v.Wellformed → v.size < 2 ^ 24 →
        Version.parseStr v.toVersionString = .ok v := by
  refine ⟨⟨?_, ?_⟩, fun v hv hsize => Version.parseStr_toVersionString hv hsize⟩
  · rintro hexact ⟨⟨kind, hframed⟩, hsigned⟩
    obtain ⟨_, -, hdigits, -⟩ :=
      (hexact _).1 (parseStr_iff.2 ⟨kind, hframed, Or.inr ⟨hsigned, rfl⟩⟩)
    exact not_digits_of_signed hsigned hdigits
  · intro hunsigned v
    rw [parseStr_iff]
    constructor
    · rintro ⟨kind, hframed, ⟨hd, hv⟩ | ⟨hs, -⟩⟩
      · exact ⟨kind, hframed, hd, hv⟩
      · exact absurd ⟨⟨kind, hframed⟩, hs⟩ hunsigned
    · rintro ⟨kind, hframed, hd, hv⟩
      exact ⟨kind, hframed, Or.inl ⟨hd, hv⟩⟩

theorem default_version_read_back :
    Version.parseStr (Version.defaultV1 .json 15).toVersionString =
      .ok (Version.defaultV1 .json 15) :=
  (exact_iff_unsigned "KERI10JSON00000f_").2 _ (Version.wellformed_defaultV1 .json 15) (by decide)

/-- A size of `+0000f` is read as fifteen. -/
theorem signed_size_accepted :
    Version.parseStr "KERI10JSON+0000f_" = .ok (Version.defaultV1 .json 15) ∧
      ¬ Exact "KERI10JSON+0000f_" := by
  have hread : Version.parseStr "KERI10JSON+0000f_" = .ok (Version.defaultV1 .json 15) := by
    decide +kernel
  refine ⟨hread, ?_⟩
  intro hexact
  obtain ⟨kind, -, hdigits, -⟩ := (hexact _).1 hread
  have hplus : (43 : UInt8) ∈ sizeField (strBytes "KERI10JSON+0000f_") := by decide +kernel
  exact absurd (hdigits 43 hplus) (by decide)

end Keri.VersionGrammar
