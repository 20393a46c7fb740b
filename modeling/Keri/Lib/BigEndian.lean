/-
**Big-endian numbers.**

A number written in bytes, the most significant first.  Bytes that are zero can be put in front of
it or taken away from it, and it fits so many bytes exactly when all that stands in front of those
is zero.

* `BigEndian.value` — the number that bytes write;
* `BigEndian.foldl_eq_value` — read off from the front, byte by byte;
* `BigEndian.value_append`, `BigEndian.value_replicate_append` — what stands in front;
* `BigEndian.value_lt_pow_iff` — **a number fits exactly when what stands in front is zero**.
-/

import Mathlib

set_option relaxedAutoImplicit false
set_option autoImplicit false

namespace BigEndian

/-- The number that bytes write, the most significant first. -/
def value (bs : List UInt8) : ℕ := Nat.ofDigits 256 (bs.map UInt8.toNat).reverse

@[simp] theorem value_nil : value [] = 0 := rfl

theorem value_append (as bs : List UInt8) :
    value (as ++ bs) = value as * 256 ^ bs.length + value bs := by
  rw [value, List.map_append, List.reverse_append, Nat.ofDigits_append, List.length_reverse,
    List.length_map, Nat.mul_comm, Nat.add_comm]
  rfl

theorem value_singleton (b : UInt8) : value [b] = b.toNat := Nat.ofDigits_singleton

theorem value_lt (bs : List UInt8) : value bs < 256 ^ bs.length := by
  have hdigits : ∀ d ∈ (bs.map UInt8.toNat).reverse, d < 256 := by
    intro d hd
    obtain ⟨b, -, rfl⟩ := List.mem_map.1 (List.mem_reverse.1 hd)
    exact b.toNat_lt
  have h := Nat.ofDigits_lt_base_pow_length (by decide) hdigits
  rwa [List.length_reverse, List.length_map] at h

/-- The number is read off from the front. -/
theorem foldl_eq_value (bs : List UInt8) :
    bs.foldl (fun acc b => acc * 256 + b.toNat) 0 = value bs := by
  induction bs using List.reverseRecOn with
  | nil => rfl
  | append_singleton bs b ih =>
      rw [List.foldl_append, ih, value_append, value_singleton, List.length_singleton, pow_one]
      rfl

theorem value_eq_zero_iff {bs : List UInt8} : value bs = 0 ↔ ∀ b ∈ bs, b = 0 := by
  induction bs with
  | nil => simp
  | cons b bs ih =>
      have hzero : b.toNat = 0 ↔ b = 0 := @UInt8.toNat_inj b 0
      rw [← List.singleton_append, value_append, value_singleton, Nat.add_eq_zero_iff,
        Nat.mul_eq_zero, or_iff_left (by positivity), ih, hzero]
      simp

/-- Zeros in front change nothing. -/
theorem value_replicate_append (k : ℕ) (bs : List UInt8) :
    value (List.replicate k 0 ++ bs) = value bs := by
  have hzero : value (List.replicate k 0) = 0 :=
    value_eq_zero_iff.2 fun b hb => List.eq_of_mem_replicate hb
  rw [value_append, hzero, Nat.zero_mul, Nat.zero_add]

/-- The number is that of its last bytes and a multiple of the first number that they do not fit. -/
theorem value_split (bs : List UInt8) (k : ℕ) :
    value bs = value (bs.take (bs.length - k)) * 256 ^ (min k bs.length) +
      value (bs.drop (bs.length - k)) := by
  have hlen : (bs.drop (bs.length - k)).length = min k bs.length := by
    rw [List.length_drop]
    omega
  rw [← hlen, ← value_append, List.take_append_drop]

/-- Without anything but zeros in front, the number is that of its last bytes. -/
theorem value_drop {bs : List UInt8} {k : ℕ} (h : ∀ b ∈ bs.take (bs.length - k), b = 0) :
    value (bs.drop (bs.length - k)) = value bs := by
  rw [value_split bs k, value_eq_zero_iff.2 h, Nat.zero_mul, Nat.zero_add]

/-- **A number fits exactly when what stands in front is zero.** -/
theorem value_lt_pow_iff {bs : List UInt8} {k : ℕ} :
    value bs < 256 ^ k ↔ ∀ b ∈ bs.take (bs.length - k), b = 0 := by
  rw [← value_eq_zero_iff]
  constructor
  · intro hlt
    by_contra hne
    have hpos : 1 ≤ value (bs.take (bs.length - k)) := Nat.one_le_iff_ne_zero.2 hne
    -- there is something in front, so the last bytes are `k`
    have hk : min k bs.length = k := by
      refine Nat.min_eq_left (Nat.le_of_not_lt fun hshort => hne ?_)
      rw [Nat.sub_eq_zero_of_le hshort.le, List.take_zero, value_nil]
    have hge : 256 ^ k ≤ value bs := by
      calc 256 ^ k ≤ value (bs.take (bs.length - k)) * 256 ^ k := Nat.le_mul_of_pos_left _ hpos
        _ ≤ value bs := by
          rw [value_split bs k, hk]
          exact Nat.le_add_right _ _
    exact absurd hlt (Nat.not_lt.2 hge)
  · intro hzero
    have hlt := value_lt (bs.drop (bs.length - k))
    rw [value_drop (value_eq_zero_iff.1 hzero), List.length_drop] at hlt
    exact hlt.trans_le (Nat.pow_le_pow_right (by decide) (by omega))

end BigEndian
