/-
**The log of an identifier.**

`get_kel` scans the table of logs for the keys that start with the identifier and a dot, and reads
the sequence number between the first two dots.  It returns the entries of the identifier and no
others as long as identifiers have no dot, which CESR texts do not.

* `Keri.DotFree`, `Keri.CesrText`, `Keri.NoSeparator` — texts without a dot, and that encoded
  primitives are such texts;
* `Keri.sep_prefix_snKey`, `Keri.splitSn_snKey` — the scan and the split undo `sn_key`;
* `Keri.Tables.Keyed` — every key of the table of logs is of an identifier without a dot;
* `Keri.Tables.mem_kel_iff`, `Keri.Tables.kel_numbers` — **the log read is the table by sequence
  number, in order and without repetition**;
* `Keri.Tables.kel_put_of_ne` — an entry of another identifier is not seen.
-/

import Keri.Store
import Keri.Externals

set_option relaxedAutoImplicit false
set_option autoImplicit false

namespace Keri

open Outcome

/-! ### Texts without a dot -/

/-- The text has no separator in it. -/
def DotFree (text : String) : Prop := '.' ∉ text.toList

variable (X : Externals)

/-- The text is what encoding a primitive gives. -/
def CesrText (text : String) : Prop := ∃ m, X.cesr.matterQb64 m = .ok text

/-- An encoded primitive is URL-safe Base64, which has no dot. -/
def NoSeparator : Prop := ∀ text, CesrText X text → DotFree text

/-! ### The keys of a log -/

theorem dotFree_zeroPad {n : ℕ} (h : n < u64Bound) : DotFree (zeroPad 32 (hexLower n)) := by
  have hdot : digitVal 16 '.' = none := by decide
  have hread := fromStrRadix_zeroPad h 32
  unfold fromStrRadix at hread
  split at hread
  · cases hread
  · have hnot := not_mem_of_parseDigits hdot hread
    intro hmem
    refine hnot ?_
    unfold stripPlus
    split
    · rename_i cs hcs
      rw [hcs] at hmem
      rcases List.mem_cons.1 hmem with heq | hmem
      · exact absurd heq (by decide)
      · exact hmem
    · exact hmem

theorem toList_snKey (pfx : String) (sn : ℕ) :
    (snKey pfx sn).toList = pfx.toList ++ '.' :: (zeroPad 32 (hexLower sn)).toList := by
  simp [snKey, sep]

/-- The sequence number is read back from a key. -/
theorem splitSn_snKey {pfx : String} (hpfx : DotFree pfx) {sn : ℕ} (hsn : sn < u64Bound) :
    splitSn (snKey pfx sn) = some sn := by
  unfold splitSn
  rw [toList_snKey, List.splitOn_append_cons_self_of_not_mem hpfx,
    List.splitOn_eq_singleton (dotFree_zeroPad hsn)]
  simp only [String.ofList_toList]
  exact fromStrRadix_zeroPad hsn 32

theorem takeWhile_dot {cs ds : List Char} (h : '.' ∉ cs) :
    (cs ++ '.' :: ds).takeWhile (· ≠ '.') = cs := by
  induction cs with
  | nil => simp
  | cons c cs ih =>
      rw [List.mem_cons, not_or] at h
      have hc : c ≠ '.' := fun heq => h.1 heq.symm
      rw [List.cons_append, List.takeWhile_cons, if_pos (by simpa using hc), ih h.2]

/-- **A key starts with an identifier and a dot exactly when it is a key of that identifier.** -/
theorem sep_prefix_snKey {pfx pfx' : String} (h : DotFree pfx') {sn : ℕ} (hsn : sn < u64Bound) :
    (pfx ++ sep).toList <+: (snKey pfx' sn).toList ↔ pfx = pfx' := by
  rw [toList_snKey]
  simp only [sep, String.toList_append]
  constructor
  · intro hpre
    obtain ⟨rest, hrest⟩ := hpre
    have hlist : pfx.toList ++ '.' :: rest =
        pfx'.toList ++ '.' :: (zeroPad 32 (hexLower sn)).toList := by
      rw [← hrest]
      simp
    have hpfx : DotFree pfx := by
      intro hmem
      -- a dot in the identifier and the one after it would be two in the key
      have hcount := congrArg (List.count '.') hlist
      have hone : 0 < List.count '.' pfx.toList := List.count_pos_iff.2 hmem
      rw [List.count_append, List.count_append, List.count_cons_self, List.count_cons_self,
        List.count_eq_zero_of_not_mem h, List.count_eq_zero_of_not_mem (dotFree_zeroPad hsn)]
        at hcount
      omega
    have htake := congrArg (List.takeWhile (· ≠ '.')) hlist
    rw [takeWhile_dot hpfx, takeWhile_dot h] at htake
    exact String.toList_injective htake
  · intro heq
    subst heq
    refine ⟨(zeroPad 32 (hexLower sn)).toList, ?_⟩
    simp

namespace Tables

/-! ### The log, as it is read -/

/-- Every key of the table of logs is made of an identifier without a dot and a number. -/
def Keyed (t : Tables) : Prop :=
  ∀ key said, t.kels.get key = some said → ∃ pfx sn, key = snKey pfx sn ∧ DotFree pfx ∧
    sn < u64Bound

variable {t : Tables} {pfx : String}

/-- What the scan makes of an entry. -/
def kelEntry (pfx : String) (e : String × String) : Option (ℕ × String) :=
  if (pfx ++ sep).toList <+: e.1.toList then (splitSn e.1).map fun sn => (sn, e.2) else none

theorem kel_eq (t : Tables) (pfx : String) :
    t.kel pfx = (t.kels.entries.filterMap (kelEntry pfx)).insertionSort fun a b => a.1 ≤ b.1 := rfl

theorem kelEntry_snKey {pfx' : String} (h : DotFree pfx') {sn : ℕ} (hsn : sn < u64Bound)
    (said : String) :
    kelEntry pfx (snKey pfx' sn, said) = if pfx = pfx' then some (sn, said) else none := by
  unfold kelEntry
  simp only [sep_prefix_snKey h hsn, splitSn_snKey h hsn, Option.map_some]

/-- An entry of the log is an entry of the table, at the key of its number. -/
theorem mem_kel_iff (ht : t.Keyed) {sn : ℕ} {said : String} :
    (sn, said) ∈ t.kel pfx ↔ sn < u64Bound ∧ DotFree pfx ∧
      t.kels.get (snKey pfx sn) = some said := by
  rw [kel_eq, List.mem_insertionSort, List.mem_filterMap]
  constructor
  · intro h
    obtain ⟨⟨key, said'⟩, hmem, hentry⟩ := h
    have hget := Table.mem_entries.1 hmem
    obtain ⟨pfx', sn', rfl, hdot, hsn⟩ := ht key said' hget
    rw [kelEntry_snKey hdot hsn] at hentry
    split at hentry
    · rename_i heq
      obtain ⟨rfl, rfl⟩ := Prod.mk.inj (Option.some_inj.1 hentry)
      subst heq
      exact ⟨hsn, hdot, hget⟩
    · cases hentry
  · intro h
    obtain ⟨hsn, hdot, hget⟩ := h
    refine ⟨(snKey pfx sn, said), Table.mem_entries.2 hget, ?_⟩
    rw [kelEntry_snKey hdot hsn, if_pos rfl]

/-- No sequence number is repeated. -/
theorem kel_nodup (ht : t.Keyed) : ((t.kel pfx).map Prod.fst).Nodup := by
  have hperm : ((t.kel pfx).map Prod.fst).Perm
      ((t.kels.entries.filterMap (kelEntry pfx)).map Prod.fst) :=
    (List.perm_insertionSort _ _).map _
  rw [hperm.nodup_iff, List.Nodup, List.pairwise_map, List.pairwise_filterMap]
  refine (List.Pairwise.and_mem.1 t.kels.sorted).imp ?_
  intro a b h
  obtain ⟨ha, hb, hlt⟩ := h
  intro x hx y hy hxy
  obtain ⟨key, said⟩ := a
  obtain ⟨key', said'⟩ := b
  obtain ⟨p, n, rfl, hdot, hn⟩ := ht key said (Table.mem_entries.1 ha)
  obtain ⟨p', n', rfl, hdot', hn'⟩ := ht key' said' (Table.mem_entries.1 hb)
  rw [kelEntry_snKey hdot hn] at hx
  rw [kelEntry_snKey hdot' hn'] at hy
  split at hx
  · split at hy
    · rename_i heq heq'
      rw [← Option.some_inj.1 hx, ← Option.some_inj.1 hy] at hxy
      simp only at hxy
      rw [← heq, ← heq', hxy] at hlt
      exact lt_irrefl _ hlt
    · cases hy
  · cases hx

/-- **The sequence numbers of a log, in order**, when its keys are those below `n`. -/
theorem kel_numbers (ht : t.Keyed) {n : ℕ}
    (h : ∀ sn, (sn < u64Bound ∧ DotFree pfx ∧ (t.kels.get (snKey pfx sn)).isSome) ↔ sn < n) :
    (t.kel pfx).map Prod.fst = List.range n := by
  have hmem : ∀ sn, sn ∈ (t.kel pfx).map Prod.fst ↔ sn ∈ List.range n := by
    intro sn
    rw [List.mem_range, ← h sn, List.mem_map]
    constructor
    · intro hsn
      obtain ⟨⟨sn', said⟩, hentry, rfl⟩ := hsn
      obtain ⟨hlt, hdot, hget⟩ := (mem_kel_iff ht).1 hentry
      exact ⟨hlt, hdot, Option.isSome_of_eq_some hget⟩
    · intro hsn
      obtain ⟨hlt, hdot, hsome⟩ := hsn
      obtain ⟨said, hget⟩ := Option.isSome_iff_exists.1 hsome
      exact ⟨(sn, said), (mem_kel_iff ht).2 ⟨hlt, hdot, hget⟩, rfl⟩
  have hperm := (List.perm_ext_iff_of_nodup (kel_nodup ht) List.nodup_range).2 hmem
  have hsorted : ((t.kel pfx).map Prod.fst).Pairwise (· ≤ ·) := by
    rw [List.pairwise_map, kel_eq]
    exact List.pairwise_insertionSort _ _
  exact hperm.eq_of_pairwise' hsorted List.pairwise_le_range

/-- An entry of another identifier is not seen. -/
theorem kel_put_of_ne {t' : Tables} {pfx' : String} (hdot : DotFree pfx') {sn : ℕ}
    (hsn : sn < u64Bound) {said : String} (h : t'.kels = t.kels.put (snKey pfx' sn) said)
    (hne : pfx ≠ pfx') : t'.kel pfx = t.kel pfx := by
  rw [kel_eq, kel_eq, h]
  have hskip : ∀ said, kelEntry pfx (snKey pfx' sn, said) = none := by
    intro said
    rw [kelEntry_snKey hdot hsn, if_neg hne]
  unfold Table.put
  rw [Table.filterMap_insert hskip]

end Tables

end Keri
