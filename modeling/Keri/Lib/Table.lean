/-
**Ordered tables.**

A table of an embedded key-value store is a finite map whose iteration order is the order of its
keys.  It is kept as the list of its entries, strictly increasing in the key, and the invariant is
a field: a table with a repeated or misplaced key cannot be built.

* `Table.get`, `Table.put`, `Table.empty` — lookup, upsert and the empty table;
* `Table.get_put_self`, `Table.get_put_of_ne` — **an upsert changes its own key and no other**;
* `Table.mem_entries`, `Table.ext_get` — the entries, and the table, are what is looked up;
* `Table.put_comm` — upserts of two keys commute;
* `Table.card_le_length` — the number of entries bounds that of the keys;
* `Table.erase`, `Table.filterMapValues` — removal of a key, and of keys by their values;
* `Table.total`, `Table.total_put` — **the sizes of all values together**, and what an upsert does
  to it.
-/

import Keri.Lib.Outcome

set_option relaxedAutoImplicit false
set_option autoImplicit false

universe u v

/-- A finite map with its entries in key order. -/
structure Table (κ : Type u) (ν : Type v) [LinearOrder κ] where
  /-- The entries, in increasing order of the key. -/
  entries : List (κ × ν)
  /-- No key is repeated or out of place. -/
  sorted : entries.Pairwise fun a b => a.1 < b.1

namespace Table

variable {κ : Type u} {ν : Type v} [LinearOrder κ]

/-! ### Lookup -/

/-- The value at `k` in a list of entries. -/
def lookup (k : κ) : List (κ × ν) → Option ν
  | [] => none
  | (k', v) :: es => if k = k' then some v else lookup k es

/-- The value at `k`. -/
def get (t : Table κ ν) (k : κ) : Option ν := lookup k t.entries

/-- The table with no entries. -/
def empty : Table κ ν := ⟨[], List.Pairwise.nil⟩

@[simp] theorem get_empty (k : κ) : (empty : Table κ ν).get k = none := rfl

theorem lookup_eq_none {k : κ} {es : List (κ × ν)} (h : ∀ e ∈ es, e.1 ≠ k) :
    lookup k es = none := by
  induction es with
  | nil => rfl
  | cons e es ih =>
      have hne : k ≠ e.1 := fun hk => h e (by simp) hk.symm
      simp [lookup, hne, ih fun e' he' => h e' (by simp [he'])]

theorem lookup_of_mem {e : κ × ν} {es : List (κ × ν)} (h : es.Pairwise fun a b => a.1 < b.1)
    (he : e ∈ es) : lookup e.1 es = some e.2 := by
  induction es with
  | nil => cases he
  | cons e' es ih =>
      obtain ⟨hhead, htail⟩ := List.pairwise_cons.1 h
      rcases List.mem_cons.1 he with heq | he
      · rw [heq, lookup, if_pos rfl]
      · have hne : e.1 ≠ e'.1 := (hhead e he).ne'
        rw [lookup, if_neg hne, ih htail he]

/-- An entry is found at its key. -/
theorem get_of_mem {t : Table κ ν} {e : κ × ν} (h : e ∈ t.entries) : t.get e.1 = some e.2 :=
  lookup_of_mem t.sorted h

/-! ### Upsert -/

/-- Put `v` at `k`, at its place in the order. -/
def insert (k : κ) (v : ν) : List (κ × ν) → List (κ × ν)
  | [] => [(k, v)]
  | (k', v') :: es =>
      if k < k' then (k, v) :: (k', v') :: es
      else if k = k' then (k, v) :: es
      else (k', v') :: insert k v es

theorem mem_insert {k : κ} {v : ν} {es : List (κ × ν)} {e : κ × ν} (h : e ∈ insert k v es) :
    e = (k, v) ∨ e ∈ es := by
  induction es with
  | nil => simpa [insert] using h
  | cons e' es ih =>
      unfold insert at h
      split at h
      · simpa using h
      · split at h
        · rcases List.mem_cons.1 h with rfl | h
          · exact Or.inl rfl
          · exact Or.inr (List.mem_cons_of_mem _ h)
        · rcases List.mem_cons.1 h with rfl | h
          · exact Or.inr (List.mem_cons_self ..)
          · exact (ih h).imp_right (List.mem_cons_of_mem _)

theorem pairwise_insert {k : κ} {v : ν} {es : List (κ × ν)}
    (h : es.Pairwise fun a b => a.1 < b.1) :
    (insert k v es).Pairwise fun a b => a.1 < b.1 := by
  induction es with
  | nil => simp [insert]
  | cons e es ih =>
      obtain ⟨hhead, htail⟩ := List.pairwise_cons.1 h
      unfold insert
      split
      · rename_i hlt
        refine List.pairwise_cons.2 ⟨fun b hb => ?_, h⟩
        rcases List.mem_cons.1 hb with rfl | hb
        · exact hlt
        · exact lt_trans hlt (hhead b hb)
      · rename_i hlt
        split
        · rename_i heq
          subst heq
          exact List.pairwise_cons.2 ⟨hhead, htail⟩
        · rename_i hne
          refine List.pairwise_cons.2 ⟨fun b hb => ?_, ih htail⟩
          rcases mem_insert hb with rfl | hb
          · exact lt_of_le_of_ne (not_lt.1 hlt) (Ne.symm hne)
          · exact hhead b hb

/-- Put `v` at `k`, replacing what was there. -/
def put (t : Table κ ν) (k : κ) (v : ν) : Table κ ν :=
  ⟨insert k v t.entries, pairwise_insert t.sorted⟩

theorem lookup_insert_self (k : κ) (v : ν) (es : List (κ × ν)) :
    lookup k (insert k v es) = some v := by
  induction es with
  | nil => simp [insert, lookup]
  | cons e es ih =>
      unfold insert
      split
      · simp [lookup]
      · split
        · simp [lookup]
        · rename_i hne
          simp [lookup, hne, ih]

theorem lookup_insert_of_ne {k k' : κ} (hne : k' ≠ k) (v : ν) (es : List (κ × ν)) :
    lookup k' (insert k v es) = lookup k' es := by
  induction es with
  | nil => simp [insert, lookup, hne]
  | cons e es ih =>
      unfold insert
      split
      · simp [lookup, hne]
      · split
        · rename_i heq
          subst heq
          simp [lookup, hne]
        · simp [lookup, ih]

@[simp] theorem get_put_self (t : Table κ ν) (k : κ) (v : ν) : (t.put k v).get k = some v :=
  lookup_insert_self k v t.entries

theorem get_put_of_ne (t : Table κ ν) {k k' : κ} (hne : k' ≠ k) (v : ν) :
    (t.put k v).get k' = t.get k' :=
  lookup_insert_of_ne hne v t.entries

theorem get_put (t : Table κ ν) (k k' : κ) (v : ν) :
    (t.put k v).get k' = if k' = k then some v else t.get k' := by
  split
  · rename_i h; rw [h, get_put_self]
  · rename_i h; exact get_put_of_ne t h v

/-- What is looked up is an entry. -/
theorem mem_of_lookup {k : κ} {v : ν} {es : List (κ × ν)} (h : lookup k es = some v) :
    (k, v) ∈ es := by
  induction es with
  | nil => cases h
  | cons e es ih =>
      obtain ⟨k', v'⟩ := e
      unfold lookup at h
      split at h
      · rename_i hk
        obtain rfl := Option.some_inj.1 h
        rw [hk]
        exact List.mem_cons_self
      · exact List.mem_cons_of_mem _ (ih h)

theorem mem_entries {t : Table κ ν} {k : κ} {v : ν} : (k, v) ∈ t.entries ↔ t.get k = some v :=
  ⟨fun h => get_of_mem h, mem_of_lookup⟩

/-- **A table is what is looked up in it.** -/
theorem ext_get {t u : Table κ ν} (h : ∀ k, t.get k = u.get k) : t = u := by
  obtain ⟨es, hes⟩ := t
  obtain ⟨fs, hfs⟩ := u
  have hmem : ∀ e, e ∈ es ↔ e ∈ fs := by
    rintro ⟨k, v⟩
    have ht := mem_entries (t := ⟨es, hes⟩) (k := k) (v := v)
    have hu := mem_entries (t := ⟨fs, hfs⟩) (k := k) (v := v)
    rw [ht, hu, h k]
  have hirrefl : Std.Irrefl fun a b : κ × ν => a.1 < b.1 := ⟨fun a => lt_irrefl a.1⟩
  have hanti : Std.Antisymm fun a b : κ × ν => a.1 < b.1 :=
    ⟨fun a b hab hba => absurd (lt_trans hab hba) (lt_irrefl a.1)⟩
  obtain rfl := hes.eq_of_mem_iff hfs hmem
  rfl

/-- Upserts of two keys commute. -/
theorem put_comm (t : Table κ ν) {k k' : κ} (hne : k ≠ k') (v v' : ν) :
    (t.put k v).put k' v' = (t.put k' v').put k v := by
  refine ext_get fun key => ?_
  simp only [get_put]
  by_cases hk : key = k
  · have hk' : key ≠ k' := hk ▸ hne
    rw [if_neg hk', if_pos hk, if_pos hk]
  · rw [if_neg hk, if_neg hk]

/-- A reading that skips a key does not see an upsert of it. -/
theorem filterMap_insert {β : Type v} {f : κ × ν → Option β} {k : κ} (hf : ∀ v, f (k, v) = none)
    (v : ν) (es : List (κ × ν)) : (insert k v es).filterMap f = es.filterMap f := by
  induction es with
  | nil => simp [insert, hf v]
  | cons e es ih =>
      obtain ⟨k', v'⟩ := e
      unfold insert
      split
      · simp [hf v]
      · split
        · rename_i heq
          subst heq
          simp [hf v, hf v']
        · simp only [List.filterMap_cons, ih]

theorem length_insert_le (k : κ) (v : ν) (es : List (κ × ν)) :
    es.length ≤ (insert k v es).length := by
  induction es with
  | nil => exact Nat.zero_le _
  | cons e es ih =>
      unfold insert
      split
      · simp
      · split
        · simp
        · simpa using ih

/-- An upsert does not make a table smaller. -/
theorem length_put_le (t : Table κ ν) (k : κ) (v : ν) :
    t.entries.length ≤ (t.put k v).entries.length :=
  length_insert_le k v t.entries

/-- There are at least as many entries as keys that are present. -/
theorem card_le_length {t : Table κ ν} {ks : Finset κ} (h : ∀ k ∈ ks, (t.get k).isSome) :
    ks.card ≤ t.entries.length := by
  have hsub : ks ⊆ (t.entries.map Prod.fst).toFinset := by
    intro k hk
    obtain ⟨v, hv⟩ := Option.isSome_iff_exists.1 (h k hk)
    rw [List.mem_toFinset, List.mem_map]
    exact ⟨(k, v), mem_entries.2 hv, rfl⟩
  have hcard := (Finset.card_le_card hsub).trans (List.toFinset_card_le _)
  rwa [List.length_map] at hcard

/-- A key that is present stays present under upserts. -/
theorem get_put_isSome {t : Table κ ν} {k : κ} (h : (t.get k).isSome) (k' : κ) (v : ν) :
    ((t.put k' v).get k).isSome := by
  rw [get_put]
  split
  · rfl
  · exact h

/-! ### Removal -/

/-- Change the value of each key, or remove the key. -/
def filterMapValues (f : ν → Option ν) (t : Table κ ν) : Table κ ν where
  entries := t.entries.filterMap fun e => (f e.2).map fun v => (e.1, v)
  sorted := by
    refine List.pairwise_filterMap.2 (t.sorted.imp fun {a b} hab a' ha' b' hb' => ?_)
    obtain ⟨v, -, rfl⟩ := Option.map_eq_some_iff.1 ha'
    obtain ⟨w, -, rfl⟩ := Option.map_eq_some_iff.1 hb'
    exact hab

theorem lookup_filterMap (f : ν → Option ν) (k : κ) {es : List (κ × ν)}
    (h : es.Pairwise fun a b => a.1 < b.1) :
    lookup k (es.filterMap fun e => (f e.2).map fun v => (e.1, v)) = (lookup k es).bind f := by
  induction es with
  | nil => rfl
  | cons e es ih =>
      obtain ⟨k', v⟩ := e
      obtain ⟨hhead, htail⟩ := List.pairwise_cons.1 h
      rw [List.filterMap_cons, lookup]
      by_cases hk : k = k'
      · rw [if_pos hk, Option.bind_some]
        cases hf : f v with
        | none =>
            -- the key is gone: what is left of the table is above it
            simp only [Option.map_none]
            rw [ih htail, lookup_eq_none, Option.bind_none]
            intro e' he'
            exact hk ▸ (hhead e' he').ne'
        | some w =>
            simp only [Option.map_some]
            rw [lookup, if_pos hk]
      · rw [if_neg hk]
        cases hf : f v with
        | none => exact ih htail
        | some w =>
            simp only [Option.map_some]
            rw [lookup, if_neg hk, ih htail]

/-- **Each key is changed or removed by its own value.** -/
@[simp] theorem get_filterMapValues (f : ν → Option ν) (t : Table κ ν) (k : κ) :
    (t.filterMapValues f).get k = (t.get k).bind f :=
  lookup_filterMap f k t.sorted

/-- The table without a key. -/
def erase (t : Table κ ν) (k : κ) : Table κ ν where
  entries := t.entries.filter fun e => e.1 ≠ k
  sorted := t.sorted.filter _

theorem lookup_filter_ne (k k' : κ) (es : List (κ × ν)) :
    lookup k' (es.filter fun e => e.1 ≠ k) = if k' = k then none else lookup k' es := by
  induction es with
  | nil => simp [lookup]
  | cons e es ih =>
      obtain ⟨k'', v⟩ := e
      rw [List.filter_cons, lookup]
      by_cases hk : k'' = k
      · subst hk
        simp only [ne_eq, not_true_eq_false, decide_false, Bool.false_eq_true, if_false, ih]
        by_cases hk' : k' = k''
        · rw [if_pos hk', if_pos hk']
        · rw [if_neg hk', if_neg hk', if_neg hk']
      · simp only [ne_eq, hk, not_false_eq_true, decide_true, if_true, lookup, ih]
        by_cases hk' : k' = k''
        · rw [if_pos hk', if_neg (hk' ▸ hk), if_pos hk']
        · rw [if_neg hk', if_neg hk']

theorem get_erase (t : Table κ ν) (k k' : κ) :
    (t.erase k).get k' = if k' = k then none else t.get k' :=
  lookup_filter_ne k k' t.entries

@[simp] theorem get_erase_self (t : Table κ ν) (k : κ) : (t.erase k).get k = none := by
  rw [get_erase, if_pos rfl]

/-! ### Sizes -/

/-- The sizes of all values together. -/
def total (size : ν → ℕ) (t : Table κ ν) : ℕ := (t.entries.map fun e => size e.2).sum

theorem length_eq_total (t : Table κ ν) : t.entries.length = t.total fun _ => 1 := by
  simp [total]

@[simp] theorem total_empty (size : ν → ℕ) : (empty : Table κ ν).total size = 0 := rfl

theorem sum_insert (size : ν → ℕ) (k : κ) (v : ν) {es : List (κ × ν)}
    (h : es.Pairwise fun a b => a.1 < b.1) :
    ((insert k v es).map fun e => size e.2).sum + ((lookup k es).map size).getD 0 =
      (es.map fun e => size e.2).sum + size v := by
  induction es with
  | nil => simp [insert, lookup]
  | cons e es ih =>
      obtain ⟨k', v'⟩ := e
      obtain ⟨hhead, htail⟩ := List.pairwise_cons.1 h
      unfold insert
      split
      · rename_i hlt
        have hnone : lookup k ((k', v') :: es) = none := by
          refine lookup_eq_none fun e' he' => ?_
          rcases List.mem_cons.1 he' with rfl | he'
          · exact hlt.ne'
          · exact (hlt.trans (hhead e' he')).ne'
        rw [hnone]
        simp only [List.map_cons, List.sum_cons, Option.map_none, Option.getD_none]
        omega
      · split
        · rename_i heq
          rw [lookup, if_pos heq]
          simp only [List.map_cons, List.sum_cons, Option.map_some, Option.getD_some]
          omega
        · rename_i hne
          rw [lookup, if_neg hne]
          have hrest := ih htail
          simp only [List.map_cons, List.sum_cons]
          omega

/-- **An upsert replaces the size of its key.** -/
theorem total_put (size : ν → ℕ) (t : Table κ ν) (k : κ) (v : ν) :
    (t.put k v).total size + ((t.get k).map size).getD 0 = t.total size + size v :=
  sum_insert size k v t.sorted

theorem total_erase_le (size : ν → ℕ) (t : Table κ ν) (k : κ) :
    (t.erase k).total size ≤ t.total size :=
  (List.filter_sublist.map _).sum_le_sum fun _ _ => Nat.zero_le _

omit [LinearOrder κ] in
theorem sum_filterMap_le {size : ν → ℕ} {f : ν → Option ν}
    (h : ∀ v w, f v = some w → size w ≤ size v) (es : List (κ × ν)) :
    ((es.filterMap fun e => (f e.2).map fun v => (e.1, v)).map fun e => size e.2).sum ≤
      (es.map fun e => size e.2).sum := by
  induction es with
  | nil => exact le_refl _
  | cons e es ih =>
      rw [List.filterMap_cons]
      cases hf : f e.2 with
      | none =>
          simp only [Option.map_none, List.map_cons, List.sum_cons]
          omega
      | some w =>
          have hle := h e.2 w hf
          simp only [Option.map_some, List.map_cons, List.sum_cons]
          omega

theorem total_filterMapValues_le {size : ν → ℕ} {f : ν → Option ν}
    (h : ∀ v w, f v = some w → size w ≤ size v) (t : Table κ ν) :
    (t.filterMapValues f).total size ≤ t.total size :=
  sum_filterMap_le h t.entries

end Table
