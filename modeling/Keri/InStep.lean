/-
**Memory and storage in step.**

A receiver in direct mode keeps a verifier for each identifier in memory, and the logs in the store.
A message writes both or neither, so after every message they tell the same story: an identifier has
a verifier exactly when it has a log, and the log is numbered up to the verifier's sequence number
and ends with its last digest.

* `Keri.maxMapSize`, `Keri.Tables.FitsMap` — the map that the store is opened with, which bounds how
  many log entries there can be;
* `Keri.InStep` — verifiers and logs tell the same story;
* `Keri.stepDirect_cases` — **what a message can do to the verifiers and the logs**;
* `Keri.Synced.inStep`, `Keri.in_step_runDirect` — **memory and storage are in step after every
  message**.
-/

import Keri.StoredBodies
import Keri.Tracking
import Keri.FirstSeen

set_option relaxedAutoImplicit false
set_option autoImplicit false

namespace Keri

open Outcome Machine

/-! ### The capacity of the store -/

/-- The size of the map that the store is opened with, in bytes. -/
def maxMapSize : ℕ := 1024 * 1024 * 1024

/-- The log entries fit the map: a write that does not fit fails. -/
def Tables.FitsMap (t : Tables) : Prop := t.kels.entries.length ≤ maxMapSize

/-! ### In step -/

/-- The verifiers and the logs of a receiver tell the same story. -/
structure InStep (n : Node) : Prop where
  /-- An identifier has a verifier exactly when it has a log. -/
  known : ∀ pfx, (n.kevers.get pfx).isSome ↔ n.store.tables.kel pfx ≠ []
  /-- The log is numbered from zero to the verifier's sequence number, without repetition. -/
  numbers : ∀ pfx k, n.kevers.get pfx = some k →
    (n.store.tables.kel pfx).map Prod.fst = List.range (k.state.sn + 1)
  /-- The last entry is the verifier's last digest. -/
  last : ∀ pfx k, n.kevers.get pfx = some k →
    (k.state.sn, k.state.lastEventDigest) ∈ n.store.tables.kel pfx
  /-- What has been seen first is what is in the logs. -/
  firstSeen : n.store.tables.fels = n.store.tables.kels

variable {X : Externals} {disk : Disk}

/-- A log that goes up to a number has an entry for each number. -/
theorem Tracks.lt_length {log : Table String String} {pfx : String} {k : Kever}
    (h : Tracks X log pfx k) : k.state.sn < log.entries.length := by
  have hinj : Set.InjOn (snKey pfx) (Finset.range (k.state.sn + 1)) := by
    intro sn hsn sn' hsn' heq
    have hlt := h.sn_lt
    simp only [Finset.coe_range, Set.mem_Iio] at hsn hsn'
    exact (snKey_inj (by omega) (by omega) heq).2
  have hcard := Finset.card_image_of_injOn hinj
  have hle : ((Finset.range (k.state.sn + 1)).image (snKey pfx)).card ≤ log.entries.length := by
    refine Table.card_le_length fun key hkey => ?_
    obtain ⟨sn, hsn, rfl⟩ := Finset.mem_image.1 hkey
    rw [Finset.mem_range] at hsn
    exact h.seen sn (by omega)
  rw [hcard, Finset.card_range] at hle
  omega

/-- The keys of a log that is in step with verifiers are of identifiers without a dot. -/
theorem Synced.keyed (hX : NoSeparator X) {kevers : Table String Kever} {t : Tables}
    (h : Synced X kevers t.kels) : t.Keyed := by
  intro key said hkey
  obtain ⟨pfx, k, sn, hk, rfl, hle⟩ := h.known key said hkey
  have htracks := h.tracks pfx k hk
  exact ⟨pfx, sn, rfl, hX pfx htracks.cesr, lt_of_le_of_lt hle htracks.sn_lt⟩

/-- The numbers at which an identifier has an entry are those up to its verifier's. -/
theorem Synced.seen_iff {kevers : Table String Kever} {log : Table String String}
    (h : Synced X kevers log) {pfx : String} {k : Kever} (hk : kevers.get pfx = some k) {sn : ℕ}
    (hsn : sn < u64Bound) : (log.get (snKey pfx sn)).isSome ↔ sn ≤ k.state.sn := by
  constructor
  · intro hsome
    obtain ⟨said, hget⟩ := Option.isSome_iff_exists.1 hsome
    obtain ⟨pfx', k', sn', hk', hkey, hle⟩ := h.known _ said hget
    have hlt' := (h.tracks pfx' k' hk').sn_lt
    obtain ⟨rfl, rfl⟩ := snKey_inj hsn (by omega) hkey
    obtain rfl := Option.some_inj.1 (hk.symm.trans hk')
    exact hle
  · intro hle
    exact (h.tracks pfx k hk).seen sn hle

/-- **Verifiers and a log in step**, as the log is read. -/
theorem Synced.inStep (hX : NoSeparator X) {n : Node} (h : Synced X n.kevers n.store.tables.kels)
    (hfels : n.store.tables.fels = n.store.tables.kels) : InStep n := by
  have hkeyed := h.keyed hX
  have hnumbers : ∀ pfx k, n.kevers.get pfx = some k →
      (n.store.tables.kel pfx).map Prod.fst = List.range (k.state.sn + 1) := by
    intro pfx k hk
    have htracks := h.tracks pfx k hk
    refine Tables.kel_numbers hkeyed fun sn => ?_
    constructor
    · intro hsn
      have hle := (h.seen_iff hk hsn.1).1 hsn.2.2
      omega
    · intro hsn
      have hlt : sn < u64Bound := by
        have := htracks.sn_lt
        omega
      exact ⟨hlt, hX pfx htracks.cesr, (h.seen_iff hk hlt).2 (by omega)⟩
  refine ⟨fun pfx => ?_, hnumbers, fun pfx k hk => ?_, hfels⟩
  · constructor
    · intro hsome
      obtain ⟨k, hk⟩ := Option.isSome_iff_exists.1 hsome
      have hlen := congrArg List.length (hnumbers pfx k hk)
      rw [List.length_map, List.length_range] at hlen
      exact List.ne_nil_of_length_pos (by omega)
    · intro hne
      obtain ⟨⟨sn, said⟩, hmem⟩ := List.exists_mem_of_ne_nil _ hne
      obtain ⟨hsn, -, hget⟩ := (Tables.mem_kel_iff hkeyed).1 hmem
      obtain ⟨pfx', k, sn', hk, hkey, hle⟩ := h.known _ said hget
      have hlt := (h.tracks pfx' k hk).sn_lt
      obtain ⟨rfl, -⟩ := snKey_inj hsn (by omega) hkey
      exact Option.isSome_of_eq_some hk
  · have htracks := h.tracks pfx k hk
    exact (Tables.mem_kel_iff hkeyed).2 ⟨htracks.sn_lt, hX pfx htracks.cesr, htracks.last⟩

/-! ### Runs -/

variable (X disk) in
/-- **What a message can do to the verifiers and the logs.** -/
theorem stepDirect_cases (n : Node) (data : Bytes) :
    Quiet n (stepDirect X disk n data) ∨
      ∃ parsed r sigs k, AcceptedBy X (n.kevers.get r.pfx) parsed r sigs k ∧
        stepDirect X disk n data = n.logged r parsed.serder.raw sigs k := by
  cases hparse : parseNext X data with
  | error e =>
      rw [stepDirect_of_error hparse]
      exact Or.inl (Quiet.refl n)
  | ok p =>
      rw [stepDirect_of_parse hparse]
      rcases Judge.processParsed_cases X disk n p.1 with hquiet | ⟨r, sigs, k, hlogs, hafter⟩
      · exact Or.inl hquiet
      · exact Or.inr ⟨p.1, r, sigs, k, hlogs.1, hafter⟩

/-- Log entries are never removed. -/
theorem length_kels_stepDirect_le (n : Node) (data : Bytes) :
    n.store.tables.kels.entries.length ≤
      (stepDirect X disk n data).store.tables.kels.entries.length := by
  rcases stepDirect_cases X disk n data with hquiet | ⟨parsed, r, sigs, k, -, hafter⟩
  · rw [hquiet.kels]
  · rw [hafter]
    unfold Node.logged
    rw [Tables.putLogged_kels]
    exact Table.length_put_le _ _ _

/-- One message keeps the verifiers and both logs in step. -/
theorem synced_stepDirect {n : Node} (data : Bytes)
    (h : Synced X n.kevers n.store.tables.kels ∧ n.store.tables.fels = n.store.tables.kels)
    (hfits : n.store.tables.FitsMap) :
    Synced X (stepDirect X disk n data).kevers (stepDirect X disk n data).store.tables.kels ∧
      (stepDirect X disk n data).store.tables.fels =
        (stepDirect X disk n data).store.tables.kels := by
  obtain ⟨hsync, hfels⟩ := h
  rcases stepDirect_cases X disk n data with hquiet | ⟨parsed, r, sigs, k, hacc, hafter⟩
  · rw [hquiet.kevers, hquiet.kels, hquiet.fels]
    exact ⟨hsync, hfels⟩
  · have hnext : ∀ k₀, n.kevers.get r.pfx = some k₀ →
        u64Succ k₀.state.sn = k₀.state.sn + 1 := by
      -- the log of the identifier fits the map, so its numbers fit `u64`
      intro k₀ hk₀
      have hlt := (hsync.tracks _ _ hk₀).lt_length
      have hmap : maxMapSize < u64Bound := by decide
      unfold Tables.FitsMap at hfits
      exact u64Succ_of_lt (by omega)
    rw [hafter]
    unfold Node.logged
    simp only [Tables.putLogged_kels, Tables.putLogged_fels]
    exact ⟨hsync.put hacc hnext, by rw [hfels]⟩

/-- **Memory and storage are in step after every message**, whatever came of the messages and
whichever calls of the store failed. -/
theorem in_step_runDirect (hX : NoSeparator X) (msgs : List Bytes)
    (hfits : (runDirect X disk msgs).store.tables.FitsMap) : InStep (runDirect X disk msgs) := by
  have hsync : Synced X (runDirect X disk msgs).kevers (runDirect X disk msgs).store.tables.kels ∧
      (runDirect X disk msgs).store.tables.fels = (runDirect X disk msgs).store.tables.kels := by
    -- the entries fit all along, because none is ever removed
    induction msgs using List.reverseRecOn with
    | nil => exact ⟨synced_empty, rfl⟩
    | append_singleton msgs data ih =>
        rw [runDirect_concat] at hfits ⊢
        have hfits₀ : (runDirect X disk msgs).store.tables.FitsMap :=
          le_trans (length_kels_stepDirect_le _ data) hfits
        exact synced_stepDirect data (ih hfits₀) hfits₀
  exact hsync.1.inStep hX hsync.2

theorem in_step_runDirect_toy :
    InStep (runDirect Toy.lib .sound [toyIcpMessage, toyIxnMessage, toyOtherIxn]) := by
  have hX : NoSeparator Toy.lib := noSeparator_toy Toy.checksumDigest
  have hlen : ((runDirect Toy.lib .sound [toyIcpMessage, toyIxnMessage,
      toyOtherIxn]).store.tables.kels.entries.length == 2) = true := by decide +kernel
  refine in_step_runDirect hX _ ?_
  unfold Tables.FitsMap
  rw [eq_of_beq hlen]
  decide

end Keri
