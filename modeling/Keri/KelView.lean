/-
**The event log as a map.**

A log is kept in a table of text keys, each an identifier, a dot and a padded number.  Three calls
write to it, and three read it back: the whole log of an identifier, one entry, and the latest
number.  Together they are a map from identifiers and numbers to SAIDs.

* `Keri.KelEntry`, `Keri.KelCall` — an entry, and a call that writes one;
* `Keri.lastSaid` — the abstract map: what has been written last;
* `Keri.Mirrors` — the table holds what has been written last, and nothing else;
* `Keri.pairwise_kel`, `Keri.latest_eq_some` — a log is strictly increasing, and its last number is
  the greatest;
* `Keri.kel_view` — **after any run of calls, some of which may fail, the log of an identifier is
  what has been written last for it**, entry by entry and as a whole.
-/

import Keri.EventLogs
import Keri.Lib.Log

set_option relaxedAutoImplicit false
set_option autoImplicit false

namespace Keri

open Outcome Machine

/-! ### Calls -/

/-- An entry of a log. -/
structure KelEntry where
  pfx : String
  sn : ℕ
  said : String
  dotFree : DotFree pfx
  fits : sn < u64Bound

namespace Store

variable (disk : Disk)

def appendKel (pfx : String) (sn : ℕ) (said : String) : EStateM DbError Store Unit :=
  write disk fun t => { t with kels := t.kels.put (snKey pfx sn) said }

def getKelSaid (pfx : String) (sn : ℕ) : EStateM DbError Store (Option String) :=
  read disk fun t => t.kels.get (snKey pfx sn)

def getKel (pfx : String) : EStateM DbError Store (List (ℕ × String)) :=
  read disk fun t => t.kel pfx

/-- The number of the last entry of a log. -/
def latestSn (pfx : String) : EStateM DbError Store (Option ℕ) := do
  let kel ← getKel disk pfx
  pure (kel.getLast?.map Prod.fst)

end Store

/-- A call that writes an entry. -/
inductive KelCall where
  | appendKel (e : KelEntry)
  | storeEvent (e : KelEntry) (event : Bytes) (sigs : Option Bytes)
  | storeEventWithHab (e : KelEntry) (event : Bytes) (sigs : Option Bytes) (habName : String)
      (habData : Bytes)

namespace KelCall

def entry : KelCall → KelEntry
  | appendKel e => e
  | storeEvent e _ _ => e
  | storeEventWithHab e _ _ _ _ => e

def perform (disk : Disk) : KelCall → EStateM DbError Store Unit
  | appendKel e => Store.appendKel disk e.pfx e.sn e.said
  | storeEvent e event sigs => Store.storeEvent disk e.said event e.pfx e.sn sigs
  | storeEventWithHab e event sigs habName habData =>
      Store.storeEventWithHab disk e.said event e.pfx e.sn sigs habName habData

/-- A call that succeeds puts its entry into the table of logs. -/
theorem perform_ok {disk : Disk} {c : KelCall} {s s' : Store} {u : Unit}
    (h : c.perform disk s = .ok u s') :
    s'.tables.kels = s.tables.kels.put (snKey c.entry.pfx c.entry.sn) c.entry.said := by
  cases c with
  | appendKel e =>
      rw [perform, Store.appendKel] at h
      obtain ⟨-, rfl⟩ := Store.write_ok.1 h
      rfl
  | storeEvent e event sigs =>
      rw [perform, Store.storeEvent] at h
      obtain ⟨-, rfl⟩ := Store.write_ok.1 h
      exact Tables.putLogged_kels
  | storeEventWithHab e event sigs habName habData =>
      rw [perform, Store.storeEventWithHab] at h
      obtain ⟨-, rfl⟩ := Store.write_ok.1 h
      exact Tables.putLogged_kels

/-- A call that fails leaves the tables as they are. -/
theorem perform_error {disk : Disk} {c : KelCall} {s s' : Store} {e : DbError}
    (h : c.perform disk s = .error e s') : s'.tables = s.tables := by
  cases c with
  | appendKel e' =>
      rw [perform, Store.appendKel] at h
      rw [(Store.write_error.1 h).2]
  | storeEvent e' event sigs =>
      rw [perform, Store.storeEvent] at h
      rw [(Store.write_error.1 h).2]
  | storeEventWithHab e' event sigs habName habData =>
      rw [perform, Store.storeEventWithHab] at h
      rw [(Store.write_error.1 h).2]

end KelCall

/-! ### The abstract map -/

/-- The SAID of an entry for this number of this identifier. -/
def KelEntry.saidAt (pfx : String) (sn : ℕ) (e : KelEntry) : Option String :=
  if e.pfx = pfx ∧ e.sn = sn then some e.said else none

/-- What has been written last for a number of an identifier. -/
def lastSaid (entries : List KelEntry) (pfx : String) (sn : ℕ) : Option String :=
  Log.latest (KelEntry.saidAt pfx sn) entries

theorem lastSaid_concat (entries : List KelEntry) (e : KelEntry) (pfx : String) (sn : ℕ) :
    lastSaid (entries ++ [e]) pfx sn =
      if e.pfx = pfx ∧ e.sn = sn then some e.said else lastSaid entries pfx sn := by
  split
  · rename_i h
    have hsaid : e.saidAt pfx sn = some e.said := if_pos h
    exact Log.latest_concat_some hsaid entries
  · rename_i h
    have hsaid : e.saidAt pfx sn = none := if_neg h
    exact Log.latest_concat_none hsaid entries

/-- Only numbers that fit are written. -/
theorem lastSaid_fits {entries : List KelEntry} {pfx : String} {sn : ℕ}
    (h : (lastSaid entries pfx sn).isSome) : sn < u64Bound := by
  induction entries using List.reverseRecOn with
  | nil => cases h
  | append_singleton entries e ih =>
      rw [lastSaid_concat] at h
      split at h
      · rename_i he
        exact he.2 ▸ e.fits
      · exact ih h

/-- A store, with the entries that have been written to it. -/
structure Written where
  store : Store
  entries : List KelEntry

/-- A call writes its entry if it succeeds. -/
def Written.step (disk : Disk) (w : Written) (c : KelCall) : Written :=
  match c.perform disk w.store with
  | .ok _ s => ⟨s, w.entries ++ [c.entry]⟩
  | .error _ s => ⟨s, w.entries⟩

/-- What a run of calls makes of an empty store. -/
def Written.after (disk : Disk) (calls : List KelCall) : Written :=
  run (Written.step disk) ⟨.empty, []⟩ calls

/-! ### The table mirrors the map -/

/-- The table of logs holds what has been written last, and nothing else. -/
structure Mirrors (t : Tables) (entries : List KelEntry) : Prop where
  keyed : t.Keyed
  said : ∀ pfx sn, sn < u64Bound → t.kels.get (snKey pfx sn) = lastSaid entries pfx sn

theorem Mirrors.empty : Mirrors .empty [] := by
  constructor
  · intro key said h
    cases h
  · intro pfx sn _
    rfl

theorem Mirrors.put {t t' : Tables} {entries : List KelEntry} (h : Mirrors t entries)
    {e : KelEntry} (hput : t'.kels = t.kels.put (snKey e.pfx e.sn) e.said) :
    Mirrors t' (entries ++ [e]) := by
  constructor
  · intro key said hget
    rw [hput, Table.get_put] at hget
    split at hget
    · rename_i hkey
      exact ⟨e.pfx, e.sn, hkey, e.dotFree, e.fits⟩
    · exact h.keyed key said hget
  · intro pfx sn hsn
    rw [hput, Table.get_put, lastSaid_concat, h.said pfx sn hsn]
    by_cases hkey : e.pfx = pfx ∧ e.sn = sn
    · rw [if_pos hkey, if_pos (by rw [hkey.1, hkey.2])]
    · rw [if_neg hkey, if_neg]
      intro heq
      obtain ⟨hpfx, hsn'⟩ := snKey_inj hsn e.fits heq
      exact hkey ⟨hpfx.symm, hsn'.symm⟩

theorem Mirrors.step {disk : Disk} {w : Written} (h : Mirrors w.store.tables w.entries)
    (c : KelCall) : Mirrors (w.step disk c).store.tables (w.step disk c).entries := by
  unfold Written.step
  cases hc : c.perform disk w.store with
  | ok u s => exact h.put (KelCall.perform_ok hc)
  | error e s =>
      simp only
      rw [KelCall.perform_error hc]
      exact h

theorem Mirrors.after (disk : Disk) (calls : List KelCall) :
    Mirrors (Written.after disk calls).store.tables (Written.after disk calls).entries :=
  run_inv (P := fun w : Written => Mirrors w.store.tables w.entries) calls Mirrors.empty
    fun _ c hw => hw.step c

/-! ### Reading the map -/

/-- A log is strictly increasing. -/
theorem pairwise_kel {t : Tables} (ht : t.Keyed) (pfx : String) :
    (t.kel pfx).Pairwise fun a b => a.1 < b.1 := by
  have hsorted : (t.kel pfx).Pairwise fun a b => a.1 ≤ b.1 := by
    rw [Tables.kel_eq]
    exact List.pairwise_insertionSort _ _
  have hne : (t.kel pfx).Pairwise fun a b => a.1 ≠ b.1 :=
    List.pairwise_map.1 (Tables.kel_nodup ht)
  exact (hsorted.and hne).imp fun h => lt_of_le_of_ne h.1 h.2

/-- The last number of an increasing list is the greatest one. -/
theorem latest_eq_some {α : Type} {l : List (ℕ × α)} (h : l.Pairwise fun a b => a.1 < b.1)
    (m : ℕ) : l.getLast?.map Prod.fst = some m ↔ IsGreatest {n | ∃ a, (n, a) ∈ l} m := by
  rcases List.eq_nil_or_concat l with rfl | ⟨init, ⟨last, a⟩, rfl⟩
  · constructor
    · intro hnone
      cases hnone
    · rintro ⟨⟨a, ha⟩, -⟩
      cases ha
  · rw [List.concat_eq_append] at h ⊢
    have hgreatest : IsGreatest {n | ∃ b, (n, b) ∈ init ++ [(last, a)]} last := by
      refine ⟨⟨a, by simp⟩, ?_⟩
      rintro n ⟨b, hb⟩
      rcases List.mem_append.1 hb with hinit | hlast
      · exact ((List.pairwise_append.1 h).2.2 _ hinit _ List.mem_cons_self).le
      · rw [List.mem_singleton] at hlast
        exact (congrArg Prod.fst hlast).le
    rw [List.getLast?_concat, Option.map_some, Option.some_inj]
    exact ⟨fun heq => heq ▸ hgreatest, fun hm => hgreatest.unique hm⟩

/-- The entries of a log are what has been written last. -/
theorem Mirrors.mem_kel {t : Tables} {entries : List KelEntry} (h : Mirrors t entries)
    {pfx : String} (hpfx : DotFree pfx) (sn : ℕ) (said : String) :
    (sn, said) ∈ t.kel pfx ↔ lastSaid entries pfx sn = some said := by
  rw [Tables.mem_kel_iff h.keyed]
  constructor
  · rintro ⟨hsn, -, hget⟩
    rw [← h.said pfx sn hsn, hget]
  · intro hlast
    have hsn : sn < u64Bound := lastSaid_fits (Option.isSome_of_eq_some hlast)
    exact ⟨hsn, hpfx, (h.said pfx sn hsn).trans hlast⟩

/-- **The stored log is an exact view of what has been written.**  After any run of calls, some of
which may fail: a log that is read is strictly increasing and has, for each number, what has been
written last for it; one entry and the latest number agree with it. -/
theorem kel_view (disk : Disk) (calls : List KelCall) (pfx : String) (hpfx : DotFree pfx) :
    (∀ kel s', Store.getKel disk pfx (Written.after disk calls).store = .ok kel s' →
      (kel.Pairwise fun a b => a.1 < b.1) ∧
      ∀ sn said, (sn, said) ∈ kel ↔
        lastSaid (Written.after disk calls).entries pfx sn = some said) ∧
    (∀ sn, sn < u64Bound → ∀ said s',
      Store.getKelSaid disk pfx sn (Written.after disk calls).store = .ok said s' →
        said = lastSaid (Written.after disk calls).entries pfx sn) ∧
    ∀ latest s', Store.latestSn disk pfx (Written.after disk calls).store = .ok latest s' →
      (latest = none ↔ ∀ sn, lastSaid (Written.after disk calls).entries pfx sn = none) ∧
      ∀ m, latest = some m ↔
        IsGreatest {sn | (lastSaid (Written.after disk calls).entries pfx sn).isSome} m := by
  have hmirrors := Mirrors.after disk calls
  generalize Written.after disk calls = w at hmirrors ⊢
  have hsorted := pairwise_kel hmirrors.keyed pfx
  have hmem := hmirrors.mem_kel hpfx
  have hnumbers : {sn | ∃ said, (sn, said) ∈ w.store.tables.kel pfx} =
      {sn | (lastSaid w.entries pfx sn).isSome} := by
    ext sn
    simp only [Set.mem_ofPred_eq, hmem, Option.isSome_iff_exists]
  refine ⟨?_, ?_, ?_⟩
  · intro kel s' h
    obtain ⟨-, rfl, -⟩ := Store.read_ok.1 h
    exact ⟨hsorted, hmem⟩
  · intro sn hsn said s' h
    obtain ⟨-, rfl, -⟩ := Store.read_ok.1 h
    exact hmirrors.said pfx sn hsn
  · intro latest s' h
    obtain ⟨kel, s'', hkel, hlatest⟩ := bind_run_ok.1 h
    obtain ⟨-, rfl, -⟩ := Store.read_ok.1 hkel
    cases hlatest
    refine ⟨?_, fun m => ?_⟩
    · rw [Option.map_eq_none_iff, List.getLast?_eq_none_iff, List.eq_nil_iff_forall_not_mem]
      constructor
      · intro hnone sn
        refine Option.eq_none_iff_forall_ne_some.2 fun said hsaid => ?_
        exact hnone _ ((hmem sn said).2 hsaid)
      · rintro hnone ⟨sn, said⟩ hentry
        rw [hmem, hnone sn] at hentry
        cases hentry
    · rw [latest_eq_some hsorted, hnumbers]

theorem dotFree_toy : DotFree "A" ∧ DotFree "AB" := by
  unfold DotFree
  decide

/-- Entries of two identifiers of which one starts with the other, one of them written twice. -/
def toyKelCalls : List KelCall :=
  [.appendKel ⟨"A", 16, "x", dotFree_toy.1, by decide⟩,
    .storeEvent ⟨"AB", 1, "w", dotFree_toy.2, by decide⟩ [] none,
    .appendKel ⟨"A", 0, "y", dotFree_toy.1, by decide⟩,
    .appendKel ⟨"A", 16, "z", dotFree_toy.1, by decide⟩]

theorem kel_view_toy : ∃ kel s',
    Store.getKel Disk.sound "A" (Written.after Disk.sound toyKelCalls).store = .ok kel s' ∧
      kel = [(0, "y"), (16, "z")] ∧ kel.Pairwise fun a b => a.1 < b.1 := by
  obtain ⟨kel, s', hkel, hvalue⟩ : ∃ kel s',
      Store.getKel Disk.sound "A" (Written.after Disk.sound toyKelCalls).store = .ok kel s' ∧
        kel = [(0, "y"), (16, "z")] := by
    refine ⟨_, _, rfl, ?_⟩
    decide +kernel
  exact ⟨kel, s', hkel, hvalue,
    ((kel_view Disk.sound toyKelCalls "A" dotFree_toy.1).1 _ _ hkel).1⟩

end Keri
