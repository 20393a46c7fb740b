/-
**The store.**

The store keeps events, logs, signatures, receipts and identifier records in tables, and every call
is one transaction: it is committed as a whole or fails and changes nothing.  Which transactions
fail is not up to the program; it is a parameter, `Keri.Disk`, that is consulted once per call.

* `Keri.snKey`, `Keri.splitSn` — the keys of the logs;
* `Keri.Tables`, `Keri.Store` — what is stored, and how many calls there have been;
* `Keri.Store.putEvent`, `Keri.Store.getEvent`, `Keri.Store.getFirstSeen`,
  `Keri.Store.putReceipts`, `Keri.Store.getReceipts`, `Keri.Store.storeEvent`,
  `Keri.Store.storeEventWithHab` — the calls;
* `Keri.snKey_inj` — **the key of a log entry names its identifier and its number**;
* `Keri.Store.write_ok`, `Keri.Store.write_error` — a write is committed or changes nothing.
-/

import Keri.Errors

set_option relaxedAutoImplicit false
set_option autoImplicit false

namespace Keri

open Outcome

/-! ### Keys -/

/-- Separator between an identifier and what follows it in a key. -/
def sep : String := "."

/-- The key of a log entry. -/
def snKey (pfx : String) (sn : ℕ) : String := pfx ++ sep ++ zeroPad 32 (hexLower sn)

/-- The sequence number of a key: its second part. -/
def splitSn (key : String) : Option ℕ :=
  match key.toList.splitOn '.' with
  | _ :: part :: _ => fromStrRadix 16 u64Bound (String.ofList part)
  | _ => none

/-- **The key of a log entry names its identifier and its number.** -/
theorem snKey_inj {pfx pfx' : String} {sn sn' : ℕ} (hsn : sn < u64Bound) (hsn' : sn' < u64Bound)
    (h : snKey pfx sn = snKey pfx' sn') : pfx = pfx' ∧ sn = sn' := by
  have hfits : u64Bound ≤ 16 ^ 32 := by decide
  have hlen := length_zeroPad 32 (by omega) (hsn.trans_le hfits)
  have hlen' := length_zeroPad 32 (by omega) (hsn'.trans_le hfits)
  have hlist := congrArg String.toList h
  simp only [snKey, String.toList_append] at hlist
  obtain ⟨hleft, hright⟩ := List.append_inj' hlist (hlen.trans hlen'.symm)
  have hpfx := List.append_cancel_right hleft
  refine ⟨String.toList_injective hpfx, ?_⟩
  have hread := fromStrRadix_zeroPad hsn 32
  rw [String.toList_injective hright, fromStrRadix_zeroPad hsn' 32] at hread
  exact (Option.some_inj.1 hread).symm

/-! ### Tables -/

/-- What is stored. -/
structure Tables where
  /-- Serialized events, by SAID. -/
  evts : Table String Bytes
  /-- The event logs: SAID, by identifier and sequence number. -/
  kels : Table String String
  /-- The first-seen log, by identifier and sequence number. -/
  fels : Table String String
  /-- Controller signatures, by SAID. -/
  sigs : Table String Bytes
  /-- Receipts, by SAID. -/
  rcts : Table String Bytes
  /-- Identifier records, by name. -/
  habs : Table String Bytes

namespace Tables

def empty : Tables :=
  { evts := .empty, kels := .empty, fels := .empty, sigs := .empty, rcts := .empty,
    habs := .empty }

/-- Replace the signatures of an event when there are any. -/
def putSigs (t : Tables) (said : String) : Option Bytes → Tables
  | none => t
  | some sigs => { t with sigs := t.sigs.put said sigs }

/-- An event with its log entry, first-seen record and signatures. -/
def putLogged (t : Tables) (said : String) (event : Bytes) (pfx : String) (sn : ℕ)
    (sigs : Option Bytes) : Tables :=
  { t with
      evts := t.evts.put said event
      kels := t.kels.put (snKey pfx sn) said
      fels := t.fels.put (snKey pfx sn) said }.putSigs said sigs

variable {t : Tables} {said pfx : String} {event : Bytes} {sn : ℕ} {sigs : Option Bytes}

@[simp] theorem putSigs_evts : (t.putSigs said sigs).evts = t.evts := by cases sigs <;> rfl

@[simp] theorem putSigs_kels : (t.putSigs said sigs).kels = t.kels := by cases sigs <;> rfl

@[simp] theorem putSigs_fels : (t.putSigs said sigs).fels = t.fels := by cases sigs <;> rfl

@[simp] theorem putSigs_rcts : (t.putSigs said sigs).rcts = t.rcts := by cases sigs <;> rfl

@[simp] theorem putSigs_habs : (t.putSigs said sigs).habs = t.habs := by cases sigs <;> rfl

@[simp] theorem putLogged_evts :
    (t.putLogged said event pfx sn sigs).evts = t.evts.put said event := by
  simp [putLogged]

@[simp] theorem putLogged_kels :
    (t.putLogged said event pfx sn sigs).kels = t.kels.put (snKey pfx sn) said := by
  simp [putLogged]

@[simp] theorem putLogged_fels :
    (t.putLogged said event pfx sn sigs).fels = t.fels.put (snKey pfx sn) said := by
  simp [putLogged]

@[simp] theorem putLogged_rcts : (t.putLogged said event pfx sn sigs).rcts = t.rcts := by
  simp [putLogged]

@[simp] theorem putLogged_habs : (t.putLogged said event pfx sn sigs).habs = t.habs := by
  simp [putLogged]

/-- The log of an identifier, in the order of the sequence numbers. -/
def kel (t : Tables) (pfx : String) : List (ℕ × String) :=
  let entries := t.kels.entries.filterMap fun e =>
    if (pfx ++ sep).toList <+: e.1.toList then (splitSn e.1).map fun sn => (sn, e.2) else none
  entries.insertionSort fun a b => a.1 ≤ b.1

/-- What is in the log of an identifier is in the table of logs, under a key of the identifier and
the sequence number. -/
theorem mem_kel {sn : ℕ} {said : String} (h : (sn, said) ∈ t.kel pfx) :
    ∃ key, t.kels.get key = some said ∧ (pfx ++ sep).toList <+: key.toList ∧
      splitSn key = some sn := by
  unfold kel at h
  rw [List.mem_insertionSort, List.mem_filterMap] at h
  obtain ⟨e, he, hsome⟩ := h
  split at hsome
  · rename_i hprefix
    obtain ⟨_, hsn, heq⟩ := Option.map_eq_some_iff.1 hsome
    obtain ⟨rfl, rfl⟩ := Prod.mk.inj heq
    exact ⟨e.1, Table.get_of_mem he, hprefix, hsn⟩
  · cases hsome

end Tables

/-- The store, with the number of calls so far. -/
structure Store where
  tables : Tables
  calls : ℕ

/-- Which calls fail, and how. -/
abbrev Disk := ℕ → Option DbError

/-- A disk that never fails. -/
def Disk.sound : Disk := fun _ => none

namespace Store

def empty : Store := { tables := .empty, calls := 0 }

variable (disk : Disk)

/-! ### Calls -/

/-- One write transaction. -/
def write (f : Tables → Tables) : EStateM DbError Store Unit := fun s =>
  match disk s.calls with
  | some e => .error e { s with calls := s.calls + 1 }
  | none => .ok ⟨⟩ { tables := f s.tables, calls := s.calls + 1 }

/-- One read transaction. -/
def read {α : Type} (f : Tables → α) : EStateM DbError Store α := fun s =>
  match disk s.calls with
  | some e => .error e { s with calls := s.calls + 1 }
  | none => .ok (f s.tables) { s with calls := s.calls + 1 }

def putEvent (said : String) (event : Bytes) : EStateM DbError Store Unit :=
  write disk fun t => { t with evts := t.evts.put said event }

def getEvent (said : String) : EStateM DbError Store (Option Bytes) :=
  read disk fun t => t.evts.get said

def getFirstSeen (pfx : String) (sn : ℕ) : EStateM DbError Store (Option String) :=
  read disk fun t => t.fels.get (snKey pfx sn)

def putReceipts (said : String) (rcts : Bytes) : EStateM DbError Store Unit :=
  write disk fun t => { t with rcts := t.rcts.put said rcts }

def getReceipts (said : String) : EStateM DbError Store (Option Bytes) :=
  read disk fun t => t.rcts.get said

def getHab (name : String) : EStateM DbError Store (Option Bytes) :=
  read disk fun t => t.habs.get name

/-- Store an event with its log entry, first-seen record and signatures, in one transaction. -/
def storeEvent (said : String) (event : Bytes) (pfx : String) (sn : ℕ) (sigs : Option Bytes) :
    EStateM DbError Store Unit :=
  write disk fun t => t.putLogged said event pfx sn sigs

/-- The same, with an identifier record. -/
def storeEventWithHab (said : String) (event : Bytes) (pfx : String) (sn : ℕ)
    (sigs : Option Bytes) (habName : String) (habData : Bytes) : EStateM DbError Store Unit :=
  write disk fun t =>
    let t := t.putLogged said event pfx sn sigs
    { t with habs := t.habs.put habName habData }

/-! ### What a call does -/

variable {disk} {s s' : Store}

theorem write_ok {f : Tables → Tables} {u : Unit} :
    write disk f s = .ok u s' ↔ disk s.calls = none ∧
      s' = { tables := f s.tables, calls := s.calls + 1 } := by
  unfold write
  cases disk s.calls <;> simp [eq_comm]

/-- A write that fails changes nothing. -/
theorem write_error {f : Tables → Tables} {e : DbError} :
    write disk f s = .error e s' ↔ disk s.calls = some e ∧
      s' = { s with calls := s.calls + 1 } := by
  unfold write
  cases disk s.calls <;> simp [eq_comm]

theorem read_ok {α : Type} {f : Tables → α} {a : α} :
    read disk f s = .ok a s' ↔ disk s.calls = none ∧ a = f s.tables ∧
      s' = { s with calls := s.calls + 1 } := by
  unfold read
  cases disk s.calls <;> simp [eq_comm]

theorem read_error {α : Type} {f : Tables → α} {e : DbError} :
    read disk f s = .error e s' ↔ disk s.calls = some e ∧
      s' = { s with calls := s.calls + 1 } := by
  unfold read
  cases disk s.calls <;> simp [eq_comm]

end Store

end Keri
