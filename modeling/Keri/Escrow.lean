/-
**The escrow.**

Events that cannot be verified yet wait in three maps, by identifier and sequence number: those that
are out of order, those that lack signatures, and those that lack witness receipts.  The first two
are filled under a cap on all entries together and a cap on each key; the third is filled under no
cap at all, so the whole is bounded as long as that one is not filled beyond the cap.

* `Keri.Escrow` and its operations, `Keri.EscrowOp`, `Keri.stepEscrow` — the maps, and any call of
  an operation, at any time;
* `Keri.uniqueWitnesses` — the witnesses with a receipt, each once;
* `Keri.Escrow.Bounded`, `Keri.HasRoom` — the caps, and the calls that respect them;
* `Keri.totalCount_step_le` — **the count after a call**;
* `Keri.escrow_bounded_iff` — **the escrow is bounded over a run exactly when every call of the run
  has room**.
-/

import Keri.Kever
import Keri.Toy
import Keri.Lib.Machine
import Keri.Lib.Table

set_option relaxedAutoImplicit false
set_option autoImplicit false

namespace Keri

open Machine

/-! ### The maps -/

/-- An event that waits, with its signatures as they came. -/
structure EscrowedEvent where
  serder : Serder
  signatures : Bytes
  escrowedAt : ℤ
  deriving DecidableEq

/-- An event that waits for witness receipts. -/
structure PartiallyWitnessedEntry where
  serder : Serder
  signatures : Bytes
  /-- Witness prefix and raw signature. -/
  receipts : List (String × Bytes)
  backerThreshold : ℕ
  escrowedAt : ℤ
  deriving DecidableEq

/-- Maximum number of entries of all maps together. -/
def maxEscrowEntries : ℕ := 10000

/-- Maximum number of events of one key. -/
def maxEntriesPerKey : ℕ := 16

/-- Maximum number of receipts of one event. -/
def Escrow.maxAttachmentCount : ℕ := 4096

/-- An identifier and a sequence number. -/
abbrev EscrowKey := String ×ₗ ℕ

def escrowKey (pfx : String) (sn : ℕ) : EscrowKey := toLex (pfx, sn)

theorem escrowKey_inj {pfx pfx' : String} {sn sn' : ℕ} :
    escrowKey pfx sn = escrowKey pfx' sn' ↔ pfx = pfx' ∧ sn = sn' := by
  simp [escrowKey]

/-- The escrow. -/
structure Escrow where
  outOfOrder : Table EscrowKey (List EscrowedEvent)
  partiallySigned : Table EscrowKey (List EscrowedEvent)
  partiallyWitnessed : Table EscrowKey PartiallyWitnessedEntry

/-- Put an event under a key, unless the key is full. -/
def pushCapped (t : Table EscrowKey (List EscrowedEvent)) (key : EscrowKey) (e : EscrowedEvent) :
    Table EscrowKey (List EscrowedEvent) :=
  let entries := (t.get key).getD []
  if maxEntriesPerKey ≤ entries.length then t else t.put key (entries ++ [e])

/-- Remove the events from before `cutoff`, and the keys that have none left. -/
def pruneMap (t : Table EscrowKey (List EscrowedEvent)) (cutoff : ℤ) :
    Table EscrowKey (List EscrowedEvent) :=
  t.filterMapValues fun events =>
    let kept := events.filter fun e => cutoff ≤ e.escrowedAt
    if kept = [] then none else some kept

/-- The witnesses with a receipt, each once. -/
def uniqueWitnesses : List String → List (String × Bytes) → List String
  | unique, [] => unique
  | unique, (wp, _) :: receipts =>
      uniqueWitnesses (if wp ∈ unique then unique else unique ++ [wp]) receipts

namespace Escrow

/-! ### The operations -/

def new : Escrow := { outOfOrder := .empty, partiallySigned := .empty, partiallyWitnessed := .empty }

def outOfOrderCount (s : Escrow) : ℕ := s.outOfOrder.total List.length

def partiallySignedCount (s : Escrow) : ℕ := s.partiallySigned.total List.length

def partiallyWitnessedCount (s : Escrow) : ℕ := s.partiallyWitnessed.entries.length

/-- The number of entries of all maps. -/
def totalCount (s : Escrow) : ℕ :=
  s.outOfOrderCount + s.partiallySignedCount + s.partiallyWitnessedCount

/-- Add an event that is out of order, unless the escrow or its key is full. -/
def escrowOutOfOrder (s : Escrow) (now : ℤ) (pfx : String) (sn : ℕ) (serder : Serder)
    (signatures : Bytes) : Escrow :=
  if maxEscrowEntries ≤ s.totalCount then s
  else
    let event := { serder, signatures, escrowedAt := now }
    { s with outOfOrder := pushCapped s.outOfOrder (escrowKey pfx sn) event }

/-- Add an event that lacks signatures, unless the escrow or its key is full. -/
def escrowPartiallySigned (s : Escrow) (now : ℤ) (pfx : String) (sn : ℕ) (serder : Serder)
    (signatures : Bytes) : Escrow :=
  if maxEscrowEntries ≤ s.totalCount then s
  else
    let event := { serder, signatures, escrowedAt := now }
    { s with partiallySigned := pushCapped s.partiallySigned (escrowKey pfx sn) event }

/-- Take out the events that are next for an identifier. -/
def processEscrow (s : Escrow) (pfx : String) (currentSn : ℕ) : List EscrowedEvent × Escrow :=
  let key := escrowKey pfx (u64Succ currentSn)
  ((s.outOfOrder.get key).getD [], { s with outOfOrder := s.outOfOrder.erase key })

/-- Put in an event that lacks witness receipts, in place of what was there. -/
def escrowPartiallyWitnessed (s : Escrow) (now : ℤ) (pfx : String) (sn : ℕ) (serder : Serder)
    (signatures : Bytes) (backerThreshold : ℕ) : Escrow :=
  let entry := { serder, signatures, receipts := [], backerThreshold, escrowedAt := now }
  { s with partiallyWitnessed := s.partiallyWitnessed.put (escrowKey pfx sn) entry }

/-- Add a receipt to an event, unless it has as many as it may; was it added? -/
def addWitnessReceipt (s : Escrow) (pfx : String) (sn : ℕ) (witnessPrefix : String)
    (sigRaw : Bytes) : Bool × Escrow :=
  match s.partiallyWitnessed.get (escrowKey pfx sn) with
  | some entry =>
      if maxAttachmentCount ≤ entry.receipts.length then (false, s)
      else
        let entry := { entry with receipts := entry.receipts ++ [(witnessPrefix, sigRaw)] }
        (true,
          { s with partiallyWitnessed := s.partiallyWitnessed.put (escrowKey pfx sn) entry })
  | none => (false, s)

/-- Take out an event that has receipts of as many witnesses as it needs. -/
def checkAndPromoteWitnessed (s : Escrow) (pfx : String) (sn : ℕ) :
    Option PartiallyWitnessedEntry × Escrow :=
  match s.partiallyWitnessed.get (escrowKey pfx sn) with
  | some entry =>
      if entry.backerThreshold ≤ (uniqueWitnesses [] entry.receipts).length then
        (some entry,
          { s with partiallyWitnessed := s.partiallyWitnessed.erase (escrowKey pfx sn) })
      else (none, s)
  | none => (none, s)

/-- Remove what is older than `maxAge`. -/
def prune (s : Escrow) (now maxAge : ℤ) : Escrow :=
  let cutoff := now - maxAge
  { outOfOrder := pruneMap s.outOfOrder cutoff
    partiallySigned := pruneMap s.partiallySigned cutoff
    partiallyWitnessed := s.partiallyWitnessed.filterMapValues fun entry =>
      if cutoff ≤ entry.escrowedAt then some entry else none }

end Escrow

/-! ### Runs -/

/-- A call of an operation. -/
inductive EscrowOp where
  | escrowOutOfOrder (pfx : String) (sn : ℕ) (serder : Serder) (signatures : Bytes)
  | escrowPartiallySigned (pfx : String) (sn : ℕ) (serder : Serder) (signatures : Bytes)
  | processEscrow (pfx : String) (currentSn : ℕ)
  | escrowPartiallyWitnessed (pfx : String) (sn : ℕ) (serder : Serder) (signatures : Bytes)
      (backerThreshold : ℕ)
  | addWitnessReceipt (pfx : String) (sn : ℕ) (witnessPrefix : String) (sigRaw : Bytes)
  | checkAndPromoteWitnessed (pfx : String) (sn : ℕ)
  | prune (maxAge : ℤ)
  deriving DecidableEq

/-- A call, and what the clock says at it. -/
structure EscrowCall where
  op : EscrowOp
  now : ℤ
  deriving DecidableEq

/-- The escrow after a call. -/
def stepEscrow (s : Escrow) (c : EscrowCall) : Escrow :=
  match c.op with
  | .escrowOutOfOrder pfx sn serder signatures => s.escrowOutOfOrder c.now pfx sn serder signatures
  | .escrowPartiallySigned pfx sn serder signatures =>
      s.escrowPartiallySigned c.now pfx sn serder signatures
  | .processEscrow pfx currentSn => (s.processEscrow pfx currentSn).2
  | .escrowPartiallyWitnessed pfx sn serder signatures backerThreshold =>
      s.escrowPartiallyWitnessed c.now pfx sn serder signatures backerThreshold
  | .addWitnessReceipt pfx sn witnessPrefix sigRaw =>
      (s.addWitnessReceipt pfx sn witnessPrefix sigRaw).2
  | .checkAndPromoteWitnessed pfx sn => (s.checkAndPromoteWitnessed pfx sn).2
  | .prune maxAge => s.prune c.now maxAge

/-- The escrow after any sequence of calls. -/
def runEscrow (calls : List EscrowCall) : Escrow := run stepEscrow Escrow.new calls

theorem runEscrow_concat (calls : List EscrowCall) (c : EscrowCall) :
    runEscrow (calls ++ [c]) = stepEscrow (runEscrow calls) c :=
  run_concat Escrow.new calls c

/-! ### The caps -/

/-- No key holds more events than it may. -/
def KeysCapped (t : Table EscrowKey (List EscrowedEvent)) : Prop :=
  ∀ key events, t.get key = some events → events.length ≤ maxEntriesPerKey

/-- The escrow respects its caps. -/
structure Escrow.Bounded (s : Escrow) : Prop where
  total : s.totalCount ≤ maxEscrowEntries
  outOfOrder : KeysCapped s.outOfOrder
  partiallySigned : KeysCapped s.partiallySigned
  receipts : ∀ key entry, s.partiallyWitnessed.get key = some entry →
    entry.receipts.length ≤ Escrow.maxAttachmentCount

/-- The call does not put a new partially witnessed event into a full escrow. -/
def HasRoom (s : Escrow) (c : EscrowCall) : Prop :=
  ∀ pfx sn serder signatures backerThreshold,
    c.op = .escrowPartiallyWitnessed pfx sn serder signatures backerThreshold →
    (s.partiallyWitnessed.get (escrowKey pfx sn)).isSome ∨ s.totalCount < maxEscrowEntries

section

variable {t : Table EscrowKey (List EscrowedEvent)} {key : EscrowKey} {e : EscrowedEvent}

theorem keysCapped_empty : KeysCapped .empty := by
  intro key events h
  rw [Table.get_empty] at h
  cases h

/-- A push adds one event at most. -/
theorem total_pushCapped_le (t : Table EscrowKey (List EscrowedEvent)) (key : EscrowKey)
    (e : EscrowedEvent) :
    (pushCapped t key e).total List.length ≤ t.total List.length + 1 := by
  unfold pushCapped
  simp only
  split
  · omega
  · have hput := Table.total_put List.length t key ((t.get key).getD [] ++ [e])
    rw [List.length_append, List.length_singleton] at hput
    cases hget : t.get key with
    | none =>
        rw [hget] at hput
        simp only [Option.getD_none, Option.map_none, List.length_nil] at hput ⊢
        omega
    | some events =>
        rw [hget] at hput
        simp only [Option.getD_some, Option.map_some] at hput ⊢
        omega

theorem KeysCapped.pushCapped (h : KeysCapped t) : KeysCapped (pushCapped t key e) := by
  unfold Keri.pushCapped
  simp only
  split
  · exact h
  · rename_i hroom
    intro key' events hget
    rw [Table.get_put] at hget
    split at hget
    · obtain rfl := Option.some_inj.1 hget
      rw [List.length_append, List.length_singleton]
      omega
    · exact h key' events hget

theorem KeysCapped.erase (h : KeysCapped t) : KeysCapped (t.erase key) := by
  intro key' events hget
  rw [Table.get_erase] at hget
  split at hget
  · cases hget
  · exact h key' events hget

/-- What a prune keeps of a key is part of what was there. -/
theorem length_of_pruned {cutoff : ℤ} {events kept : List EscrowedEvent}
    (h : (let kept := events.filter fun e => cutoff ≤ e.escrowedAt
      if kept = [] then none else some kept) = some kept) : kept.length ≤ events.length := by
  simp only at h
  split at h
  · cases h
  · obtain rfl := Option.some_inj.1 h
    exact List.length_filter_le _ _

theorem KeysCapped.pruneMap (h : KeysCapped t) (cutoff : ℤ) : KeysCapped (pruneMap t cutoff) := by
  intro key' kept hget
  unfold Keri.pruneMap at hget
  rw [Table.get_filterMapValues] at hget
  obtain ⟨events, hevents, hkept⟩ := Option.bind_eq_some_iff.1 hget
  exact (length_of_pruned hkept).trans (h key' events hevents)

theorem total_pruneMap_le (t : Table EscrowKey (List EscrowedEvent)) (cutoff : ℤ) :
    (pruneMap t cutoff).total List.length ≤ t.total List.length :=
  Table.total_filterMapValues_le (fun _ _ h => length_of_pruned h) t

end

/-! ### What a call does -/

/-- What a call makes of the partially witnessed event at a key. -/
def entryAfter (key : EscrowKey) (c : EscrowCall) (e : Option PartiallyWitnessedEntry) :
    Option PartiallyWitnessedEntry :=
  match c.op with
  | .escrowPartiallyWitnessed pfx sn serder signatures backerThreshold =>
      if escrowKey pfx sn = key then
        some { serder, signatures, receipts := [], backerThreshold, escrowedAt := c.now }
      else e
  | .addWitnessReceipt pfx sn witnessPrefix sigRaw =>
      if escrowKey pfx sn = key then
        e.map fun entry =>
          if Escrow.maxAttachmentCount ≤ entry.receipts.length then entry
          else { entry with receipts := entry.receipts ++ [(witnessPrefix, sigRaw)] }
      else e
  | .checkAndPromoteWitnessed pfx sn =>
      if escrowKey pfx sn = key then
        e.bind fun entry =>
          if entry.backerThreshold ≤ (uniqueWitnesses [] entry.receipts).length then none
          else some entry
      else e
  | .prune maxAge =>
      e.bind fun entry => if c.now - maxAge ≤ entry.escrowedAt then some entry else none
  | _ => e

/-- **One event.**  A call of any operation does to the event at a key what `entryAfter` says, by
what is at that key alone. -/
theorem get_step (s : Escrow) (c : EscrowCall) (key : EscrowKey) :
    (stepEscrow s c).partiallyWitnessed.get key =
      entryAfter key c (s.partiallyWitnessed.get key) := by
  obtain ⟨op, now⟩ := c
  cases op with
  | escrowOutOfOrder pfx sn serder signatures =>
      simp only [stepEscrow, Escrow.escrowOutOfOrder, entryAfter]
      split
      · rfl
      · rfl
  | escrowPartiallySigned pfx sn serder signatures =>
      simp only [stepEscrow, Escrow.escrowPartiallySigned, entryAfter]
      split
      · rfl
      · rfl
  | processEscrow pfx currentSn => rfl
  | escrowPartiallyWitnessed pfx sn serder signatures backerThreshold =>
      simp only [stepEscrow, Escrow.escrowPartiallyWitnessed, entryAfter, Table.get_put,
        eq_comm (a := key)]
  | addWitnessReceipt pfx sn witnessPrefix sigRaw =>
      simp only [stepEscrow, Escrow.addWitnessReceipt, entryAfter]
      by_cases hkey : escrowKey pfx sn = key
      · subst hkey
        cases hentry : s.partiallyWitnessed.get (escrowKey pfx sn) with
        | none => simp [hentry]
        | some entry =>
            simp only [if_true, Option.map_some]
            split
            · exact hentry
            · exact Table.get_put_self _ _ _
      · rw [if_neg hkey]
        split
        · split
          · rfl
          · exact Table.get_put_of_ne _ (Ne.symm hkey) _
        · rfl
  | checkAndPromoteWitnessed pfx sn =>
      simp only [stepEscrow, Escrow.checkAndPromoteWitnessed, entryAfter]
      by_cases hkey : escrowKey pfx sn = key
      · subst hkey
        cases hentry : s.partiallyWitnessed.get (escrowKey pfx sn) with
        | none => simp [hentry]
        | some entry =>
            simp only [if_true, Option.bind_some]
            split
            · exact Table.get_erase_self _ _
            · exact hentry
      · rw [if_neg hkey]
        split
        · split
          · rw [Table.get_erase, if_neg (Ne.symm hkey)]
          · rfl
        · rfl
  | prune maxAge => simp only [stepEscrow, Escrow.prune, entryAfter, Table.get_filterMapValues]

/-- An entry after a call was there before, or has no receipts, or has one more than before. -/
theorem entry_step {s : Escrow} {c : EscrowCall} {key : EscrowKey}
    {entry : PartiallyWitnessedEntry}
    (h : (stepEscrow s c).partiallyWitnessed.get key = some entry) :
    s.partiallyWitnessed.get key = some entry ∨ entry.receipts = [] ∨
      ∃ pfx sn witnessPrefix sigRaw before, c.op = .addWitnessReceipt pfx sn witnessPrefix sigRaw ∧
        escrowKey pfx sn = key ∧ s.partiallyWitnessed.get key = some before ∧
        before.receipts.length < Escrow.maxAttachmentCount ∧ entry.serder = before.serder ∧
        entry.receipts = before.receipts ++ [(witnessPrefix, sigRaw)] := by
  rw [get_step] at h
  unfold entryAfter at h
  split at h
  · split at h
    · obtain rfl := Option.some_inj.1 h
      exact Or.inr (Or.inl rfl)
    · exact Or.inl h
  · rename_i pfx sn witnessPrefix sigRaw hop
    split at h
    · rename_i hkey
      obtain ⟨before, hbefore, hentry⟩ := Option.map_eq_some_iff.1 h
      split at hentry
      · exact Or.inl (hentry ▸ hbefore)
      · rename_i hroom
        subst hentry
        exact Or.inr (Or.inr ⟨pfx, sn, witnessPrefix, sigRaw, before, hop, hkey, hbefore,
          by omega, rfl, rfl⟩)
    · exact Or.inl h
  · split at h
    · obtain ⟨before, hbefore, hkept⟩ := Option.bind_eq_some_iff.1 h
      split at hkept
      · cases hkept
      · exact Or.inl (Option.some_inj.1 hkept ▸ hbefore)
    · exact Or.inl h
  · obtain ⟨before, hbefore, hkept⟩ := Option.bind_eq_some_iff.1 h
    split at hkept
    · exact Or.inl (Option.some_inj.1 hkept ▸ hbefore)
    · cases hkept
  · exact Or.inl h

/-- The number of partially witnessed events grows with a new key only. -/
theorem length_put_witnessed (t : Table EscrowKey PartiallyWitnessedEntry) (key : EscrowKey)
    (entry : PartiallyWitnessedEntry) :
    (t.put key entry).entries.length =
      t.entries.length + if (t.get key).isSome then 0 else 1 := by
  have hput := Table.total_put (fun _ => 1) t key entry
  rw [← Table.length_eq_total, ← Table.length_eq_total] at hput
  cases hget : t.get key with
  | none =>
      rw [hget] at hput
      simp only [Option.map_none, Option.getD_none, Option.isSome_none, Bool.false_eq_true,
        if_false] at hput ⊢
      omega
  | some entry' =>
      rw [hget] at hput
      simp only [Option.map_some, Option.getD_some, Option.isSome_some, if_true] at hput ⊢
      omega

theorem Escrow.totalCount_eq (s : Escrow) :
    s.totalCount = s.outOfOrder.total List.length + s.partiallySigned.total List.length +
      s.partiallyWitnessed.entries.length := rfl

/-- Pruning drops entries. -/
theorem totalCount_prune_le (s : Escrow) (now maxAge : ℤ) :
    (s.prune now maxAge).totalCount ≤ s.totalCount := by
  have hout := total_pruneMap_le s.outOfOrder (now - maxAge)
  have hsigned := total_pruneMap_le s.partiallySigned (now - maxAge)
  have hwitnessed : (s.partiallyWitnessed.filterMapValues fun entry =>
      if now - maxAge ≤ entry.escrowedAt then some entry else none).entries.length ≤
      s.partiallyWitnessed.entries.length := List.length_filterMap_le _ _
  simp only [Escrow.prune, Escrow.totalCount_eq]
  omega

/-- A promotion drops an entry, or changes nothing. -/
theorem totalCount_promote_le (s : Escrow) (pfx : String) (sn : ℕ) :
    (s.checkAndPromoteWitnessed pfx sn).2.totalCount ≤ s.totalCount := by
  unfold Escrow.checkAndPromoteWitnessed
  split
  · split
    · have herase := Table.total_erase_le (fun _ => 1) s.partiallyWitnessed (escrowKey pfx sn)
      rw [← Table.length_eq_total, ← Table.length_eq_total] at herase
      simp only [Escrow.totalCount_eq]
      omega
    · exact le_refl _
  · exact le_refl _

/-- A receipt is added to an entry that is there. -/
theorem totalCount_addWitnessReceipt (s : Escrow) (pfx : String) (sn : ℕ) (witnessPrefix : String)
    (sigRaw : Bytes) :
    (s.addWitnessReceipt pfx sn witnessPrefix sigRaw).2.totalCount = s.totalCount := by
  unfold Escrow.addWitnessReceipt
  split
  · rename_i entry hentry
    split
    · rfl
    · simp only [Escrow.totalCount_eq, length_put_witnessed, hentry, Option.isSome_some, if_true]
      omega
  · rfl

/-- **The count after a call.**  It grows by one at most, from below the cap, but for a partially
witnessed event with a new key, which makes it grow wherever it stands. -/
theorem totalCount_step_le (s : Escrow) (c : EscrowCall) :
    (stepEscrow s c).totalCount ≤ s.totalCount ∨
      (s.totalCount < maxEscrowEntries ∧ (stepEscrow s c).totalCount ≤ s.totalCount + 1) ∨
      ¬ HasRoom s c := by
  obtain ⟨op, now⟩ := c
  cases op with
  | escrowOutOfOrder pfx sn serder signatures =>
      simp only [stepEscrow, Escrow.escrowOutOfOrder]
      split
      · exact Or.inl (le_refl _)
      · rename_i hroom
        refine Or.inr (Or.inl ⟨by omega, ?_⟩)
        have hpush := total_pushCapped_le s.outOfOrder (escrowKey pfx sn)
          { serder, signatures, escrowedAt := now }
        simp only [Escrow.totalCount_eq]
        omega
  | escrowPartiallySigned pfx sn serder signatures =>
      simp only [stepEscrow, Escrow.escrowPartiallySigned]
      split
      · exact Or.inl (le_refl _)
      · rename_i hroom
        refine Or.inr (Or.inl ⟨by omega, ?_⟩)
        have hpush := total_pushCapped_le s.partiallySigned (escrowKey pfx sn)
          { serder, signatures, escrowedAt := now }
        simp only [Escrow.totalCount_eq]
        omega
  | processEscrow pfx currentSn =>
      have herase := Table.total_erase_le List.length s.outOfOrder
        (escrowKey pfx (u64Succ currentSn))
      left
      simp only [stepEscrow, Escrow.processEscrow, Escrow.totalCount_eq]
      omega
  | escrowPartiallyWitnessed pfx sn serder signatures backerThreshold =>
      by_cases hroom : (s.partiallyWitnessed.get (escrowKey pfx sn)).isSome = true ∨
          s.totalCount < maxEscrowEntries
      · simp only [stepEscrow, Escrow.escrowPartiallyWitnessed, Escrow.totalCount_eq,
          length_put_witnessed] at hroom ⊢
        rcases hroom with hold | hlt
        · rw [if_pos hold]
          omega
        · split
          · omega
          · omega
      · right
        right
        intro h
        exact hroom (h pfx sn serder signatures backerThreshold rfl)
  | addWitnessReceipt pfx sn witnessPrefix sigRaw =>
      exact Or.inl (totalCount_addWitnessReceipt s pfx sn witnessPrefix sigRaw).le
  | checkAndPromoteWitnessed pfx sn => exact Or.inl (totalCount_promote_le s pfx sn)
  | prune maxAge => exact Or.inl (totalCount_prune_le s now maxAge)

/-- A call without room takes the escrow beyond its cap. -/
theorem totalCount_step_of_full {s : Escrow} {c : EscrowCall} (h : ¬ HasRoom s c) :
    maxEscrowEntries < (stepEscrow s c).totalCount := by
  obtain ⟨op, now⟩ := c
  unfold HasRoom at h
  push Not at h
  obtain ⟨pfx, sn, serder, signatures, backerThreshold, hop, hnone, hfull⟩ := h
  simp only at hop
  subst hop
  have hnew : ¬ (s.partiallyWitnessed.get (escrowKey pfx sn)).isSome = true := by
    simpa using hnone
  simp only [stepEscrow, Escrow.escrowPartiallyWitnessed, Escrow.totalCount_eq,
    length_put_witnessed, if_neg hnew] at hfull ⊢
  omega

/-- The caps on keys are kept by every call. -/
theorem keysCapped_step {s : Escrow} (c : EscrowCall) (hout : KeysCapped s.outOfOrder)
    (hsigned : KeysCapped s.partiallySigned) :
    KeysCapped (stepEscrow s c).outOfOrder ∧ KeysCapped (stepEscrow s c).partiallySigned := by
  obtain ⟨op, now⟩ := c
  cases op with
  | escrowOutOfOrder pfx sn serder signatures =>
      simp only [stepEscrow, Escrow.escrowOutOfOrder]
      split
      · exact ⟨hout, hsigned⟩
      · exact ⟨hout.pushCapped, hsigned⟩
  | escrowPartiallySigned pfx sn serder signatures =>
      simp only [stepEscrow, Escrow.escrowPartiallySigned]
      split
      · exact ⟨hout, hsigned⟩
      · exact ⟨hout, hsigned.pushCapped⟩
  | processEscrow pfx currentSn => exact ⟨hout.erase, hsigned⟩
  | escrowPartiallyWitnessed pfx sn serder signatures backerThreshold => exact ⟨hout, hsigned⟩
  | addWitnessReceipt pfx sn witnessPrefix sigRaw =>
      simp only [stepEscrow, Escrow.addWitnessReceipt]
      split
      · split
        · exact ⟨hout, hsigned⟩
        · exact ⟨hout, hsigned⟩
      · exact ⟨hout, hsigned⟩
  | checkAndPromoteWitnessed pfx sn =>
      simp only [stepEscrow, Escrow.checkAndPromoteWitnessed]
      split
      · split
        · exact ⟨hout, hsigned⟩
        · exact ⟨hout, hsigned⟩
      · exact ⟨hout, hsigned⟩
  | prune maxAge => exact ⟨hout.pruneMap _, hsigned.pruneMap _⟩

/-- The cap on receipts is kept by every call. -/
theorem receiptsCapped_step {s : Escrow} (c : EscrowCall)
    (h : ∀ key entry, s.partiallyWitnessed.get key = some entry →
      entry.receipts.length ≤ Escrow.maxAttachmentCount)
    (key : EscrowKey) (entry : PartiallyWitnessedEntry)
    (hentry : (stepEscrow s c).partiallyWitnessed.get key = some entry) :
    entry.receipts.length ≤ Escrow.maxAttachmentCount := by
  rcases entry_step hentry with hold | hempty |
    ⟨pfx, sn, witnessPrefix, sigRaw, before, hop, hkey, hbefore, hroom, hserder, hreceipts⟩
  · exact h key entry hold
  · rw [hempty]
    exact Nat.zero_le _
  · rw [hreceipts, List.length_append, List.length_singleton]
    exact hroom

/-- A call with room keeps the escrow bounded. -/
theorem bounded_step {s : Escrow} {c : EscrowCall} (h : s.Bounded) (hroom : HasRoom s c) :
    (stepEscrow s c).Bounded := by
  obtain ⟨hout, hsigned⟩ := keysCapped_step c h.outOfOrder h.partiallySigned
  refine ⟨?_, hout, hsigned, receiptsCapped_step c h.receipts⟩
  have htotal := h.total
  rcases totalCount_step_le s c with hle | ⟨hlt, hle⟩ | hnot
  · omega
  · omega
  · exact absurd hroom hnot

theorem bounded_new : Escrow.new.Bounded where
  total := Nat.zero_le _
  outOfOrder := keysCapped_empty
  partiallySigned := keysCapped_empty
  receipts := by
    intro key entry h
    simp [Escrow.new] at h

/-- **The escrow is bounded over a run exactly when every call of it has room**: when no partially
witnessed event with a new key is put into an escrow that holds the maximum. -/
theorem escrow_bounded_iff (calls : List EscrowCall) :
    (∀ pre, pre <+: calls → (runEscrow pre).Bounded) ↔
      Along stepEscrow HasRoom Escrow.new calls := by
  induction calls using List.reverseRecOn with
  | nil =>
      refine ⟨fun _ => trivial, fun _ pre hpre => ?_⟩
      rw [List.prefix_nil.1 hpre]
      exact bounded_new
  | append_singleton calls c ih =>
      constructor
      · intro h
        have hbefore := ih.1 fun pre hpre => h pre (hpre.trans (List.prefix_append _ _))
        refine along_append.2 ⟨hbefore, ?_, trivial⟩
        -- without room the last call would have taken the escrow beyond its cap
        by_contra hnot
        have hlt : maxEscrowEntries < (stepEscrow (runEscrow calls) c).totalCount :=
          totalCount_step_of_full hnot
        have hle := (h (calls ++ [c]) (List.prefix_refl _)).total
        rw [runEscrow_concat] at hle
        exact absurd hle (by omega)
      · intro h pre hpre
        obtain ⟨hbefore, hroom, -⟩ := along_append.1 h
        rcases List.prefix_concat_iff.1 hpre with rfl | hpre
        · rw [runEscrow_concat]
          exact bounded_step (ih.2 hbefore calls (List.prefix_refl _)) hroom
        · exact ih.2 hbefore pre hpre

/-! ### Ten thousand and one events -/

/-- Partially witnessed events of one identifier, one at each of the first `n` numbers. -/
def toyFlood (serder : Serder) (n : ℕ) : List EscrowCall :=
  (List.range n).map fun sn => { op := .escrowPartiallyWitnessed "" sn serder [] 1, now := 0 }

/-- Each of them takes a place, and none is turned away. -/
theorem count_toyFlood (serder : Serder) (n : ℕ) :
    (runEscrow (toyFlood serder n)).totalCount = n ∧
      ∀ sn, n ≤ sn →
        (runEscrow (toyFlood serder n)).partiallyWitnessed.get (escrowKey "" sn) = none := by
  induction n with
  | zero => exact ⟨rfl, fun sn _ => rfl⟩
  | succ n ih =>
      obtain ⟨hcount, hfree⟩ := ih
      have hcons : toyFlood serder (n + 1) = toyFlood serder n ++
          [{ op := .escrowPartiallyWitnessed "" n serder [] 1, now := 0 }] := by
        simp [toyFlood, List.range_succ]
      rw [hcons, runEscrow_concat]
      simp only [stepEscrow, Escrow.escrowPartiallyWitnessed, Escrow.totalCount,
        Escrow.outOfOrderCount, Escrow.partiallySignedCount, Escrow.partiallyWitnessedCount,
        length_put_witnessed, hfree n (le_refl n), Option.isSome_none, Bool.false_eq_true,
        if_false] at hcount ⊢
      refine ⟨by omega, fun sn hsn => ?_⟩
      have hne : escrowKey "" sn ≠ escrowKey "" n := by
        intro heq
        have := (escrowKey_inj.1 heq).2
        omega
      rw [Table.get_put_of_ne _ hne]
      exact hfree sn (by omega)

/-- The escrow is not bounded: it takes as many partially witnessed events as are put in. -/
theorem escrow_overflows : ¬ ∀ calls : List EscrowCall, (runEscrow calls).Bounded := by
  intro hclaim
  have hle := (hclaim (toyFlood Toy.icp (maxEscrowEntries + 1))).total
  rw [(count_toyFlood Toy.icp _).1] at hle
  omega

end Keri
