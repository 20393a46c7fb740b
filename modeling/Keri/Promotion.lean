/-
**Promotion out of the escrow.**

An event that waits for witness receipts collects those offered for it, up to a cap, and leaves the
escrow once they come from as many witnesses as it needs.  A receipt is counted by the prefix it
names; neither the prefix nor the signature is looked at.

* `Keri.offeredReceipts` — the receipts that a run of calls offers for an event;
* `Keri.LeavesWaiting`, `Keri.Waiting` — the calls that leave an event waiting, and what waits
  there;
* `Keri.waiting_run` — **what an event has collected** after any run of such calls;
* `Keri.promoted_iff` — **an event is promoted exactly when the receipts offered come from enough
  witnesses**, whatever their order and repetition.
-/

import Keri.Escrow

set_option relaxedAutoImplicit false
set_option autoImplicit false

namespace Keri

open Machine

/-! ### Counting witnesses -/

/-- The witnesses with a receipt, each once. -/
theorem uniqueWitnesses_spec {unique : List String} (receipts : List (String × Bytes))
    (h : unique.Nodup) : (uniqueWitnesses unique receipts).Nodup ∧
      ∀ p, p ∈ uniqueWitnesses unique receipts ↔ p ∈ unique ∨ p ∈ receipts.map Prod.fst := by
  induction receipts generalizing unique with
  | nil => exact ⟨h, fun p => by simp [uniqueWitnesses]⟩
  | cons c receipts ih =>
      obtain ⟨wp, sigRaw⟩ := c
      rw [uniqueWitnesses]
      split
      · rename_i hold
        obtain ⟨hnodup, hmem⟩ := ih h
        refine ⟨hnodup, fun p => ?_⟩
        rw [hmem, List.map_cons, List.mem_cons]
        constructor
        · rintro (hp | hp)
          · exact Or.inl hp
          · exact Or.inr (Or.inr hp)
        · rintro (hp | rfl | hp)
          · exact Or.inl hp
          · exact Or.inl hold
          · exact Or.inr hp
      · rename_i hnew
        have hmore : (unique ++ [wp]).Nodup := List.Nodup.append h (by simp) (by simpa using hnew)
        obtain ⟨hnodup, hmem⟩ := ih hmore
        refine ⟨hnodup, fun p => ?_⟩
        rw [hmem, List.map_cons, List.mem_cons, List.mem_append, List.mem_singleton, or_assoc]

/-- The count is the number of distinct witnesses. -/
theorem length_uniqueWitnesses (receipts : List (String × Bytes)) :
    (uniqueWitnesses [] receipts).length = (receipts.map Prod.fst).toFinset.card := by
  obtain ⟨hnodup, hmem⟩ := uniqueWitnesses_spec receipts List.nodup_nil
  rw [← List.toFinset_card_of_nodup hnodup]
  congr 1
  ext p
  simp [hmem]

/-! ### Waiting for receipts -/

/-- The receipts that the calls offer for the event at a key. -/
def offeredReceipts (key : EscrowKey) : List EscrowCall → List (String × Bytes)
  | [] => []
  | c :: calls =>
      match c.op with
      | .addWitnessReceipt pfx sn witnessPrefix sigRaw =>
          if escrowKey pfx sn = key then (witnessPrefix, sigRaw) :: offeredReceipts key calls
          else offeredReceipts key calls
      | _ => offeredReceipts key calls

/-- The call leaves the event at the key waiting: the event is put in again with the same threshold
only, and only while it has no receipt; it is not promoted, and is not too old for a prune. -/
def LeavesWaiting (key : EscrowKey) (t : ℕ) (s : Escrow) (c : EscrowCall) : Prop :=
  match c.op with
  | .escrowPartiallyWitnessed pfx sn _ _ backerThreshold => escrowKey pfx sn = key →
      backerThreshold = t ∧ ∀ entry, s.partiallyWitnessed.get key = some entry → entry.receipts = []
  | .checkAndPromoteWitnessed pfx sn => escrowKey pfx sn = key →
      (s.checkAndPromoteWitnessed pfx sn).1 = none
  | .prune maxAge =>
      ∀ entry, s.partiallyWitnessed.get key = some entry → c.now - maxAge ≤ entry.escrowedAt
  | _ => True

/-- An event waits at the key, with a threshold and the first of some receipts. -/
def Waiting (key : EscrowKey) (t : ℕ) (offered : List (String × Bytes)) (s : Escrow) : Prop :=
  ∃ entry, s.partiallyWitnessed.get key = some entry ∧ entry.backerThreshold = t ∧
    entry.receipts = offered.take Escrow.maxAttachmentCount

theorem offeredReceipts_append (key : EscrowKey) (as bs : List EscrowCall) :
    offeredReceipts key (as ++ bs) = offeredReceipts key as ++ offeredReceipts key bs := by
  induction as with
  | nil => rfl
  | cons c as ih =>
      simp only [List.cons_append, offeredReceipts]
      split
      · split
        · rw [ih, List.cons_append]
        · exact ih
      · exact ih

/-- One more receipt, up to the cap. -/
theorem take_concat {α : Type} (n : ℕ) (xs : List α) (x : α) :
    (xs ++ [x]).take n = if n ≤ (xs.take n).length then xs.take n else xs.take n ++ [x] := by
  rw [List.length_take]
  split
  · rw [List.take_append_of_le_length (by omega)]
  · rw [List.take_of_length_le (by rw [List.length_append, List.length_singleton]; omega),
      List.take_of_length_le (by omega)]

/-- **One call.**  An event that is left waiting has, besides what it had, the receipt that the call
offers for it. -/
theorem waiting_step {key : EscrowKey} {t : ℕ} {offered : List (String × Bytes)} {s : Escrow}
    {c : EscrowCall} (h : Waiting key t offered s) (hc : LeavesWaiting key t s c) :
    Waiting key t (offered ++ offeredReceipts key [c]) (stepEscrow s c) := by
  obtain ⟨entry, hentry, ht, hreceipts⟩ := h
  unfold Waiting
  rw [get_step, hentry]
  obtain ⟨op, now⟩ := c
  cases op with
  | escrowOutOfOrder pfx sn serder signatures =>
      simp only [offeredReceipts, List.append_nil]
      exact ⟨entry, rfl, ht, hreceipts⟩
  | escrowPartiallySigned pfx sn serder signatures =>
      simp only [offeredReceipts, List.append_nil]
      exact ⟨entry, rfl, ht, hreceipts⟩
  | processEscrow pfx currentSn =>
      simp only [offeredReceipts, List.append_nil]
      exact ⟨entry, rfl, ht, hreceipts⟩
  | escrowPartiallyWitnessed pfx sn serder signatures backerThreshold =>
      simp only [entryAfter, offeredReceipts, List.append_nil]
      split
      · rename_i hkey
        obtain ⟨rfl, hempty⟩ := hc hkey
        -- what is replaced has no receipt, so none has been offered
        rw [hempty entry hentry] at hreceipts
        exact ⟨_, rfl, rfl, hreceipts⟩
      · exact ⟨entry, rfl, ht, hreceipts⟩
  | addWitnessReceipt pfx sn witnessPrefix sigRaw =>
      simp only [entryAfter, offeredReceipts, Option.map_some]
      split
      · refine ⟨_, rfl, ?_, ?_⟩
        · split
          · exact ht
          · exact ht
        · rw [take_concat, ← hreceipts]
          split
          · rfl
          · rfl
      · rw [List.append_nil]
        exact ⟨entry, rfl, ht, hreceipts⟩
  | checkAndPromoteWitnessed pfx sn =>
      simp only [entryAfter, offeredReceipts, List.append_nil, Option.bind_some]
      refine ⟨entry, ?_, ht, hreceipts⟩
      split
      · rename_i hkey
        have hnone := hc hkey
        simp only [Escrow.checkAndPromoteWitnessed, hkey, hentry] at hnone
        split at hnone
        · cases hnone
        · rename_i hfew
          rw [if_neg hfew]
      · rfl
  | prune maxAge =>
      simp only [entryAfter, offeredReceipts, List.append_nil, Option.bind_some]
      have hage : now - maxAge ≤ entry.escrowedAt := hc entry hentry
      exact ⟨entry, if_pos hage, ht, hreceipts⟩

/-- **What an event has collected.**  Left waiting over a run, it has the first receipts offered for
it, up to the cap. -/
theorem waiting_run {key : EscrowKey} {t : ℕ} {offered : List (String × Bytes)} {s : Escrow}
    {calls : List EscrowCall} (h : Waiting key t offered s)
    (hcalls : Along stepEscrow (LeavesWaiting key t) s calls) :
    Waiting key t (offered ++ offeredReceipts key calls) (run stepEscrow s calls) := by
  induction calls generalizing s offered with
  | nil =>
      rw [offeredReceipts, List.append_nil]
      exact h
  | cons c calls ih =>
      obtain ⟨hc, hcalls⟩ := hcalls
      have hrun := ih (waiting_step h hc) hcalls
      rw [List.append_assoc, ← offeredReceipts_append] at hrun
      exact hrun

/-! ### Promotion -/

/-- A call of the operation that puts partially witnessed events in, for the key. -/
def EscrowsAt (key : EscrowKey) (c : EscrowCall) : Prop :=
  ∃ pfx sn serder signatures backerThreshold,
    c.op = .escrowPartiallyWitnessed pfx sn serder signatures backerThreshold ∧
    escrowKey pfx sn = key

/-- A key that holds nothing holds nothing after any other call. -/
theorem get_none_step {key : EscrowKey} {s : Escrow} {c : EscrowCall}
    (h : s.partiallyWitnessed.get key = none) (hc : ¬ EscrowsAt key c) :
    (stepEscrow s c).partiallyWitnessed.get key = none := by
  rw [get_step, h]
  unfold entryAfter
  split
  · rename_i pfx sn serder signatures backerThreshold hop
    rw [if_neg]
    exact fun hkey => hc ⟨_, _, _, _, _, hop, hkey⟩
  · rw [Option.map_none, ite_self]
  · rw [Option.bind_none, ite_self]
  · rfl
  · rfl

theorem get_none_run {key : EscrowKey} {s : Escrow} {calls : List EscrowCall}
    (h : s.partiallyWitnessed.get key = none) (hcalls : ∀ c ∈ calls, ¬ EscrowsAt key c) :
    (run stepEscrow s calls).partiallyWitnessed.get key = none := by
  induction calls generalizing s with
  | nil => exact h
  | cons c calls ih =>
      exact ih (get_none_step h (hcalls c List.mem_cons_self))
        fun c' hc' => hcalls c' (List.mem_cons_of_mem c hc')

/-- A promoted event is gone. -/
theorem get_of_promoted {s : Escrow} {pfx : String} {sn : ℕ}
    (h : (s.checkAndPromoteWitnessed pfx sn).1.isSome = true) :
    (s.checkAndPromoteWitnessed pfx sn).2.partiallyWitnessed.get (escrowKey pfx sn) = none := by
  unfold Escrow.checkAndPromoteWitnessed at h ⊢
  cases hentry : s.partiallyWitnessed.get (escrowKey pfx sn) with
  | none =>
      rw [hentry] at h
      cases h
  | some entry =>
      simp only [hentry] at h ⊢
      split at h
      · rename_i henough
        rw [if_pos henough, Table.get_erase_self]
      · cases h

theorem promoted_of_waiting {s : Escrow} {pfx : String} {sn t : ℕ}
    {offered : List (String × Bytes)} (h : Waiting (escrowKey pfx sn) t offered s) :
    (s.checkAndPromoteWitnessed pfx sn).1.isSome = true ↔
      t ≤ ((offered.take Escrow.maxAttachmentCount).map Prod.fst).toFinset.card := by
  obtain ⟨entry, hentry, rfl, hreceipts⟩ := h
  rw [← hreceipts, ← length_uniqueWitnesses]
  simp only [Escrow.checkAndPromoteWitnessed, hentry]
  split
  · rename_i henough
    exact ⟨fun _ => henough, fun _ => rfl⟩
  · rename_i hfew
    exact ⟨fun hsome => absurd hsome (by simp), fun henough => absurd henough hfew⟩

/-- **Promotion counts each witness once.**  An event put in where none has receipts, and left
waiting since, is promoted exactly when the receipts offered for it since, up to the cap, come from
as many witnesses as its threshold says; once promoted it is gone until it is put in again. -/
theorem promoted_iff {pre post : List EscrowCall} {pfx : String} {sn t : ℕ} {serder : Serder}
    {signatures : Bytes} {now : ℤ}
    (h : Along stepEscrow (LeavesWaiting (escrowKey pfx sn) t) (runEscrow pre)
      ({ op := .escrowPartiallyWitnessed pfx sn serder signatures t, now } :: post)) :
    let s := runEscrow
      (pre ++ { op := .escrowPartiallyWitnessed pfx sn serder signatures t, now } :: post)
    ((s.checkAndPromoteWitnessed pfx sn).1.isSome = true ↔
        t ≤ (((offeredReceipts (escrowKey pfx sn) post).take Escrow.maxAttachmentCount).map
          Prod.fst).toFinset.card) ∧
      ((s.checkAndPromoteWitnessed pfx sn).1.isSome = true →
        ∀ later, (∀ c ∈ later, ¬ EscrowsAt (escrowKey pfx sn) c) →
          (run stepEscrow (s.checkAndPromoteWitnessed pfx sn).2 later).partiallyWitnessed.get
            (escrowKey pfx sn) = none) := by
  intro s
  obtain ⟨-, hpost⟩ := h
  have hput : Waiting (escrowKey pfx sn) t [] (stepEscrow (runEscrow pre)
      { op := .escrowPartiallyWitnessed pfx sn serder signatures t, now }) :=
    ⟨_, Table.get_put_self _ _ _, rfl, rfl⟩
  have hwait : Waiting (escrowKey pfx sn) t (offeredReceipts (escrowKey pfx sn) post) s := by
    have hrun := waiting_run hput hpost
    rw [List.nil_append, ← run_cons] at hrun
    have hs : s = run stepEscrow (runEscrow pre) _ := run_append Escrow.new pre _
    rw [hs]
    exact hrun
  exact ⟨promoted_of_waiting hwait,
    fun hsome later hlater => get_none_run (get_of_promoted hsome) hlater⟩

/-- Three receipts of two witnesses. -/
def toyReceipts : List EscrowCall :=
  ["W1", "W1", "W2"].map fun w => { op := .addWitnessReceipt "E" 0 w [], now := 0 }

/-- They promote an event that needs two witnesses. -/
theorem promoted_toy : ((runEscrow
    ([] ++ { op := .escrowPartiallyWitnessed "E" 0 Toy.icp [] 2, now := 0 } :: toyReceipts)
    ).checkAndPromoteWitnessed "E" 0).1.isSome = true := by
  have hnew : LeavesWaiting (escrowKey "E" 0) 2 (runEscrow [])
      { op := .escrowPartiallyWitnessed "E" 0 Toy.icp [] 2, now := 0 } :=
    fun _ => ⟨rfl, fun entry hentry => by cases hentry⟩
  have halong : Along stepEscrow (LeavesWaiting (escrowKey "E" 0) 2) (runEscrow [])
      ({ op := .escrowPartiallyWitnessed "E" 0 Toy.icp [] 2, now := 0 } :: toyReceipts) :=
    ⟨hnew, trivial, trivial, trivial, trivial⟩
  exact (promoted_iff halong).1.2 (by decide +kernel)

/-! ### Receipts that do not count -/

/-- An event is put in at a key, then calls are made. -/
def escrowedThen (t : ℕ) (post : List EscrowCall) : Escrow :=
  runEscrow ({ op := .escrowPartiallyWitnessed "E" 0 Toy.icp [] t, now := 0 } :: post)

/-- The calls offer receipts for the event, and nothing else. -/
def OnlyOffers (post : List EscrowCall) : Prop :=
  ∀ c ∈ post, ∃ witnessPrefix sigRaw, c.op = .addWitnessReceipt "E" 0 witnessPrefix sigRaw

theorem waiting_of_onlyOffers {t : ℕ} {post : List EscrowCall} (h : OnlyOffers post) :
    Waiting (escrowKey "E" 0) t (offeredReceipts (escrowKey "E" 0) post) (escrowedThen t post) := by
  have hput : Waiting (escrowKey "E" 0) t [] (escrowedThen t []) :=
    ⟨_, Table.get_put_self _ _ _, rfl, rfl⟩
  have halong : ∀ s, Along stepEscrow (LeavesWaiting (escrowKey "E" 0) t) s post := by
    induction post with
    | nil => exact fun s => trivial
    | cons c post ih =>
        intro s
        obtain ⟨witnessPrefix, sigRaw, hop⟩ := h c List.mem_cons_self
        refine ⟨?_, ih (fun c' hc' => h c' (List.mem_cons_of_mem c hc')) _⟩
        unfold LeavesWaiting
        rw [hop]
        trivial
  exact waiting_run hput (halong _)

/-- As many receipts of one witness as an event takes, and one of another. -/
def toySpam : List EscrowCall :=
  List.replicate Escrow.maxAttachmentCount { op := .addWitnessReceipt "E" 0 "W1" [], now := 0 } ++
    [{ op := .addWitnessReceipt "E" 0 "W2" [], now := 0 }]

theorem offered_toySpam : offeredReceipts (escrowKey "E" 0) toySpam =
    List.replicate Escrow.maxAttachmentCount ("W1", []) ++ [("W2", [])] := by
  have hrep : ∀ n, offeredReceipts (escrowKey "E" 0)
      (List.replicate n { op := .addWitnessReceipt "E" 0 "W1" [], now := 0 }) =
      List.replicate n ("W1", []) := by
    intro n
    induction n with
    | zero => rfl
    | succ n ih =>
        rw [List.replicate_succ, List.replicate_succ, offeredReceipts, ih]
        rfl
  rw [toySpam, offeredReceipts_append, hrep]
  rfl

/-- Not every receipt offered counts: those from before the event is put in again do not, and those
after the first 4096 do not, by whatever witnesses these are. -/
theorem receipts_not_all_counted :
    (¬ ∀ (t : ℕ) (post : List EscrowCall),
      (∀ c ∈ post, c.op = .escrowPartiallyWitnessed "E" 0 Toy.icp [] t ∨
        ∃ witnessPrefix sigRaw, c.op = .addWitnessReceipt "E" 0 witnessPrefix sigRaw) →
      (offeredReceipts (escrowKey "E" 0) post).length ≤ Escrow.maxAttachmentCount →
      (((escrowedThen t post).checkAndPromoteWitnessed "E" 0).1.isSome = true ↔
        t ≤ ((offeredReceipts (escrowKey "E" 0) post).map Prod.fst).toFinset.card)) ∧
    ¬ ∀ (t : ℕ) (post : List EscrowCall), OnlyOffers post →
      (((escrowedThen t post).checkAndPromoteWitnessed "E" 0).1.isSome = true ↔
        t ≤ ((offeredReceipts (escrowKey "E" 0) post).map Prod.fst).toFinset.card) := by
  refine ⟨fun hclaim => ?_, fun hclaim => ?_⟩
  · have hpost := hclaim 1 [{ op := .addWitnessReceipt "E" 0 "W1" [], now := 0 },
      { op := .escrowPartiallyWitnessed "E" 0 Toy.icp [] 1, now := 1 }]
      (by
        intro c hc
        simp only [List.mem_cons, List.not_mem_nil, or_false] at hc
        rcases hc with rfl | rfl
        · exact Or.inr ⟨_, _, rfl⟩
        · exact Or.inl rfl)
      (by decide +kernel)
    have hsome := hpost.2 (by decide +kernel)
    revert hsome
    decide +kernel
  · have honly : OnlyOffers toySpam := by
      intro c hc
      rcases List.mem_append.1 hc with hc | hc
      · rw [List.eq_of_mem_replicate hc]
        exact ⟨_, _, rfl⟩
      · rw [List.mem_singleton.1 hc]
        exact ⟨_, _, rfl⟩
    have hboth := (hclaim 2 toySpam honly).symm.trans
      (promoted_of_waiting (waiting_of_onlyOffers honly))
    rw [offered_toySpam] at hboth
    have htake : (List.replicate Escrow.maxAttachmentCount ("W1", ([] : Bytes)) ++
        [("W2", [])]).take Escrow.maxAttachmentCount =
        List.replicate Escrow.maxAttachmentCount ("W1", []) :=
      List.take_left' (List.length_replicate ..)
    rw [htake, List.map_append, List.map_replicate, List.toFinset_append] at hboth
    -- the list that is kept names one witness, the list that was offered names two
    have hone : (List.replicate Escrow.maxAttachmentCount "W1").toFinset = {"W1"} :=
      List.toFinset_replicate_of_ne_zero (by decide)
    have htwo : ({"W1"} ∪ ([("W2", ([] : Bytes))].map Prod.fst).toFinset).card = 2 := by
      decide +kernel
    rw [hone, htwo, Finset.card_singleton] at hboth
    exact absurd (hboth.1 (le_refl 2)) (by decide)

end Keri
