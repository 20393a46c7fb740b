/-
**Promotion and verification.**

The escrow counts the witnesses with a receipt; a verifier counts the backers with a valid one.  The
counts are the same as long as every receipt that is taken from a new witness is from a backer and
valid, which the escrow does not look at.

* `Keri.Establishes` — the key states that an event establishes;
* `Keri.CountsAgree`, `Keri.Vetted` — the two counts are the same, and the calls that keep them so;
* `Keri.promotion_agrees_iff` — **the counts agree over a run exactly when every receipt taken from
  a new witness is from a backer and valid**, and then every promoted event passes verification;
* `Keri.promotion_without_verification` — an event promoted by a receipt from nobody's witness.
-/

import Keri.Promotion
import Keri.Backers

set_option relaxedAutoImplicit false
set_option autoImplicit false

namespace Keri

open Outcome Machine

variable (X : Externals)

/-! ### The key state of an event -/

/-- The bytes of the inception. -/
def BuildCall.raw : BuildCall → Bytes
  | .new serder _ _ => serder.raw
  | .newFromParts raw _ _ _ => raw
  | .newDelegated serder _ _ _ _ => serder.raw

/-- The bytes of the event. -/
def AdvanceCall.raw : AdvanceCall → Bytes
  | .update serder _ => serder.raw
  | .verifyUpdate serder _ => serder.raw
  | .verifyUpdateOwned raw _ _ => raw
  | .verifyUpdateDelegated serder _ _ _ => serder.raw

/-- A verifier that accepts the event has this key state after it. -/
inductive Establishes (serder : Serder) : KeyState → Prop where
  | build {b : BuildCall} {k : Kever} : b.build X = .ok k → b.raw = serder.raw →
      b.sad = serder.sad → Establishes serder k.state
  | advance {c : AdvanceCall} {k k' : Kever} : Reachable X k → c.advance X k = .ok k' →
      c.raw = serder.raw → c.sad = serder.sad → Establishes serder k'.state

/-! ### Two counts -/

/-- The escrow counts as many witnesses for an event as verification of its receipts does, against
the backers of a key state that the event establishes. -/
def CountsAgree (s : Escrow) : Prop :=
  ∀ key entry, s.partiallyWitnessed.get key = some entry → ∀ t, Establishes X entry.serder t →
    ∃ vs, validPrefixes X entry.serder.raw t.backers [] entry.receipts = .ok vs ∧
      vs.length = (uniqueWitnesses [] entry.receipts).length

/-- If the call has a receipt taken from a witness that has none, the witness is a backer and the
receipt valid. -/
def Vetted (s : Escrow) (c : EscrowCall) : Prop :=
  ∀ pfx sn witnessPrefix sigRaw entry, c.op = .addWitnessReceipt pfx sn witnessPrefix sigRaw →
    s.partiallyWitnessed.get (escrowKey pfx sn) = some entry →
    entry.receipts.length < Escrow.maxAttachmentCount →
    witnessPrefix ∉ entry.receipts.map Prod.fst → ∀ t, Establishes X entry.serder t →
      witnessPrefix ∈ t.backers ∧ ValidReceipt X entry.serder.raw (witnessPrefix, sigRaw)

/-- The counts have gone alike, receipt by receipt. -/
def CountsAlike (s : Escrow) : Prop :=
  ∀ key entry, s.partiallyWitnessed.get key = some entry → ∀ t, Establishes X entry.serder t →
    validPrefixes X entry.serder.raw t.backers [] entry.receipts =
      .ok (uniqueWitnesses [] entry.receipts)

variable {X}

theorem uniqueWitnesses_concat (unique : List String) (receipts : List (String × Bytes))
    (c : String × Bytes) : uniqueWitnesses unique (receipts ++ [c]) =
      if c.1 ∈ uniqueWitnesses unique receipts then uniqueWitnesses unique receipts
      else uniqueWitnesses unique receipts ++ [c.1] := by
  induction receipts generalizing unique with
  | nil => rfl
  | cons c' receipts ih =>
      rw [List.cons_append, uniqueWitnesses, uniqueWitnesses]
      exact ih _

/-- One more receipt. -/
theorem validPrefixes_concat {message : Bytes} {backers acc vs : List String}
    {couples : List (String × Bytes)} (h : validPrefixes X message backers acc couples = .ok vs)
    (c : String × Bytes) : validPrefixes X message backers acc (couples ++ [c]) =
      validPrefixes X message backers vs [c] := by
  induction couples generalizing acc with
  | nil =>
      obtain rfl := Except.ok.inj h
      rfl
  | cons c' couples ih =>
      obtain ⟨pfx, sigRaw⟩ := c'
      rw [validPrefixes] at h
      rw [List.cons_append, validPrefixes]
      by_cases hskip : pfx ∉ backers ∨ pfx ∈ acc
      · rw [if_pos hskip] at h ⊢
        exact ih h
      · rw [if_neg hskip] at h ⊢
        obtain ⟨verfer, hverfer, h⟩ := bind_eq_ok.1 h
        obtain ⟨ok, hok, h⟩ := bind_eq_ok.1 h
        rw [hverfer, ok_bind, hok, ok_bind]
        exact ih h

/-- A receipt that does not come first for its witness, or is from a backer and valid, counts alike
in both. -/
theorem counts_concat {message : Bytes} {backers : List String} {receipts : List (String × Bytes)}
    {c : String × Bytes}
    (h : validPrefixes X message backers [] receipts = .ok (uniqueWitnesses [] receipts))
    (hc : c.1 ∉ receipts.map Prod.fst → c.1 ∈ backers ∧ ValidReceipt X message c) :
    validPrefixes X message backers [] (receipts ++ [c]) =
      .ok (uniqueWitnesses [] (receipts ++ [c])) := by
  obtain ⟨-, hmem⟩ := uniqueWitnesses_spec receipts List.nodup_nil
  have hmem' : c.1 ∈ uniqueWitnesses [] receipts ↔ c.1 ∈ receipts.map Prod.fst := by
    rw [hmem]
    simp
  rw [validPrefixes_concat h, uniqueWitnesses_concat]
  by_cases hold : c.1 ∈ receipts.map Prod.fst
  · rw [if_pos (hmem'.2 hold), validPrefixes_cons_eq_ok]
    exact Or.inl ⟨Or.inr (hmem'.2 hold), rfl⟩
  · have hnew : c.1 ∉ uniqueWitnesses [] receipts := fun hin => hold (hmem'.1 hin)
    obtain ⟨hbacker, verfer, hverfer, hok⟩ := hc hold
    rw [if_neg hnew, validPrefixes_cons_eq_ok]
    exact Or.inr ⟨⟨hbacker, hnew⟩, verfer, true, hverfer, hok, rfl⟩

/-- Where the counts agree with a first receipt of a witness at the end, it is from a backer and
valid. -/
theorem valid_of_counts {message : Bytes} {backers vs : List String}
    {receipts : List (String × Bytes)} {c : String × Bytes}
    (h : validPrefixes X message backers [] (receipts ++ [c]) = .ok vs)
    (hlen : vs.length = (uniqueWitnesses [] (receipts ++ [c])).length)
    (hnew : c.1 ∉ receipts.map Prod.fst) : c.1 ∈ backers ∧ ValidReceipt X message c := by
  obtain ⟨hnodup, hmem⟩ := validPrefixes_spec h List.nodup_nil
  obtain ⟨hnodup', hmem'⟩ := uniqueWitnesses_spec (receipts ++ [c]) List.nodup_nil
  -- what verification counts the escrow counts, so equal numbers are equal sets
  have hsub : vs.toFinset ⊆ (uniqueWitnesses [] (receipts ++ [c])).toFinset := by
    intro p hp
    obtain hp | ⟨-, c', hc', rfl, -⟩ := (hmem p).1 (List.mem_toFinset.1 hp)
    · exact absurd hp List.not_mem_nil
    · exact List.mem_toFinset.2 ((hmem' c'.1).2 (Or.inr (List.mem_map_of_mem hc')))
  have hcard : (uniqueWitnesses [] (receipts ++ [c])).toFinset.card ≤ vs.toFinset.card := by
    rw [List.toFinset_card_of_nodup hnodup, List.toFinset_card_of_nodup hnodup', hlen]
  have hin : c.1 ∈ vs := by
    rw [← List.mem_toFinset, Finset.eq_of_subset_of_card_le hsub hcard, List.mem_toFinset, hmem']
    simp
  obtain hin | ⟨hbacker, c', hc', heq, hvalid⟩ := (hmem c.1).1 hin
  · exact absurd hin List.not_mem_nil
  · rcases List.mem_append.1 hc' with hc' | hc'
    · exact absurd (heq ▸ List.mem_map_of_mem hc') hnew
    · obtain rfl := List.mem_singleton.1 hc'
      exact ⟨hbacker, hvalid⟩

/-! ### Over a run -/

/-- A receipt that is taken is at the end of the entry's receipts. -/
theorem get_addWitnessReceipt {s : Escrow} {c : EscrowCall} {pfx : String} {sn : ℕ}
    {witnessPrefix : String} {sigRaw : Bytes} {entry : PartiallyWitnessedEntry}
    (hop : c.op = .addWitnessReceipt pfx sn witnessPrefix sigRaw)
    (hentry : s.partiallyWitnessed.get (escrowKey pfx sn) = some entry)
    (hroom : entry.receipts.length < Escrow.maxAttachmentCount) :
    (stepEscrow s c).partiallyWitnessed.get (escrowKey pfx sn) =
      some { entry with receipts := entry.receipts ++ [(witnessPrefix, sigRaw)] } := by
  have hnot : ¬ Escrow.maxAttachmentCount ≤ entry.receipts.length := by omega
  rw [get_step, entryAfter, hop]
  simp only [hentry, if_true, Option.map_some, if_neg hnot]

theorem countsAlike_step {s : Escrow} {c : EscrowCall} (h : CountsAlike X s) (hc : Vetted X s c) :
    CountsAlike X (stepEscrow s c) := by
  intro key entry hentry t ht
  rcases entry_step hentry with hold | hempty |
    ⟨pfx, sn, witnessPrefix, sigRaw, before, hop, rfl, hbefore, hroom, hserder, hreceipts⟩
  · exact h key entry hold t ht
  · rw [hempty]
    rfl
  · rw [hserder] at ht ⊢
    rw [hreceipts]
    exact counts_concat (h _ before hbefore t ht) fun hnew =>
      hc pfx sn witnessPrefix sigRaw before hop hbefore hroom hnew t ht

theorem countsAlike_run {calls : List EscrowCall}
    (h : Along stepEscrow (Vetted X) Escrow.new calls) : CountsAlike X (runEscrow calls) := by
  refine h.run_inv ?_ fun s c hs hc => countsAlike_step hs hc
  intro key entry hentry
  simp [Escrow.new] at hentry

/-- A call that is not vetted leaves the counts apart. -/
theorem vetted_of_countsAgree {s : Escrow} {c : EscrowCall}
    (h : CountsAgree X (stepEscrow s c)) : Vetted X s c := by
  intro pfx sn witnessPrefix sigRaw entry hop hentry hroom hnew t ht
  obtain ⟨vs, hvs, hlen⟩ := h _ _ (get_addWitnessReceipt hop hentry hroom) t ht
  exact valid_of_counts hvs hlen hnew

/-- Where the counts agree throughout a run, every call of it is vetted. -/
theorem along_vetted_of_countsAgree {calls : List EscrowCall}
    (h : ∀ pre, pre <+: calls → CountsAgree X (runEscrow pre)) :
    Along stepEscrow (Vetted X) Escrow.new calls := by
  induction calls using List.reverseRecOn with
  | nil => trivial
  | append_singleton calls c ih =>
      have hbefore := ih fun pre hpre => h pre (hpre.trans (List.prefix_append _ _))
      have hlast := h (calls ++ [c]) (List.prefix_refl _)
      rw [runEscrow_concat] at hlast
      exact along_append.2 ⟨hbefore, vetted_of_countsAgree hlast, trivial⟩

/-- An event that is promoted where the counts agree passes verification. -/
theorem verify_of_promoted {s : Escrow} (h : CountsAgree X s) {pfx : String} {sn : ℕ}
    {entry : PartiallyWitnessedEntry}
    (hentry : (s.checkAndPromoteWitnessed pfx sn).1 = some entry) {t : KeyState}
    (ht : Establishes X entry.serder t) :
    verifyWitnessReceiptsStatic X entry.serder.raw entry.receipts t.backers
      entry.backerThreshold = .ok () := by
  unfold Escrow.checkAndPromoteWitnessed at hentry
  split at hentry
  · rename_i entry' hentry'
    split at hentry
    · rename_i henough
      obtain rfl := Option.some_inj.1 hentry
      obtain ⟨vs, hvs, hlen⟩ := h _ _ hentry' t ht
      exact verifyWitnessReceiptsStatic_eq_ok.2 (Or.inr ⟨vs, hvs, by omega⟩)
    · cases hentry
  · cases hentry

/-- **When promotion agrees with verification.**  The escrow counts as verification does, throughout
a run, exactly when every receipt that is taken from a new witness is from a backer and valid; and
then every event that is promoted, at any point of the run, passes verification. -/
theorem promotion_agrees_iff (X : Externals) (calls : List EscrowCall) :
    ((∀ pre, pre <+: calls → CountsAgree X (runEscrow pre)) ↔
        Along stepEscrow (Vetted X) Escrow.new calls) ∧
      (Along stepEscrow (Vetted X) Escrow.new calls → ∀ pre, pre <+: calls → ∀ pfx sn entry,
        ((runEscrow pre).checkAndPromoteWitnessed pfx sn).1 = some entry →
        ∀ t, Establishes X entry.serder t →
          verifyWitnessReceiptsStatic X entry.serder.raw entry.receipts t.backers
            entry.backerThreshold = .ok ()) := by
  have hagree : Along stepEscrow (Vetted X) Escrow.new calls →
      ∀ pre, pre <+: calls → CountsAgree X (runEscrow pre) := by
    rintro h pre ⟨post, rfl⟩ key entry hentry t ht
    exact ⟨_, countsAlike_run h.left key entry hentry t ht, rfl⟩
  exact ⟨⟨along_vetted_of_countsAgree, hagree⟩, fun h pre hpre pfx sn entry hentry t ht =>
    verify_of_promoted (hagree h pre hpre) hentry ht⟩

/-- An event that needs a receipt of witness 5 is promoted by one of key 6, which no backer is. -/
def toyForeign : List EscrowCall :=
  [{ op := .escrowPartiallyWitnessed "E" 0 (toyWitnessed "1" [5]) [] 1, now := 0 },
    { op := .addWitnessReceipt "E" 0 (Toy.keyText 6) [], now := 0 }]

/-- Promotion does not verify receipts: an event leaves the escrow with a receipt from no witness of
its own, which verification does not count. -/
theorem promotion_without_verification :
    ¬ ∀ (X : Externals) (calls : List EscrowCall) (pfx : String) (sn : ℕ)
      (entry : PartiallyWitnessedEntry) (t : KeyState),
      ((runEscrow calls).checkAndPromoteWitnessed pfx sn).1 = some entry →
      Establishes X entry.serder t →
      verifyWitnessReceiptsStatic X entry.serder.raw entry.receipts t.backers
        entry.backerThreshold = .ok () := by
  intro hclaim
  obtain ⟨k, hk, h⟩ := exists_ok_of_any (x := (toyWitnessedBuild "1" [5]).build Toy.lib)
    (p := fun k => decide (k.state.backers = [Toy.keyText 5] ∧ Toy.keyText 6 ≠ Toy.keyText 5))
    (by decide +kernel)
  obtain ⟨hbackers, hne⟩ := of_decide_eq_true h
  have hpromoted : ((runEscrow toyForeign).checkAndPromoteWitnessed "E" 0).1 =
      some { serder := toyWitnessed "1" [5], signatures := [], receipts := [(Toy.keyText 6, [])],
             backerThreshold := 1, escrowedAt := 0 } := by decide +kernel
  have hverify := hclaim Toy.lib toyForeign "E" 0 _ k.state hpromoted (.build hk rfl rfl)
  rcases verifyWitnessReceiptsStatic_eq_ok.1 hverify with hzero | ⟨vs, hvs, hle⟩
  · cases hzero
  · rcases validPrefixes_cons_eq_ok.1 hvs with ⟨-, hrest⟩ | ⟨⟨hin, -⟩, -⟩
    · obtain rfl := Except.ok.inj hrest
      cases hle
    · rw [hbackers] at hin
      exact hne (List.mem_singleton.1 hin)

end Keri
