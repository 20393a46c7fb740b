/-
**Witnesses keep logs together.**

An event is accepted with the receipts of enough backers.  So where the logs of two parties part,
both events have receipts, and as many backers have receipted both as the two thresholds exceed the
backers.  A witness that receipts one event for a place is none of them: when enough of the
witnesses are like that, no two logs of the identifier part, whatever its controller does.

* `Keri.vouchersOf`, `Keri.placeOf` — who has receipted a message, and what it is an event of;
* `Keri.OneVoice` — a witness that receipts one event for a place;
* `Keri.voted_takes` — **an event that is taken has the votes of its backers**;
* `Keri.fork_vouched` — **who has receipted both sides of a fork**;
* `Keri.majority_agrees` — **with a sufficient majority of witnesses, logs agree**.
-/

import Keri.Convergence
import Keri.Lib.Quorum
import Keri.Receipts

set_option relaxedAutoImplicit false
set_option autoImplicit false

namespace Keri

open Outcome Machine Replica

variable (X : Externals)

/-! ### Receipts in a message -/

/-- The keys by which a message has valid receipts. -/
def vouchersOf (data : Bytes) : List String :=
  match parseNext X data with
  | .error _ => []
  | .ok (parsed, _) =>
      match parsed.serder.header with
      | .error _ => []
      | .ok r =>
          match collectAttachments X r.pfx parsed.attachments with
          | .error _ => []
          | .ok (couples, _) =>
              (couples.filter fun c => (Verfer.fromQb64 X c.1).toOption.any fun verfer =>
                (verfer.verify X parsed.serder.raw c.2).toOption == some true).map Prod.fst

/-- The identifier and the number of a message. -/
def placeOf (data : Bytes) : Option (String × ℕ) :=
  match parseNext X data with
  | .error _ => none
  | .ok (parsed, _) => parsed.serder.header.toOption.map fun r => (r.pfx, r.sn)

/-- A witness has receipted one event at most for each place. -/
def OneVoice (w : String) (msgs msgs' : List Bytes) : Prop :=
  ∀ data ∈ msgs, ∀ data' ∈ msgs', w ∈ vouchersOf X data → w ∈ vouchersOf X data' →
    placeOf X data = placeOf X data' → saidOf X data = saidOf X data'

/-- The backers of a verifier, and how many of them have to receipt an event. -/
def backersOf (before : Option Kever) : Finset String :=
  before.elim ∅ fun k => k.state.backers.toFinset

def neededBy (before : Option Kever) : ℕ := before.elim 0 fun k => k.state.backerThreshold

variable {X} {p : String} {before after after' : Option Kever} {data data' : Bytes}

theorem mem_vouchersOf {parsed : ParsedMessage} {size : ℕ} {r : ProcessResult}
    {couples : List (String × Bytes)} {sigs : Bytes} {w : String}
    (hparse : parseNext X data = .ok (parsed, size)) (hheader : parsed.serder.header = .ok r)
    (hcollect : collectAttachments X r.pfx parsed.attachments = .ok (couples, sigs)) :
    w ∈ vouchersOf X data ↔ ∃ c ∈ couples, c.1 = w ∧ ValidReceipt X parsed.serder.raw c := by
  have hvalid : ∀ c : String × Bytes, ((Verfer.fromQb64 X c.1).toOption.any fun verfer =>
      (verfer.verify X parsed.serder.raw c.2).toOption == some true) = true ↔
        ValidReceipt X parsed.serder.raw c := by
    intro c
    simp only [Option.any_eq_true, beq_iff_eq, toOption_eq_some]
    rfl
  unfold vouchersOf
  simp only [hparse, hheader, hcollect, List.mem_map, List.mem_filter, hvalid]
  constructor
  · rintro ⟨c, ⟨hc, hok⟩, rfl⟩
    exact ⟨c, hc, rfl, hok⟩
  · rintro ⟨c, hc, rfl, hok⟩
    exact ⟨c, ⟨hc, hok⟩, rfl⟩

/-- The receipts of an accepted event are checked against the state it leads to. -/
theorem AcceptedBy.checked {parsed : ParsedMessage} {r : ProcessResult} {sigs : Option Bytes}
    {k : Kever} (h : AcceptedBy X before parsed r sigs k) : ∃ couples raw,
      collectAttachments X r.pfx parsed.attachments = .ok (couples, raw) ∧
        checkReceipts X k.state parsed.serder.raw couples = .ok ⟨⟩ := by
  cases h with
  | inception _ hcollect _ _ hverify =>
      obtain ⟨-, -, -, hchecked⟩ := verifyInception_eq_ok.1 hverify
      exact ⟨_, _, hcollect, hchecked⟩
  | update _ hcollect _ _ hverify =>
      exact ⟨_, _, hcollect, (verifyNext_eq_ok.1 hverify).2⟩

/-- **An event that is taken has the votes of its backers**, as many as the threshold. -/
theorem voted_takes (p : String) :
    Voted (takes X p) (fun w data => w ∈ vouchersOf X data) backersOf neededBy := by
  intro before after data h
  obtain ⟨parsed, size, r, sigs, k, hparse, -, hacc, -, -, rfl⟩ := takes_eq_some h
  obtain ⟨couples, raw, hcollect, hchecked⟩ := hacc.checked
  rcases verifyWitnessReceiptsStatic_eq_ok.1 (checkReceipts_eq_ok.1 hchecked) with
    hzero | ⟨vs, hvs, hle⟩
  · refine ⟨∅, Finset.empty_subset _, ?_, by simp⟩
    change k.state.backerThreshold ≤ 0
    omega
  · obtain ⟨hnodup, hmem⟩ := validPrefixes_spec hvs List.nodup_nil
    simp only [List.not_mem_nil, false_or] at hmem
    refine ⟨vs.toFinset, fun w hw => ?_, ?_, fun w hw => ?_⟩
    · exact List.mem_toFinset.2 ((hmem w).1 (List.mem_toFinset.1 hw)).1
    · rw [List.toFinset_card_of_nodup hnodup]
      exact hle
    · exact (mem_vouchersOf hparse hacc.header hcollect).2
        ((hmem w).1 (List.mem_toFinset.1 hw)).2

/-- Two messages that a verifier takes in one and the same state are events of one place. -/
theorem placeOf_eq (h : takes X p before data = some after)
    (h' : takes X p before data' = some after') :
    ∃ sn, placeOf X data = some (p, sn) ∧ placeOf X data' = some (p, sn) := by
  obtain ⟨parsed, size, r, sigs, k, hparse, -, hacc, hp, -, -⟩ := takes_eq_some h
  obtain ⟨parsed', size', r', sigs', k', hparse', -, hacc', hp', -, -⟩ := takes_eq_some h'
  have hplace : ∀ {data : Bytes} {parsed : ParsedMessage} {size : ℕ} {r : ProcessResult},
      parseNext X data = .ok (parsed, size) → parsed.serder.header = .ok r →
        placeOf X data = some (r.pfx, r.sn) := by
    intro data parsed size r hparse hheader
    unfold placeOf
    simp only [hparse, hheader]
    rfl
  have hsn : r.sn = r'.sn := by
    obtain ⟨-, -, -, -, -, hkind⟩ := hacc.advance
    obtain ⟨-, -, -, -, -, hkind'⟩ := hacc'.advance
    rcases hkind with ⟨hnone, -, hzero, -⟩ | ⟨k₀, hk₀, -, -, hsucc⟩
    · rcases hkind' with ⟨-, -, hzero', -⟩ | ⟨k₁, hk₁, -⟩
      · rw [hzero, hzero']
      · rw [hnone] at hk₁
        cases hk₁
    · rcases hkind' with ⟨hnone', -⟩ | ⟨k₁, hk₁, -, -, hsucc'⟩
      · rw [hnone'] at hk₀
        cases hk₀
      · obtain rfl := Option.some_inj.1 (hk₀.symm.trans hk₁)
        rw [hsucc, hsucc']
  refine ⟨r.sn, ?_, ?_⟩
  · rw [hplace hparse hacc.header, hp]
  · rw [hplace hparse' hacc'.header, hp', hsn]

/-! ### Two logs -/

/-- **Who has receipted both sides of a fork.**  Any two parties that have been sent whatever
messages: one's log of an identifier is the beginning of the other's, or each has been sent an event
of one and the same place, both of which a verifier in one and the same state takes, and backers
have receipted both, as many as the two thresholds exceed the backers of the two. -/
theorem fork_vouched (hX : SaidLaws X) (hsep : NoSeparator X) (P Q : Party)
    (msgs msgs' : List Bytes) (hP : (P.node X msgs).store.tables.FitsMap)
    (hQ : (Q.node X msgs').store.tables.FitsMap) (p : String) :
    (P.node X msgs).store.tables.kel p <+: (Q.node X msgs').store.tables.kel p ∨
      (Q.node X msgs').store.tables.kel p <+: (P.node X msgs).store.tables.kel p ∨
      ∃ data ∈ msgs, ∃ data' ∈ msgs', ∃ before after after',
        takes X p before data = some after ∧ takes X p before data' = some after' ∧
        placeOf X data = placeOf X data' ∧ saidOf X data ≠ saidOf X data' ∧
        ∃ W ⊆ backersOf after ∩ backersOf after',
          neededBy after + neededBy after' ≤ (backersOf after ∪ backersOf after').card + W.card ∧
            ∀ w ∈ W, w ∈ vouchersOf X data ∧ w ∈ vouchersOf X data' := by
  rw [P.kel hsep hP, Q.kel hsep hQ]
  rcases agree_or_fork (keyed_takes hX p) grounded_none (P.path_logOf (X := X) p msgs)
    (Q.path_logOf (X := X) p msgs') with hle | hge | hfork
  · exact Or.inl (numbered_isPrefix hle)
  · exact Or.inr (Or.inl (numbered_isPrefix hge))
  · obtain ⟨i, before, after, after', data, data', hdata, hdata', -, -, hstep, hstep', hne,
      hvotes⟩ := hfork.common_voters (voted_takes p)
    obtain ⟨sn, hplace, hplace'⟩ := placeOf_eq hstep hstep'
    exact Or.inr (Or.inr ⟨data,
      ((taken_sublist none _).trans (P.hearing_sublist msgs)).subset (List.mem_of_getElem? hdata),
      data', ((taken_sublist none _).trans (Q.hearing_sublist msgs')).subset
        (List.mem_of_getElem? hdata'), before, after, after', hstep, hstep',
      hplace.trans hplace'.symm, hne, hvotes⟩)

/-- **With a sufficient majority of witnesses, logs agree.**  At every point of two parties' logs of
an identifier its backers are from a pool, and at least `m` of them have to receipt an event; of the
pool, all but the faulty ones have receipted one event at most for each place.  When `2 * m` is more
than the pool and the faulty ones together, one log is the beginning of the other, whatever the
parties have been sent. -/
theorem majority_agrees (hX : SaidLaws X) (hsep : NoSeparator X) (P Q : Party)
    (msgs msgs' : List Bytes) (hP : (P.node X msgs).store.tables.FitsMap)
    (hQ : (Q.node X msgs').store.tables.FitsMap) (p : String) {pool faulty : Finset String} {m : ℕ}
    (hbackers : Along (takes X p) none (P.logOf X p msgs) fun k =>
      backersOf k ⊆ pool ∧ m ≤ neededBy k)
    (hbackers' : Along (takes X p) none (Q.logOf X p msgs') fun k =>
      backersOf k ⊆ pool ∧ m ≤ neededBy k)
    (hfew : pool.card + faulty.card < 2 * m)
    (honest : ∀ w ∈ pool, w ∉ faulty → OneVoice X w msgs msgs') :
    (P.node X msgs).store.tables.kel p <+: (Q.node X msgs').store.tables.kel p ∨
      (Q.node X msgs').store.tables.kel p <+: (P.node X msgs).store.tables.kel p := by
  rw [P.kel hsep hP, Q.kel hsep hQ]
  refine (agree_of_votes (keyed_takes hX p) grounded_none (voted_takes p)
    (P.path_logOf (X := X) p msgs) (Q.path_logOf (X := X) p msgs') hbackers hbackers' hfew
    ?_).imp numbered_isPrefix numbered_isPrefix
  rintro w hw hright data hdata data' hdata' hvote hvote' ⟨before, -, hstep, hstep'⟩
  obtain ⟨after, hafter⟩ := Option.isSome_iff_exists.1 hstep
  obtain ⟨after', hafter'⟩ := Option.isSome_iff_exists.1 hstep'
  obtain ⟨sn, hplace, hplace'⟩ := placeOf_eq hafter hafter'
  exact honest w hw hright data
    (((taken_sublist none _).trans (P.hearing_sublist msgs)).subset hdata) data'
    (((taken_sublist none _).trans (Q.hearing_sublist msgs')).subset hdata') hvote hvote'
    (hplace.trans hplace'.symm)

/-! ### An instance -/

/-- An inception of key 1 with one backer, whose receipt every event needs. -/
def toyVouchedFields : Fields :=
  Fields.insert "bt" (.string "1") (Fields.insert "b" (Toy.strings [Toy.keyText 5]) toyFields)

/-- The SAID of the inception. -/
def toyVouchedSaid : String :=
  Toy.textOfField (Toy.complete (Toy.knownDigest [Toy.completedBytes toyVouchedFields])
    toyVouchedFields) "d"

/-- Two interactions after it. -/
def toyFirstFields : Fields := Toy.ixnFields (Toy.keyText 1) toyVouchedSaid "1"

def toySecondFields : Fields := Fields.insert "a" (.array [.string "other"]) toyFirstFields

/-- A digest that is short on the three of them. -/
def toyVouchedDigest : Bytes → Bytes :=
  Toy.knownDigest [Toy.completedBytes toyVouchedFields, Toy.completedBytes toyFirstFields,
    Toy.completedBytes toySecondFields]

abbrev toyVouched : Externals := Toy.externals toyVouchedDigest

/-- The receipt of the backer for a body. -/
def toyVoucher (raw : Bytes) : Bytes :=
  strBytes ("-CAB" ++ Toy.keyText 5 ++ Toy.primitiveText "0B" (Toy.seed 5 ++
    Toy.checksumBytes 32 raw))

/-- An event of the instance, signed by key 1, and with the receipt of the backer. -/
def toyUnreceipted (fields : Fields) : Bytes :=
  Toy.signedBytes (Toy.print (Toy.complete toyVouchedDigest fields)) 1

def toyReceiptedEvent (fields : Fields) : Bytes :=
  toyUnreceipted fields ++ toyVoucher (Toy.print (Toy.complete toyVouchedDigest fields))

theorem saidLaws_toyVouched : SaidLaws toyVouched := by
  refine saidLaws_toy (Toy.knownDigest_injective ?_)
  rw [List.length_cons, List.length_cons, List.length_singleton]
  omega

/-- A receiver is sent one of the interactions with its receipt and a judge the other: the backer
has receipted both. -/
theorem fork_vouched_toy :
    ∃ data ∈ [toyReceiptedEvent toyVouchedFields, toyReceiptedEvent toyFirstFields],
      ∃ data' ∈ [toyReceiptedEvent toyVouchedFields, toyReceiptedEvent toySecondFields],
        ∃ before after after', takes toyVouched (Toy.keyText 1) before data = some after ∧
          takes toyVouched (Toy.keyText 1) before data' = some after' ∧
          placeOf toyVouched data = placeOf toyVouched data' ∧
          saidOf toyVouched data ≠ saidOf toyVouched data' ∧
          ∃ W ⊆ backersOf after ∩ backersOf after',
            neededBy after + neededBy after' ≤
                (backersOf after ∪ backersOf after').card + W.card ∧
              ∀ w ∈ W, w ∈ vouchersOf toyVouched data ∧ w ∈ vouchersOf toyVouched data' := by
  have hsep : NoSeparator toyVouched := noSeparator_toy toyVouchedDigest
  have hstate : (((Party.receiver .sound).node toyVouched [toyReceiptedEvent toyVouchedFields,
        toyReceiptedEvent toyFirstFields]).store.tables.kels.entries.length ≤ maxMapSize ∧
      ((Party.judge .sound).node toyVouched [toyReceiptedEvent toyVouchedFields,
        toyReceiptedEvent toySecondFields]).store.tables.kels.entries.length ≤ maxMapSize) ∧
      ¬ ((Party.receiver .sound).node toyVouched [toyReceiptedEvent toyVouchedFields,
          toyReceiptedEvent toyFirstFields]).store.tables.kel (Toy.keyText 1) <+:
        ((Party.judge .sound).node toyVouched [toyReceiptedEvent toyVouchedFields,
          toyReceiptedEvent toySecondFields]).store.tables.kel (Toy.keyText 1) ∧
      ¬ ((Party.judge .sound).node toyVouched [toyReceiptedEvent toyVouchedFields,
          toyReceiptedEvent toySecondFields]).store.tables.kel (Toy.keyText 1) <+:
        ((Party.receiver .sound).node toyVouched [toyReceiptedEvent toyVouchedFields,
          toyReceiptedEvent toyFirstFields]).store.tables.kel (Toy.keyText 1) := by
    decide +kernel
  obtain ⟨⟨hP, hQ⟩, hle, hge⟩ := hstate
  rcases fork_vouched saidLaws_toyVouched hsep (.receiver .sound) (.judge .sound) _ _ hP hQ
    (Toy.keyText 1) with h | h | hfork
  · exact absurd h hle
  · exact absurd h hge
  · exact hfork

/-- The backer has receipted one of the interactions, and a judge is sent the other. -/
theorem majority_agrees_toy :
    ((Party.receiver .sound).node toyVouched [toyReceiptedEvent toyVouchedFields,
        toyReceiptedEvent toyFirstFields]).store.tables.kel (Toy.keyText 1) <+:
      ((Party.judge .sound).node toyVouched [toyReceiptedEvent toyVouchedFields,
        toyUnreceipted toySecondFields]).store.tables.kel (Toy.keyText 1) ∨
    ((Party.judge .sound).node toyVouched [toyReceiptedEvent toyVouchedFields,
        toyUnreceipted toySecondFields]).store.tables.kel (Toy.keyText 1) <+:
      ((Party.receiver .sound).node toyVouched [toyReceiptedEvent toyVouchedFields,
        toyReceiptedEvent toyFirstFields]).store.tables.kel (Toy.keyText 1) := by
  have hsep : NoSeparator toyVouched := noSeparator_toy toyVouchedDigest
  have hstate : ((Party.receiver .sound).node toyVouched [toyReceiptedEvent toyVouchedFields,
        toyReceiptedEvent toyFirstFields]).store.tables.kels.entries.length ≤ maxMapSize ∧
      ((Party.judge .sound).node toyVouched [toyReceiptedEvent toyVouchedFields,
        toyUnreceipted toySecondFields]).store.tables.kels.entries.length ≤ maxMapSize := by
    decide +kernel
  have hfew : ({Toy.keyText 5} : Finset String).card + (∅ : Finset String).card < 2 * 1 := by
    decide
  refine majority_agrees saidLaws_toyVouched hsep (.receiver .sound) (.judge .sound) _ _ hstate.1
    hstate.2 (Toy.keyText 1) (along_of_run ?_) (along_of_run ?_) hfew ?_
  · decide +kernel
  · decide +kernel
  · intro w hw _
    obtain rfl := Finset.mem_singleton.1 hw
    unfold OneVoice
    decide +kernel

end Keri
