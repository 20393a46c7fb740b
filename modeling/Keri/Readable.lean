/-
**Signatures that cannot be read.**

A signature that is read and does not verify is passed over, as is one of no key or of no backer.  A
signature that cannot be read as one of the key's algorithm ends the check with an error, wherever
it stands and however many others are valid.

* `Keri.Verfer.Reads` — the key and the signature are well formed;
* `Keri.signatures_decide_iff` — **the valid signatures decide exactly when all of those of a key
  can be read**, or too few are valid anyway;
* `Keri.unreadable_signature` — a threshold that is met, and an error;
* `Keri.validWitnesses` — the distinct backers with a valid receipt;
* `Keri.receipts_decide_iff` — **the same for receipts**, but for the ones after a valid receipt of
  the same backer, and for a threshold of zero;
* `Keri.unreadable_receipt` — a threshold that is met, and an error.
-/

import Keri.Receipts
import Keri.Toy

set_option relaxedAutoImplicit false
set_option autoImplicit false

namespace Keri

open Outcome

variable (X : Externals)

/-! ### What can be read -/

/-- The key is well formed and the signature is one of its algorithm. -/
def Verfer.Reads (v : Verfer) (signature : Bytes) : Prop :=
  if v.code ∈ ["B", "D"] then
    v.raw.length = 32 ∧ X.ed25519.keyOk v.raw = true ∧ signature.length = 64
  else if v.code ∈ ["1AAA", "1AAB"] then
    X.secp256k1.keyOk v.raw = true ∧ X.secp256k1.sigOk signature = true
  else if v.code ∈ ["1AAI", "1AAJ"] then
    X.secp256r1.keyOk v.raw = true ∧ X.secp256r1.sigOk signature = true
  else False

variable {X} {message : Bytes}

/-- **Verification has an answer exactly when the key and the signature can be read.** -/
theorem Verfer.reads_iff {v : Verfer} {signature : Bytes} :
    v.Reads X signature ↔ ∃ valid, v.verify X message signature = .ok valid := by
  unfold Verfer.Reads Verfer.verify
  split
  · simp only [Verfer.verifyEd25519, bind_eq_ok, ensure_eq_ok, pure_eq_ok]
    constructor
    · rintro ⟨hlen, hkey, hsig⟩
      exact ⟨_, ⟨⟩, hlen, ⟨⟩, hkey, ⟨⟩, hsig, rfl⟩
    · rintro ⟨_, _, hlen, _, hkey, _, hsig, -⟩
      exact ⟨hlen, hkey, hsig⟩
  · split
    · simp only [Verfer.verifySecp256k1, bind_eq_ok, ensure_eq_ok, pure_eq_ok]
      constructor
      · rintro ⟨hkey, hsig⟩
        exact ⟨_, ⟨⟩, hkey, ⟨⟩, hsig, rfl⟩
      · rintro ⟨_, _, hkey, _, hsig, -⟩
        exact ⟨hkey, hsig⟩
    · split
      · simp only [Verfer.verifySecp256r1, bind_eq_ok, ensure_eq_ok, pure_eq_ok]
        constructor
        · rintro ⟨hkey, hsig⟩
          exact ⟨_, ⟨⟩, hkey, ⟨⟩, hsig, rfl⟩
        · rintro ⟨_, _, hkey, _, hsig, -⟩
          exact ⟨hkey, hsig⟩
      · simp

/-! ### Indexed signatures -/

/-- **The valid signatures decide exactly when every signature with the index of a key can be
read,** or when the valid ones do not meet the threshold. -/
theorem signatures_decide_iff (X : Externals) (message : Bytes) (sigs : List Siger)
    (verfers : List Verfer) (threshold : Threshold) :
    (verifySigsStatic X message sigs verfers threshold = .ok () ↔
      threshold.isSatisfied (validIndices X message sigs verfers) verfers.length = true) ↔
    (∀ sig ∈ sigs, ∀ verfer, verfers[sig.index]? = some verfer → verfer.Reads X sig.raw) ∨
      threshold.isSatisfied (validIndices X message sigs verfers) verfers.length = false := by
  have hreads : SigsReadable X message sigs verfers ↔
      ∀ sig ∈ sigs, ∀ verfer, verfers[sig.index]? = some verfer → verfer.Reads X sig.raw :=
    forall₂_congr fun _ _ => forall₂_congr fun _ _ => Verfer.reads_iff.symm
  rw [verifySigsStatic_eq_ok, hreads]
  constructor
  · intro h
    by_cases hsat : threshold.isSatisfied (validIndices X message sigs verfers) verfers.length
    · exact Or.inl (h.2 hsat).1
    · exact Or.inr (Bool.eq_false_iff.2 hsat)
  · rintro (hall | hsat)
    · exact and_iff_right hall
    · rw [hsat]
      simp

/-- A signature of 114 bytes, at index 0. -/
def toyLongSiger : Siger := ⟨⟨"3A", 0, none, List.replicate 114 0⟩⟩

/-- A valid signature meets the threshold, and one that cannot be read fails the check. -/
theorem unreadable_signature :
    ¬ ∀ (X : Externals) (message : Bytes) (sigs : List Siger) (verfers : List Verfer)
      (threshold : Threshold),
      verifySigsStatic X message sigs verfers threshold = .ok () ↔
        threshold.isSatisfied (validIndices X message sigs verfers) verfers.length = true := by
  intro hclaim
  have hmet : (Threshold.simple 1).isSatisfied (validIndices Toy.lib [1]
      [Toy.siger 1 0 [1], toyLongSiger] [Toy.verfer 1]) [Toy.verfer 1].length = true := by
    decide +kernel
  have hfails : (verifySigsStatic Toy.lib [1] [Toy.siger 1 0 [1], toyLongSiger] [Toy.verfer 1]
      (.simple 1)).isOk = false := by
    decide +kernel
  rw [(hclaim _ _ _ _ _).2 hmet] at hfails
  cases hfails

/-! ### Receipts -/

/-- Does the receipt verify under its prefix? -/
def receiptValid (X : Externals) (message : Bytes) (couple : String × Bytes) : Bool :=
  match Verfer.fromQb64 X couple.1 with
  | .ok verfer =>
      match verfer.verify X message couple.2 with
      | .ok valid => valid
      | .error _ => false
  | .error _ => false

theorem receiptValid_iff {couple : String × Bytes} :
    receiptValid X message couple = true ↔ ValidReceipt X message couple := by
  unfold receiptValid ValidReceipt
  cases hverfer : Verfer.fromQb64 X couple.1 with
  | error e => simp
  | ok verfer =>
      cases hvalid : verfer.verify X message couple.2 with
      | error e => simp [hvalid]
      | ok valid => simp [hvalid]

/-- The distinct backers with a valid receipt. -/
def validWitnesses (X : Externals) (message : Bytes) (couples : List (String × Bytes))
    (backers : List String) : List String :=
  backers.dedup.filter fun p => couples.any fun c => decide (c.1 = p) && receiptValid X message c

theorem mem_validWitnesses {couples : List (String × Bytes)} {backers : List String} {p : String} :
    p ∈ validWitnesses X message couples backers ↔
      p ∈ backers ∧ ∃ c ∈ couples, c.1 = p ∧ ValidReceipt X message c := by
  simp only [validWitnesses, List.mem_filter, List.mem_dedup, List.any_eq_true, Bool.and_eq_true,
    decide_eq_true_eq, receiptValid_iff]

/-- The loop finds the backers with a valid receipt, if it comes to its end. -/
theorem length_validPrefixes {couples : List (String × Bytes)} {backers vs : List String}
    (h : validPrefixes X message backers [] couples = .ok vs) :
    vs.length = (validWitnesses X message couples backers).length := by
  obtain ⟨hnodup, hmem⟩ := validPrefixes_spec h List.nodup_nil
  have hnodup' : (validWitnesses X message couples backers).Nodup :=
    (List.nodup_dedup backers).filter _
  refine ((List.perm_ext_iff_of_nodup hnodup hnodup').2 fun p => ?_).length_eq
  rw [hmem, mem_validWitnesses]
  simp

/-- Every receipt of a backer that has no valid one before it can be read.  Backers in `acc` have
one. -/
def ReadableFrom (X : Externals) (message : Bytes) (backers acc : List String)
    (couples : List (String × Bytes)) : Prop :=
  ∀ pre c post, couples = pre ++ c :: post → c.1 ∈ backers → c.1 ∉ acc →
    (∀ c' ∈ pre, c'.1 = c.1 → ¬ ValidReceipt X message c') →
    ∃ verfer, Verfer.fromQb64 X c.1 = .ok verfer ∧ verfer.Reads X c.2

/-- Every receipt of a backer that has no valid one before it can be read. -/
def ReceiptsReadable (X : Externals) (message : Bytes) (couples : List (String × Bytes))
    (backers : List String) : Prop := ReadableFrom X message backers [] couples

variable {backers : List String}

/-- A receipt that is passed over need not be read. -/
theorem readableFrom_cons_skip {acc : List String} {c : String × Bytes}
    {couples : List (String × Bytes)} (hskip : c.1 ∉ backers ∨ c.1 ∈ acc) :
    ReadableFrom X message backers acc (c :: couples) ↔
      ReadableFrom X message backers acc couples := by
  constructor
  · intro h pre c' post hsplit hin hout hpre
    refine h (c :: pre) c' post (by rw [hsplit, List.cons_append]) hin hout ?_
    refine List.forall_mem_cons.2 ⟨fun hc => ?_, hpre⟩
    rw [hc] at hskip
    exact absurd hskip (not_or.2 ⟨not_not.2 hin, hout⟩)
  · intro h pre c' post hsplit hin hout hpre
    cases pre with
    | nil =>
        obtain ⟨rfl, rfl⟩ := List.cons.inj hsplit
        exact absurd hskip (not_or.2 ⟨not_not.2 hin, hout⟩)
    | cons c'' pre =>
        obtain ⟨rfl, rfl⟩ := List.cons.inj hsplit
        exact h pre c' post rfl hin hout fun d hd => hpre d (List.mem_cons_of_mem _ hd)

/-- A receipt that is not passed over is read, and its backer has a valid one if it is valid. -/
theorem readableFrom_cons_read {acc : List String} {c : String × Bytes}
    {couples : List (String × Bytes)} {valid : Bool}
    (hreads : ∃ verfer, Verfer.fromQb64 X c.1 = .ok verfer ∧ verfer.Reads X c.2)
    (hvalid : ValidReceipt X message c ↔ valid = true) :
    ReadableFrom X message backers acc (c :: couples) ↔
      ReadableFrom X message backers (if valid then acc ++ [c.1] else acc) couples := by
  have hacc : ∀ p, p ∉ (if valid then acc ++ [c.1] else acc) ↔
      p ∉ acc ∧ (c.1 = p → ¬ ValidReceipt X message c) := by
    intro p
    rw [hvalid]
    cases valid with
    | false => simp
    | true => simp [eq_comm]
  constructor
  · intro h pre c' post hsplit hin' hout' hpre
    obtain ⟨hout', hfirst⟩ := (hacc _).1 hout'
    exact h (c :: pre) c' post (by rw [hsplit, List.cons_append]) hin' hout'
      (List.forall_mem_cons.2 ⟨hfirst, hpre⟩)
  · intro h pre c' post hsplit hin' hout' hpre
    cases pre with
    | nil =>
        obtain ⟨rfl, rfl⟩ := List.cons.inj hsplit
        exact hreads
    | cons c'' pre =>
        obtain ⟨rfl, rfl⟩ := List.cons.inj hsplit
        exact h pre c' post rfl hin' ((hacc _).2 ⟨hout', hpre c List.mem_cons_self⟩)
          fun d hd => hpre d (List.mem_cons_of_mem _ hd)

/-- The loop over the receipts comes to its end exactly when those that it reads can be read. -/
theorem readableFrom_iff {acc : List String} {couples : List (String × Bytes)} :
    ReadableFrom X message backers acc couples ↔
      ∃ vs, validPrefixes X message backers acc couples = .ok vs := by
  induction couples generalizing acc with
  | nil =>
      refine ⟨fun _ => ⟨acc, rfl⟩, fun _ pre c post hsplit => ?_⟩
      cases pre <;> cases hsplit
  | cons c couples ih =>
      by_cases hskip : c.1 ∉ backers ∨ c.1 ∈ acc
      · rw [readableFrom_cons_skip hskip, ih]
        refine exists_congr fun vs => ?_
        rw [validPrefixes_cons_eq_ok]
        constructor
        · exact fun h => Or.inl ⟨hskip, h⟩
        · rintro (⟨-, h⟩ | ⟨⟨hin, hout⟩, -⟩)
          · exact h
          · exact absurd hskip (not_or.2 ⟨not_not.2 hin, hout⟩)
      · obtain ⟨hin, hout⟩ := not_or.1 hskip
        rw [not_not] at hin
        constructor
        · intro h
          obtain ⟨verfer, hverfer, hreads⟩ := h [] c couples rfl hin hout (by simp)
          obtain ⟨valid, hvalid⟩ := Verfer.reads_iff.1 hreads
          rw [readableFrom_cons_read ⟨verfer, hverfer, hreads⟩ (validReceipt_iff hverfer hvalid),
            ih] at h
          obtain ⟨vs, hvs⟩ := h
          exact ⟨vs, validPrefixes_cons_eq_ok.2
            (Or.inr ⟨⟨hin, hout⟩, verfer, valid, hverfer, hvalid, hvs⟩)⟩
        · rintro ⟨vs, h⟩
          obtain ⟨hskip', -⟩ | ⟨-, verfer, valid, hverfer, hvalid, hrest⟩ :=
            validPrefixes_cons_eq_ok.1 h
          · exact absurd hskip' hskip
          · have hreads : verfer.Reads X c.2 := Verfer.reads_iff.2 ⟨valid, hvalid⟩
            rw [readableFrom_cons_read ⟨verfer, hverfer, hreads⟩ (validReceipt_iff hverfer hvalid)]
            exact ih.2 ⟨vs, hrest⟩

/-- **The backers with a valid receipt decide exactly when every receipt of a backer that has no
valid one before it can be read,** or when there are too few of them, or when none is needed. -/
theorem receipts_decide_iff (X : Externals) (message : Bytes) (couples : List (String × Bytes))
    (backers : List String) (t : ℕ) :
    (verifyWitnessReceiptsStatic X message couples backers t = .ok () ↔
      t ≤ (validWitnesses X message couples backers).length) ↔
    t = 0 ∨ ReceiptsReadable X message couples backers ∨
      (validWitnesses X message couples backers).length < t := by
  have hok : verifyWitnessReceiptsStatic X message couples backers t = .ok () ↔
      t = 0 ∨ (ReceiptsReadable X message couples backers ∧
        t ≤ (validWitnesses X message couples backers).length) := by
    rw [verifyWitnessReceiptsStatic_eq_ok, ReceiptsReadable, readableFrom_iff]
    refine or_congr_right ⟨?_, ?_⟩
    · rintro ⟨vs, hvs, hle⟩
      exact ⟨⟨vs, hvs⟩, length_validPrefixes hvs ▸ hle⟩
    · rintro ⟨⟨vs, hvs⟩, hle⟩
      exact ⟨vs, hvs, (length_validPrefixes hvs).symm ▸ hle⟩
  rw [hok]
  rcases Nat.eq_zero_or_pos t with rfl | hpos
  · simp
  · have hne : t ≠ 0 := by omega
    simp only [hne, false_or]
    by_cases hle : t ≤ (validWitnesses X message couples backers).length
    · simp [hle, Nat.not_lt.2 hle]
    · simp [hle, Nat.lt_of_not_le hle]

/-- A valid receipt meets the threshold, and one that cannot be read fails the check. -/
theorem unreadable_receipt :
    ¬ ∀ (X : Externals) (message : Bytes) (couples : List (String × Bytes)) (backers : List String)
      (t : ℕ), verifyWitnessReceiptsStatic X message couples backers t = .ok () ↔
        t ≤ (validWitnesses X message couples backers).length := by
  intro hclaim
  have hmet : 1 ≤ (validWitnesses Toy.lib [1]
      [(Toy.keyText 1, []), (Toy.keyText 1, (Toy.siger 1 0 [1]).raw)] [Toy.keyText 1]).length := by
    decide +kernel
  have hfails : (verifyWitnessReceiptsStatic Toy.lib [1]
      [(Toy.keyText 1, []), (Toy.keyText 1, (Toy.siger 1 0 [1]).raw)] [Toy.keyText 1] 1).isOk =
        false := by
    decide +kernel
  rw [(hclaim _ _ _ _ _).2 hmet] at hfails
  cases hfails

end Keri
