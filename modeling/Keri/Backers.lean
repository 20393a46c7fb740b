/-
**Satisfiable witness thresholds.**

An inception installs its list of backers as it stands, and a rotation removes some and adds some.
A threshold is compared with the length of the list, and receipts are counted by distinct backers:
the two come to the same exactly where the inception names no backer twice.

* `Keri.BuildCall.backers`, `Keri.AdvanceCall.added` — the backers that an event names;
* `Keri.advance_backers` — **what an accepted event does to the backers**;
* `Keri.Satisfiable` — every backer is named once, and one receipt from each meets the threshold;
* `Keri.witness_threshold_iff` — **the threshold is satisfiable in every state** exactly when the
  inception names no backer twice and every backer named can sign;
* `Keri.witness_threshold_unsatisfiable` — an inception that names one backer twice.
-/

import Keri.Receipts
import Keri.Lineage

set_option relaxedAutoImplicit false
set_option autoImplicit false

namespace Keri

open Outcome

variable (X : Externals)

/-! ### The backers that events name -/

/-- The value of the inception. -/
def BuildCall.sad : BuildCall → Value
  | .new serder _ _ => serder.sad
  | .newFromParts _ sad _ _ => sad
  | .newDelegated serder _ _ _ _ => serder.sad

/-- The backers that the inception installs. -/
def BuildCall.backers (b : BuildCall) : List String :=
  match InceptionEvent.fromValue b.sad with
  | .ok icp => icp.backers
  | .error _ => []

/-- The backers that the event adds, if it is a rotation. -/
def AdvanceCall.added (c : AdvanceCall) : List String :=
  if c.ilk = some "ixn" then []
  else
    match RotationEvent.fromValue c.sad with
    | .ok rot => rot.backersAdd
    | .error _ => []

/-- The backer is named by the inception or by a rotation since. -/
def Named (b : BuildCall) (steps : List Advance) (p : String) : Prop :=
  p ∈ b.backers ∨ ∃ a ∈ steps, p ∈ a.call.added

/-- The states of a lineage: one before each event, and the last. -/
def passed (steps : List Advance) (k : Kever) : List Kever := steps.map Advance.before ++ [k]

/-- Every backer is named once, and a list of receipts, one from each, meets the threshold. -/
structure Satisfiable (s : KeyState) : Prop where
  nodup : s.backers.Nodup
  threshold_le : s.backerThreshold ≤ s.backers.length
  receipts : ∀ message, ∃ couples : List (String × Bytes), couples.map Prod.fst = s.backers ∧
    (∀ c ∈ couples, ValidReceipt X message c) ∧
    verifyWitnessReceiptsStatic X message couples s.backers s.backerThreshold = .ok ()

variable {X}

/-! ### One event -/

/-- Adding skips what is there. -/
theorem foldl_add_nodup (add : List String) {bs : List String} (h : bs.Nodup) :
    (add.foldl (fun bs b => if b ∈ bs then bs else bs ++ [b]) bs).Nodup := by
  induction add generalizing bs with
  | nil => exact h
  | cons p add ih =>
      rw [List.foldl_cons]
      refine ih ?_
      split
      · exact h
      · rename_i hp
        exact List.Nodup.append h (by simp) (by simpa using hp)

theorem mem_foldl_add {add bs : List String} {p : String} :
    p ∈ add.foldl (fun bs b => if b ∈ bs then bs else bs ++ [b]) bs ↔ p ∈ bs ∨ p ∈ add := by
  induction add generalizing bs with
  | nil => simp
  | cons q add ih =>
      rw [List.foldl_cons, ih, List.mem_cons]
      split
      · rename_i hq
        constructor
        · rintro (hp | hp)
          · exact Or.inl hp
          · exact Or.inr (Or.inr hp)
        · rintro (hp | rfl | hp)
          · exact Or.inl hp
          · exact Or.inl hq
          · exact Or.inr hp
      · rw [List.mem_append, List.mem_singleton, or_assoc]

/-- Cutting and adding names no backer twice. -/
theorem newBackers_nodup {backers : List String} (h : backers.Nodup) (remove add : List String) :
    (KeyState.newBackers backers remove add).Nodup :=
  foldl_add_nodup add (h.filter _)

theorem mem_newBackers {backers remove add : List String} {p : String} :
    p ∈ KeyState.newBackers backers remove add ↔ (p ∈ backers ∧ p ∉ remove) ∨ p ∈ add := by
  simp [KeyState.newBackers, mem_foldl_add]

/-- The event leaves backers and threshold alone, or cuts and adds backers and sets a threshold that
is at most their number. -/
inductive BackersStep (added : List String) (s t : KeyState) : Prop where
  | same : added = [] → t.backers = s.backers → t.backerThreshold = s.backerThreshold →
      BackersStep added s t
  | rotated (remove : List String) : t.backers = KeyState.newBackers s.backers remove added →
      t.backerThreshold ≤ t.backers.length → BackersStep added s t

theorem BackersStep.of_rotation {s t : KeyState} {rot : RotationEvent}
    (h : s.applyRotation X rot = .ok t) : BackersStep rot.backersAdd s t := by
  obtain ⟨-, -, -, -, bt, -, hle, rfl⟩ := KeyState.applyRotation_eq_ok.1 h
  exact .rotated rot.backersRemove rfl hle

theorem BackersStep.of_nextState {k : Kever} {raw : Bytes} {sigs : List Siger} {ilk : String}
    {t : KeyState} {c : AdvanceCall} (hilk : c.ilk = some ilk)
    (h : k.nextState X raw c.sad sigs ilk = .ok t) : BackersStep c.added k.state t := by
  rcases Kever.nextState_eq_ok.1 h with
    ⟨rfl, -, rot, verfers, hrot, -, -, happly⟩ | ⟨rfl, ixn, verfers, -, -, -, happly⟩
  · have hadded : c.added = rot.backersAdd := by simp [AdvanceCall.added, hilk, hrot]
    rw [hadded]
    exact .of_rotation happly
  · obtain ⟨-, -, -, rfl⟩ := KeyState.applyInteraction_eq_ok.1 happly
    exact .same (if_pos hilk) rfl rfl

/-- **What an accepted event does to the backers**, whichever way it comes. -/
theorem advance_backers {k k' : Kever} {c : AdvanceCall} (h : c.advance X k = .ok k') :
    BackersStep c.added k.state k'.state := by
  obtain ⟨t, rfl, ⟨raw, sigs, ilk, hilk, hnext⟩ | ⟨serder, sigs, proof, source, rfl, hverify⟩⟩ :=
    advance_inv h
  · exact .of_nextState hilk hnext
  · obtain ⟨-, -, hilk, -, drt, verfers, hdrt, -, -, -, happly⟩ :=
      Kever.verifyUpdateDelegated_eq_ok.1 hverify
    obtain ⟨-, -, hrot⟩ := KeyState.applyDelegatedRotation_eq_ok.1 happly
    have hilk' : AdvanceCall.ilk (.verifyUpdateDelegated serder sigs proof source) =
        some "drt" := ilk_of_serder hilk
    have hdecode : RotationEvent.fromValue serder.sad = .ok drt.toRotationEvent :=
      (DelegatedRotationEvent.fromValue_eq_ok.1 hdrt).1
    have hadded : AdvanceCall.added (.verifyUpdateDelegated serder sigs proof source) =
        drt.backersAdd := by
      simp [AdvanceCall.added, hilk', AdvanceCall.sad, hdecode]
    rw [hadded]
    exact .of_rotation hrot

/-- **What a constructor installs**: the state of the inception that its value is decoded to. -/
theorem build_decoded {b : BuildCall} {k : Kever} (h : b.build X = .ok k) :
    ∃ icp bt delegator, InceptionEvent.fromValue b.sad = .ok icp ∧ bt ≤ icp.backers.length ∧
      k.state = KeyState.ofInception icp bt delegator := by
  have hincept : ∀ {raw : Bytes} {sigs : List Siger} {verfers : List Verfer},
      Kever.incept X raw b.sad sigs verfers = .ok k →
      ∃ icp bt delegator, InceptionEvent.fromValue b.sad = .ok icp ∧ bt ≤ icp.backers.length ∧
        k.state = KeyState.ofInception icp bt delegator := by
    intro raw sigs verfers hincept
    obtain ⟨icp, hicp, -, -, -, hstate, -⟩ := Kever.incept_eq_ok.1 hincept
    obtain ⟨-, bt, -, hle, hstate⟩ := KeyState.fromInception_eq_ok.1 hstate
    exact ⟨icp, bt, none, hicp, hle, hstate⟩
  cases b with
  | new serder sigs verfers => exact hincept (Kever.new_eq_ok.1 h).2.2
  | newFromParts raw sad sigs verfers => exact hincept (Kever.newFromParts_eq_ok.1 h).2.2
  | newDelegated serder sigs verfers proof source =>
      obtain ⟨-, -, dip, hdip, -, -, -, -, hstate, -⟩ := Kever.newDelegated_eq_ok.1 h
      obtain ⟨-, -, bt, -, hle, hstate⟩ := KeyState.fromDelegatedInception_eq_ok.1 hstate
      exact ⟨dip.toInceptionEvent, bt, some dip.delegator,
        (DelegatedInceptionEvent.fromValue_eq_ok.1 hdip).1, hle, hstate⟩

/-- The backers that a constructor installs. -/
theorem build_backers {b : BuildCall} {k : Kever} (h : b.build X = .ok k) :
    k.state.backers = b.backers ∧ k.state.backerThreshold ≤ k.state.backers.length := by
  obtain ⟨icp, bt, delegator, hicp, hle, hstate⟩ := build_decoded h
  have hbackers : b.backers = icp.backers := by simp [BuildCall.backers, hicp]
  rw [hstate, hbackers]
  exact ⟨rfl, hle⟩

/-! ### Along a lineage -/

theorem mem_passed_concat {steps : List Advance} {a : Advance} {k j : Kever} :
    j ∈ passed (steps ++ [a]) k ↔ j ∈ passed steps a.before ∨ j = k := by
  simp [passed, or_assoc]

/-- A threshold is at most the number of backers, in every state. -/
theorem Lineage.threshold_le {b : BuildCall} {steps : List Advance} {k : Kever}
    (h : Lineage X b steps k) :
    ∀ k' ∈ passed steps k, k'.state.backerThreshold ≤ k'.state.backers.length := by
  induction h with
  | built hbuild =>
      intro k' hk'
      obtain rfl := List.mem_singleton.1 hk'
      exact (build_backers hbuild).2
  | @next steps k k' c _ hadvance ih =>
      intro j hj
      rcases mem_passed_concat.1 hj with hj | rfl
      · exact ih j hj
      · cases advance_backers hadvance with
        | same _ hbackers hbt =>
            rw [hbackers, hbt]
            exact ih k (List.mem_append_right _ List.mem_cons_self)
        | rotated remove _ hle => exact hle

/-- No backer is named twice in any state, exactly when none is at inception. -/
theorem Lineage.nodup_iff {b : BuildCall} {steps : List Advance} {k : Kever}
    (h : Lineage X b steps k) :
    (∀ k' ∈ passed steps k, k'.state.backers.Nodup) ↔ b.backers.Nodup := by
  induction h with
  | @built k hbuild =>
      obtain ⟨hbackers, -⟩ := build_backers hbuild
      rw [← hbackers]
      exact List.forall_mem_singleton
  | @next steps k k' c _ hadvance ih =>
      rw [← ih]
      constructor
      · exact fun hall j hj => hall j (mem_passed_concat.2 (Or.inl hj))
      · intro hall j hj
        rcases mem_passed_concat.1 hj with hj | rfl
        · exact hall j hj
        · have hk := hall k (List.mem_append_right _ List.mem_cons_self)
          cases advance_backers hadvance with
          | same _ hbackers _ => exact hbackers ▸ hk
          | rotated remove hbackers _ => exact hbackers ▸ newBackers_nodup hk remove _

/-- The backers of the states of a lineage are those that its events name. -/
theorem Lineage.named_iff {b : BuildCall} {steps : List Advance} {k : Kever}
    (h : Lineage X b steps k) (p : String) :
    (∃ k' ∈ passed steps k, p ∈ k'.state.backers) ↔ Named b steps p := by
  induction h with
  | @built k hbuild =>
      obtain ⟨hbackers, -⟩ := build_backers hbuild
      simp [passed, Named, hbackers]
  | @next steps k k' c _ hadvance ih =>
      have hnamed : Named b (steps ++ [{ before := k, call := c, after := k' }]) p ↔
          Named b steps p ∨ p ∈ c.added := by
        simp only [Named, List.mem_append, List.mem_singleton, or_and_right, exists_or,
          exists_eq_left, or_assoc]
      rw [hnamed, ← ih]
      have hk : k ∈ passed steps k := List.mem_append_right _ List.mem_cons_self
      constructor
      · rintro ⟨j, hj, hp⟩
        rcases mem_passed_concat.1 hj with hj | rfl
        · exact Or.inl ⟨j, hj, hp⟩
        · cases advance_backers hadvance with
          | same _ hbackers _ => exact Or.inl ⟨k, hk, hbackers ▸ hp⟩
          | rotated remove hbackers _ =>
              rw [hbackers, mem_newBackers] at hp
              exact hp.imp (fun hp => ⟨k, hk, hp.1⟩) id
      · rintro (⟨j, hj, hp⟩ | hp)
        · exact ⟨j, mem_passed_concat.2 (Or.inl hj), hp⟩
        · refine ⟨k', mem_passed_concat.2 (Or.inr rfl), ?_⟩
          cases advance_backers hadvance with
          | same hadded _ _ => simp [hadded] at hp
          | rotated remove hbackers _ =>
              rw [hbackers, mem_newBackers]
              exact Or.inr hp

/-! ### Satisfiable thresholds -/

/-- With a threshold that is at most the number of backers, it is satisfiable exactly when no backer
is named twice and each can sign. -/
theorem satisfiable_iff {s : KeyState} (hle : s.backerThreshold ≤ s.backers.length) :
    Satisfiable X s ↔ s.backers.Nodup ∧ ∀ p ∈ s.backers, ∀ message, Signable X message p := by
  constructor
  · intro h
    refine ⟨h.nodup, fun p hp message => ?_⟩
    obtain ⟨couples, hfst, hvalid, -⟩ := h.receipts message
    rw [← hfst] at hp
    obtain ⟨⟨p', sigRaw⟩, hc, rfl⟩ := List.mem_map.1 hp
    exact ⟨sigRaw, hvalid _ hc⟩
  · rintro ⟨hnodup, hsign⟩
    refine ⟨hnodup, hle, fun message => ?_⟩
    have hsigners : ∀ p ∈ s.backers, p ∈ signers X message s.backers :=
      fun p hp => mem_signers.2 ⟨hp, hsign p hp message⟩
    obtain ⟨couples, hfst, hall⟩ := exists_receipts s.backers hsigners
    obtain ⟨vs, hvs⟩ := validPrefixes_of_valid hall []
    obtain ⟨-, hmem⟩ := validPrefixes_spec hvs List.nodup_nil
    -- every backer has been counted, and they are distinct
    have hsub : s.backers ⊆ vs := by
      intro p hp
      rw [← hfst] at hp
      obtain ⟨c, hc, rfl⟩ := List.mem_map.1 hp
      exact (hmem c.1).2 (Or.inr ⟨(hall c hc).1, c, hc, rfl, (hall c hc).2⟩)
    have hlen : s.backers.length ≤ vs.length := (hnodup.subperm hsub).length_le
    exact ⟨couples, hfst, fun c hc => (hall c hc).2,
      verifyWitnessReceiptsStatic_eq_ok.2 (Or.inr ⟨vs, hvs, by omega⟩)⟩

/-- **When the witness threshold is always satisfiable.**  No state of a lineage has a backer twice
or a threshold above their number, exactly when the inception names no backer twice; and one receipt
from each backer can be had and meets the threshold in every state exactly when, besides, every
backer that the inception or a rotation names can sign. -/
theorem witness_threshold_iff {b : BuildCall} {steps : List Advance} {k : Kever}
    (h : Lineage X b steps k) :
    ((∀ k' ∈ passed steps k, k'.state.backers.Nodup ∧
        k'.state.backerThreshold ≤ k'.state.backers.length) ↔ b.backers.Nodup) ∧
      ((∀ k' ∈ passed steps k, Satisfiable X k'.state) ↔
        b.backers.Nodup ∧ ∀ p, Named b steps p → ∀ message, Signable X message p) := by
  have hle := h.threshold_le
  have hnodup := h.nodup_iff
  refine ⟨?_, ?_⟩
  · rw [← hnodup]
    exact ⟨fun hall k' hk' => (hall k' hk').1, fun hall k' hk' => ⟨hall k' hk', hle k' hk'⟩⟩
  · rw [← hnodup]
    constructor
    · intro hall
      refine ⟨fun k' hk' => (hall k' hk').nodup, fun p hp message => ?_⟩
      obtain ⟨k', hk', hp⟩ := (h.named_iff p).2 hp
      exact ((satisfiable_iff (hle k' hk')).1 (hall k' hk')).2 p hp message
    · rintro ⟨hall, hsign⟩ k' hk'
      refine (satisfiable_iff (hle k' hk')).2 ⟨hall k' hk', fun p hp message => ?_⟩
      exact hsign p ((h.named_iff p).1 ⟨k', hk', hp⟩) message

/-! ### Two inceptions with witnesses -/

/-- An inception of key 1 with given backers and threshold. -/
def toyWitnessed (bt : String) (backers : List UInt8) : Serder :=
  Toy.serderOf Toy.checksumDigest (Toy.eventBytes
    (Fields.insert "bt" (.string bt)
      (Fields.insert "b" (Toy.strings (backers.map Toy.keyText)) (Toy.icpFields "1" "1" [1] [2]))))

def toyWitnessedBuild (bt : String) (backers : List UInt8) : BuildCall :=
  .new (toyWitnessed bt backers) [Toy.siger 1 0 (toyWitnessed bt backers).raw] [Toy.verfer 1]

/-- A rotation to key 2 that puts backer 7 in the place of backer 6. -/
def toyWitnessedRot : Serder :=
  let icp := toyWitnessed "2" [5, 6]
  Toy.serderOf Toy.checksumDigest (Toy.eventBytes
    (Fields.insert "bt" (.string "2")
      (Fields.insert "br" (Toy.strings [Toy.keyText 6])
        (Fields.insert "ba" (Toy.strings [Toy.keyText 7])
          (Toy.rotFields (Toy.pfxOf icp) (Toy.saidOf icp) "1" "1" "1" [2] [3])))))

def toyWitnessedUpdate : AdvanceCall :=
  .update toyWitnessedRot [Toy.siger 2 0 toyWitnessedRot.raw]

/-- A toy key that can sign one message can sign any. -/
theorem signable_toy {p : String} (signature : Bytes)
    (h : (Verfer.fromQb64 Toy.lib p).toOption.any
      (fun v => decide (v.verify Toy.lib [] signature = .ok true)) = true) (message : Bytes) :
    Signable Toy.lib message p := by
  obtain ⟨verfer, hverfer, hverify⟩ := exists_ok_of_any h
  obtain ⟨sigRaw, hsig⟩ := canSign_toy Toy.checksumDigest verfer [] message signature
    (of_decide_eq_true hverify)
  exact ⟨sigRaw, verfer, hverfer, hsig⟩

/-- Two backers and a threshold of 2, before and after a rotation that cuts one and adds one. -/
theorem witness_threshold_toy : ∃ k k',
    Lineage Toy.lib (toyWitnessedBuild "2" [5, 6])
      [{ before := k, call := toyWitnessedUpdate, after := k' }] k' ∧
    k'.state.backers = [Toy.keyText 5, Toy.keyText 7] ∧ k'.state.backerThreshold = 2 ∧
    Satisfiable Toy.lib k.state ∧ Satisfiable Toy.lib k'.state := by
  obtain ⟨k, hk, h⟩ := exists_ok_of_any (x := (toyWitnessedBuild "2" [5, 6]).build Toy.lib)
    (p := fun k => (toyWitnessedUpdate.advance Toy.lib k).toOption.any fun k' : Kever =>
      decide (k'.state.backers = [Toy.keyText 5, Toy.keyText 7] ∧ k'.state.backerThreshold = 2))
    (by decide +kernel)
  obtain ⟨k', hk', h⟩ := exists_ok_of_any h
  obtain ⟨hbackers, hbt⟩ := of_decide_eq_true h
  have hlineage : Lineage Toy.lib (toyWitnessedBuild "2" [5, 6])
      [{ before := k, call := toyWitnessedUpdate, after := k' }] k' := (Lineage.built hk).next hk'
  have hnamed : (toyWitnessedBuild "2" [5, 6]).backers = [Toy.keyText 5, Toy.keyText 6] ∧
      toyWitnessedUpdate.added = [Toy.keyText 7] := by
    decide +kernel
  have hnodup : (toyWitnessedBuild "2" [5, 6]).backers.Nodup := by
    rw [hnamed.1]
    decide +kernel
  have hvalid : ∀ n ∈ [5, 6, 7], (Verfer.fromQb64 Toy.lib (Toy.keyText n)).toOption.any
      (fun v => decide (v.verify Toy.lib [] (Toy.seed n ++ Toy.checksumBytes 32 []) =
        .ok true)) = true := by
    decide +kernel
  have hsign : ∀ n ∈ [5, 6, 7], ∀ message, Signable Toy.lib message (Toy.keyText n) :=
    fun n hn => signable_toy _ (hvalid n hn)
  obtain ⟨-, hiff⟩ := witness_threshold_iff hlineage
  have hall := hiff.2 ⟨hnodup, fun p hp => by
    rcases hp with hp | ⟨a, ha, hp⟩
    · rw [hnamed.1, List.mem_pair] at hp
      rcases hp with rfl | rfl
      · exact hsign 5 (by simp)
      · exact hsign 6 (by simp)
    · rw [List.mem_singleton.1 ha, hnamed.2, List.mem_singleton] at hp
      exact hp ▸ hsign 7 (by simp)⟩
  exact ⟨k, k', hlineage, hbackers, hbt, hall k (by simp [passed]), hall k' (by simp [passed])⟩

/-- A threshold that nothing can meet: an inception that names one backer twice and asks for two is
accepted. -/
theorem witness_threshold_unsatisfiable :
    ¬ ∀ (X : Externals) (b : BuildCall) (steps : List Advance) (k : Kever), Lineage X b steps k →
      k.state.backers.Nodup ∧ k.state.backerThreshold ≤ k.state.backers.length ∧
        ∀ message, ∃ couples, verifyWitnessReceiptsStatic X message couples k.state.backers
          k.state.backerThreshold = .ok () := by
  intro hclaim
  obtain ⟨k, hk, h⟩ := exists_ok_of_any (x := (toyWitnessedBuild "2" [5, 5]).build Toy.lib)
    (p := fun k => decide (k.state.backerThreshold = 2 ∧
      k.state.backers = [Toy.keyText 5, Toy.keyText 5])) (by decide +kernel)
  obtain ⟨hbt, hbackers⟩ := of_decide_eq_true h
  obtain ⟨-, -, hreceipts⟩ := hclaim _ _ _ _ (Lineage.built hk)
  -- receipts from one backer count once
  have htwo := exists_receipts_iff.1 (hreceipts [])
  have hsub : signers Toy.lib [] k.state.backers ⊆ {Toy.keyText 5} := by
    intro p hp
    obtain ⟨hp, -⟩ := mem_signers.1 hp
    simpa [hbackers] using hp
  have hone := Finset.card_le_card hsub
  rw [Finset.card_singleton] at hone
  omega

end Keri
