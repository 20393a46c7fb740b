/-
**Witness configurations that verifiers refuse.**

An identifier keeps its witness threshold for ever, takes any backers at its inception, and drops
and adds backers with every rotation.  It never compares the threshold with their number; verifiers
do, and refuse an inception or a rotation whose threshold exceeds its backers.

* `Keri.Hab.Created`, `Keri.Hab.Use`, `Keri.Hab.runUses` — new identifiers and sequences of calls,
  each with a store or without;
* `Keri.Hab.WitnessesMet` — the threshold is at most the number of backers;
* `Keri.sealEvent_body` — a signed event has the fields that it was made of;
* `Keri.RefusedForBackers`, `Keri.KeyState.fromInception_refused_iff`,
  `Keri.KeyState.applyRotation_refused_iff` — verifiers that refuse an event for its threshold;
* `Keri.Hab.witnesses_met_iff` — **the threshold is met throughout exactly when the configuration
  and each rotation leave enough backers**, and events are refused exactly when it is not met after
  them;
* `Keri.Hab.witnesses_removed` — an identifier that removes its only witness.
-/

import Keri.KeyState
import Keri.Resume
import Keri.Sealing

set_option relaxedAutoImplicit false
set_option autoImplicit false

namespace Keri

open Outcome Machine

variable {X : Externals} {disk : Disk}

/-! ### Events that verifiers refuse -/

/-- Refused since the witness threshold exceeds the number of backers. -/
def RefusedForBackers (r : Except CoreError KeyState) : Prop :=
  ∃ bt n : ℕ, r = .error (.validation s!"backer threshold ({bt}) exceeds backer count ({n})")

/-- The threshold of the inception exceeds its backers. -/
def InceptionEvent.Overreaches (e : InceptionEvent) : Prop :=
  ∃ bt, fromStrRadix 10 u64Bound e.backerThreshold = some bt ∧ e.backers.length < bt

/-- The threshold of the rotation exceeds the backers that it leaves. -/
def RotationEvent.Overreaches (e : RotationEvent) (backers : List String) : Prop :=
  ∃ bt, fromStrRadix 10 u64Bound e.backerThreshold = some bt ∧
    (KeyState.newBackers backers e.backersRemove e.backersAdd).length < bt

/-- The rotation passes the checks that come before the one of its witness threshold. -/
structure RotationEvent.Continues (X : Externals) (e : RotationEvent) (s : KeyState) : Prop where
  sn : fromStrRadix 16 u64Bound e.sn = some (u64Succ s.sn)
  pfx : e.pfx = s.pfx
  prior : e.priorSaid = s.lastEventDigest
  keys : List.Forall₂ (KeyMatches X) e.keys s.nextKeys

/-- The text begins with the letter. -/
def BeginsWith (c : Char) (text : String) : Prop := text.toList.head? = some c

instance (c : Char) (text : String) : Decidable (BeginsWith c text) :=
  inferInstanceAs (Decidable (text.toList.head? = some c))

theorem BeginsWith.append {c : Char} {s : String} (h : BeginsWith c s) (t : String) :
    BeginsWith c (s ++ t) := by
  unfold BeginsWith at h ⊢
  rw [String.toList_append, List.head?_append, h]
  rfl

/-- No other text of these checks begins with the letter that the refusal begins with. -/
theorem ne_refusal {c : Char} {text : String} (h : BeginsWith c text) (hc : c ≠ 'b') (bt n : ℕ) :
    CoreError.validation text ≠
      .validation s!"backer threshold ({bt}) exceeds backer count ({n})" := by
  intro heq
  have hb : BeginsWith 'b' text := by
    rw [CoreError.validation.inj heq]
    have hfirst : BeginsWith 'b' "backer threshold (" := by decide
    exact (((hfirst.append _).append _).append _).append _
  exact hc (Option.some_inj.1 (h.symm.trans hb))

namespace KeyState

/-- An inception is refused for its threshold when it is one and the threshold exceeds its
backers. -/
theorem fromInception_refused_iff {e : InceptionEvent} :
    RefusedForBackers (fromInception e) ↔
      fromStrRadix 16 u64Bound e.sn = some 0 ∧ e.Overreaches := by
  unfold RefusedForBackers
  simp only [fromInception, parseSn, parseBackerThreshold, bind_eq_error, okOr_eq_error,
    okOr_eq_ok, ensure_eq_error, ensure_eq_ok, pure_ne_error]
  constructor
  · rintro ⟨bt, n, ⟨-, h⟩ | ⟨sn, hsn, ⟨-, h⟩ | ⟨_, rfl, ⟨-, h⟩ | ⟨bt', hbt, ⟨hle, -⟩ | ⟨_, -, ⟨⟩⟩⟩⟩⟩⟩
    · have hi : BeginsWith 'i' "invalid sequence number: " := by decide
      exact absurd h (ne_refusal (hi.append _) (by decide) bt n)
    · have hi : BeginsWith 'i' "inception event must have sn=0, got " := by decide
      exact absurd h (ne_refusal (hi.append _) (by decide) bt n)
    · have hi : BeginsWith 'i' "invalid backer threshold: " := by decide
      exact absurd h (ne_refusal (hi.append _) (by decide) bt n)
    · exact ⟨hsn, bt', hbt, Nat.lt_of_not_le hle⟩
  · rintro ⟨hsn, bt, hbt, hlt⟩
    exact ⟨bt, _, Or.inr ⟨0, hsn, Or.inr ⟨⟨⟩, rfl, Or.inr ⟨bt, hbt, Or.inl
      ⟨Nat.not_le.2 hlt, rfl⟩⟩⟩⟩⟩

/-- A key that does not match its commitment is refused for that. -/
theorem verifyNextKeys_ne_refusal {keys nextKeys : List String} {i : ℕ} (bt n : ℕ) :
    verifyNextKeys X i keys nextKeys ≠
      .error (.validation s!"backer threshold ({bt}) exceeds backer count ({n})") := by
  induction keys generalizing i nextKeys with
  | nil => intro h; cases h
  | cons key keys ih =>
      cases nextKeys with
      | nil => intro h; cases h
      | cons digest nextKeys =>
          intro h
          simp only [verifyNextKeys, verifyNextKey, bind_eq_error, mapError_eq_error,
            ensure_eq_error] at h
          rcases h with (⟨e, -, h⟩ | ⟨_, -, ⟨e, -, h⟩ | ⟨_, -, ⟨e, -, h⟩ | ⟨_, -, -, h⟩⟩⟩) |
            ⟨_, -, h⟩
          · have hi : BeginsWith 'i' "invalid rotation key at index " := by decide
            exact absurd h (ne_refusal (((hi.append _).append _).append _) (by decide) bt n)
          · have hi : BeginsWith 'i' "invalid next-key digest at index " := by decide
            exact absurd h (ne_refusal (((hi.append _).append _).append _) (by decide) bt n)
          · have hf : BeginsWith 'f' "failed to verify next-key commitment at index " := by decide
            exact absurd h (ne_refusal (((hf.append _).append _).append _) (by decide) bt n)
          · have hr : BeginsWith 'r' "rotation key at index " := by decide
            exact absurd h (ne_refusal ((hr.append _).append _) (by decide) bt n)
          · exact ih h

/-- A rotation is refused for its threshold when it passes the checks before and the threshold
exceeds the backers that it leaves. -/
theorem applyRotation_refused_iff {s : KeyState} {e : RotationEvent} :
    RefusedForBackers (applyRotation X s e) ↔ e.Continues X s ∧ e.Overreaches s.backers := by
  unfold RefusedForBackers
  simp only [applyRotation, parseSn, parseBackerThreshold, bind_eq_error, okOr_eq_error,
    okOr_eq_ok, ensure_eq_error, ensure_eq_ok, pure_ne_error, verifyNextKeyCommitment_eq_ok]
  constructor
  · rintro ⟨bt, n, ⟨-, h⟩ | ⟨sn, hsn, ⟨-, h⟩ | ⟨_, rfl, ⟨-, h⟩ | ⟨_, hpfx, ⟨-, h⟩ | ⟨_, hprior, h |
      ⟨_, hkeys, ⟨-, h⟩ | ⟨bt', hbt, ⟨hle, -⟩ | ⟨_, -, ⟨⟩⟩⟩⟩⟩⟩⟩⟩⟩
    · have hi : BeginsWith 'i' "invalid sequence number: " := by decide
      exact absurd h (ne_refusal (hi.append _) (by decide) bt n)
    · cases h
    · cases h
    · have hp : BeginsWith 'p' "prior SAID mismatch: expected '" := by decide
      exact absurd h (ne_refusal ((((hp.append _).append _).append _).append _) (by decide) bt n)
    · simp only [verifyNextKeyCommitment, bind_eq_error, ensure_eq_error] at h
      rcases h with ⟨-, h⟩ | ⟨_, -, h⟩
      · have hr : BeginsWith 'r' "rotation key count (" := by decide
        exact absurd h (ne_refusal (((hr.append _).append _).append _) (by decide) bt n)
      · exact absurd h (verifyNextKeys_ne_refusal bt n)
    · have hi : BeginsWith 'i' "invalid backer threshold: " := by decide
      exact absurd h (ne_refusal (hi.append _) (by decide) bt n)
    · exact ⟨⟨hsn, hpfx, hprior, hkeys⟩, bt', hbt, Nat.lt_of_not_le hle⟩
  · rintro ⟨⟨hsn, hpfx, hprior, hkeys⟩, bt, hbt, hlt⟩
    exact ⟨bt, _, Or.inr ⟨_, hsn, Or.inr ⟨⟨⟩, rfl, Or.inr ⟨⟨⟩, hpfx, Or.inr ⟨⟨⟩, hprior,
      Or.inr ⟨⟨⟩, hkeys, Or.inr ⟨bt, hbt, Or.inl ⟨Nat.not_le.2 hlt, rfl⟩⟩⟩⟩⟩⟩⟩⟩

end KeyState

/-! ### Emitted events -/

/-- Building a body changes its version string only, and the bytes are those of the body. -/
theorem serder_new_body {sad : Value} {serder : Serder} (h : Serder.new X .json sad = .ok serder) :
    X.json.toVec serder.sad = .ok serder.raw ∧
      ∀ k, k ≠ "v" → serder.sad.get k = sad.get k := by
  have hset : ∀ (w : Value) (vs k : String), k ≠ "v" → (setVersionField w vs).get k = w.get k := by
    intro w vs k hk
    cases w with
    | object obj =>
        rw [setVersionField, Value.get_object, Value.get_object, Fields.get_insert_of_ne hk]
    | _ => rfl
  cases hv : versionText sad with
  | some vs =>
      obtain ⟨raw₀, raw₁, -, -, -, hsad, hraw, -⟩ := (serder_new_eq_ok hv).1 h
      refine ⟨hraw, fun k hk => ?_⟩
      rw [hsad, hset _ _ k hk, hset _ _ k hk]
  | none =>
      obtain ⟨hraw, -, -, hsad⟩ := Serder.new_of_versionText_none hv h
      exact ⟨hsad ▸ mapError_eq_ok.1 hraw, fun _ _ => hsad ▸ rfl⟩

/-- **A signed event has the fields that it was made of**, but for its version string, its SAID and
its identifier. -/
theorem sealEvent_body {fields : Fields} {signers : List Signer} {event : Hab.SignedEvent}
    (h : sealEvent X fields signers = .ok event) :
    ∃ sad : Value, X.json.toVec sad = .ok event.raw ∧
      ∀ k, k ∉ ["v", "d", "i"] → sad.get k = Fields.get k fields := by
  simp only [sealEvent, bind_eq_ok, mapError_eq_ok, pure_eq_ok] at h
  obtain ⟨fixed, hfixed, ⟨said, sad⟩, hsaid, serder, hserder, _, -, _, -, _, -, _, -, rfl⟩ := h
  obtain ⟨hraw, hkept⟩ := serder_new_body hserder
  refine ⟨serder.sad, hraw, fun k hk => ?_⟩
  simp only [List.mem_cons, List.not_mem_nil, or_false, not_or] at hk
  obtain ⟨hkv, hkd, hki⟩ := hk
  have hplaceheld : Fields.get k (placeheld fields) = Fields.get k fields := by
    simp only [placeheld]
    split <;> simp [Fields.get_insert_of_ne hki, Fields.get_insert_of_ne hkd]
  have hfix : Fields.get k fixed = Fields.get k fields := by
    simp only [fixVersionString, bind_eq_ok, pure_eq_ok] at hfixed
    obtain ⟨_, -, rfl⟩ := hfixed
    rw [Fields.get_insert_of_ne hki, Fields.get_insert_of_ne hkd, Fields.get_insert_of_ne hkv,
      hplaceheld]
  obtain ⟨_, len, _, hobj, -, -, -, -, rfl⟩ := computeSaid_eq_ok.1 hsaid
  obtain rfl := Value.object.inj hobj
  rw [hkept k hkv, Value.get_object, get_fillSaid_of_ne hkd hki, dummied,
    get_fillSaid_of_ne hkd hki, hfix]

/-- A field of texts of a body. -/
theorem field_readStrings {sad : Value} {k : String} {texts texts' : List String}
    (hget : sad.get k = some (textArray texts)) (h : field readStrings k sad = .ok texts') :
    texts' = texts := by
  obtain ⟨x, hx, hread⟩ := field_eq_ok.1 h
  obtain rfl := Option.some_inj.1 (hget.symm.trans hx)
  exact Except.ok.inj (hread.symm.trans (readStrings_textArray texts))

/-- The witness threshold and the backers of an emitted inception. -/
theorem inception_witnesses {sad : Value} {config : InceptionConfig} {keys digests : List String}
    {icp : InceptionEvent} (hsad : ∀ k, k ∉ ["v", "d", "i"] →
      sad.get k = Fields.get k (inceptionFields config keys digests))
    (h : InceptionEvent.fromValue sad = .ok icp) :
    icp.sn = "0" ∧ icp.backerThreshold = decimal config.backerThreshold ∧
      icp.backers = config.backers := by
  simp only [InceptionEvent.fromValue, bind_eq_ok, string_field_eq_ok, pure_eq_ok] at h
  obtain ⟨_, -, _, -, _, -, _, -, sn, hsn, _, -, _, -, _, -, _, -, bt, hbt, backers, hbackers, _, -,
    _, -, rfl⟩ := h
  rw [hsad _ (by decide)] at hsn hbt
  refine ⟨?_, ?_, field_readStrings (hsad "b" (by decide)) hbackers⟩
  · exact (Value.string.inj (Option.some_inj.1 hsn)).symm
  · exact (Value.string.inj (Option.some_inj.1 hbt)).symm

/-- The witness threshold of an emitted rotation, and the backers that it drops and adds. -/
theorem rotation_witnesses {sad : Value} {h : Hab} {config : RotationConfig} {sn : ℕ}
    {keys digests : List String} {rot : RotationEvent} (hsad : ∀ k, k ∉ ["v", "d", "i"] →
      sad.get k = Fields.get k (h.rotationFields config sn keys digests))
    (hrot : RotationEvent.fromValue sad = .ok rot) :
    rot.backerThreshold = decimal h.backerThreshold ∧ rot.backersRemove = config.backersRemove ∧
      rot.backersAdd = config.backersAdd := by
  simp only [RotationEvent.fromValue, bind_eq_ok, string_field_eq_ok, pure_eq_ok] at hrot
  obtain ⟨_, -, _, -, _, -, _, -, _, -, _, -, _, -, _, -, _, -, _, -, bt, hbt, br, hbr, ba, hba, _, -,
    _, -, rfl⟩ := hrot
  rw [hsad _ (by decide)] at hbt
  refine ⟨?_, field_readStrings (hsad "br" (by decide)) hbr,
    field_readStrings (hsad "ba" (by decide)) hba⟩
  exact (Value.string.inj (Option.some_inj.1 hbt)).symm

/-! ### Calls with a store or without -/

namespace Hab

/-- A call, with the store that it is given. -/
structure Use where
  store : Option Store
  call : Call

variable (X disk)

/-- A new identifier with its inception, stored or not. -/
inductive Created (config : InceptionConfig) : SignedEvent → Hab → Prop where
  | event {name : String} {random habBytes : Bytes} {event : SignedEvent} {hab : Hab} :
      inceptEvent X name config random = .ok (hab, event, habBytes) → Created config event hab
  | stored {name : String} {random : Bytes} {event : SignedEvent} {hab : Hab}
      {store store' : Store} :
      incept X disk name config random store = .ok (hab, event) store' → Created config event hab

/-- The identifier after a call, whether it succeeds or not. -/
def stepUse (h : Hab) (u : Use) : Hab := (stateAfter (call X disk u.call ⟨h, u.store⟩)).hab

/-- The identifier after a sequence of calls. -/
def runUses (h : Hab) (uses : List Use) : Hab := run (stepUse X disk) h uses

/-- The call returns the event. -/
def Returns (h : Hab) (u : Use) (event : SignedEvent) : Prop :=
  ∃ k, call X disk u.call ⟨h, u.store⟩ = .ok event k

/-- The witness threshold is at most the number of backers. -/
def WitnessesMet (h : Hab) : Prop := h.backerThreshold ≤ h.backers.length

/-- The backers that a rotation keeps. -/
def kept (h : Hab) (config : RotationConfig) : List String :=
  h.backers.filter (· ∉ config.backersRemove)

/-- If the call is a rotation, the backers that it keeps and the distinct ones that it adds to them
are at least as many as the threshold. -/
def Sustains (h : Hab) (c : Call) : Prop :=
  match c with
  | .rotate config => h.backerThreshold ≤
      (h.kept config).length + (config.backersAdd.toFinset \ (h.kept config).toFinset).card
  | .interact _ => True

variable {X disk}

theorem Created.incepted {config : InceptionConfig} {event : SignedEvent} {hab : Hab}
    (h : Created X disk config event hab) : ∃ name random habBytes,
      inceptEvent X name config random = .ok (hab, event, habBytes) := by
  cases h with
  | event hok => exact ⟨_, _, _, hok⟩
  | stored hok =>
      unfold incept at hok
      rw [bind_run_ok] at hok
      obtain ⟨⟨hab', event', habBytes⟩, _, hlift, hrest⟩ := hok
      obtain ⟨hincept, rfl⟩ := lift_run_ok.1 hlift
      obtain ⟨_, _, -, hpure⟩ := bind_run_ok.1 hrest
      obtain ⟨hpair, -⟩ := EStateM.Result.ok.inj hpure
      obtain ⟨rfl, rfl⟩ := Prod.mk.inj hpair
      exact ⟨_, _, _, hincept⟩

/-- Adding backers one by one adds those that are not there. -/
theorem length_foldl_add (add bs : List String) :
    (add.foldl (fun bs b => if b ∈ bs then bs else bs ++ [b]) bs).length =
      bs.length + (add.toFinset \ bs.toFinset).card := by
  induction add generalizing bs with
  | nil => simp
  | cons b add ih =>
      rw [List.foldl_cons, ih, List.toFinset_cons]
      split
      · rename_i hb
        rw [Finset.insert_sdiff_of_mem _ (List.mem_toFinset.2 hb)]
      · rename_i hb
        have hinsert : insert b add.toFinset \ bs.toFinset =
            insert b (add.toFinset \ (bs ++ [b]).toFinset) := by
          ext p
          by_cases hp : p = b
          · simp [hp, hb]
          · simp [hp]
        have hnew : b ∉ add.toFinset \ (bs ++ [b]).toFinset := by simp
        rw [hinsert, Finset.card_insert_of_notMem hnew, List.length_append, List.length_singleton]
        omega

/-- **What a call does to threshold and backers**: only a rotation that succeeds changes the
backers. -/
theorem stepUse_cases (h : Hab) (u : Use) :
    (stepUse X disk h u).backerThreshold = h.backerThreshold ∧
      ((stepUse X disk h u).backers = h.backers ∧
          (∀ config event, u.call = .rotate config → ¬ Returns X disk h u event) ∨
        ∃ config event newNextSigners, u.call = .rotate config ∧ Returns X disk h u event ∧
          h.rotation X config h.nextSigners = .ok (newNextSigners, event) ∧
          (stepUse X disk h u).backers =
            KeyState.newBackers h.backers config.backersRemove config.backersAdd) := by
  obtain ⟨store, c⟩ := u
  unfold stepUse Returns
  cases c with
  | interact anchors =>
      rw [call, interactInner_run]
      split
      · exact ⟨rfl, Or.inl ⟨rfl, fun _ _ hc => by cases hc⟩⟩
      · split
        · rename_i hstore
          rw [stateAfter_error, hab_of_persist_error hstore]
          exact ⟨rfl, Or.inl ⟨rfl, fun _ _ hc => by cases hc⟩⟩
        · exact ⟨rfl, Or.inl ⟨rfl, fun _ _ hc => by cases hc⟩⟩
  | rotate config =>
      have hfails : ∀ {e : KeriError} {k : Keeper} {event : SignedEvent},
          ¬ ∃ k', (EStateM.Result.error e k : EStateM.Result KeriError Keeper SignedEvent) =
            .ok event k' := by
        rintro e k event ⟨k', hok⟩
        cases hok
      rw [call, rotateInner_run]
      split
      · exact ⟨rfl, Or.inl ⟨rfl, fun _ _ _ => hfails⟩⟩
      · split
        · exact ⟨rfl, Or.inl ⟨rfl, fun _ _ _ => hfails⟩⟩
        · rename_i newNextSigners event hrot
          split
          · rename_i hstore
            rw [stateAfter_error, hab_of_persist_error hstore]
            exact ⟨rfl, Or.inl ⟨rfl, fun _ _ _ => hfails⟩⟩
          · exact ⟨rfl, Or.inr ⟨config, event, newNextSigners, rfl, ⟨_, rfl⟩, hrot, rfl⟩⟩

/-- A call that meets its condition keeps the threshold met, and one that returns without does
not. -/
theorem met_stepUse {h : Hab} {u : Use} (hmet : h.WitnessesMet)
    (hsustains : ∀ event, Returns X disk h u event → h.Sustains u.call) :
    (stepUse X disk h u).WitnessesMet := by
  unfold WitnessesMet at hmet ⊢
  obtain ⟨hbt, ⟨hbackers, -⟩ | ⟨config, event, _, hcall, hreturns, -, hbackers⟩⟩ :=
    @stepUse_cases X disk h u
  · rw [hbt, hbackers]
    exact hmet
  · have hc := hsustains event hreturns
    rw [hcall] at hc
    rw [hbt, hbackers, KeyState.newBackers, length_foldl_add]
    exact hc

theorem sustains_of_met {h : Hab} {u : Use} {event : SignedEvent}
    (hreturns : Returns X disk h u event) (hmet : (stepUse X disk h u).WitnessesMet) :
    h.Sustains u.call := by
  obtain ⟨hbt, hcases⟩ := @stepUse_cases X disk h u
  unfold WitnessesMet at hmet
  cases hc : u.call with
  | interact anchors => trivial
  | rotate config =>
      rcases hcases with ⟨-, hnever⟩ | ⟨config', _, _, hcall, -, -, hbackers⟩
      · exact absurd hreturns (hnever config event hc)
      · obtain rfl := Call.rotate.inj (hc.symm.trans hcall)
        rw [hbt, hbackers, KeyState.newBackers, length_foldl_add] at hmet
        exact hmet

/-! ### Runs -/

/-- A new identifier has the threshold and the backers of its configuration, and so has its
inception. -/
theorem Created.spec {config : InceptionConfig} {event : SignedEvent} {hab : Hab}
    (h : Created X disk config event hab) :
    hab.backerThreshold = config.backerThreshold ∧ hab.backers = config.backers ∧
      ∃ keys digests signers,
        sealEvent X (inceptionFields config keys digests) signers = .ok event := by
  obtain ⟨name, random, habBytes, hincept⟩ := h.incepted
  simp only [inceptEvent, bind_eq_ok, pure_eq_ok, Prod.mk.injEq] at hincept
  obtain ⟨_, -, signers, -, _, -, keys, -, digests, -, event', hseal, _, -, rfl, rfl, -⟩ := hincept
  exact ⟨rfl, rfl, keys, digests, signers, hseal⟩

/-- The threshold of an identifier is that of its inception for ever. -/
theorem runUses_backerThreshold (h : Hab) (uses : List Use) :
    (h.runUses X disk uses).backerThreshold = h.backerThreshold :=
  run_inv (P := fun h' => Hab.backerThreshold h' = h.backerThreshold) uses rfl
    fun h' u hh' => (stepUse_cases h' u).1.trans hh'

/-- **An inception is refused for its threshold exactly when the new identifier does not meet
it.** -/
theorem Created.refused_iff {config : InceptionConfig} {event : SignedEvent} {hab : Hab}
    (h : Created X disk config event hab) (hbt : config.backerThreshold < u64Bound) :
    ∃ sad, X.json.toVec sad = .ok event.raw ∧ ∀ icp, InceptionEvent.fromValue sad = .ok icp →
      (RefusedForBackers (KeyState.fromInception icp) ↔ ¬ hab.WitnessesMet) := by
  obtain ⟨hthreshold, hbackers, keys, digests, signers, hseal⟩ := h.spec
  obtain ⟨sad, hraw, hsad⟩ := sealEvent_body hseal
  refine ⟨sad, hraw, fun icp hicp => ?_⟩
  obtain ⟨hsn, hicpThreshold, hicpBackers⟩ := inception_witnesses hsad hicp
  have hzero : fromStrRadix 16 u64Bound "0" = some 0 := by decide
  rw [KeyState.fromInception_refused_iff, hsn, InceptionEvent.Overreaches, hicpThreshold,
    hicpBackers, fromStrRadix_decimal hbt, WitnessesMet, hthreshold, hbackers]
  simp [hzero]

/-- **A rotation is refused for its threshold exactly when the identifier does not meet it after the
rotation**, by verifiers that have its backers and get as far. -/
theorem Returns.refused_iff {h : Hab} {u : Use} {config : RotationConfig} {event : SignedEvent}
    (hbt : h.backerThreshold < u64Bound) (hcall : u.call = .rotate config)
    (hreturns : Returns X disk h u event) :
    ∃ sad, X.json.toVec sad = .ok event.raw ∧ ∀ rot, RotationEvent.fromValue sad = .ok rot →
      ∀ s : KeyState, s.backers = h.backers →
        (RefusedForBackers (KeyState.applyRotation X s rot) ↔
          rot.Continues X s ∧ ¬ (stepUse X disk h u).WitnessesMet) := by
  obtain ⟨hthreshold, ⟨-, hnever⟩ | ⟨config', event', _, hcall', ⟨k', hok'⟩, hrotation, hbackers⟩⟩ :=
    @stepUse_cases X disk h u
  · exact absurd hreturns (hnever config event hcall)
  · obtain rfl := Call.rotate.inj (hcall.symm.trans hcall')
    obtain ⟨k, hok⟩ := hreturns
    obtain ⟨rfl, -⟩ := EStateM.Result.ok.inj (hok.symm.trans hok')
    simp only [rotation, bind_eq_ok, pure_eq_ok, Prod.mk.injEq] at hrotation
    obtain ⟨_, -, keys, -, digests, -, _, hseal, -, rfl⟩ := hrotation
    obtain ⟨sad, hraw, hsad⟩ := sealEvent_body hseal
    refine ⟨sad, hraw, fun rot hrot s hs => ?_⟩
    obtain ⟨hrotThreshold, hremove, hadd⟩ := rotation_witnesses hsad hrot
    rw [KeyState.applyRotation_refused_iff, RotationEvent.Overreaches, hrotThreshold, hremove, hadd,
      hs, fromStrRadix_decimal hbt, WitnessesMet, hthreshold, hbackers]
    simp

/-- **The threshold is met throughout a run exactly when the configuration has enough backers and
each rotation that returns leaves enough.**  The events that verifiers refuse for their threshold
are those after which it is not met. -/
theorem witnesses_met_iff {config : InceptionConfig} {event : SignedEvent} {hab : Hab}
    (hnew : Created X disk config event hab) (hbt : config.backerThreshold < u64Bound)
    (uses : List Use) :
    ((∀ pre post, uses = pre ++ post → (hab.runUses X disk pre).WitnessesMet) ↔
      config.backerThreshold ≤ config.backers.length ∧
        ∀ pre u post event, uses = pre ++ u :: post →
          Returns X disk (hab.runUses X disk pre) u event →
          (hab.runUses X disk pre).Sustains u.call) ∧
    (∃ sad, X.json.toVec sad = .ok event.raw ∧ ∀ icp, InceptionEvent.fromValue sad = .ok icp →
      (RefusedForBackers (KeyState.fromInception icp) ↔ ¬ hab.WitnessesMet)) ∧
    ∀ pre u post config event, uses = pre ++ u :: post → u.call = .rotate config →
      Returns X disk (hab.runUses X disk pre) u event →
      ∃ sad, X.json.toVec sad = .ok event.raw ∧ ∀ rot, RotationEvent.fromValue sad = .ok rot →
        ∀ s : KeyState, s.backers = (hab.runUses X disk pre).backers →
          (RefusedForBackers (KeyState.applyRotation X s rot) ↔
            rot.Continues X s ∧ ¬ (hab.runUses X disk (pre ++ [u])).WitnessesMet) := by
  obtain ⟨hthreshold, hbackers, -⟩ := hnew.spec
  have hfirst : hab.WitnessesMet ↔ config.backerThreshold ≤ config.backers.length := by
    rw [WitnessesMet, hthreshold, hbackers]
  have hconcat : ∀ pre u, hab.runUses X disk (pre ++ [u]) =
      stepUse X disk (hab.runUses X disk pre) u := fun pre u => run_concat hab pre u
  refine ⟨⟨fun hmet => ⟨hfirst.1 (hmet [] uses rfl), ?_⟩, ?_⟩, hnew.refused_iff hbt, ?_⟩
  · intro pre u post event hsplit hreturns
    refine sustains_of_met hreturns ?_
    rw [← hconcat]
    exact hmet (pre ++ [u]) post (by rw [hsplit, List.append_cons])
  · rintro ⟨hconfig, hcalls⟩ pre
    -- from the front of the run on, call by call
    induction pre using List.reverseRecOn with
    | nil => exact fun _ _ => hfirst.2 hconfig
    | append_singleton pre u ih =>
        intro post hsplit
        rw [List.append_assoc] at hsplit
        rw [hconcat]
        exact met_stepUse (ih _ hsplit) fun event => hcalls pre u post event hsplit
  · intro pre u post config event hsplit hcall hreturns
    rw [hconcat]
    refine hreturns.refused_iff ?_ hcall
    rw [runUses_backerThreshold, hthreshold]
    exact hbt

/-- An identifier with one witness, which rotations drop. -/
def toyWitnessed : InceptionConfig :=
  { backerThreshold := 1, backers := ["witness"], salt := some (Toy.salt 7) }

def toyReplace : RotationConfig := { backersAdd := ["other"], backersRemove := ["witness"] }

def toyRemove : RotationConfig := { backersRemove := ["witness"] }

/-- The identifier is made, and both rotations succeed. -/
theorem exists_toyWitnessed : ∃ hab event,
    Created Toy.lib Disk.sound toyWitnessed event hab ∧
    (∃ event', Returns Toy.lib Disk.sound hab ⟨none, .rotate toyReplace⟩ event') ∧
    ∃ event', Returns Toy.lib Disk.sound hab ⟨none, .rotate toyRemove⟩ event' := by
  obtain ⟨⟨hab, event, habBytes⟩, hincept, hbuilt⟩ := exists_ok_of_any
    (x := inceptEvent Toy.lib "alice" toyWitnessed [])
    (p := fun r => r.1.transferable &&
      (r.1.rotation Toy.lib toyReplace r.1.nextSigners).toOption.any (fun _ => true) &&
      (r.1.rotation Toy.lib toyRemove r.1.nextSigners).toOption.any fun _ => true)
    (by decide +kernel)
  simp only [Bool.and_eq_true] at hbuilt
  obtain ⟨⟨htrans, hreplace⟩, hremove⟩ := hbuilt
  obtain ⟨⟨_, event₁⟩, hreplace, -⟩ := exists_ok_of_any hreplace
  obtain ⟨⟨_, event₂⟩, hremove, -⟩ := exists_ok_of_any hremove
  refine ⟨hab, event, .event hincept, ⟨event₁, ?_⟩, ⟨event₂, ?_⟩⟩
  · unfold Returns
    rw [call, rotateInner_run, if_neg (by simpa using htrans), hreplace]
    exact ⟨_, rfl⟩
  · unfold Returns
    rw [call, rotateInner_run, if_neg (by simpa using htrans), hremove]
    exact ⟨_, rfl⟩

/-- A rotation that replaces the witness. -/
theorem witnesses_met_toy : ∃ hab event,
    Created Toy.lib Disk.sound toyWitnessed event hab ∧
    (hab.runUses Toy.lib Disk.sound [⟨none, .rotate toyReplace⟩]).WitnessesMet := by
  obtain ⟨hab, event, hnew, -, -⟩ := exists_toyWitnessed
  obtain ⟨hbt, hbackers, -⟩ := hnew.spec
  refine ⟨hab, event, hnew, ?_⟩
  refine (witnesses_met_iff hnew (by decide) [⟨none, .rotate toyReplace⟩]).1.2 ⟨by decide, ?_⟩
    [⟨none, .rotate toyReplace⟩] [] rfl
  intro pre u post _ hsplit _
  obtain ⟨rfl, rfl⟩ : pre = [] ∧ u = ⟨none, .rotate toyReplace⟩ := by
    cases pre with
    | nil => exact ⟨rfl, (List.cons.inj hsplit).1.symm⟩
    | cons u' pre =>
        have hlen := congrArg List.length hsplit
        simp at hlen
  unfold Sustains kept
  change hab.backerThreshold ≤ _
  rw [hbt, show (hab.runUses Toy.lib Disk.sound []).backers = ["witness"] from hbackers]
  decide

/-- A rotation that removes the only witness: its event is signed, and verifiers refuse it. -/
theorem witnesses_removed :
    ¬ ∀ (X : Externals) (disk : Disk) (config : InceptionConfig) (event : SignedEvent) (hab : Hab),
      Created X disk config event hab → config.backerThreshold < u64Bound →
      config.backerThreshold ≤ config.backers.length → ∀ (u : Use) (event' : SignedEvent),
      Returns X disk hab u event' → (stepUse X disk hab u).WitnessesMet := by
  intro hclaim
  obtain ⟨hab, event, hnew, -, event', hreturns⟩ := exists_toyWitnessed
  obtain ⟨hbt, hbackers, -⟩ := hnew.spec
  have hmet := sustains_of_met hreturns
    (hclaim _ _ _ _ _ hnew (by decide) (by decide) _ _ hreturns)
  unfold Sustains kept at hmet
  rw [hbt, hbackers] at hmet
  revert hmet
  decide

end Hab

end Keri
