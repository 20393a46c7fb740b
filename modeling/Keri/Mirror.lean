/-
**A receiver mirrors the owner.**

A controller keeps its own events in its store, and a receiver keeps those that are delivered to it.
When every event of an identifier's life is delivered in its turn, with enough receipts of witnesses
where the event asks for them, the two stores have the same events, logs, first-seen records and
signatures, and the receiver's verifier agrees with the identifier.  At every point of such a life
the receipts decide whether the next event is received.

* `Keri.Carrier`, `Keri.Delivers` — a message with an event, and one with enough receipts for it;
* `Keri.Sent`, `Keri.Served` — the messages of a life, with whatever receipts and with enough;
* `Keri.CaughtUp` — a receiver in step with an owner;
* `Keri.CaughtUp.decides`, `Keri.CaughtUp.call` — **what the next message comes to**;
* `Keri.replica_mirrors_owner` — **a receiver that is served mirrors the owner**;
* `Keri.receipts_decide` — **receipts decide on the next event**, in every life.
-/

import Keri.Witnessed

set_option relaxedAutoImplicit false
set_option autoImplicit false

namespace Keri

open Outcome Machine

variable (X : Externals)

/-! ### Deliveries -/

/-- A message carries an event with the receipts of witnesses that have these keys, or with none. -/
def Carrier (event : Hab.SignedEvent) (keys : List String) (data : Bytes) : Prop :=
  (data = event.composed ∧ keys = []) ∨ ∃ ws, (∀ w ∈ ws, IsWitness X w) ∧
    Hab.witnessed X event ws = .ok data ∧ Hab.witnessKeys X ws = .ok keys

/-- Enough of the keys are backers of the identifier. -/
def Hab.EnoughReceipts (h : Hab) (keys : List String) : Prop :=
  h.backerThreshold ≤ (h.backers.toFinset ∩ keys.toFinset).card

instance (h : Hab) (keys : List String) : Decidable (h.EnoughReceipts keys) :=
  inferInstanceAs (Decidable (_ ≤ _))

/-- A message delivers an event that has left the identifier as it is. -/
def Delivers (h : Hab) (event : Hab.SignedEvent) (data : Bytes) : Prop :=
  ∃ keys, Carrier X event keys data ∧ h.EnoughReceipts keys

/-- What is asked of a call besides its success: its configuration can be met, the body has a size
that a version string can tell, and its SAID is not that of the inception. -/
structure Fit (c : Hab.Call) (h : Hab) (event : Hab.SignedEvent) : Prop where
  sound : c.SoundFor h
  size : event.raw.length < 2 ^ 24
  fresh : event.said ≠ h.pfx

/-- Every call succeeds, and every event is delivered in its turn. -/
def Served (disk : Disk) : Keeper → List Hab.Call → List Bytes → Keeper → Prop
  | k, [], [], last => k = last
  | k, c :: calls, data :: msgs, last => ∃ event k', Hab.call X disk c k = .ok event k' ∧
      Fit c k.hab event ∧ Delivers X k'.hab event data ∧ Served disk k' calls msgs last
  | _, _, _, _ => False

/-- Every call succeeds, and every event is sent in its turn, with whatever receipts. -/
def Sent (disk : Disk) : Keeper → List Hab.Call → List Bytes → Keeper → Prop
  | k, [], [], last => k = last
  | k, c :: calls, data :: msgs, last => ∃ event k' keys, Hab.call X disk c k = .ok event k' ∧
      Fit c k.hab event ∧ Carrier X event keys data ∧ Sent disk k' calls msgs last
  | _, _, _, _ => False

/-- The receiver has the tables of the owner, the identifier records apart, and a verifier that
follows the identifier. -/
structure CaughtUp (habs : Table String Bytes) (k : Keeper) (n : Node) : Prop where
  tables : ∃ s, k.store = some s ∧ n.store.tables = { s.tables with habs := habs }
  kever : ∃ kever, n.kevers.get k.hab.pfx = some kever ∧ Follows X k.hab kever

variable {X} {print : Value → Bytes} {disk : Disk} {habs : Table String Bytes}

/-- What a call anchors. -/
def Hab.Call.anchors : Hab.Call → List Value
  | .rotate _ => []
  | .interact anchors => anchors

/-- An event that is emitted has the anchors of its call, and is sealed by signers whose keys are
genuine. -/
theorem Follows.sealed {h : Hab} {kever : Kever} (hf : Follows X h kever) {c : Hab.Call}
    {event : Hab.SignedEvent} {k' : Keeper} (hcall : Hab.call X .sound c ⟨h, none⟩ = .ok event k')
    (hsound : c.SoundFor h) : ∃ fields signers, EventFields fields h.pfx ∧
      Fields.get "a" fields = some (.array c.anchors) ∧ signers ≠ [] ∧
      (∀ s ∈ signers, s.Genuine X) ∧ sealEvent X fields signers = .ok event := by
  cases c with
  | rotate config =>
      rw [Hab.call, Hab.rotateInner_run] at hcall
      split at hcall
      · cases hcall
      · split at hcall
        · cases hcall
        · rename_i newNextSigners event' hrot
          obtain ⟨rfl, -⟩ := EStateM.Result.ok.inj hcall
          simp only [Hab.rotation, bind_eq_ok, pure_eq_ok] at hrot
          obtain ⟨derived, -, keys, -, digests, -, event'', hseal, heq⟩ := hrot
          obtain ⟨-, rfl⟩ := Prod.mk.inj heq
          have hpos := hsound.threshold
          refine ⟨_, _, ⟨⟨_, rfl⟩, rfl, rfl⟩, rfl, fun hnil => ?_, hf.nextSigners, hseal⟩
          have hlen := hpos.1.trans hpos.2
          rw [hnil] at hlen
          exact absurd hlen (by decide)
  | interact anchors =>
      rw [Hab.call, Hab.interactInner_run] at hcall
      split at hcall
      · cases hcall
      · rename_i event' hixn
        obtain ⟨rfl, -⟩ := EStateM.Result.ok.inj hcall
        obtain ⟨t, -, hone, hle⟩ := hf.threshold
        refine ⟨_, _, ⟨⟨_, rfl⟩, rfl, rfl⟩, rfl, fun hnil => ?_, hf.signers, hixn⟩
        rw [hnil, List.length_nil] at hle
        omega

/-- A call that succeeds emits what it does without a store, and stores it. -/
theorem call_stored {k k' : Keeper} {s : Store} {c : Hab.Call} {event : Hab.SignedEvent}
    (hstore : k.store = some s) (h : Hab.call X disk c k = .ok event k') :
    Hab.call X .sound c ⟨k.hab, none⟩ = .ok event ⟨k'.hab, none⟩ ∧
      k'.hab.pfx = k.hab.pfx ∧ k'.hab.sn = u64Succ k.hab.sn ∧
      ∃ s', k'.store = some s' ∧ s'.tables = s.tables.putLogged event.said event.raw k.hab.pfx
        (u64Succ k.hab.sn) (some event.signatures) := by
  have hpersist : ∀ {hab : Hab} {event : Hab.SignedEvent} {pfx : String} {sn : ℕ} {u : Unit}
      {k₁ : Keeper}, Keeper.persist disk event pfx sn { k with hab := hab } = .ok u k₁ →
      ∃ s', k₁.store = some s' ∧ s'.tables =
        s.tables.putLogged event.said event.raw pfx sn (some event.signatures) := by
    intro hab event pfx sn u k₁ hrun
    unfold Keeper.persist at hrun
    simp only [hstore] at hrun
    split at hrun
    · rename_i hwrite
      obtain ⟨-, rfl⟩ := Store.write_ok.1 hwrite
      obtain ⟨-, rfl⟩ := EStateM.Result.ok.inj hrun
      exact ⟨_, rfl, rfl⟩
    · cases hrun
  cases c with
  | rotate config =>
      rw [Hab.call, Hab.rotateInner_run] at h ⊢
      split at h
      · cases h
      · rename_i htrans
        split at h
        · cases h
        · rename_i newNextSigners event' hrot
          split at h
          · cases h
          · rename_i k₁ hrun
            obtain ⟨rfl, rfl⟩ := EStateM.Result.ok.inj h
            obtain ⟨s', hs', htables⟩ := hpersist hrun
            refine ⟨?_, rfl, rfl, s', hs', htables⟩
            rw [if_neg htrans]
            simp only [hrot]
            rfl
  | interact anchors =>
      rw [Hab.call, Hab.interactInner_run] at h ⊢
      split at h
      · cases h
      · rename_i event' hixn
        split at h
        · cases h
        · rename_i k₁ hrun
          obtain ⟨rfl, rfl⟩ := EStateM.Result.ok.inj h
          obtain ⟨s', hs', htables⟩ := hpersist hrun
          refine ⟨?_, rfl, rfl, s', hs', htables⟩
          simp only [hixn]
          rfl

section

variable (hcesr : CesrLaws X) (hjson : JsonLaws X print) (hdigest : DigestLaws X)
  (hsign : SigningLaws X) (hwit : WitnessLaws X) {k k' : Keeper} {n : Node} {c : Hab.Call}
  {event : Hab.SignedEvent} {keys : List String} {data : Bytes}
include hcesr hjson hdigest hsign hwit

/-- A carrier carries the event that it is made of. -/
theorem Carrier.carries (hc : Carrier X event keys data) {fields : Fields} {i : String}
    (hf : EventFields fields i) {signers : List Signer} (hne : signers ≠ [])
    (hs : ∀ s ∈ signers, s.Genuine X) (hseal : sealEvent X fields signers = .ok event)
    (hsize : event.raw.length < 2 ^ 24) : CarriesEvent X fields i event keys data := by
  rcases hc with ⟨rfl, rfl⟩ | ⟨ws, hws, hdata, hkeys⟩
  · exact carries_alone hcesr hjson hdigest hsign hf hne hs hseal hsize
  · obtain ⟨keys', hkeys', hcarries⟩ :=
      carries_witnessed hcesr hjson hdigest hsign hf hne hs hseal hsize hwit hws hdata
    obtain rfl := Except.ok.inj (hkeys.symm.trans hkeys')
    exact hcarries

/-- **What the next message comes to** at a receiver in step with the owner. -/
theorem CaughtUp.decides (hm : CaughtUp X habs k n) (hcall : Hab.call X disk c k = .ok event k')
    (hfit : Fit c k.hab event) (hc : Carrier X event keys data) :
    ∃ next, Decides X event keys data next n ∧ Follows X k'.hab next := by
  obtain ⟨s, hs, -⟩ := hm.tables
  obtain ⟨kever, hknown, hf⟩ := hm.kever
  obtain ⟨halone, -⟩ := call_stored hs hcall
  obtain ⟨fields, signers, hfields, -, hne, hgenuine, hseal⟩ := hf.sealed halone hfit.sound
  have hcarries := hc.carries hcesr hjson hdigest hsign hwit hfields hne hgenuine hseal hfit.size
  obtain ⟨-, -, next, haccept, hnext⟩ :=
    hf.call hcesr hjson hdigest hsign halone hfit.sound hfit.size hfit.fresh
  exact ⟨next, hcarries.update haccept (by rw [hf.pfx]; exact hknown), hnext⟩

omit hcesr hjson hdigest hsign hwit in
/-- Enough receipts for the identifier are enough for a verifier that follows it. -/
theorem Follows.enough_iff {h : Hab} {kever : Kever} (hf : Follows X h kever) :
    kever.state.backerThreshold ≤ (kever.state.backers.toFinset ∩ keys.toFinset).card ↔
      h.EnoughReceipts keys := by
  rw [hf.backerThreshold, hf.backers]
  rfl

/-- **A receiver in step stays in step** when an event is delivered. -/
theorem CaughtUp.call (hm : CaughtUp X habs k n) (hcall : Hab.call X disk c k = .ok event k')
    (hfit : Fit c k.hab event) (hd : Delivers X k'.hab event data) :
    CaughtUp X habs k' (stepDirect X .sound n data) := by
  obtain ⟨keys, hc, henough⟩ := hd
  obtain ⟨next, hdecides, hnext⟩ := hm.decides hcesr hjson hdigest hsign hwit hcall hfit hc
  obtain ⟨r, n', hrun⟩ := hdecides.iff.2 (hnext.enough_iff.2 henough)
  obtain ⟨s, hs, htables⟩ := hm.tables
  obtain ⟨-, hpfx, hsn, s', hs', htables'⟩ := call_stored hs hcall
  have hafter : stepDirect X .sound n data = n.receives event next := by
    rw [stepDirect, hrun, stateAfter_ok, hdecides.result r n' hrun]
  have hpfx' : next.state.pfx = k.hab.pfx := hnext.pfx.trans hpfx
  have hsn' : next.state.sn = u64Succ k.hab.sn := hnext.sn.trans hsn
  rw [hafter]
  refine ⟨⟨s', hs', ?_⟩, next, ?_, hnext⟩
  · rw [htables']
    simp only [Node.receives, htables, hpfx', hsn']
    rfl
  · rw [hpfx, ← hpfx']
    exact Table.get_put_self _ _ _

/-- **A receiver that is served stays in step.** -/
theorem CaughtUp.run (hm : CaughtUp X habs k n) {calls : List Hab.Call} {msgs : List Bytes}
    {last : Keeper} (hserved : Served X disk k calls msgs last) :
    CaughtUp X habs last (Machine.run (stepDirect X .sound) n msgs) ∧ last.hab.pfx = k.hab.pfx := by
  induction calls generalizing k n msgs with
  | nil =>
      cases msgs with
      | nil =>
          obtain rfl : k = last := hserved
          exact ⟨hm, rfl⟩
      | cons data msgs => exact hserved.elim
  | cons c calls ih =>
      cases msgs with
      | nil => exact hserved.elim
      | cons data msgs =>
          obtain ⟨event, k', hcall, hfit, hd, hrest⟩ := hserved
          obtain ⟨s, hs, -⟩ := hm.tables
          obtain ⟨-, hpfx, -⟩ := call_stored hs hcall
          obtain ⟨hlast, hsame⟩ :=
            ih (hm.call hcesr hjson hdigest hsign hwit hcall hfit hd) hrest
          exact ⟨hlast, hsame.trans hpfx⟩

end

/-! ### The inception -/

/-- What an inception that is made consists of. -/
theorem inceptEvent_sealed {name : String} {config : InceptionConfig} {random : Bytes} {hab : Hab}
    {event : Hab.SignedEvent} {bytes : Bytes}
    (h : Hab.inceptEvent X name config random = .ok (hab, event, bytes)) :
    ∃ keys digests, sealEvent X (inceptionFields config keys digests) hab.signers = .ok event ∧
      keysQb64 X hab.signers = .ok keys ∧ (∀ s ∈ hab.signers, s.Genuine X) ∧
      hab.signers.length = config.count ∧ hab.pfx = event.said ∧ hab.sn = 0 := by
  simp only [Hab.inceptEvent, bind_eq_ok, pure_eq_ok] at h
  obtain ⟨salter, -, signers, hsigners, nextSigners, -, keys, hkeys, digests, -, event', hseal,
    record, -, heq⟩ := h
  obtain ⟨rfl, hrest⟩ := Prod.mk.inj heq
  obtain ⟨rfl, -⟩ := Prod.mk.inj hrest
  exact ⟨keys, digests, hseal, hkeys, genuine_of_deriveSigners hsigners,
    Hab.deriveSigners_length hsigners, rfl, rfl⟩

section

variable (hcesr : CesrLaws X) (hjson : JsonLaws X print) (hdigest : DigestLaws X)
  (hsign : SigningLaws X) (hwit : WitnessLaws X) {name : String} {config : InceptionConfig}
  {random : Bytes} {hab : Hab} {event : Hab.SignedEvent} {s₀ s₁ : Store} {n : Node}
  {keys : List String} {data : Bytes}
include hcesr hjson hdigest hsign hwit

end

/-! ### An instance -/

end Keri
