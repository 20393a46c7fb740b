/-
**What a delegator has authorised.**

Whoever checks a delegation looks the delegator's event up in the log it has verified, and what that
log holds is what the delegator has done.  So, unless there is a forgery, a delegation is verified
exactly when the delegator has called for an interaction with a seal for the delegated event and the
checker has the interaction in its log; and along the whole life of a delegated verifier, the keys
are set by such events only.

* `Keri.Honours` — the contract of the lookup, and `Keri.Party.anchorsAt`, one that honours it;
* `Keri.Interacted`, `Keri.Granted` — what the delegator has done;
* `Keri.Life.anchors_cases` — **only interactions have anchors**;
* `Keri.delegation_verified_iff` — **what is verified is what was granted and received**;
* `Keri.keys_granted` — **a delegated identifier has no keys that were not granted**.
-/

import Keri.Forgery
import Keri.Lineage

set_option relaxedAutoImplicit false
set_option autoImplicit false

namespace Keri

open Outcome Machine Replica Simulation

variable (X : Externals)

/-! ### Looking up anchors -/

/-- A message is an event with this number and SAID, and has these anchors. -/
def HasAnchors (data : Bytes) (sn : ℕ) (said : String) (anchors : List Value) : Prop :=
  ∃ parsed size, parseNext X data = .ok (parsed, size) ∧ parsed.serder.sn = .ok sn ∧
    parsed.serder.said = .ok said ∧ parsed.serder.sad.get "a" = some (.array anchors)

/-- The contract of the lookup: what it returns is in the log that the party has verified, and it
finds what is there. -/
structure Honours (P : Party) (msgs : List Bytes) (source : DelegatorAnchors) : Prop where
  verified {d said : String} {sn : ℕ} {anchors : List Value} :
    source d sn said = .ok (some anchors) →
      ∃ data ∈ P.logOf X d msgs, HasAnchors X data sn said anchors
  found {d said : String} {sn : ℕ} {data : Bytes} {anchors : List Value} :
    data ∈ P.logOf X d msgs → HasAnchors X data sn said anchors →
      ∃ anchors', source d sn said = .ok (some anchors')

/-- The anchors of a message, when it is the event. -/
def anchorsOf (sn : ℕ) (said : String) (data : Bytes) : Option (List Value) :=
  match parseNext X data with
  | .ok (parsed, _) =>
      if parsed.serder.sn.toOption = some sn ∧ parsed.serder.said.toOption = some said then
        (parsed.serder.sad.get "a").bind Value.asArray
      else none
  | .error _ => none

/-- A lookup in the log that the party has verified. -/
def Party.anchorsAt (P : Party) (msgs : List Bytes) : DelegatorAnchors :=
  fun d sn said => .ok ((P.logOf X d msgs).findSome? (anchorsOf X sn said))

/-! ### What the delegator has done -/

/-- The owner's event with this number and SAID is an interaction with these anchors. -/
def Interacted (first : Stage) (more : List Stage) (sn : ℕ) (said : String)
    (anchors : List Value) : Prop :=
  ∃ i st st', sn = i + 1 ∧ (first :: more)[i]? = some st ∧ more[i]? = some st' ∧
    st'.event.said = said ∧
    Hab.call X .sound (.interact anchors) ⟨st.hab, none⟩ = .ok st'.event ⟨st'.hab, none⟩

/-- One of the owner's interactions has a seal for the event. -/
def Granted (first : Stage) (more : List Stage) (pfx : String) (sn : ℕ) (said : String) : Prop :=
  ∃ n s anchors, Interacted X first more n s anchors ∧ ∃ anchor ∈ anchors, Seals anchor pfx sn said

/-- The lookup of a constructor, if it has one. -/
def BuildCall.source : BuildCall → Option DelegatorAnchors
  | .newDelegated _ _ _ _ source => some source
  | _ => none

/-- The lookup of a way to advance, if it has one. -/
def AdvanceCall.source : AdvanceCall → Option DelegatorAnchors
  | .verifyUpdateDelegated _ _ _ source => some source
  | _ => none

variable {X} {print : Value → Bytes} {first st : Stage} {more : List Stage} {data : Bytes}

/-! ### The lookup -/

theorem anchorsOf_eq_some {sn : ℕ} {said : String} {anchors : List Value} :
    anchorsOf X sn said data = some anchors ↔ HasAnchors X data sn said anchors := by
  unfold anchorsOf HasAnchors
  cases hparse : parseNext X data with
  | error e => simp
  | ok r =>
      obtain ⟨parsed, size⟩ := r
      simp only [Except.ok.injEq, Prod.mk.injEq]
      constructor
      · intro h
        split at h
        · rename_i hif
          obtain ⟨v, hv, harr⟩ := Option.bind_eq_some_iff.1 h
          refine ⟨parsed, size, ⟨rfl, rfl⟩, toOption_eq_some.1 hif.1, toOption_eq_some.1 hif.2, ?_⟩
          rw [hv]
          cases v <;> simp_all [Value.asArray]
        · cases h
      · rintro ⟨parsed', size', ⟨rfl, rfl⟩, hsn, hsaid, ha⟩
        rw [if_pos ⟨by rw [hsn]; rfl, by rw [hsaid]; rfl⟩, ha]
        rfl

/-- The lookup in the log honours the contract. -/
theorem honours_anchorsAt (P : Party) (msgs : List Bytes) :
    Honours X P msgs (P.anchorsAt X msgs) := by
  constructor
  · intro d said sn anchors h
    obtain ⟨data, hdata, hfound⟩ := List.exists_of_findSome?_eq_some (Except.ok.inj h)
    exact ⟨data, hdata, anchorsOf_eq_some.1 hfound⟩
  · intro d said sn data anchors hdata hhas
    cases hfind : (P.logOf X d msgs).findSome? (anchorsOf X sn said) with
    | some anchors' => exact ⟨anchors', congrArg Except.ok hfind⟩
    | none =>
        have hnone := List.findSome?_eq_none_iff.1 hfind data hdata
        rw [anchorsOf_eq_some.2 hhas] at hnone
        cases hnone

/-! ### Anchors -/

section

variable (hcesr : CesrLaws X) (hjson : JsonLaws X print) (hdigest : DigestLaws X)
  (hsign : SigningLaws X) (hlife : Life X first more)
include hcesr hjson hdigest hsign hlife

/-- What the body of a later stage says, by the call that made it. -/
theorem Life.anchors_of_call {i : ℕ} {st' : Stage} (hi : (first :: more)[i]? = some st)
    (hi' : more[i]? = some st') {serder : Serder} (hw : st'.Written X serder) {c : Hab.Call}
    (hcall : Hab.call X .sound c ⟨st.hab, none⟩ = .ok st'.event ⟨st'.hab, none⟩)
    (hsound : c.SoundFor st.hab) : serder.sad.get "a" = some (.array c.anchors) := by
  obtain ⟨-, -, -, ⟨diger, hdiger⟩, -⟩ := hlife.first_written hcesr hjson hdigest hsign
  obtain ⟨-, hpfx, -, k, hk⟩ := hlife.written hcesr hjson hdigest hsign hi
  have hprim : IsPrimitive X k.state.pfx := by
    rw [hk.pfx, hpfx]
    exact isPrimitive_of_diger hdiger
  obtain ⟨c', -, hfit⟩ := hlife.lived.call_at hi hi'
  obtain ⟨-, -, serder', -, hw', ha, -⟩ :=
    hk.written hcesr hjson hdigest hsign hprim hcall ⟨hsound, hfit.size, hfit.fresh⟩
  rw [Except.ok.inj (hw.read.symm.trans hw'.read)]
  exact ha

/-- **Only interactions have anchors.** -/
theorem Life.anchors_cases {i : ℕ} (hi : (first :: more)[i]? = some st) {serder : Serder}
    (hw : st.Written X serder) : serder.sad.get "a" = some (.array []) ∨
      ∃ anchors, Interacted X first more i st.event.said anchors ∧
        serder.sad.get "a" = some (.array anchors) := by
  cases i with
  | zero =>
      obtain rfl := Option.some_inj.1 hi
      obtain ⟨-, -, -, -, serder', -, hw', ha, -⟩ := hlife.first_written hcesr hjson hdigest hsign
      rw [Except.ok.inj (hw.read.symm.trans hw'.read)]
      exact Or.inl ha
  | succ i =>
      have hlt := (List.getElem?_eq_some_iff.1 hi).1
      have hbefore := List.getElem?_eq_getElem (l := first :: more) (i := i) (by omega)
      obtain ⟨c, hcall, hfit⟩ := hlife.lived.call_at hbefore hi
      have ha := hlife.anchors_of_call hcesr hjson hdigest hsign hbefore hi hw hcall hfit.sound
      cases c with
      | rotate config => exact Or.inl ha
      | interact anchors => exact Or.inr ⟨anchors, ⟨i, _, st, rfl, hbefore, hi, rfl, hcall⟩, ha⟩

/-- A message in the log that tells a stage has its number, its SAID and its anchors. -/
theorem Life.has_anchors {i : ℕ} (hi : (first :: more)[i]? = some st) (htells : st.Tells X data)
    {sn : ℕ} {said : String} {anchors : List Value} :
    HasAnchors X data sn said anchors ↔ sn = i ∧ said = st.event.said ∧
      ∃ serder, st.Written X serder ∧ serder.sad.get "a" = some (.array anchors) := by
  obtain ⟨parsed, size, serder, hparse, hw, hsad⟩ := htells
  obtain ⟨hnum, -⟩ := hlife.written hcesr hjson hdigest hsign hi
  have hsn : parsed.serder.sn = .ok i := by
    rw [← hnum, ← hw.sn]
    simp only [Serder.sn, hsad]
  have hsaid : parsed.serder.said = .ok st.event.said := by
    rw [← hw.said]
    simp only [Serder.said, Serder.textField, hsad]
  constructor
  · rintro ⟨parsed', size', hparse', hsn', hsaid', ha⟩
    obtain ⟨rfl, -⟩ := Prod.mk.inj (Except.ok.inj (hparse.symm.trans hparse'))
    exact ⟨Except.ok.inj (hsn'.symm.trans hsn), Except.ok.inj (hsaid'.symm.trans hsaid), serder,
      hw, hsad ▸ ha⟩
  · rintro ⟨rfl, rfl, serder', hw', ha⟩
    refine ⟨parsed, size, hparse, hsn, hsaid, ?_⟩
    rw [hsad, Except.ok.inj (hw.read.symm.trans hw'.read)]
    exact ha

/-- What a lookup returns for the owner with a seal in it is what the owner has called for. -/
theorem Honours.interacted {P : Party} {msgs : List Bytes} {source : DelegatorAnchors}
    (hsource : Honours X P msgs source) (hno : ∀ data ∈ msgs, ¬ Forged X first more data)
    {sn : ℕ} {said : String} {anchors : List Value}
    (h : source first.hab.pfx sn said = .ok (some anchors)) (hne : anchors ≠ []) :
    sn < (P.logOf X first.hab.pfx msgs).length ∧ Interacted X first more sn said anchors := by
  obtain ⟨data, hdata, hhas⟩ := hsource.verified h
  obtain ⟨i, hi⟩ := List.mem_iff_getElem?.1 hdata
  obtain ⟨st, hst, htells⟩ := (P.reached hcesr hjson hdigest hsign hlife msgs hno).tells_at hi
  obtain ⟨rfl, rfl, serder, hw, ha⟩ :=
    (hlife.has_anchors hcesr hjson hdigest hsign hst htells).1 hhas
  refine ⟨(List.getElem?_eq_some_iff.1 hi).1, ?_⟩
  rcases hlife.anchors_cases hcesr hjson hdigest hsign hst hw with hnil | ⟨anchors', hcalled, ha'⟩
  · rw [hnil] at ha
    exact absurd (Value.array.inj (Option.some_inj.1 ha)).symm hne
  · obtain rfl := Value.array.inj (Option.some_inj.1 (ha.symm.trans ha'))
    exact hcalled

/-- What the owner has called for, and the party has in its log, is what a lookup returns. -/
theorem Honours.returns {P : Party} {msgs : List Bytes} {source : DelegatorAnchors}
    (hsource : Honours X P msgs source) (hno : ∀ data ∈ msgs, ¬ Forged X first more data)
    {sn : ℕ} {said : String} {anchors : List Value}
    (hlt : sn < (P.logOf X first.hab.pfx msgs).length)
    (h : Interacted X first more sn said anchors) :
    source first.hab.pfx sn said = .ok (some anchors) := by
  have hreached := P.reached hcesr hjson hdigest hsign hlife msgs hno
  obtain ⟨i, st, st', rfl, hi, hi', rfl, hcall⟩ := h
  obtain ⟨stage, hstage, htells⟩ := hreached.tells_at (List.getElem?_eq_getElem hlt)
  obtain rfl := Option.some_inj.1 (hstage.symm.trans hi')
  obtain ⟨-, -, ⟨serder, hw⟩, -⟩ := hlife.written hcesr hjson hdigest hsign hstage
  have ha : serder.sad.get "a" = some (.array anchors) :=
    hlife.anchors_of_call hcesr hjson hdigest hsign hi hi' hw hcall trivial
  obtain ⟨found, hfound⟩ := hsource.found (List.getElem_mem hlt)
    ((hlife.has_anchors hcesr hjson hdigest hsign hstage htells).2 ⟨rfl, rfl, serder, hw, ha⟩)
  -- whatever was found is at the same place of the log
  obtain ⟨data, hdata, hhas⟩ := hsource.verified hfound
  obtain ⟨j, hj⟩ := List.mem_iff_getElem?.1 hdata
  obtain ⟨other, hother, htells'⟩ := hreached.tells_at hj
  obtain ⟨rfl, -, serder', hw', ha'⟩ :=
    (hlife.has_anchors hcesr hjson hdigest hsign hother htells').1 hhas
  obtain rfl := Option.some_inj.1 (hother.symm.trans hstage)
  rw [Except.ok.inj (hw'.read.symm.trans hw.read), ha] at ha'
  rw [hfound, Value.array.inj (Option.some_inj.1 ha')]

/-! ### Delegations -/

omit hcesr hjson hdigest hsign hlife in
theorem mem_numbered {saids : List String} {n : ℕ} {said : String} :
    (n, said) ∈ numbered saids ↔ saids[n]? = some said := by
  constructor
  · intro h
    obtain ⟨i, hi⟩ := List.mem_iff_getElem?.1 h
    obtain ⟨hn, hsaid⟩ := List.getElem?_zip_eq_some.1 hi
    obtain ⟨hlt, rfl⟩ := List.getElem?_eq_some_iff.1 hn
    rwa [List.getElem_range]
  · exact fun h => List.mem_of_getElem? (numbered_getElem? h)

/-- **What is verified is what was granted and received.**  The delegator is an owner, and the
lookup is in the log of a party that has been sent whatever messages, none of them a forgery.  A
delegation of another identifier is verified exactly when the event at the claimed place of the log
is an interaction that the delegator has called for, with a seal for the delegated event. -/
theorem delegation_verified_iff (hsep : NoSeparator X) (P : Party) (msgs : List Bytes)
    (hfits : (P.node X msgs).store.tables.FitsMap) {source : DelegatorAnchors}
    (hsource : Honours X P msgs source) (delegatee said : String) (sn : ℕ)
    (proof : DelegationProof) :
    (∃ data ∈ msgs, Forged X first more data) ∨
      (verifyDelegation delegatee sn said first.hab.pfx proof source = .ok ⟨⟩ ↔
        first.hab.pfx ≠ delegatee ∧
        (proof.sn, proof.said) ∈ (P.node X msgs).store.tables.kel first.hab.pfx ∧
        ∃ anchors, Interacted X first more proof.sn proof.said anchors ∧
          ∃ anchor ∈ anchors, Seals anchor delegatee sn said) := by
  by_cases hforged : ∃ data ∈ msgs, Forged X first more data
  · exact Or.inl hforged
  have hno : ∀ data ∈ msgs, ¬ Forged X first more data :=
    fun data hdata h => hforged ⟨data, hdata, h⟩
  have hreached := P.reached hcesr hjson hdigest hsign hlife msgs hno
  have hmem : ∀ {n : ℕ} {s : String},
      (n, s) ∈ (P.node X msgs).store.tables.kel first.hab.pfx ↔
        ∃ data, (P.logOf X first.hab.pfx msgs)[n]? = some data ∧ saidOf X data = s := by
    intro n s
    rw [P.kel hsep hfits, mem_numbered, List.getElem?_map, Option.map_eq_some_iff]
  right
  rw [verifyDelegation_eq_ok]
  constructor
  · rintro ⟨-, hself, anchors, hfound, anchor, hanchor, hseal⟩
    obtain ⟨hlt, hcalled⟩ := hsource.interacted hcesr hjson hdigest hsign hlife hno hfound
      (List.ne_nil_of_mem hanchor)
    have hat := List.getElem?_eq_getElem hlt
    obtain ⟨st, hst, htells⟩ := hreached.tells_at hat
    refine ⟨hself, hmem.2 ⟨_, hat, ?_⟩, anchors, hcalled, anchor, hanchor, hseal⟩
    obtain ⟨i, -, st', hi, -, hi', hsaid, -⟩ := hcalled
    rw [hi] at hst
    obtain rfl := Option.some_inj.1 (hst.symm.trans hi')
    rw [htells.saidOf_eq, hsaid]
  · rintro ⟨hself, hlogged, anchors, hcalled, anchor, hanchor, hseal⟩
    obtain ⟨data, hdata, -⟩ := hmem.1 hlogged
    obtain ⟨-, -, hpfx, -⟩ := hlife.first_written hcesr hjson hdigest hsign
    exact ⟨hpfx, hself, anchors, hsource.returns hcesr hjson hdigest hsign hlife hno
      (List.getElem?_eq_some_iff.1 hdata).1 hcalled, anchor, hanchor, hseal⟩

/-- What passes a lookup that honours the contract has been granted. -/
theorem SealedAt.granted {P : Party} {msgs : List Bytes} {source : DelegatorAnchors}
    (hsource : Honours X P msgs source) (hno : ∀ data ∈ msgs, ¬ Forged X first more data)
    {proof : DelegationProof} {pfx said : String} {sn : ℕ}
    (h : SealedAt proof source first.hab.pfx pfx sn said) : Granted X first more pfx sn said := by
  obtain ⟨anchors, hfound, anchor, hanchor, hseal⟩ := h
  obtain ⟨-, hcalled⟩ := hsource.interacted hcesr hjson hdigest hsign hlife hno hfound
    (List.ne_nil_of_mem hanchor)
  exact ⟨proof.sn, proof.said, anchors, hcalled, anchor, hanchor, hseal⟩

/-- **A delegated identifier has no keys that were not granted.**  A verifier of an identifier that
an owner delegates has been built and advanced in whatever way, each time with a lookup in what a
party had verified by then.  Unless the party has been sent a forgery, the owner has called for an
interaction with a seal for its inception, and for each event since that is not an interaction and
leaves the keys as they are. -/
theorem keys_granted {b : BuildCall} {steps : List Advance} {k : Kever}
    (h : Lineage X b steps k) (hd : k.state.delegator = some first.hab.pfx) (P : Party)
    (msgs : List Bytes)
    (hbuild : ∀ source ∈ b.source, ∃ heard, heard <+: msgs ∧ Honours X P heard source)
    (hsteps : ∀ a ∈ steps, ∀ source ∈ a.call.source,
      ∃ heard, heard <+: msgs ∧ Honours X P heard source) :
    (∃ data ∈ msgs, Forged X first more data) ∨
      (∃ k₀, b.build X = .ok k₀ ∧
        Granted X first more k₀.state.pfx k₀.state.sn k₀.state.said) ∧
      ∀ a ∈ steps, a.Interacts ∨ (a.call.ilk = some "drt" ∧
        Granted X first more a.after.state.pfx a.after.state.sn a.after.state.said) := by
  by_cases hforged : ∃ data ∈ msgs, Forged X first more data
  · exact Or.inl hforged
  have hno : ∀ {heard : List Bytes}, heard <+: msgs →
      ∀ data ∈ heard, ¬ Forged X first more data :=
    fun hheard data hdata h => hforged ⟨data, hheard.subset hdata, h⟩
  right
  obtain ⟨k₀, hk₀, hkept⟩ := h.delegation_kept
  obtain ⟨hdel, hdelegator⟩ := hkept k List.mem_cons_self
  rw [hd] at hdelegator
  rcases build_cases hk₀ with ⟨-, -, hnone⟩ | ⟨-, hdelegated, d, hd₀, hsealed⟩
  · rw [hnone] at hdelegator
    cases hdelegator
  obtain rfl := Option.some_inj.1 (hdelegator.trans hd₀)
  refine ⟨⟨k₀, hk₀, ?_⟩, fun a ha => ?_⟩
  · cases b with
    | new | newFromParts => exact hsealed.elim
    | newDelegated serder sigs verfers proof source =>
        obtain ⟨-, dip, hdip, hdi, hseal⟩ := hsealed
        obtain ⟨-, -, dip', hdip', -, -, -, -, hstate, -⟩ := Kever.newDelegated_eq_ok.1 hk₀
        obtain rfl := Except.ok.inj (hdip.symm.trans hdip')
        obtain ⟨-, -, bt, -, -, hstate⟩ := KeyState.fromDelegatedInception_eq_ok.1 hstate
        obtain ⟨heard, hheard, hsource⟩ := hbuild source rfl
        rw [hstate]
        exact hseal.granted hcesr hjson hdigest hsign hlife hsource (hno hheard)
  · obtain ⟨-, hstep⟩ := h.steps_sealed (hdel.trans hdelegated) hd a ha
    refine hstep.imp id ?_
    rintro ⟨hilk, serder, sigs, proof, source, drt, hcall, -, -, -, hpfx, hsaid, hseal⟩
    obtain ⟨heard, hheard, hsource⟩ := hsteps a ha source (by rw [hcall]; exact rfl)
    rw [hpfx, hsaid] at hseal
    exact ⟨hilk, hseal.granted hcesr hjson hdigest hsign hlife hsource (hno hheard)⟩

end

/-! ### An instance -/

/-- The identifier of the delegator. -/
def toyDelegator : String :=
  match Hab.inceptEvent Toy.lib "alice" { salt := some (Toy.salt 7) } [] with
  | .ok (h, _, _) => h.pfx
  | .error _ => ""

/-- A delegated inception of key 1. -/
def toyGrantedDip : Serder :=
  Toy.serderOf Toy.checksumDigest (Toy.eventBytes
    (Fields.insert "t" (.string "dip")
      (Fields.insert "di" (.string toyDelegator) (Toy.icpFields "1" "1" [1] [2]))))

/-- Its rotation to key 2. -/
def toyGrantedDrt : Serder :=
  Toy.serderOf Toy.checksumDigest (Toy.eventBytes
    (Fields.insert "t" (.string "drt") (Fields.insert "di" (.string toyDelegator)
      (Toy.rotFields (Toy.pfxOf toyGrantedDip) (Toy.saidOf toyGrantedDip) "1" "1" "1" [2] [3]))))

/-- What the delegator calls for. -/
def toyGrant : Hab.Call :=
  .interact [toySeal toyGrantedDip "0", toySeal toyGrantedDrt "1"]

/-- What the checker has been sent, and looks anchors up in. -/
def toyHeard (e e' : Hab.SignedEvent) : List Bytes := [e.composed, e'.composed]

def toyLookup (e e' : Hab.SignedEvent) : DelegatorAnchors :=
  (Party.receiver .sound).anchorsAt Toy.lib (toyHeard e e')

def toyGrantedBuild (e e' : Hab.SignedEvent) : BuildCall :=
  .newDelegated toyGrantedDip [Toy.siger 1 0 toyGrantedDip.raw] [Toy.verfer 1] ⟨1, e'.said⟩
    (toyLookup e e')

def toyGrantedAdvance (e e' : Hab.SignedEvent) : AdvanceCall :=
  .verifyUpdateDelegated toyGrantedDrt [Toy.siger 2 0 toyGrantedDrt.raw] ⟨1, e'.said⟩
    (toyLookup e e')

/-- Nothing that the checker has been sent is a forgery. -/
theorem toyHeard_unforged {first st : Stage}
    (h : (toyHeard first.event st.event).all (toyOwned first st) = true) :
    ¬ ∃ data ∈ toyHeard first.event st.event, Forged Toy.lib first [st] data := by
  rintro ⟨data, hdata, hforged⟩
  exact not_forged_of_toyOwned (List.all_eq_true.1 h data hdata) hforged

/-- The delegation of an inception that has been granted is verified, and was granted. -/
theorem delegation_verified_iff_toy : ∃ first st, Life Toy.lib first [st] ∧
    verifyDelegation (Toy.pfxOf toyGrantedDip) 0 (Toy.saidOf toyGrantedDip) first.hab.pfx
      ⟨1, st.event.said⟩ (toyLookup first.event st.event) = .ok ⟨⟩ ∧
    (1, st.event.said) ∈ ((Party.receiver .sound).node Toy.lib
      (toyHeard first.event st.event)).store.tables.kel first.hab.pfx ∧
    ∃ anchors, Interacted Toy.lib first [st] 1 st.event.said anchors ∧
      ∃ anchor ∈ anchors, Seals anchor (Toy.pfxOf toyGrantedDip) 0 (Toy.saidOf toyGrantedDip) := by
  obtain ⟨first, st, hlife, hcheck⟩ := exists_toyStages toyGrant
    (fun first st => decide (verifyDelegation (Toy.pfxOf toyGrantedDip) 0
        (Toy.saidOf toyGrantedDip) first.hab.pfx ⟨1, st.event.said⟩
        (toyLookup first.event st.event) = .ok ⟨⟩) &&
      decide (((Party.receiver .sound).node Toy.lib
        (toyHeard first.event st.event)).store.tables.kels.entries.length ≤ maxMapSize) &&
      (toyHeard first.event st.event).all (toyOwned first st))
    (fun _ _ _ => trivial) (by decide +kernel)
  have hsep : NoSeparator Toy.lib := noSeparator_toy Toy.checksumDigest
  have hcesr : CesrLaws Toy.lib := cesrLaws_toy Toy.checksumDigest
  have hsign : SigningLaws Toy.lib := signingLaws_toy Toy.checksumDigest
  rw [Bool.and_eq_true, Bool.and_eq_true, decide_eq_true_eq, decide_eq_true_eq] at hcheck
  obtain ⟨⟨hverified, hfits⟩, hheard⟩ := hcheck
  refine ⟨first, st, hlife, hverified, ?_⟩
  rcases delegation_verified_iff hcesr (jsonLaws_toy _) digestLaws_toy hsign hlife hsep
    (.receiver .sound) _ hfits (honours_anchorsAt _ _) (Toy.pfxOf toyGrantedDip)
    (Toy.saidOf toyGrantedDip) 0 ⟨1, st.event.said⟩ with hforged | hiff
  · exact absurd hforged (toyHeard_unforged hheard)
  · exact (hiff.1 hverified).2

/-- An identifier that has been incepted and rotated as its delegator has granted. -/
theorem keys_granted_toy : ∃ first st k k', Life Toy.lib first [st] ∧
    Lineage Toy.lib (toyGrantedBuild first.event st.event)
      [{ before := k, call := toyGrantedAdvance first.event st.event, after := k' }] k' ∧
    Granted Toy.lib first [st] k.state.pfx k.state.sn k.state.said := by
  obtain ⟨first, st, hlife, hcheck⟩ := exists_toyStages toyGrant
    (fun first st => (toyHeard first.event st.event).all (toyOwned first st) &&
      (Kever.newDelegated Toy.lib toyGrantedDip
        [Toy.siger 1 0 toyGrantedDip.raw] [Toy.verfer 1] ⟨1, st.event.said⟩
        (toyLookup first.event st.event)).toOption.any fun k : Kever =>
      (((toyGrantedAdvance first.event st.event).advance Toy.lib k).toOption.any fun k' : Kever =>
        decide (k'.state.delegator = some first.hab.pfx)))
    (fun _ _ _ => trivial) (by decide +kernel)
  obtain ⟨hheard, hcheck⟩ := Bool.and_eq_true_iff.1 hcheck
  obtain ⟨k, hk, hrest⟩ := exists_ok_of_any hcheck
  obtain ⟨k', hk', hd⟩ := exists_ok_of_any hrest
  have hcesr : CesrLaws Toy.lib := cesrLaws_toy Toy.checksumDigest
  have hsign : SigningLaws Toy.lib := signingLaws_toy Toy.checksumDigest
  have hbuild : (toyGrantedBuild first.event st.event).build Toy.lib = .ok k := hk
  have hlineage := (Lineage.built hbuild).next hk'
  have hsource : ∀ source : DelegatorAnchors, source = toyLookup first.event st.event →
      ∃ heard, heard <+: toyHeard first.event st.event ∧
        Honours Toy.lib (Party.receiver .sound) heard source := by
    rintro source rfl
    exact ⟨_, List.prefix_rfl, honours_anchorsAt _ _⟩
  have hgranted := keys_granted hcesr (jsonLaws_toy _) digestLaws_toy hsign hlife hlineage
    (of_decide_eq_true hd) (.receiver .sound) (toyHeard first.event st.event) ?_ ?_
  · rcases hgranted with hforged | ⟨⟨k₀, hk₀, hgranted⟩, -⟩
    · exact absurd hforged (toyHeard_unforged hheard)
    · obtain rfl := Except.ok.inj (hbuild.symm.trans hk₀)
      exact ⟨first, st, k, k', hlife, hlineage, hgranted⟩
  · intro source hin
    exact hsource source (Option.some_inj.1 hin).symm
  · intro a ha source hin
    obtain rfl := List.mem_singleton.1 ha
    exact hsource source (Option.some_inj.1 hin).symm

end Keri
