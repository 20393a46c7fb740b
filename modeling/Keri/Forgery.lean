/-
**What only the owner can do.**

What others believe of an identifier goes back to what its owner has done with it, or to a forgery:
a body that has the SAID of the inception and is another, a signature by one of the owner's keys
under a body that the owner has not signed, or a key that opens one of the owner's commitments and
is another.  Messages may be lost, repeated, reordered and mixed with any others; without a forgery
among them every party's log of the identifier is the beginning of the owner's, and no judge ever
holds its owner to be duplicitous.

* `Keri.Stage`, `Keri.Life` — an owner's events, and the identifier after each;
* `Keri.Forgery`, `Keri.Forged` — the three kinds of forgery;
* `Keri.Life.written` — what the body of a stage says;
* `Keri.Life.takes_first`, `Keri.Life.takes_next` — **what a verifier takes is the owner's next
  event, or forged**;
* `Keri.unforged_logs` — **every log of an identifier is the beginning of its owner's**;
* `Keri.unforged_verdict` — **no owner is accused of what it has not done**.
-/

import Keri.Convergence
import Keri.Duplicity
import Keri.Mirror
import Keri.NonTransferable

set_option relaxedAutoImplicit false
set_option autoImplicit false

namespace Keri

open Outcome Machine Replica Simulation

variable (X : Externals)

/-! ### Lives -/

/-- An event of an identifier, and the identifier after it. -/
structure Stage where
  hab : Hab
  event : Hab.SignedEvent

/-- Each stage comes from the one before it by a call. -/
def Lived : Hab → List Stage → Prop
  | _, [] => True
  | h, st :: more =>
      (∃ c, Hab.call X .sound c ⟨h, none⟩ = .ok st.event ⟨st.hab, none⟩ ∧ Fit c h st.event) ∧
        Lived st.hab more

/-- The life of an identifier: its inception, and the calls that have succeeded since. -/
structure Life (first : Stage) (more : List Stage) : Prop where
  incepted : ∃ name config random bytes,
    Hab.inceptEvent X name config random = .ok (first.hab, first.event, bytes) ∧ config.Sound
  size : first.event.raw.length < 2 ^ 24
  lived : Lived X first.hab more
  short : more.length + 1 < u64Bound

/-- A message that the owner has not made and that only the owner could: another body with the SAID
of the inception, a body with a signature by a key of the owner that is not that of an event, or
another key that opens a commitment. -/
inductive Forgery (first : Stage) (more : List Stage) (parsed : ParsedMessage) : Prop where
  | collision {inception : Serder} : Serder.fromRaw X first.event.raw = .ok inception →
      (∃ kind, verifySaid X parsed.serder.sad "d" "E" kind = .ok ⟨⟩) →
      parsed.serder.said = .ok first.event.said → parsed.serder.sad ≠ inception.sad →
      Forgery first more parsed
  | signature {st : Stage} {s : Signer} {sig : Siger} : st ∈ first :: more →
      s ∈ st.hab.signers ++ st.hab.nextSigners → sig ∈ extractControllerSigs parsed.attachments →
      s.verfer.verify X parsed.serder.raw sig.raw = .ok true →
      (∀ st' ∈ first :: more, st'.event.raw ≠ parsed.serder.raw) → Forgery first more parsed
  | commitment {st : Stage} {s : Signer} {digest key : String} {rot : RotationEvent} :
      st ∈ first :: more → s ∈ st.hab.nextSigners → commitmentQb64 X s = .ok digest →
      RotationEvent.fromValue parsed.serder.sad = .ok rot → key ∈ rot.keys →
      KeyMatches X key digest → s.verfer.qb64 X ≠ .ok key → Forgery first more parsed

/-- A message about the identifier that is a forgery. -/
def Forged (first : Stage) (more : List Stage) (data : Bytes) : Prop :=
  ∃ parsed size, parseNext X data = .ok (parsed, size) ∧ parsed.serder.pfx = .ok first.hab.pfx ∧
    Forgery X first more parsed

variable {X} {print : Value → Bytes} {first st : Stage} {more : List Stage} {data : Bytes}

/-! ### Signatures and commitments -/

/-- What meets a threshold has a signature by one of the keys. -/
theorem exists_signature {signers : List Signer} {raw : Bytes} {sigs : List Siger}
    {threshold : Threshold}
    (h : verifySigsStatic X raw sigs (signers.map Signer.verfer) threshold = .ok ⟨⟩) :
    ∃ s ∈ signers, ∃ sig ∈ sigs, s.verfer.verify X raw sig.raw = .ok true := by
  have hsat := (verifySigsStatic_eq_ok.1 h).2
  cases hvalid : validIndices X raw sigs (signers.map Signer.verfer) with
  | nil =>
      rw [hvalid, Threshold.not_isSatisfied_nil] at hsat
      cases hsat
  | cons i is =>
      have hi : i ∈ validIndices X raw sigs (signers.map Signer.verfer) := by
        rw [hvalid]
        exact List.mem_cons_self
      obtain ⟨sig, hsig, -, verfer, hverfer, hok⟩ := mem_validIndices.1 hi
      obtain ⟨s, hs, rfl⟩ := List.mem_map.1 (List.mem_of_getElem? hverfer)
      exact ⟨s, hs, sig, hsig, hok⟩

/-- Keys that open commitments are the keys that were committed to, or one of them is another. -/
theorem opens_cases {signers : List Signer} {keys digests : List String}
    (h : List.Forall₂ (KeyMatches X) keys digests)
    (hdigests : nextKeyDigests X signers = .ok digests) :
    keysQb64 X signers = .ok keys ∨ ∃ s ∈ signers, ∃ key ∈ keys, ∃ digest,
      commitmentQb64 X s = .ok digest ∧ KeyMatches X key digest ∧ s.verfer.qb64 X ≠ .ok key := by
  have hcommitted := mapM_eq_ok.1 hdigests
  have hkeys : keysQb64 X signers = .ok keys ↔
      List.Forall₂ (fun s key => s.verfer.qb64 X = .ok key) signers keys := by
    simp only [keysQb64, mapM_eq_ok, mapError_eq_ok]
  rw [hkeys]
  clear hdigests hkeys
  induction h generalizing signers with
  | nil =>
      obtain rfl := List.forall₂_nil_right_iff.1 hcommitted
      exact Or.inl .nil
  | @cons key digest keys digests hone _ ih =>
      obtain ⟨s, signers, hs, hrest, rfl⟩ := List.forall₂_cons_right_iff.1 hcommitted
      by_cases hkey : s.verfer.qb64 X = .ok key
      · rcases ih hrest with hall | ⟨s', hs', key', hkey', hforged⟩
        · exact Or.inl (.cons hkey hall)
        · exact Or.inr ⟨s', List.mem_cons_of_mem s hs', key', List.mem_cons_of_mem key hkey',
            hforged⟩
      · exact Or.inr ⟨s, List.mem_cons_self, key, List.mem_cons_self, digest, hs, hone, hkey⟩

/-! ### Bodies -/

variable (X) in
/-- What the body of a stage says. -/
structure Stage.Written (st : Stage) (serder : Serder) : Prop where
  read : Serder.fromRaw X st.event.raw = .ok serder
  raw : serder.raw = st.event.raw
  version : ∃ v, extractVersionFromRaw st.event.raw = some v
  said : serder.said = .ok st.event.said
  sn : serder.sn = .ok st.hab.sn

/-- A message with the body of a stage says what the stage does. -/
theorem Stage.Written.serder_eq {serder : Serder} (h : st.Written X serder)
    {parsed : ParsedMessage} {size : ℕ} (hparse : parseNext X data = .ok (parsed, size))
    (hraw : st.event.raw = parsed.serder.raw) : parsed.serder = serder := by
  obtain ⟨first, -, -, n, hread, -⟩ := parseNextInner_eq_ok.1 hparse
  obtain ⟨v, hv⟩ := h.version
  have hdata : data = st.event.raw ++ data.drop parsed.serder.size := by
    rw [hraw]
    conv_rhs => rw [Serder.raw_eq_take hread]
    exact (List.take_append_drop _ _).symm
  have hsame := Serder.fromRaw_append h.read hv (data.drop parsed.serder.size)
  rw [← hdata, hread] at hsame
  exact Except.ok.inj hsame

variable (X) in
/-- A message tells what a stage does: it has the content of its body. -/
def Stage.Tells (st : Stage) (data : Bytes) : Prop :=
  ∃ parsed size serder, parseNext X data = .ok (parsed, size) ∧ st.Written X serder ∧
    parsed.serder.sad = serder.sad

/-- Such a message has the SAID of the stage. -/
theorem Stage.Tells.saidOf_eq (h : st.Tells X data) : saidOf X data = st.event.said := by
  obtain ⟨parsed, size, serder, hparse, hwritten, hsad⟩ := h
  have hsaid : parsed.serder.said = .ok st.event.said := by
    rw [← hwritten.said]
    simp only [Serder.said, Serder.textField, hsad]
  unfold saidOf
  rw [hparse]
  simp only
  rw [hsaid]
  rfl

section

variable (hcesr : CesrLaws X) (hjson : JsonLaws X print) (hdigest : DigestLaws X)
  (hsign : SigningLaws X)
include hcesr hjson hdigest hsign

/-- **The next event of an identifier**: its body, and the verifier that it takes one to. -/
theorem Follows.written {h : Hab} {kever : Kever} (hf : Follows X h kever)
    (hprim : IsPrimitive X kever.state.pfx) {c : Hab.Call}
    (hcall : Hab.call X .sound c ⟨h, none⟩ = .ok st.event ⟨st.hab, none⟩)
    (hfit : Fit c h st.event) :
    st.hab.pfx = h.pfx ∧ st.hab.sn = u64Succ h.sn ∧ ∃ serder next, st.Written X serder ∧
      serder.sad.get "a" = some (.array c.anchors) ∧ Extends X kever.state serder.sad next.state ∧
      Follows X st.hab next := by
  obtain ⟨-, hpfx, next, haccept, hnext⟩ :=
    hf.call hcesr hjson hdigest hsign hcall hfit.sound hfit.size hfit.fresh
  obtain ⟨fields, signers, hfields, ha, hne, hgenuine, hseal⟩ := hf.sealed hcall hfit.sound
  obtain ⟨serder, sigs, hread, hraw, hsealed, -, -, hparse⟩ :=
    parseNext_sealed_append hcesr hjson hdigest hsign hfields hne hgenuine hseal hfit.size
  have hparse₀ := @hparse .nil _ _ rfl rfl
  rw [List.append_nil] at hparse₀
  rw [Kever.accept, hparse₀, ok_bind] at haccept
  have hext := extends_of_update hprim haccept
  obtain ⟨t, hverify, rfl⟩ := Kever.update_eq_ok.1 haccept
  obtain ⟨-, -, ilk, -, hsn, hstate⟩ := Kever.verifyUpdate_eq_ok.1 hverify
  obtain ⟨-, -, -, -, htsn⟩ := Kever.nextState_fields hstate
  have hnum : st.hab.sn = u64Succ h.sn := by
    rw [← hnext.sn, ← hf.sn]
    exact htsn
  refine ⟨hpfx, hnum, serder, _, ⟨hread, hraw, hraw ▸ hsealed.version,
    Serder.textField_eq_ok.2 hsealed.get_d, ?_⟩, ?_, hext, hnext⟩
  · rw [hnum, ← hf.sn]
    exact hsn
  · rw [hsealed.get_of_ne "a" (by decide) (by decide) (by decide), ha]

/-- The first event of an identifier. -/
theorem Life.first_written (hlife : Life X first more) :
    first.hab.sn = 0 ∧ first.hab.pfx = first.event.said ∧ first.hab.pfx ≠ "" ∧
      (∃ diger, Diger.fromQb64 X first.hab.pfx = .ok diger) ∧
      ∃ serder kever, first.Written X serder ∧ serder.sad.get "a" = some (.array []) ∧
        Starts X serder.sad kever.state ∧ Follows X first.hab kever := by
  obtain ⟨name, config, random, bytes, hincept, hconfig⟩ := hlife.incepted
  obtain ⟨keys, digests, hseal, -, hgenuine, hcount, hpfx, hsn⟩ := inceptEvent_sealed hincept
  obtain ⟨msg, kever, hparse, hnew, hfollows⟩ :=
    follows_incept hcesr hjson hdigest hsign hincept hconfig hlife.size
  have hne : first.hab.signers ≠ [] := by
    intro hnil
    have hle := hconfig.threshold.1.trans hconfig.threshold.2
    rw [hnil, List.length_nil] at hcount
    omega
  obtain ⟨serder, sigs, hread, hraw, hsealed, -, -, hparse'⟩ :=
    parseNext_sealed_append hcesr hjson hdigest hsign (i := "") ⟨⟨_, rfl⟩, rfl, rfl⟩ hne hgenuine
      hseal hlife.size
  have hparse₀ := @hparse' .nil _ _ rfl rfl
  rw [List.append_nil] at hparse₀
  obtain ⟨rfl, -⟩ := Prod.mk.inj (Except.ok.inj (hparse.symm.trans hparse₀))
  obtain ⟨digested, hdigested⟩ := hsealed.digest
  obtain ⟨diger, hdiger, -⟩ := diger_of_digestQb64 hcesr hdigest hdigested
  have hpfx_ne : first.hab.pfx ≠ "" := by
    intro hempty
    have hlen := (hdigest.plain hdigested).2
    rw [← hpfx, hempty] at hlen
    cases hlen
  refine ⟨hsn, hpfx, hpfx_ne, ⟨diger, by rw [hpfx]; exact hdiger⟩, serder, kever,
    ⟨hread, hraw, hraw ▸ hsealed.version, Serder.textField_eq_ok.2 hsealed.get_d, ?_⟩,
    hsealed.get_of_ne "a" (by decide) (by decide) (by decide), starts_of_new hnew, hfollows⟩
  have hs : serder.sad.get "s" = some (.string "0") :=
    hsealed.get_of_ne "s" (by decide) (by decide) (by decide)
  rw [hsn]
  exact Serder.sn_eq_ok.2 ⟨_, hs, by decide⟩

omit hcesr hjson hdigest hsign in
/-- Stages next to each other are a call apart. -/
theorem Lived.call_at (hlived : Lived X first.hab more) {i : ℕ} {st' : Stage}
    (hi : (first :: more)[i]? = some st) (hi' : more[i]? = some st') :
    ∃ c, Hab.call X .sound c ⟨st.hab, none⟩ = .ok st'.event ⟨st'.hab, none⟩ ∧
      Fit c st.hab st'.event := by
  induction more generalizing first i with
  | nil => cases hi'
  | cons next more ih =>
      obtain ⟨hcall, hmore⟩ := hlived
      cases i with
      | zero =>
          obtain rfl := Option.some_inj.1 hi
          obtain rfl := Option.some_inj.1 hi'
          exact hcall
      | succ i => exact ih hmore hi hi'

/-- **What the stages of a life are.** -/
theorem Life.written (hlife : Life X first more) {i : ℕ} (hi : (first :: more)[i]? = some st) :
    st.hab.sn = i ∧ st.hab.pfx = first.hab.pfx ∧ (∃ serder, st.Written X serder) ∧
      ∃ kever, Follows X st.hab kever := by
  obtain ⟨hzero, -, -, ⟨diger, hdiger⟩, serder, kever, hwritten, -, -, hfollows⟩ :=
    hlife.first_written hcesr hjson hdigest hsign
  induction i generalizing st with
  | zero =>
      obtain rfl := Option.some_inj.1 hi
      exact ⟨hzero, rfl, ⟨serder, hwritten⟩, kever, hfollows⟩
  | succ i ih =>
      have hlt := (List.getElem?_eq_some_iff.1 hi).1
      rw [List.length_cons] at hlt
      have hshort := hlife.short
      have hbefore := List.getElem?_eq_getElem (l := first :: more) (i := i) (by simp; omega)
      obtain ⟨hsn, hpfx, -, k, hk⟩ := ih hbefore
      obtain ⟨c, hcall, hfit⟩ := hlife.lived.call_at hbefore hi
      have hprim : IsPrimitive X k.state.pfx := by
        rw [hk.pfx, hpfx]
        exact isPrimitive_of_diger hdiger
      obtain ⟨hpfx', hsn', serder', next, hwritten', -, -, hnext⟩ :=
        hk.written hcesr hjson hdigest hsign hprim hcall hfit
      refine ⟨?_, hpfx'.trans hpfx, ⟨serder', hwritten'⟩, next, hnext⟩
      rw [hsn', hsn, u64Succ_of_lt (by omega)]

end

/-! ### What a verifier takes -/

/-- A body that is signed with keys of the owner is the owner's. -/
theorem exists_stage {parsed : ParsedMessage} (hno : ¬ Forgery X first more parsed)
    (hst : st ∈ first :: more) {signers : List Signer} {threshold : Threshold}
    (hsub : ∀ s ∈ signers, s ∈ st.hab.signers ++ st.hab.nextSigners)
    (hsigs : verifySigsStatic X parsed.serder.raw (extractControllerSigs parsed.attachments)
      (signers.map Signer.verfer) threshold = .ok ⟨⟩) :
    ∃ st' ∈ first :: more, st'.event.raw = parsed.serder.raw := by
  obtain ⟨s, hs, sig, hsig, hok⟩ := exists_signature hsigs
  by_contra hnone
  refine hno (.signature hst (hsub s hs) hsig hok fun st' hst' hraw => ?_)
  exact hnone ⟨st', hst', hraw⟩

/-- A verifier that has its inception is its key state. -/
theorem Kever.eq_of_state {k k' : Kever} (h : k.state = k'.state) (hinc : k.incepted = true)
    (hinc' : k'.incepted = true) : k = k' := by
  obtain ⟨s, b⟩ := k
  obtain ⟨s', b'⟩ := k'
  simp only at h hinc hinc'
  rw [h, hinc, hinc']

/-- An inception with a self-addressing identifier has it for its SAID. -/
theorem lastEventDigest_of_incept {raw : Bytes} {sad : Value} {sigs : List Siger}
    {verfers : List Verfer} {k : Kever} (h : Kever.incept X raw sad sigs verfers = .ok k)
    {diger : Diger} (hdiger : Diger.fromQb64 X k.state.pfx = .ok diger) :
    k.state.lastEventDigest = k.state.pfx := by
  obtain ⟨icp, -, -, -, hderived, hstate, -⟩ := Kever.incept_eq_ok.1 h
  obtain ⟨-, bt, -, -, hk⟩ := KeyState.fromInception_eq_ok.1 hstate
  rw [hk] at hdiger ⊢
  unfold Kever.validatePrefixDerivation at hderived
  rw [show Diger.fromQb64 X icp.pfx = .ok diger from hdiger, if_pos (by rfl)] at hderived
  exact (ensure_eq_ok.1 hderived).symm

section

variable (hcesr : CesrLaws X) (hjson : JsonLaws X print) (hdigest : DigestLaws X)
  (hsign : SigningLaws X) (hlife : Life X first more) {after : Option Kever}
include hcesr hjson hdigest hsign hlife

/-- **The first event that is taken is the owner's first**, or forged. -/
theorem Life.takes_first (htake : takes X first.hab.pfx none data = some after)
    (hno : ¬ Forged X first more data) :
    ∃ k, after = some k ∧ Follows X first.hab k ∧ first.Tells X data := by
  obtain ⟨hzero, hpfx, -, ⟨diger, hdiger⟩, serder, kever, hwritten, -, hstarts, hfollows⟩ :=
    hlife.first_written hcesr hjson hdigest hsign
  obtain ⟨parsed, size, r, sigs, k, hparse, -, hacc, hp, -, rfl⟩ := takes_eq_some htake
  obtain ⟨hkpfx, hklast, -, -, hinc, -⟩ := hacc.advance
  obtain ⟨hrpfx, -, hrsaid, -⟩ := Serder.header_eq_ok.1 hacc.header
  have hsame : r.said = first.event.said := by
    cases hacc with
    | inception _ _ _ _ hverify =>
        obtain ⟨verfers, -, hnew, -⟩ := verifyInception_eq_ok.1 hverify
        obtain ⟨-, -, hincept⟩ := Kever.newFromParts_eq_ok.1 hnew
        have hlast := lastEventDigest_of_incept hincept (by rw [hkpfx, hp]; exact hdiger)
        rw [← hklast, hlast, hkpfx, hp, hpfx]
    | update _ _ _ hsome => cases hsome
  rcases hacc.starts_or_extends (fun k₀ hk₀ => by cases hk₀) with ⟨-, hkstarts⟩ | ⟨k₀, hk₀, -⟩
  · have hsad : parsed.serder.sad = serder.sad := by
      by_contra hne
      exact hno ⟨parsed, size, hparse, hp ▸ hrpfx, .collision hwritten.read hkstarts.said_ok
        (by rw [hrsaid, hsame]) hne⟩
    rw [hsad] at hkstarts
    have hstate := hkstarts.state_eq hstarts
    obtain rfl := Kever.eq_of_state hstate hinc hfollows.incepted
    exact ⟨k, rfl, hfollows, parsed, size, serder, hparse, hwritten, hsad⟩
  · cases hk₀

/-- **The next event that is taken is the owner's next**, or forged. -/
theorem Life.takes_next {i : ℕ} (hi : (first :: more)[i]? = some st) {kever : Kever}
    (hf : Follows X st.hab kever)
    (htake : takes X first.hab.pfx (some kever) data = some after)
    (hno : ¬ Forged X first more data) :
    ∃ st' k, (first :: more)[i + 1]? = some st' ∧ after = some k ∧ Follows X st'.hab k ∧
      st'.Tells X data := by
  obtain ⟨-, -, -, ⟨diger, hdiger⟩, -⟩ := hlife.first_written hcesr hjson hdigest hsign
  obtain ⟨hsn, hpfx, -⟩ := hlife.written hcesr hjson hdigest hsign hi
  have hprim : IsPrimitive X kever.state.pfx := by
    rw [hf.pfx, hpfx]
    exact isPrimitive_of_diger hdiger
  obtain ⟨parsed, size, r, sigs, k, hparse, -, hacc, hp, -, rfl⟩ := takes_eq_some htake
  obtain ⟨-, -, -, -, hinc, hkind⟩ := hacc.advance
  obtain ⟨hrpfx, hrsn, -, -⟩ := Serder.header_eq_ok.1 hacc.header
  have hunforged : ¬ Forgery X first more parsed :=
    fun h => hno ⟨parsed, size, hparse, hp ▸ hrpfx, h⟩
  have hnum : r.sn = i + 1 := by
    have hlt := (List.getElem?_eq_some_iff.1 hi).1
    rw [List.length_cons] at hlt
    have hshort := hlife.short
    rcases hkind with ⟨hnone, -⟩ | ⟨k₀, hk₀, -, -, hsucc⟩
    · cases hnone
    · obtain rfl := Option.some_inj.1 hk₀
      rw [hsucc, hf.sn, hsn, u64Succ_of_lt (by omega)]
  -- the body is signed with keys that the owner has or is committed to
  have hbody : ∃ st' ∈ first :: more, st'.event.raw = parsed.serder.raw := by
    have hst := List.mem_of_getElem? hi
    cases hacc with
    | inception _ _ _ hnone => cases hnone
    | @update _ _ k₀ t _ _ _ hsome hverify =>
        obtain rfl := Option.some_inj.1 hsome
        obtain ⟨howned, -⟩ := verifyNext_eq_ok.1 hverify
        obtain ⟨-, -, ilk, _, -, -, -, hnext⟩ := Kever.verifyUpdateOwned_eq_ok.1 howned
        rcases Kever.nextState_eq_ok.1 hnext with
          ⟨-, -, rot, verfers, hrot, hverfers, hsigs, happly⟩ |
            ⟨-, ixn, verfers, -, hverfers, hsigs, -⟩
        · obtain ⟨-, -, -, hmatch, -⟩ := KeyState.applyRotation_eq_ok.1 happly
          rcases opens_cases hmatch hf.nextKeys with
            hkeys | ⟨s, hs, key, hkey, digest, hcommit, hopens, hne⟩
          · obtain ⟨hgenuine, -⟩ :=
              verfersFromKeys_of_keysQb64 hcesr hsign hf.nextSigners hkeys
            obtain rfl := Except.ok.inj (hgenuine.symm.trans hverfers)
            exact exists_stage hunforged hst
              (fun s hs => List.mem_append_right st.hab.signers hs) hsigs
          · exact absurd (.commitment hst hs hcommit hrot hkey hopens hne) hunforged
        · obtain ⟨hgenuine, -⟩ := verfersFromKeys_of_keysQb64 hcesr hsign hf.signers hf.keys
          obtain rfl := Except.ok.inj (hgenuine.symm.trans hverfers)
          exact exists_stage hunforged hst
            (fun s hs => List.mem_append_left st.hab.nextSigners hs) hsigs
  -- and it is the body of the stage with its number
  obtain ⟨st', hst', hraw⟩ := hbody
  obtain ⟨j, hj⟩ := List.mem_iff_getElem?.1 hst'
  obtain ⟨hsn', -, ⟨serder, hwritten⟩, -⟩ := hlife.written hcesr hjson hdigest hsign hj
  have hserder := hwritten.serder_eq hparse hraw
  have hji : j = i + 1 := by
    rw [hserder, hwritten.sn, hsn'] at hrsn
    exact (Except.ok.inj hrsn).trans hnum
  subst hji
  obtain ⟨c, hcall, hfit⟩ := hlife.lived.call_at hi hj
  obtain ⟨-, -, serder', next, hwritten', -, hext, hnext⟩ :=
    hf.written hcesr hjson hdigest hsign hprim hcall hfit
  obtain rfl := Except.ok.inj (hwritten.read.symm.trans hwritten'.read)
  refine ⟨st', k, hj, rfl, ?_, parsed, size, serder, hparse, hwritten, by rw [hserder]⟩
  rcases hacc.starts_or_extends
    (fun k₀ hk₀ => by rw [← Option.some_inj.1 hk₀]; exact hprim) with ⟨hnone, -⟩ | ⟨k₀, hk₀, hkext⟩
  · cases hnone
  · obtain rfl := Option.some_inj.1 hk₀
    rw [hserder] at hkext
    have hstate := hkext.state_eq hext
    rw [Kever.eq_of_state hstate hinc hnext.incepted]
    exact hnext

end

/-! ### Runs -/

variable (X) in
/-- What a verifier may be and have taken: nothing, or what the owner has done up to some stage. -/
inductive Reached (first : Stage) (more : List Stage) : Option Kever → List Bytes → Prop where
  | unknown : Reached first more none []
  | known {i : ℕ} {st : Stage} {k : Kever} {log : List Bytes} : (first :: more)[i]? = some st →
      Follows X st.hab k → List.Forall₂ (Stage.Tells X) ((first :: more).take (i + 1)) log →
      Reached first more (some k) log

/-- What has been taken tells the stages from the first on. -/
theorem Reached.tells {before : Option Kever} {log : List Bytes}
    (h : Reached X first more before log) :
    List.Forall₂ (Stage.Tells X) ((first :: more).take log.length) log := by
  cases h with
  | unknown => exact .nil
  | known hi _ htells =>
      have hlt := (List.getElem?_eq_some_iff.1 hi).1
      have hlen := htells.length_eq
      rw [List.length_take, Nat.min_eq_left hlt] at hlen
      rw [← hlen]
      exact htells

/-- The SAIDs of messages that tell stages are those of the stages. -/
theorem saids_of_tells {stages : List Stage} {log : List Bytes}
    (h : List.Forall₂ (Stage.Tells X) stages log) :
    log.map (saidOf X) = stages.map (·.event.said) := by
  induction h with
  | nil => rfl
  | cons hone _ ih => rw [List.map_cons, List.map_cons, hone.saidOf_eq, ih]

/-- What has been taken is the beginning of what the owner has done. -/
theorem Reached.isPrefix {before : Option Kever} {log : List Bytes}
    (h : Reached X first more before log) :
    log.map (saidOf X) <+: (first :: more).map (·.event.said) := by
  rw [saids_of_tells h.tells, List.map_take]
  exact List.take_prefix _ _

/-- The message that was taken as the event with some number tells the stage with this number. -/
theorem Reached.tells_at {before : Option Kever} {log : List Bytes}
    (h : Reached X first more before log) {i : ℕ} (hi : log[i]? = some data) :
    ∃ st, (first :: more)[i]? = some st ∧ st.Tells X data := by
  have hlt := (List.getElem?_eq_some_iff.1 hi).1
  have htells := h.tells
  have hlen := htells.length_eq
  have hget := List.getElem?_eq_getElem (l := (first :: more).take log.length) (i := i) (by omega)
  have hone := (List.forall₂_iff_get.1 htells).2 i (by omega) hlt
  rw [List.get_eq_getElem, List.get_eq_getElem, (List.getElem?_eq_some_iff.1 hi).2] at hone
  rw [List.getElem?_take_of_lt hlt] at hget
  exact ⟨_, hget, hone⟩

section

variable (hcesr : CesrLaws X) (hjson : JsonLaws X print) (hdigest : DigestLaws X)
  (hsign : SigningLaws X) (hlife : Life X first more) {before after : Option Kever}
include hcesr hjson hdigest hsign hlife

/-- One message that is taken. -/
theorem Reached.step {log : List Bytes} (h : Reached X first more before log)
    (htake : takes X first.hab.pfx before data = some after) (hno : ¬ Forged X first more data) :
    Reached X first more after (log ++ [data]) := by
  cases h with
  | unknown =>
      obtain ⟨k, rfl, hf, htells⟩ :=
        hlife.takes_first hcesr hjson hdigest hsign htake hno
      exact .known (i := 0) rfl hf (.cons htells .nil)
  | @known i st k _ hi hf hlog =>
      obtain ⟨st', k', hi', rfl, hf', htells⟩ :=
        hlife.takes_next hcesr hjson hdigest hsign hi hf htake hno
      refine .known hi' hf' ?_
      rw [List.take_add_one (i := i + 1), hi']
      exact List.rel_append hlog (.cons htells .nil)

/-- The last message that was taken tells the stage that the verifier is at. -/
theorem Reached.last {kever : Kever} {log : List Bytes}
    (h : Reached X first more (some kever) (log ++ [data])) :
    ((first :: more).map (·.event.said))[kever.state.sn]? = some (saidOf X data) := by
  have hat : (log ++ [data])[log.length]? = some data := by
    rw [List.getElem?_append_right (Nat.le_refl _), Nat.sub_self]
    rfl
  obtain ⟨st', hst', htells⟩ := h.tells_at hat
  cases h with
  | @known i st _ _ hi hf hlog =>
      obtain ⟨hsn, -⟩ := hlife.written hcesr hjson hdigest hsign hi
      have hlt := (List.getElem?_eq_some_iff.1 hi).1
      have hlen := hlog.length_eq
      rw [List.length_take, Nat.min_eq_left hlt, List.length_append, List.length_singleton] at hlen
      have hnum : kever.state.sn = log.length := (hf.sn.trans hsn).trans (Nat.succ.inj hlen)
      rw [hnum, List.getElem?_map, hst', htells.saidOf_eq]
      rfl

/-- All the messages that are taken. -/
theorem Reached.path {log : List Bytes} (h : Reached X first more before log)
    {msgs : List Bytes} (hpath : Path (takes X first.hab.pfx) before msgs after)
    (hno : ∀ data ∈ msgs, ¬ Forged X first more data) :
    Reached X first more after (log ++ msgs) := by
  induction msgs generalizing before log with
  | nil =>
      obtain rfl : before = after := hpath
      rw [List.append_nil]
      exact h
  | cons data msgs ih =>
      obtain ⟨mid, hmid, hrest⟩ := hpath
      rw [← List.singleton_append, ← List.append_assoc]
      exact ih (h.step hcesr hjson hdigest hsign hlife hmid (hno data List.mem_cons_self)) hrest
        fun data' hdata' => hno data' (List.mem_cons_of_mem data hdata')

/-- What a party has taken, when none of it is forged. -/
theorem Party.reached (P : Party) (msgs : List Bytes)
    (hno : ∀ data ∈ msgs, ¬ Forged X first more data) :
    Reached X first more ((P.node X msgs).kevers.get first.hab.pfx)
      (P.logOf X first.hab.pfx msgs) := by
  have hlog : ∀ data ∈ P.logOf X first.hab.pfx msgs, ¬ Forged X first more data :=
    fun data hdata =>
      hno data (((taken_sublist none _).trans (P.hearing_sublist msgs)).subset hdata)
  have hreached := Reached.unknown.path hcesr hjson hdigest hsign hlife
    (P.path_logOf first.hab.pfx msgs) hlog
  rwa [List.nil_append] at hreached

/-- **Every log of an identifier is the beginning of its owner's, or there is a forgery.**  A
receiver or a judge, with whatever store, has been sent whatever messages, none of them a forgery:
its log of the identifier has the owner's events from the first on, and its verifier agrees with the
identifier as it was after the last of them. -/
theorem unforged_logs (hsep : NoSeparator X) (P : Party) (msgs : List Bytes)
    (hfits : (P.node X msgs).store.tables.FitsMap) :
    (∃ data ∈ msgs, Forged X first more data) ∨
      (P.node X msgs).store.tables.kel first.hab.pfx <+:
        numbered ((first :: more).map (·.event.said)) ∧
      ∀ kever, (P.node X msgs).kevers.get first.hab.pfx = some kever →
        ∃ st, (first :: more)[kever.state.sn]? = some st ∧ Agrees X st.hab kever ∧
          ((P.node X msgs).store.tables.kel first.hab.pfx).length = kever.state.sn + 1 := by
  by_cases hforged : ∃ data ∈ msgs, Forged X first more data
  · exact Or.inl hforged
  have hreached := P.reached hcesr hjson hdigest hsign hlife msgs
    fun data hdata h => hforged ⟨data, hdata, h⟩
  right
  rw [P.kel hsep hfits]
  refine ⟨numbered_isPrefix hreached.isPrefix, fun kever hkever => ?_⟩
  rw [hkever] at hreached
  generalize P.logOf X first.hab.pfx msgs = log at hreached
  cases hreached with
  | @known i st _ _ hi hf htells =>
      obtain ⟨hsn, -⟩ := hlife.written hcesr hjson hdigest hsign hi
      have hnum : kever.state.sn = i := hf.sn.trans hsn
      have hlt := (List.getElem?_eq_some_iff.1 hi).1
      have hlen := htells.length_eq
      rw [List.length_take, Nat.min_eq_left hlt] at hlen
      refine ⟨st, by rw [hnum]; exact hi, hf.toAgrees, ?_⟩
      rw [hnum, numbered, List.length_zip, List.length_range, Nat.min_self, List.length_map,
        ← hlen]

/-- What is logged under a number of the identifier is the owner's event with that number. -/
theorem owned_of_logged (msgs : List Bytes) (hno : ∀ data ∈ msgs, ¬ Forged X first more data)
    {sn : ℕ} {said : String} (hsn : sn < u64Bound)
    (h : (runDirect X .sound msgs).store.tables.kels.get (snKey first.hab.pfx sn) = some said) :
    ((first :: more).map (·.event.said))[sn]? = some said := by
  induction msgs using List.reverseRecOn with
  | nil => cases h
  | append_singleton msgs new ih =>
      have hmsgs : ∀ data ∈ msgs, ¬ Forged X first more data := fun data hdata =>
        hno data (List.mem_append_left [new] hdata)
      have hnew : ¬ Forged X first more new :=
        hno new (List.mem_append_right msgs (List.mem_singleton_self new))
      rw [runDirect_concat] at h
      cases htake : takes X first.hab.pfx ((runDirect X .sound msgs).kevers.get first.hab.pfx)
          new with
      | none =>
          rw [(stepDirect_untaken htake).2 sn hsn] at h
          exact ih hmsgs h
      | some after =>
          obtain ⟨-, k, rfl, hkels⟩ := stepDirect_taken htake
          rw [hkels, Table.get_put] at h
          split at h
          · rename_i hkey
            have hreached := ((Party.receiver .sound).reached hcesr hjson hdigest hsign hlife msgs
              hmsgs).step hcesr hjson hdigest hsign hlife htake hnew
            have hksn : k.state.sn < u64Bound := by
              obtain ⟨_, _, _, _, k', -, -, hacc, -, -, hk'⟩ := takes_eq_some htake
              obtain rfl := Option.some_inj.1 hk'
              obtain ⟨-, -, hsn', hlt, -⟩ := hacc.advance
              rw [hsn']
              exact hlt
            obtain ⟨-, rfl⟩ := snKey_inj hsn hksn hkey
            rw [← Option.some_inj.1 h]
            exact hreached.last hcesr hjson hdigest hsign hlife
          · exact ih hmsgs h

/-- **A conflicting event that passes is the owner's event with its number**, or forged. -/
theorem Reached.owns {kevers : Table String Kever} {log : List Bytes}
    (h : Reached X first more (kevers.get first.hab.pfx) log) {parsed : ParsedMessage} {size : ℕ}
    {r : ProcessResult} (hparse : parseNext X data = .ok (parsed, size))
    (hheader : parsed.serder.header = .ok r) (hp : r.pfx = first.hab.pfx)
    (htrial : Judge.trialVerify X kevers r parsed.serder
      (extractControllerSigs parsed.attachments) = .ok ⟨⟩)
    (hno : ¬ Forged X first more data) :
    ((first :: more).map (·.event.said))[r.sn]? = some r.said := by
  obtain ⟨hpfx, hrsn, hrsaid, -⟩ := Serder.header_eq_ok.1 hheader
  rcases trialVerify_eq_ok.1 htrial with ⟨-, verfers, k, -, hnew⟩ | ⟨-, k, hk, hsigned⟩
  · -- the identifier is the SAID of any inception of it
    obtain ⟨-, hfirst, -, ⟨diger, hdiger⟩, -⟩ := hlife.first_written hcesr hjson hdigest hsign
    obtain ⟨-, -, hincept⟩ := Kever.new_eq_ok.1 hnew
    obtain ⟨hi, hd, -⟩ := Kever.incept_fields hincept
    have hkpfx : k.state.pfx = r.pfx := Value.string.inj
      (Option.some_inj.1 (hi.symm.trans (Serder.textField_eq_ok.1 hpfx)))
    have hksaid : k.state.lastEventDigest = r.said := Value.string.inj
      (Option.some_inj.1 (hd.symm.trans (Serder.textField_eq_ok.1 hrsaid)))
    have hlast := lastEventDigest_of_incept hincept (by rw [hkpfx, hp]; exact hdiger)
    rw [sn_of_new hheader hnew, ← hksaid, hlast, hkpfx, hp, hfirst]
    rfl
  · -- a body that the keys of a stage have signed is that of a stage
    rw [← hp, hk] at h
    cases h with
    | @known i st _ _ hi hf _ =>
        obtain ⟨verfers, hverfers, hsigs⟩ := signedUnder_iff.1 hsigned
        obtain ⟨hgenuine, -⟩ := verfersFromKeys_of_keysQb64 hcesr hsign hf.signers hf.keys
        obtain rfl := Except.ok.inj (hgenuine.symm.trans hverfers)
        obtain ⟨st', hst', hraw⟩ := exists_stage
          (fun h => hno ⟨parsed, size, hparse, hp ▸ hpfx, h⟩) (List.mem_of_getElem? hi)
          (fun s hs => List.mem_append_left st.hab.nextSigners hs) hsigs
        obtain ⟨j, hj⟩ := List.mem_iff_getElem?.1 hst'
        obtain ⟨hsn, -, ⟨serder, hwritten⟩, -⟩ := hlife.written hcesr hjson hdigest hsign hj
        have hserder := hwritten.serder_eq hparse hraw
        rw [hserder, hwritten.sn, hsn] at hrsn
        rw [hserder, hwritten.said] at hrsaid
        rw [← Except.ok.inj hrsn, ← Except.ok.inj hrsaid, List.getElem?_map, hj]
        rfl

/-- **No owner is accused of what it has not done.**  When a judge, with whatever store, holds the
owner of the identifier to be duplicitous, it has been sent a forgery. -/
theorem unforged_verdict (disk : Disk) (msgs : List Bytes)
    (h : (runJudge X disk .empty msgs).verdict first.hab.pfx = .duplicitous) :
    ∃ data ∈ msgs, Forged X first more data := by
  by_contra hforged
  have hno : ∀ data ∈ msgs, ¬ Forged X first more data :=
    fun data hdata h => hforged ⟨data, hdata, h⟩
  have hflagged : first.hab.pfx ∈ (runJudge X disk .empty msgs).flagged := by
    unfold Judge.verdict at h
    by_contra hnot
    rw [if_neg hnot] at h
    split at h <;> cases h
  clear h hforged
  induction msgs using List.reverseRecOn with
  | nil => exact absurd hflagged (Finset.notMem_empty _)
  | append_singleton msgs new ih =>
      have hmsgs : ∀ data ∈ msgs, ¬ Forged X first more data := fun data hdata =>
        hno data (List.mem_append_left [new] hdata)
      have hnew : ¬ Forged X first more new :=
        hno new (List.mem_append_right msgs (List.mem_singleton_self new))
      have hbefore := fun hin => ih hmsgs hin
      rw [runJudge_concat] at hflagged
      rcases stepJudge_evidence X disk (runJudge X disk .empty msgs) new with
        ⟨hsame, -⟩ | ⟨e, -, hrun⟩
      · rw [hsame] at hflagged
        exact hbefore hflagged
      rw [stepJudge_of_ok hrun, Judge.recordDuplicity_flagged, Finset.mem_insert] at hflagged
      obtain ⟨parsed, size, r, hparse, hheader, hjudged⟩ := Judge.process_eq_ok.1 hrun
      obtain ⟨-, -, -, -, htrial, existing, event, hseen, hne, -, rfl, -⟩ :=
        (Judge.processJudged_detected hheader).1 hjudged
      have hp : first.hab.pfx = r.pfx := hflagged.resolve_right hbefore
      obtain ⟨-, hrsn, hrsaid, -⟩ := Serder.header_eq_ok.1 hheader
      -- what was seen there is the owner's event
      have htraceless := (Party.judge disk).traceless (X := X) msgs
      have hheard : ∀ data ∈ (Party.judge disk).hearing X msgs, ¬ Forged X first more data :=
        fun data hdata => hmsgs data (((Party.judge disk).hearing_sublist msgs).subset hdata)
      have hlogs := @kels_eq_fels_run X disk (Judge.new .empty) msgs rfl
      have howned : ((first :: more).map (·.event.said))[r.sn]? = some existing := by
        refine owned_of_logged hcesr hjson hdigest hsign hlife _ hheard (Serder.sn_lt hrsn) ?_
        rw [htraceless.tables, hp]
        exact (congrArg (fun t => t.get (snKey r.pfx r.sn)) hlogs).trans hseen
      have hreached := (Party.judge disk).reached hcesr hjson hdigest hsign hlife msgs hmsgs
      have howns := hreached.owns hcesr hjson hdigest hsign hlife hparse hheader hp.symm htrial hnew
      exact hne (Option.some_inj.1 (howned.symm.trans howns))

end

/-! ### An instance -/

/-- The inception of an identifier with one key, and one call after it. -/
def toyStages (c : Hab.Call) (check : Stage → Stage → Bool)
    (r : Hab × Hab.SignedEvent × Bytes) : Bool :=
  decide (r.2.1.raw.length < 2 ^ 24) && decide (r.1.nextSigners.length = 1) &&
    decide (r.1.backerThreshold = 0) &&
  okAnd (fun event k => k.store.isNone && decide (event.raw.length < 2 ^ 24) &&
      decide (event.said ≠ r.1.pfx) && check ⟨r.1, r.2.1⟩ ⟨k.hab, event⟩)
    (Hab.call Toy.lib .sound c ⟨r.1, none⟩)

/-- What such a life consists of. -/
theorem exists_toyStages (c : Hab.Call) (check : Stage → Stage → Bool)
    (hc : ∀ h : Hab, h.nextSigners.length = 1 → h.backerThreshold = 0 → c.SoundFor h)
    (h : (Hab.inceptEvent Toy.lib "alice" { salt := some (Toy.salt 7) } []).toOption.any
      (toyStages c check) = true) :
    ∃ first st, Life Toy.lib first [st] ∧ check first st = true := by
  obtain ⟨⟨hab, event, record⟩, hincept, hrun⟩ := exists_ok_of_any h
  simp only [toyStages, Bool.and_eq_true, decide_eq_true_eq] at hrun
  obtain ⟨⟨⟨hsize, hnext⟩, hbt⟩, hrun⟩ := hrun
  obtain ⟨next, ⟨hab', store⟩, hcall, hrest⟩ := exists_run_of_okAnd hrun
  simp only [Bool.and_eq_true, decide_eq_true_eq, Option.isNone_iff_eq_none] at hrest
  obtain ⟨⟨⟨rfl, hsize'⟩, hfresh⟩, hcheck⟩ := hrest
  have hconfig : InceptionConfig.Sound { salt := some (Toy.salt 7) } :=
    ⟨by decide, by decide, by decide, by decide⟩
  exact ⟨⟨hab, event⟩, ⟨hab', next⟩, ⟨⟨_, _, _, _, hincept, hconfig⟩, hsize,
    ⟨⟨c, hcall, hc hab hnext hbt, hsize', hfresh⟩, trivial⟩,
    (by decide : 2 < u64Bound)⟩, hcheck⟩

/-- Is it a message of the life: a body of one of its events, with the content of the inception if
with its SAID, and to keys that open no commitment but their own? -/
def toyOwned (first st : Stage) (data : Bytes) : Bool :=
  (parseNext Toy.lib data).toOption.any fun p =>
    (decide (p.1.serder.said ≠ .ok first.event.said) ||
      (Serder.fromRaw Toy.lib first.event.raw).toOption.any fun s =>
        decide (p.1.serder.sad = s.sad)) &&
    [first, st].any (fun st' => decide (st'.event.raw = p.1.serder.raw)) &&
    (RotationEvent.fromValue p.1.serder.sad).toOption.all fun rot =>
      [first, st].all fun st' => st'.hab.nextSigners.all fun s => rot.keys.all fun key =>
        decide (s.verfer.qb64 Toy.lib = .ok key) ||
          (commitmentQb64 Toy.lib s).toOption.all fun digest =>
            !(verifyNextKey Toy.lib 0 key digest).isOk

/-- Such a message is no forgery. -/
theorem not_forged_of_toyOwned {first st : Stage} {data : Bytes}
    (h : toyOwned first st data = true) : ¬ Forged Toy.lib first [st] data := by
  rintro ⟨parsed, size, hparse, -, hforgery⟩
  obtain ⟨p, hp, h⟩ := exists_ok_of_any h
  obtain rfl := Except.ok.inj (hp.symm.trans hparse)
  simp only [Bool.and_eq_true, Bool.or_eq_true, decide_eq_true_eq] at h
  obtain ⟨⟨hcontent, hbody⟩, hkeys⟩ := h
  cases hforgery with
  | collision hread _ hsaid hne =>
      rcases hcontent with hcontent | hcontent
      · exact hcontent hsaid
      · obtain ⟨s, hs, hsad⟩ := exists_ok_of_any hcontent
        obtain rfl := Except.ok.inj (hs.symm.trans hread)
        exact hne (of_decide_eq_true hsad)
  | signature _ _ _ _ hno =>
      obtain ⟨st', hst', hraw⟩ := List.any_eq_true.1 hbody
      exact hno st' hst' (of_decide_eq_true hraw)
  | commitment hst hs hcommit hrot hkey hmatches hne =>
      rw [hrot] at hkeys
      have hopens := List.all_eq_true.1 (List.all_eq_true.1 (List.all_eq_true.1 hkeys _ hst) _ hs)
        _ hkey
      rw [hcommit, Bool.or_eq_true, decide_eq_true_eq] at hopens
      rcases hopens with hown | hopens
      · exact hne hown
      · rw [Except.toOption, Option.all_some,
          (verifyNextKey_eq_ok (i := 0) (u := ⟨⟩)).2 hmatches] at hopens
        cases hopens

theorem soundFor_toyRotation (h : Hab) (hnext : h.nextSigners.length = 1)
    (hbt : h.backerThreshold = 0) : RotationConfig.SoundFor {} h := by
  constructor
  · rw [hnext]
    decide
  · omega
  · decide
  · rw [hbt]
    exact Nat.zero_le _

/-- A judge is sent the rotation, then the inception twice, and the rotation again: its log is that
of the owner. -/
theorem unforged_logs_toy : ∃ first st msgs kever, Life Toy.lib first [st] ∧
    msgs = [st.event.composed, first.event.composed, first.event.composed, st.event.composed] ∧
    ((Party.judge .sound).node Toy.lib msgs).store.tables.kel first.hab.pfx <+:
      [(0, first.event.said), (1, st.event.said)] ∧
    ((Party.judge .sound).node Toy.lib msgs).kevers.get first.hab.pfx = some kever ∧
    ∃ st', [first, st][kever.state.sn]? = some st' ∧ Agrees Toy.lib st'.hab kever ∧
      (((Party.judge .sound).node Toy.lib msgs).store.tables.kel first.hab.pfx).length =
        kever.state.sn + 1 := by
  obtain ⟨first, st, hlife, hcheck⟩ := exists_toyStages (.rotate {})
    (fun first st => toyOwned first st first.event.composed &&
      toyOwned first st st.event.composed &&
      decide (((Party.judge .sound).node Toy.lib
        [st.event.composed, first.event.composed, first.event.composed,
          st.event.composed]).store.tables.kels.entries.length ≤ maxMapSize) &&
      (((Party.judge .sound).node Toy.lib
        [st.event.composed, first.event.composed, first.event.composed,
          st.event.composed]).kevers.get first.hab.pfx).isSome)
    soundFor_toyRotation (by decide +kernel)
  have hsep : NoSeparator Toy.lib := noSeparator_toy Toy.checksumDigest
  have hcesr : CesrLaws Toy.lib := cesrLaws_toy Toy.checksumDigest
  have hsign : SigningLaws Toy.lib := signingLaws_toy Toy.checksumDigest
  simp only [Bool.and_eq_true, decide_eq_true_eq] at hcheck
  obtain ⟨⟨⟨hfirst, hst⟩, hfits⟩, hknown⟩ := hcheck
  obtain ⟨kever, hkever⟩ := Option.isSome_iff_exists.1 hknown
  rcases unforged_logs hcesr (jsonLaws_toy _) digestLaws_toy hsign hlife hsep (.judge .sound) _
    hfits with ⟨data, hdata, hforged⟩ | ⟨hlog, hkevers⟩
  · -- none of the four is a forgery
    have hnot : ∀ data ∈ [st.event.composed, first.event.composed, first.event.composed,
        st.event.composed], toyOwned first st data = true := by
      simp [hfirst, hst]
    exact absurd hforged (not_forged_of_toyOwned (hnot data hdata))
  · exact ⟨first, st, _, kever, hlife, rfl, hlog, hkever, hkevers kever hkever⟩

/-- An interaction that is not of the life, by its keys and in the place of one that is. -/
def toyRivalInteraction (h : Hab) : Bytes :=
  match Hab.call Toy.lib .sound (.interact [.string "other"]) ⟨h, none⟩ with
  | .ok event _ => event.composed
  | .error _ _ => []

/-- A judge is sent the events of the life, and one that its keys have signed besides. -/
theorem unforged_verdict_toy : ∃ first st msgs, Life Toy.lib first [st] ∧
    msgs = [first.event.composed, st.event.composed, toyRivalInteraction first.hab] ∧
    (runJudge Toy.lib .sound .empty msgs).verdict first.hab.pfx = .duplicitous ∧
    ∃ data ∈ msgs, Forged Toy.lib first [st] data := by
  obtain ⟨first, st, hlife, hcheck⟩ := exists_toyStages (.interact [])
    (fun first st => decide ((runJudge Toy.lib .sound .empty
      [first.event.composed, st.event.composed,
        toyRivalInteraction first.hab]).verdict first.hab.pfx = .duplicitous))
    (fun _ _ _ => trivial) (by decide +kernel)
  have hcesr : CesrLaws Toy.lib := cesrLaws_toy Toy.checksumDigest
  have hsign : SigningLaws Toy.lib := signingLaws_toy Toy.checksumDigest
  exact ⟨first, st, _, hlife, rfl, of_decide_eq_true hcheck, unforged_verdict hcesr
    (jsonLaws_toy _) digestLaws_toy hsign hlife .sound _ (of_decide_eq_true hcheck)⟩

end Keri
