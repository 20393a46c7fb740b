/-
**An identifier that is taken down and up again.**

An identifier keeps its keys, and its state keeps the generations they were derived at and how many
they are.  The generations are not a function of the counter, and a rotation that fails leaves no
pre-rotated keys at a generation that once had some; what holds throughout is that the keys at hand
are the ones the state describes.

* `Keri.Hab.Call`, `Keri.Hab.results`, `Keri.Hab.after` — a sequence of calls on an identifier that
  is kept without a store;
* `Keri.Hab.Derived` — **the keys are those that the state describes**;
* `Keri.Hab.Derived.step` — every call keeps this, whether it succeeds or not;
* `Keri.Hab.resume_state` — so that an identifier is what its state and the salt make of it;
* `Keri.Hab.resumed_indistinguishable` — **a resumed identifier cannot be told from one that was
  never taken down**.
-/

import Keri.Lib.Machine
import Keri.Hab

set_option relaxedAutoImplicit false
set_option autoImplicit false

namespace Keri

open Outcome Machine

namespace Hab

/-! ### Calls -/

/-- A call on an identifier. -/
inductive Call where
  | rotate (config : RotationConfig)
  | interact (anchors : List Value)

variable (X : Externals) (disk : Disk)

/-- What a call does. -/
def call : Call → EStateM KeriError Keeper SignedEvent
  | .rotate config => rotateInner X disk config
  | .interact anchors => interactInner X disk anchors

/-- One call, whether it succeeds or not. -/
def stepKeeper (k : Keeper) (c : Call) : Keeper := stateAfter (call X disk c k)

def runKeeper (k : Keeper) (calls : List Call) : Keeper := run (stepKeeper X disk) k calls

/-- What the calls of a run return. -/
def resultsKeeper : Keeper → List Call → List (Except KeriError SignedEvent)
  | _, [] => []
  | k, c :: calls => resultOf (call X disk c k) :: resultsKeeper (stepKeeper X disk k c) calls

/-- The identifier after a sequence of `rotate_event` and `interact_event` calls, which have no
store. -/
def after (h : Hab) (calls : List Call) : Hab := (runKeeper X Disk.sound ⟨h, none⟩ calls).hab

/-- What these calls return. -/
def results (h : Hab) (calls : List Call) : List (Except KeriError SignedEvent) :=
  resultsKeeper X Disk.sound ⟨h, none⟩ calls

/-! ### The keys at hand -/

/-- The keys are those that the state describes, derived from the salt. -/
structure Derived (salt : Bytes) (h : Hab) : Prop where
  salter : Salter.new X "0A" salt = .ok h.salter
  signers : deriveSigners X h.salter h.code h.transferable h.signerGen h.signers.length =
    .ok h.signers
  nextSigners : deriveSigners X h.salter h.code h.transferable h.nextGen h.nextSigners.length =
    .ok h.nextSigners

variable {X disk} {salt : Bytes}

/-- A new identifier has the keys that its state describes. -/
theorem derived_of_inceptEvent {name : String} {config : InceptionConfig} {random : Bytes}
    {hab : Hab} {event : SignedEvent} {habBytes : Bytes}
    (h : inceptEvent X name config random = .ok (hab, event, habBytes)) :
    Derived X (config.salt.getD random) hab := by
  obtain ⟨salter, hsalter, h⟩ := bind_eq_ok.1 h
  obtain ⟨signers, hsigners, h⟩ := bind_eq_ok.1 h
  obtain ⟨nextSigners, hnext, h⟩ := bind_eq_ok.1 h
  simp only [bind_eq_ok, pure_eq_ok] at h
  obtain ⟨_, -, _, -, _, -, _, -, heq⟩ := h
  obtain ⟨rfl, -⟩ := Prod.mk.inj heq
  refine ⟨mapError_eq_ok.1 hsalter, ?_, ?_⟩
  · rw [← deriveSigners_length hsigners] at hsigners
    exact hsigners
  · rw [← deriveSigners_length hnext] at hnext
    exact hnext

/-- No keys are derived at any generation. -/
theorem Derived.dropped {h : Hab} (hd : Derived X salt h) : Derived X salt h.dropped :=
  ⟨hd.salter, hd.signers, rfl⟩

theorem Derived.interacted {h : Hab} (hd : Derived X salt h) (said : String) :
    Derived X salt (h.interacted said) :=
  ⟨hd.salter, hd.signers, hd.nextSigners⟩

/-- The keys that a rotation installs are at the generation that was the next one. -/
theorem Derived.rotated {h : Hab} {config : RotationConfig} {newNextSigners : List Signer}
    {event : SignedEvent} (hd : Derived X salt h)
    (hrot : h.rotation X config h.nextSigners = .ok (newNextSigners, event)) :
    Derived X salt (h.rotated config h.nextSigners newNextSigners event.said) := by
  obtain ⟨derived, hderive, hrest⟩ := bind_eq_ok.1 hrot
  simp only [bind_eq_ok, pure_eq_ok] at hrest
  obtain ⟨_, -, _, -, _, -, heq⟩ := hrest
  obtain ⟨rfl, -⟩ := Prod.mk.inj heq
  refine ⟨hd.salter, hd.nextSigners, ?_⟩
  rw [← deriveSigners_length hderive] at hderive
  exact hderive

/-- **Every call keeps the keys that the state describes**, whether it succeeds or not. -/
theorem Derived.step {k : Keeper} (hd : Derived X salt k.hab) (c : Call) :
    Derived X salt (stepKeeper X disk k c).hab := by
  unfold stepKeeper
  cases c with
  | rotate config =>
      rw [call, rotateInner_run]
      split
      · exact hd
      · split
        · exact hd.dropped
        · rename_i newNextSigners event hrot
          split
          · rename_i hstore
            rw [stateAfter_error, hab_of_persist_error hstore]
            exact hd.dropped
          · exact hd.rotated hrot
  | interact anchors =>
      rw [call, interactInner_run]
      split
      · exact hd
      · rename_i event _
        split
        · rename_i hstore
          rw [stateAfter_error, hab_of_persist_error hstore]
          exact hd
        · exact hd.interacted event.said

theorem Derived.run {k : Keeper} (hd : Derived X salt k.hab) (calls : List Call) :
    Derived X salt (runKeeper X disk k calls).hab :=
  run_inv (P := fun k => Derived X salt (Keeper.hab k)) calls hd fun _ c hk => Derived.step hk c

/-! ### Taking down and up -/

/-- **An identifier is what its state and the salt make of it.** -/
theorem resume_state {h : Hab} (hd : Derived X salt h) : resume X h.state salt = .ok h := by
  unfold resume
  rw [hd.salter]
  change (deriveSigners X h.salter h.code h.transferable h.signerGen h.signers.length >>= _) = _
  rw [hd.signers, ok_bind]
  change (deriveSigners X h.salter h.code h.transferable h.nextGen h.nextSigners.length >>= _) = _
  rw [hd.nextSigners]
  rfl

/-- **A resumed identifier cannot be told from one that was never taken down.** -/
theorem resumed_indistinguishable {name : String} {config : InceptionConfig} {random : Bytes}
    {hab : Hab} {event : SignedEvent} {habBytes : Bytes}
    (hincept : inceptEvent X name config random = .ok (hab, event, habBytes))
    (hsalt : config.salt = some salt) (calls : List Call) :
    ∃ resumed, resume X (hab.after X calls).state salt = .ok resumed ∧
      ∀ more, resumed.results X more = (hab.after X calls).results X more ∧
        (resumed.after X more).state = ((hab.after X calls).after X more).state := by
  have hd := derived_of_inceptEvent hincept
  rw [hsalt, Option.getD_some] at hd
  have hafter : Derived X salt (hab.after X calls) := Derived.run (k := ⟨hab, none⟩) hd calls
  exact ⟨_, resume_state hafter, fun _ => ⟨rfl, rfl⟩⟩

/-- An identifier resumed after an interaction, a rotation and another interaction. -/
theorem resumed_indistinguishable_toy :
    ∃ (hab : Hab) (event : SignedEvent) (record : Bytes) (resumed : Hab),
      inceptEvent Toy.lib "alice" { salt := some (Toy.salt 7) } [] = .ok (hab, event, record) ∧
      resume Toy.lib (hab.after Toy.lib [.interact [], .rotate {}, .interact []]).state
        (Toy.salt 7) = .ok resumed ∧
      resumed.results Toy.lib [.rotate {}] =
        (hab.after Toy.lib [.interact [], .rotate {}, .interact []]).results Toy.lib
          [.rotate {}] := by
  obtain ⟨hab, event, record, -, -, hincept, -⟩ := exists_unstored_rotation
  have hresumed := resumed_indistinguishable hincept rfl [.interact [], .rotate {}, .interact []]
  obtain ⟨resumed, hresume, hsame⟩ := hresumed
  exact ⟨hab, event, record, resumed, hincept, hresume, (hsame [.rotate {}]).1⟩

end Hab

end Keri
