/-
**Key events.**

The event bodies the engine reads out of a parsed value, and the seal a delegator anchors.  Each is
read field by field; the sequence number and the backer threshold stay the text the event has, and
are parsed where a key state is built from them.

* `Keri.InceptionEvent`, `Keri.RotationEvent`, `Keri.InteractionEvent` — plain events;
* `Keri.DelegatedInceptionEvent`, `Keri.DelegatedRotationEvent` — the same with a delegator;
* `Keri.SealEvent` — an event seal;
* `Keri.InceptionEvent.fields` and its like — **what a decoded event has in it is what the value
  has under the field's name**.
-/

import Keri.Serder

set_option relaxedAutoImplicit false
set_option autoImplicit false

namespace Keri

open Outcome

/-! ### Reading fields -/

/-- One field of a derived `Deserialize`.  Serde names the field it misses; which of several bad
fields it reports is not modelled. -/
def field {α : Type} (read : Value → Except SerdeError α) (name : String) (v : Value) :
    Except SerdeError α := do
  let x ← okOr (v.get name) ⟨s!"missing field `{name}`"⟩
  read x

def readString (v : Value) : Except SerdeError String :=
  okOr v.asStr ⟨"invalid type: expected a string"⟩

def readSeq (v : Value) : Except SerdeError (List Value) :=
  okOr v.asArray ⟨"invalid type: expected a sequence"⟩

def readStrings (v : Value) : Except SerdeError (List String) := do
  let xs ← readSeq v
  xs.mapM readString

/-- `ThresholdValue`, whose error quotes the one of `Threshold::from_json_value`. -/
def readThreshold (v : Value) : Except SerdeError Threshold :=
  (Threshold.fromJsonValue v).mapError fun e => ⟨e.display⟩

theorem field_eq_ok {α : Type} {read : Value → Except SerdeError α} {name : String} {v : Value}
    {a : α} : field read name v = .ok a ↔ ∃ x, v.get name = some x ∧ read x = .ok a := by
  simp [field, bind_eq_ok]

theorem string_field_eq_ok {name : String} {v : Value} {s : String} :
    field readString name v = .ok s ↔ v.get name = some (.string s) := by
  simp [field_eq_ok, readString]

/-! ### Events -/

/-- Inception. -/
structure InceptionEvent where
  version : String
  ilk : String
  said : String
  pfx : String
  sn : String
  keysThreshold : Threshold
  keys : List String
  nextThreshold : Threshold
  nextKeys : List String
  backerThreshold : String
  backers : List String
  config : List String
  anchors : List Value
  deriving DecidableEq

/-- Rotation. -/
structure RotationEvent where
  version : String
  ilk : String
  said : String
  pfx : String
  sn : String
  priorSaid : String
  keysThreshold : Threshold
  keys : List String
  nextThreshold : Threshold
  nextKeys : List String
  backerThreshold : String
  backersRemove : List String
  backersAdd : List String
  config : List String
  anchors : List Value
  deriving DecidableEq

/-- Interaction. -/
structure InteractionEvent where
  version : String
  ilk : String
  said : String
  pfx : String
  sn : String
  priorSaid : String
  anchors : List Value
  deriving DecidableEq

/-- Delegated inception: an inception with the delegator's identifier. -/
structure DelegatedInceptionEvent extends InceptionEvent where
  delegator : String
  deriving DecidableEq

/-- Delegated rotation: a rotation with the delegator's identifier. -/
structure DelegatedRotationEvent extends RotationEvent where
  delegator : String
  deriving DecidableEq

/-! ### Decoding -/

/-- `serde_json::from_value` at `InceptionEvent`. -/
def InceptionEvent.fromValue (v : Value) : Except SerdeError InceptionEvent := do
  let version ← field readString "v" v
  let ilk ← field readString "t" v
  let said ← field readString "d" v
  let pfx ← field readString "i" v
  let sn ← field readString "s" v
  let keysThreshold ← field readThreshold "kt" v
  let keys ← field readStrings "k" v
  let nextThreshold ← field readThreshold "nt" v
  let nextKeys ← field readStrings "n" v
  let backerThreshold ← field readString "bt" v
  let backers ← field readStrings "b" v
  let config ← field readStrings "c" v
  let anchors ← field readSeq "a" v
  pure { version, ilk, said, pfx, sn, keysThreshold, keys, nextThreshold, nextKeys,
         backerThreshold, backers, config, anchors }

/-- `serde_json::from_value` at `RotationEvent`. -/
def RotationEvent.fromValue (v : Value) : Except SerdeError RotationEvent := do
  let version ← field readString "v" v
  let ilk ← field readString "t" v
  let said ← field readString "d" v
  let pfx ← field readString "i" v
  let sn ← field readString "s" v
  let priorSaid ← field readString "p" v
  let keysThreshold ← field readThreshold "kt" v
  let keys ← field readStrings "k" v
  let nextThreshold ← field readThreshold "nt" v
  let nextKeys ← field readStrings "n" v
  let backerThreshold ← field readString "bt" v
  let backersRemove ← field readStrings "br" v
  let backersAdd ← field readStrings "ba" v
  let config ← field readStrings "c" v
  let anchors ← field readSeq "a" v
  pure { version, ilk, said, pfx, sn, priorSaid, keysThreshold, keys, nextThreshold, nextKeys,
         backerThreshold, backersRemove, backersAdd, config, anchors }

/-- `serde_json::from_value` at `InteractionEvent`. -/
def InteractionEvent.fromValue (v : Value) : Except SerdeError InteractionEvent := do
  let version ← field readString "v" v
  let ilk ← field readString "t" v
  let said ← field readString "d" v
  let pfx ← field readString "i" v
  let sn ← field readString "s" v
  let priorSaid ← field readString "p" v
  let anchors ← field readSeq "a" v
  pure { version, ilk, said, pfx, sn, priorSaid, anchors }

/-- `serde_json::from_value` at `DelegatedInceptionEvent`. -/
def DelegatedInceptionEvent.fromValue (v : Value) :
    Except SerdeError DelegatedInceptionEvent := do
  let icp ← InceptionEvent.fromValue v
  let delegator ← field readString "di" v
  pure { toInceptionEvent := icp, delegator }

/-- `serde_json::from_value` at `DelegatedRotationEvent`. -/
def DelegatedRotationEvent.fromValue (v : Value) : Except SerdeError DelegatedRotationEvent := do
  let rot ← RotationEvent.fromValue v
  let delegator ← field readString "di" v
  pure { toRotationEvent := rot, delegator }

/-! ### What a decoded event has in it -/

/-- The text fields of a decoded inception. -/
theorem InceptionEvent.fields {v : Value} {e : InceptionEvent} (h : fromValue v = .ok e) :
    v.get "d" = some (.string e.said) ∧ v.get "i" = some (.string e.pfx) ∧
      v.get "s" = some (.string e.sn) := by
  simp only [fromValue, bind_eq_ok, string_field_eq_ok, pure_eq_ok] at h
  obtain ⟨_, _, _, _, _, hd, _, hi, _, hs, _, _, _, _, _, _, _, _, _, _, _, _, _, _, _, _, rfl⟩ := h
  exact ⟨hd, hi, hs⟩

/-- The text fields of a decoded rotation. -/
theorem RotationEvent.fields {v : Value} {e : RotationEvent} (h : fromValue v = .ok e) :
    v.get "d" = some (.string e.said) ∧ v.get "i" = some (.string e.pfx) ∧
      v.get "s" = some (.string e.sn) ∧ v.get "p" = some (.string e.priorSaid) := by
  simp only [fromValue, bind_eq_ok, string_field_eq_ok, pure_eq_ok] at h
  obtain ⟨_, _, _, _, _, hd, _, hi, _, hs, _, hp, _, _, _, _, _, _, _, _, _, _, _, _, _, _, _, _,
    _, _, rfl⟩ := h
  exact ⟨hd, hi, hs, hp⟩

/-- The text fields of a decoded interaction. -/
theorem InteractionEvent.fields {v : Value} {e : InteractionEvent} (h : fromValue v = .ok e) :
    v.get "d" = some (.string e.said) ∧ v.get "i" = some (.string e.pfx) ∧
      v.get "s" = some (.string e.sn) ∧ v.get "p" = some (.string e.priorSaid) := by
  simp only [fromValue, bind_eq_ok, string_field_eq_ok, pure_eq_ok] at h
  obtain ⟨_, _, _, _, _, hd, _, hi, _, hs, _, hp, _, _, rfl⟩ := h
  exact ⟨hd, hi, hs, hp⟩

theorem DelegatedInceptionEvent.fromValue_eq_ok {v : Value} {e : DelegatedInceptionEvent} :
    fromValue v = .ok e ↔ InceptionEvent.fromValue v = .ok e.toInceptionEvent ∧
      v.get "di" = some (.string e.delegator) := by
  simp only [fromValue, bind_eq_ok, string_field_eq_ok, pure_eq_ok]
  constructor
  · rintro ⟨icp, hicp, d, hd, rfl⟩
    exact ⟨hicp, hd⟩
  · rintro ⟨hicp, hd⟩
    exact ⟨_, hicp, _, hd, rfl⟩

theorem DelegatedRotationEvent.fromValue_eq_ok {v : Value} {e : DelegatedRotationEvent} :
    fromValue v = .ok e ↔ RotationEvent.fromValue v = .ok e.toRotationEvent ∧
      v.get "di" = some (.string e.delegator) := by
  simp only [fromValue, bind_eq_ok, string_field_eq_ok, pure_eq_ok]
  constructor
  · rintro ⟨rot, hrot, d, hd, rfl⟩
    exact ⟨hrot, hd⟩
  · rintro ⟨hrot, hd⟩
    exact ⟨_, hrot, _, hd, rfl⟩

/-! ### Seals -/

/-- An event seal. -/
structure SealEvent where
  pfx : String
  sn : String
  digest : String
  deriving DecidableEq, Repr

/-- `serde_json::from_value` at `SealEvent`, which also takes the three members as an array. -/
def SealEvent.fromValue (v : Value) : Except SerdeError SealEvent :=
  match v with
  | .array [i, s, d] => do
      pure { pfx := ← readString i, sn := ← readString s, digest := ← readString d }
  | v => do
      let pfx ← field readString "i" v
      let sn ← field readString "s" v
      let digest ← field readString "d" v
      pure { pfx, sn, digest }

end Keri
