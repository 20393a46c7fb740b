/-
**The owned fast paths.**

A verifier takes an event as a serder, or in two parts when its value has been taken out of the
serder.  The checks are the same but for one: from parts the SAID is checked over the JSON
serialization of the value, whatever kind it came in.

* `Keri.InceptionPasses`, `Keri.UpdatePasses` — the event passes every check but that of its SAID;
* `Keri.SaidsAgree` — its SAID verifies in its own kind exactly when it does as JSON;
* `Keri.fast_paths_agree_iff` — **the fast paths agree with the plain ones exactly when an event
  that passes all else has this SAID**;
* `Keri.fast_path_refuses` — **what is accepted as a serder of another kind than JSON is refused
  from its parts**;
* `Keri.Toy.cbor` — CBOR to compute with, and `Keri.fast_path_refuses_cbor` an inception in it.
-/

import Keri.SaidBinding

set_option relaxedAutoImplicit false
set_option autoImplicit false

namespace Keri

open Outcome

variable (X : Externals)

/-! ### One check apart -/

/-- The event passes every check of an inception but that of its SAID. -/
def InceptionPasses (sd : Serder) (sigs : List Siger) (verfers : List Verfer) : Prop :=
  sd.ilk = .ok "icp" ∧ ∃ icp, InceptionEvent.fromValue sd.sad = .ok icp ∧
    Kever.checkKeys X icp.keys verfers = .ok () ∧
    verifySigsStatic X sd.raw sigs verfers icp.keysThreshold = .ok () ∧
    Kever.validatePrefixDerivation X icp = .ok () ∧ ∃ s, KeyState.fromInception icp = .ok s

/-- The event passes every check of an update but that of its SAID. -/
def UpdatePasses (k : Kever) (sd : Serder) (sigs : List Siger) : Prop :=
  k.incepted = true ∧ sd.sn = .ok (u64Succ k.state.sn) ∧
    ∃ ilk, sd.ilk = .ok ilk ∧ ∃ t, k.nextState X sd.raw sd.sad sigs ilk = .ok t

/-- The SAID verifies over the serialization of the event's own kind exactly when it does over the
JSON serialization. -/
def SaidsAgree (sd : Serder) : Prop :=
  Keri.verifySaid X sd.sad "d" "E" sd.kind = .ok () ↔
    Keri.verifySaid X sd.sad "d" "E" .json = .ok ()

variable {X}

theorem inceptionPasses_iff {sd : Serder} {sigs : List Siger} {verfers : List Verfer} :
    InceptionPasses X sd sigs verfers ↔ sd.sad.get "t" = some (.string "icp") ∧
      ∃ k, Kever.incept X sd.raw sd.sad sigs verfers = .ok k := by
  simp only [InceptionPasses, Serder.ilk, Serder.textField_eq_ok, Kever.incept_eq_ok]
  refine and_congr_right fun _ => ?_
  constructor
  · rintro ⟨icp, hicp, hkeys, hsigs, hpfx, s, hs⟩
    exact ⟨{ state := s, incepted := true }, icp, hicp, hkeys, hsigs, hpfx, hs, rfl⟩
  · rintro ⟨k, icp, hicp, hkeys, hsigs, hpfx, hs, -⟩
    exact ⟨icp, hicp, hkeys, hsigs, hpfx, k.state, hs⟩

/-- A serder is accepted when its SAID verifies in its own kind and all else passes. -/
theorem new_iff {sd : Serder} {sigs : List Siger} {verfers : List Verfer} {k : Kever} :
    Kever.new X sd sigs verfers = .ok k ↔
      Keri.verifySaid X sd.sad "d" "E" sd.kind = .ok () ∧
        sd.sad.get "t" = some (.string "icp") ∧
        Kever.incept X sd.raw sd.sad sigs verfers = .ok k := by
  rw [Kever.new_eq_ok, Serder.ilk, Serder.textField_eq_ok]
  exact and_left_comm

/-- Its parts are accepted when its SAID verifies as JSON and all else passes. -/
theorem newFromParts_iff {sd : Serder} {sigs : List Siger} {verfers : List Verfer} {k : Kever} :
    Kever.newFromParts X sd.raw sd.sad sigs verfers = .ok k ↔
      Keri.verifySaid X sd.sad "d" "E" .json = .ok () ∧
        sd.sad.get "t" = some (.string "icp") ∧
        Kever.incept X sd.raw sd.sad sigs verfers = .ok k := by
  rw [Kever.newFromParts_eq_ok]
  exact and_left_comm

/-- What both update paths do once the SAID is checked. -/
def Kever.Continues (X : Externals) (k : Kever) (sd : Serder) (sigs : List Siger) (t : KeyState) :
    Prop :=
  k.incepted = true ∧ ∃ ilk, sd.ilk = .ok ilk ∧ sd.sn = .ok (u64Succ k.state.sn) ∧
    k.nextState X sd.raw sd.sad sigs ilk = .ok t

theorem updatePasses_iff {k : Kever} {sd : Serder} {sigs : List Siger} :
    UpdatePasses X k sd sigs ↔ ∃ t, k.Continues X sd sigs t := by
  constructor
  · rintro ⟨hinc, hsn, ilk, hilk, t, ht⟩
    exact ⟨t, hinc, ilk, hilk, hsn, ht⟩
  · rintro ⟨t, hinc, ilk, hilk, hsn, ht⟩
    exact ⟨hinc, hsn, ilk, hilk, t, ht⟩

theorem verifyUpdate_iff {k : Kever} {sd : Serder} {sigs : List Siger} {t : KeyState} :
    k.verifyUpdate X sd sigs = .ok t ↔
      Keri.verifySaid X sd.sad "d" "E" sd.kind = .ok () ∧ k.Continues X sd sigs t := by
  rw [Kever.verifyUpdate_eq_ok]
  exact and_left_comm

theorem verifyUpdateOwned_iff {k : Kever} {sd : Serder} {sigs : List Siger} {t : KeyState} :
    k.verifyUpdateOwned X sd.raw sd.sad sigs = .ok t ↔
      Keri.verifySaid X sd.sad "d" "E" .json = .ok () ∧ k.Continues X sd sigs t := by
  rw [Kever.verifyUpdateOwned_eq_ok, and_left_comm]
  refine and_congr_right fun _ => and_congr_right fun _ => ?_
  simp only [Serder.ilk, Serder.textField_eq_ok, Serder.sn_eq_ok]
  constructor
  · rintro ⟨ilk, snStr, hilk, hs, hsn, hnext⟩
    exact ⟨ilk, hilk, ⟨snStr, hs, hsn⟩, hnext⟩
  · rintro ⟨ilk, hilk, ⟨snStr, hs, hsn⟩, hnext⟩
    exact ⟨ilk, snStr, hilk, hs, hsn, hnext⟩

/-- Two paths that differ in one check agree exactly when that check does not matter. -/
theorem agree_iff {α : Type} {p q : Prop} {rest : α → Prop} :
    (∀ a, (q ∧ rest a) ↔ (p ∧ rest a)) ↔ ((∃ a, rest a) → (p ↔ q)) := by
  constructor
  · rintro h ⟨a, ha⟩
    exact ⟨fun hp => ((h a).2 ⟨hp, ha⟩).1, fun hq => ((h a).1 ⟨hq, ha⟩).1⟩
  · intro h a
    constructor
    · rintro ⟨hq, ha⟩
      exact ⟨(h ⟨a, ha⟩).2 hq, ha⟩
    · rintro ⟨hp, ha⟩
      exact ⟨(h ⟨a, ha⟩).1 hp, ha⟩

/-- **When the owned fast paths agree with the plain ones.**  They accept the same events, with the
same key states, exactly when an event that passes every other check has a SAID that verifies in its
own kind if and only if it verifies as JSON; processing an event and verifying it always agree. -/
theorem fast_paths_agree_iff (X : Externals) (sd : Serder) (sigs : List Siger)
    (verfers : List Verfer) (k : Kever) :
    ((∀ k', Kever.newFromParts X sd.raw sd.sad sigs verfers = .ok k' ↔
        Kever.new X sd sigs verfers = .ok k') ↔
        (InceptionPasses X sd sigs verfers → SaidsAgree X sd)) ∧
      ((∀ t, k.verifyUpdateOwned X sd.raw sd.sad sigs = .ok t ↔
        k.verifyUpdate X sd sigs = .ok t) ↔ (UpdatePasses X k sd sigs → SaidsAgree X sd)) ∧
      (∀ t, k.verifyUpdate X sd sigs = .ok t ↔
        k.update X sd sigs = .ok (k.applyVerifiedUpdate t)) ∧
      ∀ k', k.update X sd sigs = .ok k' → k' = k.applyVerifiedUpdate k'.state := by
  refine ⟨?_, ?_, fun t => ?_, fun k' hk' => ?_⟩
  · simp only [newFromParts_iff, new_iff, inceptionPasses_iff]
    rw [agree_iff, exists_and_left]
    rfl
  · simp only [verifyUpdateOwned_iff, verifyUpdate_iff, updatePasses_iff]
    exact agree_iff
  · rw [Kever.update_eq_ok]
    constructor
    · exact fun ht => ⟨t, ht, rfl⟩
    · rintro ⟨t', ht', heq⟩
      have hstate : t = t' := congrArg Kever.state heq
      exact hstate ▸ ht'
  · obtain ⟨t, -, rfl⟩ := Kever.update_eq_ok.1 hk'
    rfl

/-- The SAID of a JSON event is checked alike on all paths. -/
theorem saidsAgree_of_json {sd : Serder} (h : sd.kind = .json) : SaidsAgree X sd := by
  unfold SaidsAgree
  rw [h]

/-- **What is accepted in another kind than JSON is refused from its parts**: an inception, or an
update of a reachable verifier. -/
theorem fast_path_refuses (hX : SaidLaws X) {sd : Serder} (hkind : sd.kind ≠ .json) :
    (∀ sigs verfers k, Kever.new X sd sigs verfers = .ok k → ∀ sigs' verfers' k',
        Kever.newFromParts X sd.raw sd.sad sigs' verfers' ≠ .ok k') ∧
      ∀ k, Reachable X k → ∀ sigs t, k.verifyUpdate X sd sigs = .ok t → ∀ sigs' t',
        k.verifyUpdateOwned X sd.raw sd.sad sigs' ≠ .ok t' := by
  have hboth : ∀ {i d : String}, Keri.verifySaid X sd.sad "d" "E" sd.kind = .ok () →
      Keri.verifySaid X sd.sad "d" "E" .json = .ok () → sd.sad.get "i" = some (.string i) →
      sd.sad.get "d" = some (.string d) → IsPrimitive X i → False := by
    intro i d hown hjson hi hd hprim
    exact hkind (sad_eq_of_said_eq hX hown hjson hd hd hi hi hprim hprim).1
  refine ⟨fun sigs verfers k hnew sigs' verfers' k' hparts => ?_,
    fun k hk sigs t hverify sigs' t' howned => ?_⟩
  · obtain ⟨hown, -, hincept⟩ := new_iff.1 hnew
    obtain ⟨hi, hd, hprim⟩ := Kever.incept_fields hincept
    exact hboth hown (newFromParts_iff.1 hparts).1 hi hd hprim
  · obtain ⟨hown, -, ilk, -, -, hnext⟩ := verifyUpdate_iff.1 hverify
    obtain ⟨-, hi, -, hd, -⟩ := Kever.nextState_fields hnext
    exact hboth hown (verifyUpdateOwned_iff.1 howned).1 hi hd (hk.isPrimitive hX)

end Keri

/-! ### An inception in CBOR -/

namespace Keri.Toy

/-- The head of a CBOR item: its major type and its argument, up to 16 bits. -/
def cborHead (major n : ℕ) : Bytes :=
  if n < 24 then [UInt8.ofNat (major * 32 + n)]
  else if n < 256 then [UInt8.ofNat (major * 32 + 24), UInt8.ofNat n]
  else [UInt8.ofNat (major * 32 + 25), UInt8.ofNat (n / 256), UInt8.ofNat (n % 256)]

def cborString (s : String) : Bytes := cborHead 3 (strBytes s).length ++ strBytes s

mutual

/-- CBOR, with definite lengths. -/
def cborPrint : Value → Bytes
  | .null => [246]
  | .bool b => [if b then 245 else 244]
  | .number (.posInt n) => cborHead 0 n
  | .number (.negInt n) => cborHead 1 n
  | .number (.float _) => [246]
  | .string s => cborString s
  | .array xs => cborHead 4 xs.length ++ cborItems xs
  | .object fs => cborHead 5 fs.length ++ cborFields fs

/-- The items of an array. -/
def cborItems : List Value → Bytes
  | [] => []
  | x :: xs => cborPrint x ++ cborItems xs

/-- The entries of a map. -/
def cborFields : List (String × Value) → Bytes
  | [] => []
  | (k, x) :: fs => cborString k ++ (cborPrint x ++ cborFields fs)

end

/-- Read a head: major type, argument and the rest. -/
def cborReadHead : Bytes → Option (ℕ × ℕ × Bytes)
  | [] => none
  | b :: bs =>
      let major := b.toNat / 32
      let n := b.toNat % 32
      if n < 24 then some (major, n, bs)
      else
        match n, bs with
        | 24, x :: bs => some (major, x.toNat, bs)
        | 25, x :: y :: bs => some (major, x.toNat * 256 + y.toNat, bs)
        | _, _ => none

/-- Read a text. -/
def cborReadString (bs : Bytes) : Option (String × Bytes) :=
  match cborReadHead bs with
  | some (3, n, bs) =>
      if bs.length < n then none else (literalText (bs.take n)).map (·, bs.drop n)
  | _ => none

mutual

/-- Read an item. -/
def cborRead : ℕ → Bytes → Option (Value × Bytes)
  | 0, _ => none
  | fuel + 1, bs =>
      match cborReadHead bs with
      | some (0, n, rest) => some (.number (.posInt n), rest)
      | some (3, _, _) => (cborReadString bs).map fun (s, rest) => (.string s, rest)
      | some (4, n, rest) => (cborReadItems fuel n rest).map fun (xs, rest) => (.array xs, rest)
      | some (5, n, rest) =>
          (cborReadFields fuel n [] rest).map fun (fs, rest) => (.object fs, rest)
      | some (7, 20, rest) => some (.bool false, rest)
      | some (7, 21, rest) => some (.bool true, rest)
      | some (7, 22, rest) => some (.null, rest)
      | _ => none

/-- Read the items of an array. -/
def cborReadItems : ℕ → ℕ → Bytes → Option (List Value × Bytes)
  | 0, _, _ => none
  | _ + 1, 0, bs => some ([], bs)
  | fuel + 1, n + 1, bs =>
      match cborRead fuel bs with
      | none => none
      | some (x, bs) => (cborReadItems fuel n bs).map fun (xs, rest) => (x :: xs, rest)

/-- Read the entries of a map; a repeated key is overwritten. -/
def cborReadFields : ℕ → ℕ → Fields → Bytes → Option (Fields × Bytes)
  | 0, _, _, _ => none
  | _ + 1, 0, fs, bs => some (fs, bs)
  | fuel + 1, n + 1, fs, bs =>
      match cborReadString bs with
      | none => none
      | some (k, bs) =>
          match cborRead fuel bs with
          | none => none
          | some (x, bs) => cborReadFields fuel n (Fields.insert k x fs) bs

end

def cborFromSlice (bytes : Bytes) : Except SerdeError Value :=
  match cborRead (bytes.length + 1) bytes with
  | some (v, rest) => if rest = [] then .ok v else .error ⟨"trailing data"⟩
  | none => .error ⟨"malformed CBOR"⟩

def cborToVec (v : Value) : Except SerdeError Bytes :=
  let bytes := cborPrint v
  if cborFromSlice bytes = .ok v then .ok bytes else .error ⟨"cannot be encoded"⟩

/-- A CBOR codec. -/
def cbor : Codec where
  toVec := cborToVec
  fromSlice := cborFromSlice

/-- The instance with CBOR besides JSON. -/
def cborLib : Externals := { lib with cbor := cbor }

/-- A body with its CBOR version string put in. -/
def cborSized (size : ℕ) (sad : Value) : Value :=
  setVersionField sad (Version.defaultV1 .cbor size).toVersionString

/-- The bytes of an inception of key 1 in CBOR, with version string and SAID put in. -/
def cborIcpBytes : Bytes :=
  let fields := icpFields "1" "1" [1] [2]
  let size := (cborPrint (cborSized 0 (.object (dummied "d" 44 fields)))).length
  match computeSaid cborLib (cborSized size (.object fields)) "d" "E" .cbor with
  | .ok (_, sad) => cborPrint sad
  | .error _ => []

end Keri.Toy

namespace Keri

open Outcome

/-- The fast path does not agree: an inception in CBOR, with a SAID over its CBOR serialization, is
accepted as a serder and refused from its parts. -/
theorem fast_path_refuses_cbor :
    ¬ ∀ (X : Externals) (raw : Bytes) (sd : Serder) (sigs : List Siger) (verfers : List Verfer),
      Serder.fromRaw X raw = .ok sd → ∀ k, Kever.newFromParts X sd.raw sd.sad sigs verfers = .ok k ↔
        Kever.new X sd sigs verfers = .ok k := by
  intro hclaim
  obtain ⟨sd, hsd, h⟩ := exists_ok_of_any (x := Serder.fromRaw Toy.cborLib Toy.cborIcpBytes)
    (p := fun sd => (Kever.new Toy.cborLib sd [Toy.siger 1 0 sd.raw] [Toy.verfer 1]).toOption.any
      fun _ => !(Kever.newFromParts Toy.cborLib sd.raw sd.sad [Toy.siger 1 0 sd.raw]
        [Toy.verfer 1]).isOk) (by decide +kernel)
  obtain ⟨k, hk, h⟩ := exists_ok_of_any h
  rw [(hclaim _ _ sd _ _ hsd k).2 hk] at h
  cases h

end Keri
