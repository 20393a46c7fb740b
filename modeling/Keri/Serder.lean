/-
**Serders: a body with its bytes.**

A `Serder` holds the raw bytes of a message body, the version string found in them, the
serialization kind and the parsed value.  Signatures are checked over the raw bytes, the SAID over
a fresh serialization of the parsed value; nothing in `Serder.fromRaw` compares the two.

* `Keri.extractVersionFromRaw` — the version string, searched for in the first 32 bytes only;
* `Keri.Serder.fromRaw`, `Keri.Serder.new` — reading a body from the front of a buffer, and
  serializing a value;
* `Keri.Serder.verifySaid` — the SAID check, in the serder's own kind;
* `Keri.Serder.fromRaw_append` — **a body that carries its version string is read the same way
  whatever follows it**.
-/

import Keri.Said

set_option relaxedAutoImplicit false
set_option autoImplicit false

namespace Keri

open Outcome

variable (X : Externals)

/-! ### Finding the version string -/

/-- How far into a message to look for its version string. -/
def versionSearchWindow : ℕ := 32

/-- The position of the first occurrence of a tag. -/
def position (tag : Bytes) : Bytes → Option ℕ
  | [] => none
  | b :: bs => if tag <+: b :: bs then some 0 else (position tag bs).map (· + 1)

/-- The protocol tags a version string can start with. -/
def protocolTags : List Bytes := [strBytes "KERI", strBytes "ACDC", strBytes "SAID"]

/-- Find the version string at the start of a message: the earliest protocol tag in the window
wins. -/
def extractVersionFromRaw (data : Bytes) : Option Version := do
  let window := data.take versionSearchWindow
  let pos ← (protocolTags.filterMap fun proto => position proto window).min?
  if data.length < pos + keriVerFullsize then none
  else (Version.parse (data.drop pos)).toOption

/-- Detect the serialization kind from the first byte. -/
def sniffKind (data : Bytes) : Except CoreError SerializationKind :=
  match data with
  | [] => .error (.parseError "empty data")
  | b :: _ =>
      if b = '{'.toUInt8 then .ok .json
      else if (0xa0 ≤ b ∧ b ≤ 0xb7) ∨ b = 0xb8 ∨ b = 0xb9 ∨ b = 0xba ∨ b = 0xbb ∨ b = 0xbf then
        .ok .cbor
      else if (0x80 ≤ b ∧ b ≤ 0x8f) ∨ b = 0xde ∨ b = 0xdf then .ok .msgPack
      else .error (.parseError
        s!"cannot detect serialization kind from first byte: 0x{zeroPad 2 (hexLower b.toNat)}")

/-! ### Serders -/

/-- A message body: raw bytes, version, kind and parsed value. -/
structure Serder where
  raw : Bytes
  version : Option Version
  kind : SerializationKind
  sad : Value
  deriving DecidableEq

/-- Serialize a value in a kind. -/
def serializeValue (value : Value) (kind : SerializationKind) : Except CoreError Bytes :=
  X.serialize value kind

/-- Deserialize bytes in a kind. -/
def deserializeValue (data : Bytes) : SerializationKind → Except CoreError Value
  | .json => (X.json.fromSlice data).mapError .json
  | .cbor => (X.cbor.fromSlice data).mapError fun e => .cbor e.text
  | .msgPack => (X.msgPack.fromSlice data).mapError fun e => .msgPack e.text

/-- `sad["v"] = vs` on an object; any other value is left alone. -/
def setVersionField (sad : Value) (vs : String) : Value :=
  match sad with
  | .object obj => .object (Fields.insert "v" (.string vs) obj)
  | sad => sad

/-- The version string text of a value. -/
def versionText (sad : Value) : Option String := (sad.get "v").bind Value.asStr

namespace Serder

/-- Serialize a value, writing the size of the result into its version string. -/
def new (kind : SerializationKind) (sad : Value) : Except CoreError Serder := do
  let raw ← serializeValue X sad kind
  match versionText sad with
  | none => pure { raw, version := none, kind, sad }
  | some vStr =>
      let version :=
        match Version.parseStr vStr with
        | .ok ver => { ver with size := raw.length }
        | .error _ => Version.defaultV1 kind raw.length
      let sad := setVersionField sad version.toVersionString
      let raw ← serializeValue X sad kind
      -- the size may have changed with the length of the version string, so it is set again
      let finalVer := { version with size := raw.length }
      let sad := setVersionField sad finalVer.toVersionString
      let raw ← serializeValue X sad kind
      pure { raw, version := some finalVer, kind, sad }

/-- The version that `new` gives a body by the version string that it has. -/
def versionFor (kind : SerializationKind) (vs : String) (size : ℕ) : Version :=
  match Version.parseStr vs with
  | .ok ver => { ver with size }
  | .error _ => Version.defaultV1 kind size

/-- Read a body from the front of a buffer. -/
def fromRaw (raw : Bytes) : Except CoreError Serder := do
  ensure (raw ≠ []) (.parseError "empty input")
  let kind ← sniffKind raw
  let version := extractVersionFromRaw raw
  let msgLen := (version.map (·.size)).getD raw.length
  ensure (msgLen ≤ raw.length) (.parseError
    s!"raw data too short: {raw.length} bytes but version says {msgLen}")
  let msgBytes := raw.take msgLen
  let sad ← deserializeValue X msgBytes kind
  let version := version.or
    ((versionText sad).bind fun vs => (Version.parseStr vs).toOption)
  pure { raw := msgBytes, version, kind, sad }

/-- The number of raw bytes. -/
def size (s : Serder) : ℕ := s.raw.length

/-- A text field of the value. -/
def textField (s : Serder) (name : String) : Except CoreError String :=
  okOr ((s.sad.get name).bind Value.asStr) (.missingField name)

/-- The SAID. -/
def said (s : Serder) : Except CoreError String := s.textField "d"

/-- The event type tag. -/
def ilk (s : Serder) : Except CoreError String := s.textField "t"

/-- The identifier, the source's `prefix`. -/
def pfx (s : Serder) : Except CoreError String := s.textField "i"

/-- The sequence number, parsed from hexadecimal. -/
def sn (s : Serder) : Except CoreError ℕ :=
  okOr (((s.sad.get "s").bind Value.asStr).bind (fromStrRadix 16 u64Bound)) (.missingField "s")

/-- Check the SAID in the serder's own kind. -/
def verifySaid (s : Serder) (code : String) : Except CoreError Unit :=
  Keri.verifySaid X s.sad "d" code s.kind

variable {X}

theorem textField_eq_ok {s : Serder} {name t : String} :
    s.textField name = .ok t ↔ s.sad.get name = some (.string t) := by
  simp only [textField, okOr_eq_ok, Option.bind_eq_some_iff, Value.asStr_eq_some]
  constructor
  · rintro ⟨v, hv, rfl⟩
    exact hv
  · intro h
    exact ⟨_, h, rfl⟩

theorem sn_eq_ok {s : Serder} {n : ℕ} :
    s.sn = .ok n ↔ ∃ t, s.sad.get "s" = some (.string t) ∧ fromStrRadix 16 u64Bound t = some n := by
  simp only [sn, okOr_eq_ok, Option.bind_eq_some_iff, Value.asStr_eq_some]
  constructor
  · rintro ⟨t, ⟨v, hv, rfl⟩, hn⟩
    exact ⟨t, hv, hn⟩
  · rintro ⟨t, ht, hn⟩
    exact ⟨t, ⟨_, ht, rfl⟩, hn⟩

/-- A sequence number fits `u64`. -/
theorem sn_lt {s : Serder} {n : ℕ} (h : s.sn = .ok n) : n < u64Bound := by
  obtain ⟨t, -, ht⟩ := sn_eq_ok.1 h
  exact fromStrRadix_lt (by decide) ht

/-- A body without a version string is serialized as it is. -/
theorem new_of_versionText_none {kind : SerializationKind} {sad : Value} {s : Serder}
    (hv : versionText sad = none) (h : new X kind sad = .ok s) :
    serializeValue X sad kind = .ok s.raw ∧ s.version = none ∧ s.kind = kind ∧ s.sad = sad := by
  simp only [new, bind_eq_ok, hv, pure_eq_ok] at h
  obtain ⟨raw, hraw, rfl⟩ := h
  exact ⟨hraw, rfl, rfl, rfl⟩

/-- A body with a version string is serialized three times. -/
theorem new_eq_ok {kind : SerializationKind} {sad : Value} {vs : String} {s : Serder}
    (hv : versionText sad = some vs) :
    new X kind sad = .ok s ↔ ∃ raw₀ raw₁ : Bytes, serializeValue X sad kind = .ok raw₀ ∧
      serializeValue X (setVersionField sad (versionFor kind vs raw₀.length).toVersionString) kind =
        .ok raw₁ ∧
      s.version = some { versionFor kind vs raw₀.length with size := raw₁.length } ∧
      s.sad = setVersionField
        (setVersionField sad (versionFor kind vs raw₀.length).toVersionString)
        (Version.toVersionString { versionFor kind vs raw₀.length with size := raw₁.length }) ∧
      serializeValue X s.sad kind = .ok s.raw ∧ s.kind = kind := by
  simp only [new, bind_eq_ok]
  constructor
  · rintro ⟨raw₀, hraw₀, hrest⟩
    rw [hv] at hrest
    simp only [bind_eq_ok, pure_eq_ok] at hrest
    obtain ⟨raw₁, hraw₁, raw₂, hraw₂, rfl⟩ := hrest
    exact ⟨raw₀, raw₁, hraw₀, hraw₁, rfl, rfl, hraw₂, rfl⟩
  · rintro ⟨raw₀, raw₁, hraw₀, hraw₁, hversion, hsad, hraw, hkind⟩
    obtain ⟨raw, version, kind', sad'⟩ := s
    simp only at hversion hsad hraw hkind
    subst hversion hsad hkind
    refine ⟨raw₀, hraw₀, ?_⟩
    rw [hv]
    simp only [bind_eq_ok, pure_eq_ok]
    exact ⟨raw₁, hraw₁, raw, hraw, rfl⟩

end Serder

/-! ### What follows a body does not matter -/

theorem position_lt {tag data : Bytes} {n : ℕ} (h : position tag data = some n) :
    n + tag.length ≤ data.length := by
  induction data generalizing n with
  | nil => cases h
  | cons b bs ih =>
      unfold position at h
      split at h
      · rename_i hpre
        cases h
        simpa using hpre.length_le
      · obtain ⟨m, hm, rfl⟩ := Option.map_eq_some_iff.1 h
        have := ih hm
        simp only [List.length_cons]
        omega

theorem position_append {tag data : Bytes} {n : ℕ} (h : position tag data = some n)
    (rest : Bytes) : position tag (data ++ rest) = some n := by
  induction data generalizing n with
  | nil => cases h
  | cons b bs ih =>
      unfold position at h
      rw [List.cons_append, position]
      split at h
      · rename_i hpre
        cases h
        rw [if_pos (hpre.trans (by simp))]
      · rename_i hpre
        obtain ⟨m, hm, rfl⟩ := Option.map_eq_some_iff.1 h
        have hlen := position_lt hm
        have hnot : ¬ tag <+: b :: (bs ++ rest) := by
          intro hp
          have hbs : b :: bs <+: b :: (bs ++ rest) := ⟨rest, rfl⟩
          refine hpre (List.prefix_of_prefix_length_le hp hbs ?_)
          simp only [List.length_cons]
          omega
        rw [if_neg hnot, ih hm]
        rfl

/-- An occurrence that the appended bytes create reaches into them. -/
theorem position_append_of_none {tag data rest : Bytes} (htag : tag ≠ [])
    (h : position tag data = none) {n : ℕ} (hn : position tag (data ++ rest) = some n) :
    data.length < n + tag.length := by
  have htag' : 0 < tag.length := List.length_pos_iff.2 htag
  induction data generalizing n with
  | nil => simpa using Nat.lt_of_lt_of_le htag' (Nat.le_add_left _ _)
  | cons b bs ih =>
      unfold position at h
      rw [List.cons_append, position] at hn
      split at h
      · cases h
      · rename_i hpre
        split at hn
        · rename_i hp
          cases hn
          by_contra hle
          have hbs : b :: bs <+: b :: (bs ++ rest) := ⟨rest, rfl⟩
          refine hpre (List.prefix_of_prefix_length_le hp hbs ?_)
          simpa using hle
        · obtain ⟨m, hm, rfl⟩ := Option.map_eq_some_iff.1 hn
          have := ih (Option.map_eq_none_iff.1 h) hm
          simp only [List.length_cons]
          omega

theorem protocolTags_length {tag : Bytes} (h : tag ∈ protocolTags) : tag.length = 4 := by
  simp only [protocolTags, List.mem_cons, List.not_mem_nil, or_false] at h
  rcases h with rfl | rfl | rfl <;> decide

/-- The earliest protocol tag of a window stays the earliest when the window grows. -/
theorem min_position_append {window ext : Bytes} {n : ℕ}
    (h : (protocolTags.filterMap fun proto => position proto window).min? = some n) :
    (protocolTags.filterMap fun proto => position proto (window ++ ext)).min? = some n := by
  rw [List.min?_eq_some_iff] at h ⊢
  obtain ⟨hmem, hle⟩ := h
  obtain ⟨tag, htag, hpos⟩ := List.mem_filterMap.1 hmem
  refine ⟨List.mem_filterMap.2 ⟨tag, htag, position_append hpos ext⟩, ?_⟩
  intro m hm
  obtain ⟨tag', htag', hpos'⟩ := List.mem_filterMap.1 hm
  cases hold : position tag' window with
  | some m' =>
      rw [position_append hold ext, Option.some_inj] at hpos'
      exact hpos' ▸ hle m' (List.mem_filterMap.2 ⟨tag', htag', hold⟩)
  | none =>
      -- a new occurrence ends past the window, the old one inside it
      have hne : tag' ≠ [] := by
        intro he
        have := protocolTags_length htag'
        simp [he] at this
      have hnew := position_append_of_none hne hold hpos'
      have hin := position_lt hpos
      rw [protocolTags_length htag'] at hnew
      rw [protocolTags_length htag] at hin
      omega

/-- **A version string is found whatever follows the body that carries it.** -/
theorem extractVersionFromRaw_append {data : Bytes} {v : Version}
    (h : extractVersionFromRaw data = some v) (rest : Bytes) :
    extractVersionFromRaw (data ++ rest) = some v := by
  simp only [extractVersionFromRaw, Option.bind_eq_bind, Option.bind_eq_some_iff] at h ⊢
  obtain ⟨pos, hpos, h⟩ := h
  split at h
  · cases h
  · rename_i hlen
    refine ⟨pos, ?_, ?_⟩
    · rw [List.take_append]
      exact min_position_append hpos
    · have hle : pos ≤ data.length := by omega
      have hlen' : ¬ (data ++ rest).length < pos + keriVerFullsize := by
        rw [List.length_append]
        omega
      rw [if_neg hlen', List.drop_append_of_le_length hle, Version.parse_append _ rest]
      · exact h
      · rw [List.length_drop]
        omega

theorem sniffKind_append {data : Bytes} (h : data ≠ []) (rest : Bytes) :
    sniffKind (data ++ rest) = sniffKind data := by
  cases data with
  | nil => exact absurd rfl h
  | cons b bs => rfl

namespace Serder

variable {X}

/-- What `fromRaw` has read: the front of the buffer, as long as its version string says. -/
theorem fromRaw_eq_ok {raw : Bytes} {s : Serder} :
    fromRaw X raw = .ok s ↔ raw ≠ [] ∧ sniffKind raw = .ok s.kind ∧
      ((extractVersionFromRaw raw).map (·.size)).getD raw.length ≤ raw.length ∧
      s.raw = raw.take (((extractVersionFromRaw raw).map (·.size)).getD raw.length) ∧
      deserializeValue X s.raw s.kind = .ok s.sad ∧
      s.version = (extractVersionFromRaw raw).or
        ((versionText s.sad).bind fun vs => (Version.parseStr vs).toOption) := by
  constructor
  · intro h
    simp only [fromRaw, bind_eq_ok, ensure_eq_ok, pure_eq_ok] at h
    obtain ⟨-, hne, kind, hkind, -, hlen, sad, hsad, rfl⟩ := h
    exact ⟨hne, hkind, hlen, rfl, hsad, rfl⟩
  · rintro ⟨hne, hkind, hlen, hraw, hsad, hver⟩
    obtain ⟨raw', version, kind, sad⟩ := s
    simp only at hkind hraw hsad hver
    subst hraw hver
    simp only [fromRaw, bind_eq_ok, ensure_eq_ok, pure_eq_ok]
    exact ⟨⟨⟩, hne, kind, hkind, ⟨⟩, hlen, sad, hsad, rfl⟩

theorem raw_length_le {raw : Bytes} {s : Serder} (h : fromRaw X raw = .ok s) :
    s.size ≤ raw.length := by
  obtain ⟨-, -, -, hraw, -⟩ := fromRaw_eq_ok.1 h
  rw [size, hraw]
  rw [List.length_take]
  exact Nat.min_le_right _ _

/-- The body is the front of the buffer. -/
theorem raw_eq_take {raw : Bytes} {s : Serder} (h : fromRaw X raw = .ok s) :
    s.raw = raw.take s.size := by
  obtain ⟨-, -, hlen, hraw, -⟩ := fromRaw_eq_ok.1 h
  rw [size, hraw, List.length_take, Nat.min_eq_left hlen]

/-- **A body that carries its version string is read the same way whatever follows it.** -/
theorem fromRaw_append {raw : Bytes} {s : Serder} {v : Version} (h : fromRaw X raw = .ok s)
    (hv : extractVersionFromRaw raw = some v) (rest : Bytes) :
    fromRaw X (raw ++ rest) = .ok s := by
  obtain ⟨hne, hkind, hlen, hraw, hsad, hver⟩ := fromRaw_eq_ok.1 h
  rw [hv] at hlen hraw hver
  simp only [Option.map_some, Option.getD_some] at hlen hraw
  refine fromRaw_eq_ok.2 ⟨by simp [hne], by rw [sniffKind_append hne, hkind], ?_, ?_, hsad, ?_⟩
  · rw [extractVersionFromRaw_append hv rest, List.length_append]
    simp only [Option.map_some, Option.getD_some]
    omega
  · rw [extractVersionFromRaw_append hv rest, hraw]
    simp only [Option.map_some, Option.getD_some]
    rw [List.take_append_of_le_length hlen]
  · rw [extractVersionFromRaw_append hv rest, hver]

end Serder

end Keri
