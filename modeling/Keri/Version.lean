/-
**Version strings and counter tables.**

A KERI body carries a version string `PPPPvvKKKKssssss_`: protocol, two version digits,
serialization kind, six hexadecimal digits of size and a terminator.  The size cuts a stream into
messages, and the major version selects the table the counter codes of the attachments are read
against.

* `Keri.Version.parseStr`, `Keri.Version.parse` — reading a version string from text and from the
  front of a buffer;
* `Keri.Version.toVersionString` — writing one;
* `Keri.CounterTable`, `Keri.GroupKind.classify`, `Keri.GroupKind.code` — what a counter code means.

`Keri.Version.parse_append` says that only the first seventeen bytes of a buffer are read, and
`Keri.GroupKind.classify_code` that the two directions of the counter table agree.
-/

import Keri.Crypto

set_option relaxedAutoImplicit false
set_option autoImplicit false

namespace Keri

open Outcome

/-! ### Serialization kinds -/

/-- Serialization format of a body. -/
inductive SerializationKind where
  | json
  | cbor
  | msgPack
  deriving DecidableEq, Repr

namespace SerializationKind

def tag : SerializationKind → String
  | .json => "JSON"
  | .cbor => "CBOR"
  | .msgPack => "MGPK"

def fromTag (tag : String) : Except CoreError SerializationKind :=
  if tag = "JSON" then .ok .json
  else if tag = "CBOR" then .ok .cbor
  else if tag = "MGPK" then .ok .msgPack
  else .error (.invalidVersion s!"unknown serialization kind: {tag}")

end SerializationKind

/-! ### Version strings -/

/-- Full size of a version string in bytes. -/
def keriVerFullsize : ℕ := 17

/-- A parsed version string. -/
structure Version where
  protocol : String
  major : ℕ
  minor : ℕ
  kind : SerializationKind
  size : ℕ
  deriving DecidableEq, Repr

/-- The value of a hexadecimal digit byte. -/
def hexDigit (ch : UInt8) : Option ℕ := digitVal 16 (Char.ofNat ch.toNat)

namespace Version

def defaultV1 (kind : SerializationKind) (size : ℕ) : Version :=
  { protocol := "KERI", major := 1, minor := 0, kind, size }

/-- Parse a version string from text. -/
def parseStr (vs : String) : Except CoreError Version := do
  let bytes := strBytes vs
  ensure (keriVerFullsize ≤ bytes.length) (.invalidVersion
    s!"version string too short: {bytes.length} chars (need {keriVerFullsize})")
  ensure (isAscii (bytes.take keriVerFullsize))
    (.invalidVersion "version string contains non-ASCII bytes")
  let protocol := textOf (bytes.take 4)
  let majorCh := bytes.getD 4 0
  let minorCh := bytes.getD 5 0
  let major ← okOr (hexDigit majorCh) (.invalidVersion
    s!"invalid major version digit: {Char.ofNat majorCh.toNat}")
  let minor ← okOr (hexDigit minorCh) (.invalidVersion
    s!"invalid minor version digit: {Char.ofNat minorCh.toNat}")
  let kind ← SerializationKind.fromTag (textOf ((bytes.drop 6).take 4))
  let sizeStr := textOf ((bytes.drop 10).take 6)
  let size ← okOr (fromStrRadix 16 u64Bound sizeStr)
    (.invalidVersion s!"invalid hex size: {sizeStr}")
  let terminator := bytes.getD 16 0
  ensure (terminator = '_'.toUInt8) (.invalidVersion
    s!"expected '_' terminator at position 16, got '{Char.ofNat terminator.toNat}'")
  pure { protocol, major, minor, kind, size }

/-- Parse a version string from the front of a buffer. -/
def parse (data : Bytes) : Except CoreError Version := do
  ensure (keriVerFullsize ≤ data.length) (.invalidVersion
    s!"version string too short: {data.length} bytes (need {keriVerFullsize})")
  let vs ← okOr (fromUtf8 (data.take keriVerFullsize))
    (.invalidVersion "version string is not valid UTF-8")
  parseStr vs

/-- Write a version string. -/
def toVersionString (v : Version) : String :=
  v.protocol ++ hexLower v.major ++ hexLower v.minor ++ v.kind.tag ++
    zeroPad 6 (hexLower v.size) ++ "_"

/-- Nothing past the version string is looked at. -/
theorem parse_append {data : Bytes} (h : keriVerFullsize ≤ data.length) (rest : Bytes) :
    parse (data ++ rest) = parse data := by
  have hlen : keriVerFullsize ≤ (data ++ rest).length := by
    rw [List.length_append]; omega
  have htake : (data ++ rest).take keriVerFullsize = data.take keriVerFullsize :=
    List.take_append_of_le_length h
  simp only [parse, ensure, if_pos h, if_pos hlen, htake]

end Version

/-! ### Counter tables -/

/-- Which counter code table a stream uses. -/
inductive CounterTable where
  | v1
  | v2
  deriving DecidableEq, Repr

namespace CounterTable

/-- The table of a stream that does not say. -/
def default : CounterTable := .v1

def fromMajor (major : ℕ) : CounterTable := if 2 ≤ major then .v2 else .v1

/-- The derived `Debug` text. -/
def debug : CounterTable → String
  | .v1 => "V1"
  | .v2 => "V2"

end CounterTable

/-- What a counter code means, independent of the table that produced it. -/
inductive GroupKind where
  | attachedMaterialQuadlets
  | controllerIdxSigs
  | witnessIdxSigs
  | nonTransReceiptCouples
  | transReceiptQuadruples
  | firstSeenReplayCouples
  | transIdxSigGroups
  | sealSourceCouples
  deriving DecidableEq, Repr

namespace GroupKind

/-- The derived `Debug` text. -/
def debug : GroupKind → String
  | .attachedMaterialQuadlets => "AttachedMaterialQuadlets"
  | .controllerIdxSigs => "ControllerIdxSigs"
  | .witnessIdxSigs => "WitnessIdxSigs"
  | .nonTransReceiptCouples => "NonTransReceiptCouples"
  | .transReceiptQuadruples => "TransReceiptQuadruples"
  | .firstSeenReplayCouples => "FirstSeenReplayCouples"
  | .transIdxSigGroups => "TransIdxSigGroups"
  | .sealSourceCouples => "SealSourceCouples"

/-- The code without its dash, and without the `0` of a big counter. -/
def base (code : String) : Option (List Char) :=
  match code.toList with
  | '-' :: '0' :: rest => some rest
  | '-' :: rest => some rest
  | _ => none

/-- Resolve a counter code against a table. -/
def classify (code : String) (table : CounterTable) : Option GroupKind :=
  match table, base code with
  | .v1, some ['A'] => some .controllerIdxSigs
  | .v1, some ['B'] => some .witnessIdxSigs
  | .v1, some ['C'] => some .nonTransReceiptCouples
  | .v1, some ['D'] => some .transReceiptQuadruples
  | .v1, some ['E'] => some .firstSeenReplayCouples
  | .v1, some ['F'] => some .transIdxSigGroups
  | .v1, some ['G'] => some .sealSourceCouples
  | .v1, some ['V'] => some .attachedMaterialQuadlets
  | .v2, some ['A'] => some .attachedMaterialQuadlets
  | .v2, some ['B'] => some .controllerIdxSigs
  | .v2, some ['C'] => some .witnessIdxSigs
  | .v2, some ['D'] => some .nonTransReceiptCouples
  | .v2, some ['E'] => some .transReceiptQuadruples
  | .v2, some ['F'] => some .firstSeenReplayCouples
  | .v2, some ['G'] => some .sealSourceCouples
  | _, _ => none

/-- The counter code of a group in a table. -/
def code : GroupKind → CounterTable → Option String
  | .controllerIdxSigs, .v1 => some "-A"
  | .witnessIdxSigs, .v1 => some "-B"
  | .nonTransReceiptCouples, .v1 => some "-C"
  | .transReceiptQuadruples, .v1 => some "-D"
  | .firstSeenReplayCouples, .v1 => some "-E"
  | .transIdxSigGroups, .v1 => some "-F"
  | .sealSourceCouples, .v1 => some "-G"
  | .attachedMaterialQuadlets, .v1 => some "-V"
  | .attachedMaterialQuadlets, .v2 => some "-A"
  | .controllerIdxSigs, .v2 => some "-B"
  | .witnessIdxSigs, .v2 => some "-C"
  | .nonTransReceiptCouples, .v2 => some "-D"
  | .transReceiptQuadruples, .v2 => some "-E"
  | .firstSeenReplayCouples, .v2 => some "-F"
  | .sealSourceCouples, .v2 => some "-G"
  | .transIdxSigGroups, .v2 => none

/-- **A code written for a group is read back as that group**, under the same table. -/
theorem classify_code {g : GroupKind} {t : CounterTable} {c : String} (h : g.code t = some c) :
    classify c t = some g := by
  cases g <;> cases t <;> simp only [code, Option.some_inj, reduceCtorEq] at h <;>
    subst h <;> decide

end GroupKind

end Keri
