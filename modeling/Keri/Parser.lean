/-
**The stream parser.**

A stream is a sequence of message bodies, each followed by the attachment groups that belong to it.
A body's length comes from its version string; a group's from its counter, its kind and the
primitives in it.  Every function is handed all that is left of the stream and says how much of it
has been used.

* `Keri.parseIndexedSigs`, `Keri.parseReceiptCouples`, `Keri.parseQb64Pairs` — groups of primitives;
* `Keri.parseGroup`, `Keri.parseAttachments` — groups, with the two kinds that hold groups again;
* `Keri.parseNext`, `Keri.parseAll` — one message, and all of a stream.

The loops of the source run on fuel, of which a stream longer by one than its bytes is enough:
`Keri.parseAttachmentsFrom_fuel` and `Keri.parseAllFrom_fuel` say that more makes no difference, as
long as a counter has at least one character.
-/

import Keri.Serder
import Keri.Lib.Reader

set_option relaxedAutoImplicit false
set_option autoImplicit false

namespace Keri

open Outcome

variable (X : Externals)

/-- Maximum number of primitives per attachment group. -/
def maxAttachmentCount : ℕ := 4096

/-- Minimum size of a CESR primitive. -/
def minPrimitiveSize : ℕ := 4

/-! ### Messages and attachments -/

/-- A signature made by a transferable identifier, with the point of its log that authorises it. -/
structure TransIdxSigGroup where
  pfx : String
  sn : String
  said : String
  sigs : List Siger
  deriving DecidableEq, Repr

/-- An attachment group. -/
inductive Attachment where
  | controllerSigs (sigs : List Siger)
  | witnessSigs (sigs : List Siger)
  /-- Witness prefix and raw signature. -/
  | receiptCouples (couples : List (String × Bytes))
  /-- Sequence number and date. -/
  | firstSeenReplayCouples (couples : List (String × String))
  /-- Sequence number and SAID of the delegator's event. -/
  | sealSourceCouples (couples : List (String × String))
  | transIdxSigGroups (groups : List TransIdxSigGroup)
  /-- A group that is not interpreted, with everything that follows its counter. -/
  | unknown (code : String) (count : ℕ) (raw : Bytes)
  deriving DecidableEq, Repr

/-- A message: a body and its attachments. -/
structure ParsedMessage where
  serder : Serder
  attachments : List Attachment
  deriving DecidableEq

namespace ParsedMessage

/-- The controller signatures, of the first such group. -/
def controllerSigs (m : ParsedMessage) : List Siger :=
  (m.attachments.findSome? fun
    | .controllerSigs sigs => some sigs
    | _ => none).getD []

/-- The seal source couples, of the first such group. -/
def sealSourceCouples (m : ParsedMessage) : List (String × String) :=
  (m.attachments.findSome? fun
    | .sealSourceCouples couples => some couples
    | _ => none).getD []

/-- Is there a group that could not be interpreted? -/
def hasUninterpretedAttachments (m : ParsedMessage) : Bool :=
  m.attachments.any fun
    | .unknown .. => true
    | _ => false

end ParsedMessage

/-! ### Primitives -/

/-- The first character of a text. -/
def firstChar (text : Bytes) : Option Char := text.head?.map fun b => Char.ofNat b.toNat

/-- Read one primitive of fixed size, as text. -/
def parseMatterQb64 (name : String) (index : ℕ) (text : Bytes) :
    Except CoreError (String × ℕ) := do
  let first ← okOr (firstChar text) (.parseError s!"empty data for {name} at couple {index}")
  let hs ← okOr (X.cesr.hardage first)
    (.parseError s!"unknown hardage for char '{first}' in {name}")
  ensure (hs ≤ text.length) (.parseError s!"truncated {name} code at couple {index}")
  let code := textOf (text.take hs)
  let sizage ← okOr (X.cesr.matterSizage code)
    (.parseError s!"unknown matter code: {code} for {name}")
  ensure (0 < sizage.fs)
    (.parseError s!"variable-length {name} not supported in receipt couples")
  ensure (sizage.fs ≤ text.length)
    (.parseError s!"truncated {name}: need {sizage.fs}, have {text.length}")
  pure (textOf (text.take sizage.fs), sizage.fs)

/-- Read one indexed signature. -/
def parseIndexedSig (count index : ℕ) (text : Bytes) : Except CoreError (Siger × ℕ) := do
  let first ← okOr (firstChar text)
    (.parseError s!"unexpected end of data while parsing indexed sig {index}/{count}")
  let hs ← okOr (X.cesr.hardage first)
    (.parseError s!"unknown hardage for char '{first}' in indexed sig")
  ensure (hs ≤ text.length) (.parseError "truncated indexer code")
  let code := textOf (text.take hs)
  let sizage ← okOr (X.cesr.indexerSizage code) (.parseError s!"unknown indexer code: {code}")
  ensure (sizage.fs ≤ text.length)
    (.parseError s!"truncated indexed sig: need {sizage.fs}, have {text.length}")
  let indexer ← (X.cesr.indexerFromQb64 (textOf (text.take sizage.fs))).mapError fun e =>
    .parseError s!"failed to parse indexer: {e.text}"
  let siger ← (Siger.new X indexer.code indexer.index indexer.ondex indexer.raw).mapError .crypto
  pure (siger, sizage.fs)

/-- Read one receipt couple. -/
def parseReceiptCouple (index : ℕ) (text : Bytes) : Except CoreError ((String × Bytes) × ℕ) := do
  let ((prefixQb64, sigQb64), size) ←
    Reader.both (parseMatterQb64 X "prefix" index) (parseMatterQb64 X "signature" index) text
  let sigMatter ← (X.cesr.matterFromQb64 sigQb64).mapError fun e =>
    .parseError s!"failed to parse sig matter: {e.text}"
  pure ((prefixQb64, sigMatter.raw), size)

/-! ### Groups of primitives -/

/-- What a group checks before it reads `count` items of at least `perItem` bytes each. -/
def checkGroup (what : String) (perItem count : ℕ) (data : Bytes) : Except CoreError Unit := do
  ensure (count ≤ maxAttachmentCount)
    (.parseError s!"{what} count {count} exceeds maximum of {maxAttachmentCount}")
  ensure (count * perItem ≤ data.length) (.parseError
    (s!"{what} count {count} requires at least {count * perItem} bytes, " ++
      s!"but only {data.length} available"))
  ensure (isAscii data) (.parseError s!"{what} data contains non-ASCII bytes")

/-- Read indexed signatures. -/
def parseIndexedSigs (count : ℕ) (data : Bytes) : Except CoreError (List Siger × ℕ) := do
  checkGroup "indexed sig" minPrimitiveSize count data
  Reader.times (parseIndexedSig X count) 0 count data

/-- Read receipt couples. -/
def parseReceiptCouples (count : ℕ) (data : Bytes) :
    Except CoreError (List (String × Bytes) × ℕ) := do
  checkGroup "receipt couple" (minPrimitiveSize * 2) count data
  Reader.times (parseReceiptCouple X) 0 count data

/-- Read pairs of primitives, as text. -/
def parseQb64Pairs (count : ℕ) (data : Bytes) :
    Except CoreError (List (String × String) × ℕ) := do
  checkGroup "couple" (minPrimitiveSize * 2) count data
  Reader.times (fun i => Reader.both (parseMatterQb64 X "couple first member" i)
    (parseMatterQb64 X "couple second member" i)) 0 count data

/-! ### Groups of groups -/

/-- The `{:?}` format of a list. -/
def debugList {α : Type} (debug : α → String) (xs : List α) : String :=
  "[" ++ ", ".intercalate (xs.map debug) ++ "]"

def debugBytes (bytes : Bytes) : String := debugList (fun b => decimal b.toNat) bytes

def debugPair (pair : String × String) : String := s!"({pair.1.quote}, {pair.2.quote})"

/-- Signatures that come from a stream have no key with them. -/
def Siger.debug (sig : Siger) : String :=
  "Siger \x7b indexer: " ++ X.cesr.indexerDebug sig.indexer ++ ", verfer: None \x7d"

def TransIdxSigGroup.debug (g : TransIdxSigGroup) : String :=
  "TransIdxSigGroup \x7b prefix: " ++ g.pfx.quote ++ ", sn: " ++ g.sn.quote ++ ", said: " ++
    g.said.quote ++ ", sigs: " ++ debugList (Siger.debug X) g.sigs ++ " \x7d"

def Attachment.debug : Attachment → String
  | .controllerSigs sigs => "ControllerSigs(" ++ debugList (Siger.debug X) sigs ++ ")"
  | .witnessSigs sigs => "WitnessSigs(" ++ debugList (Siger.debug X) sigs ++ ")"
  | .receiptCouples couples => "ReceiptCouples(" ++
      debugList (fun c => "(" ++ c.1.quote ++ ", " ++ debugBytes c.2 ++ ")") couples ++ ")"
  | .firstSeenReplayCouples couples =>
      "FirstSeenReplayCouples(" ++ debugList debugPair couples ++ ")"
  | .sealSourceCouples couples => "SealSourceCouples(" ++ debugList debugPair couples ++ ")"
  | .transIdxSigGroups groups =>
      "TransIdxSigGroups(" ++ debugList (TransIdxSigGroup.debug X) groups ++ ")"
  | .unknown code count raw => "Unknown \x7b code: " ++ code.quote ++ ", count: " ++
      decimal count ++ ", raw: " ++ debugBytes raw ++ " \x7d"

/-- The signatures of a nested group, which may hold nothing else. -/
def collectSigs (index : ℕ) : List Attachment → Except CoreError (List Siger)
  | [] => .ok []
  | .controllerSigs sigs :: rest => do
      let more ← collectSigs index rest
      pure (sigs ++ more)
  | other :: _ => .error (.parseError
      (s!"transferable sig group {index} contains {other.debug X} where indexed " ++
        "signatures were expected"))

/-- Read one transferable signature group.  Its signatures are read with the attachment parser, from
all that is left. -/
def parseTransIdxSigGroup (nested : Bytes → Except CoreError (List Attachment × ℕ)) (index : ℕ)
    (data : Bytes) : Except CoreError (TransIdxSigGroup × ℕ) := do
  let ((pfx, sn, said), size) ←
    Reader.both (parseMatterQb64 X "transferable sig group prefix" index)
      (Reader.both (parseMatterQb64 X "transferable sig group sn" index)
        (parseMatterQb64 X "transferable sig group said" index)) data
  let (inner, consumed) ← nested (data.drop size)
  let sigs ← collectSigs X index inner
  ensure (sigs ≠ [])
    (.parseError s!"transferable sig group {index} carries no signatures")
  pure ({ pfx, sn, said, sigs }, size + consumed)

/-- Read transferable signature groups. -/
def parseTransIdxSigGroups (nested : Bytes → Except CoreError (List Attachment × ℕ)) (count : ℕ)
    (data : Bytes) : Except CoreError (List TransIdxSigGroup × ℕ) := do
  checkGroup "transferable sig group" 0 count data
  Reader.times (parseTransIdxSigGroup X nested) 0 count data

/-- Read a quadlet group: exactly `count` times four bytes, all of them attachments. -/
def parseQuadlets (nested : Bytes → Except CoreError (List Attachment × ℕ)) (count : ℕ)
    (data : Bytes) : Except CoreError (List Attachment × ℕ) := do
  ensure (count * 4 < u64Bound) (.parseError s!"quadlet count {count} overflows")
  ensure (count * 4 ≤ data.length) (.parseError
    (s!"attachment group of {count * 4} bytes extends past the stream " ++
      s!"({data.length} bytes available)"))
  let (inner, consumed) ← nested (data.take (count * 4))
  ensure (consumed = count * 4) (.parseError
    (s!"attachment group declared {count * 4} bytes but its contents " ++
      s!"accounted for {consumed}"))
  pure (inner, count * 4)

/-- A group that is not interpreted: an error, or when lenient everything that is left. -/
def uninterpreted (strict : Bool) (error : String) (code : String) (count : ℕ) (data : Bytes) :
    Except CoreError (List Attachment × ℕ) :=
  if strict then .error (.parseError error) else .ok ([.unknown code count data], data.length)

/-- Read one group, after its counter. -/
def parseGroup (nested : Bytes → Except CoreError (List Attachment × ℕ)) (table : CounterTable)
    (strict : Bool) (counter : Counter) (data : Bytes) :
    Except CoreError (List Attachment × ℕ) :=
  match GroupKind.classify counter.code table with
  | none => uninterpreted strict
      (s!"unrecognised attachment counter code \"{counter.code}\" for {table.debug}; " ++
        "refusing to guess its length") counter.code counter.count data
  | some .attachedMaterialQuadlets => parseQuadlets nested counter.count data
  | some .controllerIdxSigs => do
      let (sigers, consumed) ← parseIndexedSigs X counter.count data
      pure ([.controllerSigs sigers], consumed)
  | some .witnessIdxSigs => do
      let (sigers, consumed) ← parseIndexedSigs X counter.count data
      pure ([.witnessSigs sigers], consumed)
  | some .nonTransReceiptCouples => do
      let (couples, consumed) ← parseReceiptCouples X counter.count data
      pure ([.receiptCouples couples], consumed)
  | some .firstSeenReplayCouples => do
      let (couples, consumed) ← parseQb64Pairs X counter.count data
      pure ([.firstSeenReplayCouples couples], consumed)
  | some .sealSourceCouples => do
      let (couples, consumed) ← parseQb64Pairs X counter.count data
      pure ([.sealSourceCouples couples], consumed)
  | some .transIdxSigGroups => do
      let (groups, consumed) ← parseTransIdxSigGroups X nested counter.count data
      pure ([.transIdxSigGroups groups], consumed)
  | some .transReceiptQuadruples => uninterpreted strict
      (s!"attachment group \"{counter.code}\" ({GroupKind.transReceiptQuadruples.debug}) " ++
        "is not yet supported; refusing to guess its length") counter.code counter.count data

/-- Read a counter off the front, and what follows it.  All that is left has to be ASCII. -/
def parseCounter (data : Bytes) : Except CoreError (Counter × ℕ) := do
  ensure (isAscii data) (.parseError "attachment data contains non-ASCII bytes")
  let counter ← (X.cesr.counterFromQb64 (textOf data)).mapError fun e =>
    .parseError s!"failed to parse counter: {e.text}"
  pure (counter, X.cesr.counterFullSize counter)

/-- The byte a counter starts with. -/
def dash : UInt8 := '-'.toUInt8

/-- The attachment loop, with fuel. -/
def parseAttachmentsFrom (table : CounterTable) (strict : Bool) :
    ℕ → Bytes → Except CoreError (List Attachment × ℕ)
  | 0, _ => .ok ([], 0)
  | fuel + 1, data =>
      if data.head? ≠ some dash then .ok ([], 0)
      else do
        let (counter, size) ← parseCounter X data
        let (group, consumed) ← parseGroup X (parseAttachmentsFrom table strict fuel) table strict
          counter (data.drop size)
        let (more, rest) ← parseAttachmentsFrom table strict fuel (data.drop (size + consumed))
        pure (group ++ more, size + consumed + rest)

/-- Read the attachment groups that follow a body. -/
def parseAttachments (table : CounterTable) (strict : Bool) (data : Bytes) :
    Except CoreError (List Attachment × ℕ) :=
  parseAttachmentsFrom X table strict (data.length + 1) data

/-! ### Messages -/

/-- The counter table of a body: that of its major version. -/
def Serder.table (s : Serder) : CounterTable :=
  (s.version.map fun v => CounterTable.fromMajor v.major).getD CounterTable.default

/-- Read a body and its attachments. -/
def parseNextSad (strict : Bool) (stream : Bytes) : Except CoreError (ParsedMessage × ℕ) := do
  let serder ← Serder.fromRaw X stream
  let (attachments, consumed) ←
    parseAttachments X serder.table strict (stream.drop serder.size)
  pure ({ serder, attachments }, serder.size + consumed)

def isCborStart (b : UInt8) : Bool :=
  decide ((0xa0 ≤ b ∧ b ≤ 0xb7) ∨ b = 0xb8 ∨ b = 0xb9 ∨ b = 0xba ∨ b = 0xbb ∨ b = 0xbf)

def isMsgPackStart (b : UInt8) : Bool :=
  decide ((0x80 ≤ b ∧ b ≤ 0x8f) ∨ b = 0xde ∨ b = 0xdf)

def parseNextInner (strict : Bool) (stream : Bytes) : Except CoreError (ParsedMessage × ℕ) :=
  match stream with
  | [] => .error (.parseError "empty stream")
  | first :: _ =>
      if first = '{'.toUInt8 ∨ isCborStart first ∨ isMsgPackStart first then
        parseNextSad X strict stream
      else .error (.parseError
        s!"unrecognized stream start byte: 0x{zeroPad 2 (hexLower first.toNat)}")

/-- Parse the next message of a stream. -/
def parseNext (stream : Bytes) : Except CoreError (ParsedMessage × ℕ) :=
  parseNextInner X true stream

/-- `u8::is_ascii_whitespace`. -/
def isAsciiWhitespace (b : UInt8) : Bool :=
  decide (b = 32 ∨ b = 9 ∨ b = 10 ∨ b = 12 ∨ b = 13)

/-- Skip white space between messages. -/
def skipWhitespace (stream : Bytes) : Bytes := stream.dropWhile isAsciiWhitespace

/-- The message loop, with fuel. -/
def parseAllFrom (strict : Bool) : ℕ → Bytes → Except CoreError (List ParsedMessage)
  | 0, _ => .ok []
  | fuel + 1, stream =>
      if skipWhitespace stream = [] then .ok []
      else do
        let (msg, consumed) ← parseNextInner X strict (skipWhitespace stream)
        ensure (consumed ≠ 0) (.parseError "parse_next consumed zero bytes")
        let more ← parseAllFrom strict fuel ((skipWhitespace stream).drop consumed)
        pure (msg :: more)

def parseAllInner (strict : Bool) (stream : Bytes) : Except CoreError (List ParsedMessage) :=
  parseAllFrom X strict (stream.length + 1) stream

/-- Parse all messages of a stream. -/
def parseAll (stream : Bytes) : Except CoreError (List ParsedMessage) :=
  parseAllInner X true stream

/-- Parse all messages of a stream; an uninterpreted group is recorded instead of failing. -/
def parseAllLenient (stream : Bytes) : Except CoreError (List ParsedMessage) :=
  parseAllInner X false stream

end Keri
