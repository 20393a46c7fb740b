/-
**The parser with its offsets.**

The parser of `Keri.Parser` is handed what is left of the stream; the source is handed a buffer and
computes offsets into it, from sizes and counts that the sender of the stream has declared.  Here
the same functions are written with the buffer, the offsets and every slice, sum and index of the
source, each of which can fault.

* `Keri.Offsets.parseStr`, `Keri.Offsets.extractVersionFromRaw`, `Keri.Offsets.fromRaw` — version
  strings and bodies;
* `Keri.Offsets.parseMatterQb64`, `Keri.Offsets.parseIndexedSigs`,
  `Keri.Offsets.parseTransIdxSigGroups` — groups;
* `Keri.Offsets.parseAttachmentsFrom`, `Keri.Offsets.parseNextInner`,
  `Keri.Offsets.parseAllInner` — the loops.

A `&str` is given by its bytes.  A loop that is not over a range of indices runs on fuel, and faults
when it has none left.
-/

import Keri.Parser
import Keri.Lib.Checked

set_option relaxedAutoImplicit false
set_option autoImplicit false

namespace Keri.Offsets

open Outcome Checked

variable (X : Externals)

/-- A run of the parser. -/
abbrev Run (α : Type) := Checked.Run CoreError α

/-- The text that the bytes of a `&str` encode. -/
def text (bytes : Bytes) : String := (fromUtf8 bytes).getD ""

/-- `str::chars().next()`. -/
def firstChar (bytes : Bytes) : Option Char := (text bytes).toList.head?

/-! ### Bodies -/

/-- Parse a version string from text. -/
def parseStr (vs : Bytes) : Run Version := do
  check (keriVerFullsize ≤ vs.length) (.invalidVersion
    s!"version string too short: {vs.length} chars (need {keriVerFullsize})")
  let head ← sliceTo vs keriVerFullsize
  check (isAscii head) (.invalidVersion "version string contains non-ASCII bytes")
  let protocol ← strSlice vs 0 4
  let majorCh ← index vs 4
  let minorCh ← index vs 5
  let major ← need (hexDigit majorCh) (.invalidVersion
    s!"invalid major version digit: {Char.ofNat majorCh.toNat}")
  let minor ← need (hexDigit minorCh) (.invalidVersion
    s!"invalid minor version digit: {Char.ofNat minorCh.toNat}")
  let kindTag ← strSlice vs 6 10
  let kind ← lift (SerializationKind.fromTag (text kindTag))
  let sizeStr ← strSlice vs 10 16
  let size ← need (fromStrRadix 16 u64Bound (text sizeStr))
    (.invalidVersion s!"invalid hex size: {text sizeStr}")
  let terminator ← index vs 16
  check (terminator = '_'.toUInt8) (.invalidVersion
    s!"expected '_' terminator at position 16, got '{Char.ofNat terminator.toNat}'")
  pure { protocol := text protocol, major, minor, kind, size }

/-- Parse a version string from the front of a buffer. -/
def parse (data : Bytes) : Run Version := do
  check (keriVerFullsize ≤ data.length) (.invalidVersion
    s!"version string too short: {data.length} bytes (need {keriVerFullsize})")
  let head ← sliceTo data keriVerFullsize
  let vs ← need (fromUtf8 head) (.invalidVersion "version string is not valid UTF-8")
  parseStr (strBytes vs)

/-- Find the version string at the start of a message. -/
def extractVersionFromRaw (data : Bytes) : Run (Option Version) := do
  let window ← sliceTo data (min data.length versionSearchWindow)
  match (protocolTags.filterMap fun proto => position proto window).min? with
  | none => pure none
  | some pos => do
      let fullEnd ← add pos keriVerFullsize
      if data.length < fullEnd then pure none
      else do
        let tail ← sliceFrom data pos
        attempt (parse tail)

/-- Detect the serialization kind from the first byte. -/
def sniffKind (data : Bytes) : Run SerializationKind := do
  check (data ≠ []) (.parseError "empty data")
  let b ← index data 0
  lift (Keri.sniffKind [b])

/-- Read a body from the front of a buffer. -/
def fromRaw (raw : Bytes) : Run Serder := do
  check (raw ≠ []) (.parseError "empty input")
  let kind ← sniffKind raw
  let version ← extractVersionFromRaw raw
  let msgLen := (version.map (·.size)).getD raw.length
  check (msgLen ≤ raw.length) (.parseError
    s!"raw data too short: {raw.length} bytes but version says {msgLen}")
  let msgBytes ← sliceTo raw msgLen
  let sad ← lift (deserializeValue X msgBytes kind)
  let version ← match version, versionText sad with
    | some v, _ => pure (some v)
    | none, some vs => attempt (parseStr (strBytes vs))
    | none, none => pure none
  pure { raw := msgBytes, version, kind, sad }

/-! ### Primitives -/

/-- Read one primitive of fixed size, as text. -/
def parseMatterQb64 (name : String) (i : ℕ) (data : Bytes) : Run (String × ℕ) := do
  check (data ≠ []) (.parseError s!"empty data for {name} at couple {i}")
  let first ← need (firstChar data) (.parseError s!"empty data for {name} at couple {i}")
  let hs ← need (X.cesr.hardage first)
    (.parseError s!"unknown hardage for char '{first}' in {name}")
  check (hs ≤ data.length) (.parseError s!"truncated {name} code at couple {i}")
  let code ← strSliceTo data hs
  let sizage ← need (X.cesr.matterSizage (text code))
    (.parseError s!"unknown matter code: {text code} for {name}")
  check (0 < sizage.fs)
    (.parseError s!"variable-length {name} not supported in receipt couples")
  check (sizage.fs ≤ data.length)
    (.parseError s!"truncated {name}: need {sizage.fs}, have {data.length}")
  let qb64 ← strSliceTo data sizage.fs
  pure (text qb64, sizage.fs)

/-- Read one indexed signature at an offset. -/
def parseIndexedSig (data : Bytes) (count i offset : ℕ) : Run (Siger × ℕ) := do
  check (offset < data.length)
    (.parseError s!"unexpected end of data while parsing indexed sig {i}/{count}")
  let tail ← strSliceFrom data offset
  let first ← need (firstChar tail) (.parseError s!"empty data for indexed sig {i}")
  let hs ← need (X.cesr.hardage first)
    (.parseError s!"unknown hardage for char '{first}' in indexed sig")
  let codeEnd ← add offset hs
  check (codeEnd ≤ data.length) (.parseError "truncated indexer code")
  let code ← strSlice data offset codeEnd
  let sizage ← need (X.cesr.indexerSizage (text code))
    (.parseError s!"unknown indexer code: {text code}")
  let sigEnd ← add offset sizage.fs
  if data.length < sigEnd then do
    let available ← sub data.length offset
    raise (.parseError s!"truncated indexed sig: need {sizage.fs}, have {available}")
  else do
    let qb64 ← strSlice data offset sigEnd
    let indexer ← lift ((X.cesr.indexerFromQb64 (text qb64)).mapError fun e =>
      .parseError s!"failed to parse indexer: {e.text}")
    let siger ← lift ((Siger.new X indexer.code indexer.index indexer.ondex
      indexer.raw).mapError .crypto)
    let offset ← add offset sizage.fs
    pure (siger, offset)

/-- Read two primitives at an offset. -/
def parsePair (name name' : String) (data : Bytes) (i offset : ℕ) :
    Run ((String × String) × ℕ) := do
  let tail ← strSliceFrom data offset
  let (first, firstSize) ← parseMatterQb64 X name i tail
  let offset ← add offset firstSize
  let tail ← strSliceFrom data offset
  let (second, secondSize) ← parseMatterQb64 X name' i tail
  let offset ← add offset secondSize
  pure ((first, second), offset)

/-- Read one receipt couple at an offset. -/
def parseReceiptCouple (data : Bytes) (i offset : ℕ) : Run ((String × Bytes) × ℕ) := do
  let ((prefixQb64, sigQb64), offset) ← parsePair X "prefix" "signature" data i offset
  let sigMatter ← lift ((X.cesr.matterFromQb64 sigQb64).mapError fun e =>
    .parseError s!"failed to parse sig matter: {e.text}")
  pure ((prefixQb64, sigMatter.raw), offset)

/-! ### Groups of primitives -/

/-- What a group checks before it reads `count` items. -/
def checkGroup (what : String) (minBytes : ℕ → Run ℕ) (count : ℕ) (data : Bytes) : Run Unit := do
  check (count ≤ maxAttachmentCount)
    (.parseError s!"{what} count {count} exceeds maximum of {maxAttachmentCount}")
  let required ← minBytes count
  check (required ≤ data.length) (.parseError
    (s!"{what} count {count} requires at least {required} bytes, " ++
      s!"but only {data.length} available"))
  check (isAscii data) (.parseError s!"{what} data contains non-ASCII bytes")
  check ((fromUtf8 data).isSome) (.parseError s!"{what} data is not valid UTF-8")

/-- The least number of bytes of so many couples. -/
def coupleBytes (count : ℕ) : Run ℕ := do
  let one ← mul count minPrimitiveSize
  mul one 2

/-- Read indexed signatures. -/
def parseIndexedSigs (count : ℕ) (data : Bytes) : Run (List Siger × ℕ) := do
  checkGroup "indexed sig" (mul · minPrimitiveSize) count data
  forCount (parseIndexedSig X data count) count 0 0

/-- Read receipt couples. -/
def parseReceiptCouples (count : ℕ) (data : Bytes) : Run (List (String × Bytes) × ℕ) := do
  checkGroup "receipt couple" coupleBytes count data
  forCount (parseReceiptCouple X data) count 0 0

/-- Read pairs of primitives, as text. -/
def parseQb64Pairs (count : ℕ) (data : Bytes) : Run (List (String × String) × ℕ) := do
  checkGroup "couple" coupleBytes count data
  forCount (parsePair X "couple first member" "couple second member" data) count 0 0

/-! ### Groups of groups -/

/-- Read one transferable signature group at an offset. -/
def parseTransIdxSigGroup (nested : Bytes → Run (List Attachment × ℕ)) (data : Bytes)
    (i offset : ℕ) : Run (TransIdxSigGroup × ℕ) := do
  let tail ← strSliceFrom data offset
  let (pfx, n) ← parseMatterQb64 X "transferable sig group prefix" i tail
  let offset ← add offset n
  let tail ← strSliceFrom data offset
  let (sn, n) ← parseMatterQb64 X "transferable sig group sn" i tail
  let offset ← add offset n
  let tail ← strSliceFrom data offset
  let (said, n) ← parseMatterQb64 X "transferable sig group said" i tail
  let offset ← add offset n
  let rest ← sliceFrom data offset
  let (inner, consumed) ← nested rest
  let offset ← add offset consumed
  let sigs ← lift (collectSigs X i inner)
  check (sigs ≠ []) (.parseError s!"transferable sig group {i} carries no signatures")
  pure ({ pfx, sn, said, sigs }, offset)

/-- Read transferable signature groups; there is no least number of bytes. -/
def parseTransIdxSigGroups (nested : Bytes → Run (List Attachment × ℕ)) (count : ℕ)
    (data : Bytes) : Run (List TransIdxSigGroup × ℕ) := do
  checkGroup "transferable sig group" (fun _ => pure 0) count data
  forCount (parseTransIdxSigGroup X nested data) count 0 0

/-- Read a quadlet group at an offset. -/
def parseQuadlets (nested : Bytes → Run (List Attachment × ℕ)) (count : ℕ) (data : Bytes)
    (offset : ℕ) : Run (List Attachment × ℕ) := do
  let byteLen ← need (checkedMul count 4) (.parseError s!"quadlet count {count} overflows")
  let stop ← need (checkedAdd offset byteLen)
    (.parseError "attachment group extends past usize")
  if data.length < stop then do
    let available ← sub data.length offset
    raise (.parseError (s!"attachment group of {byteLen} bytes extends past the stream " ++
      s!"({available} bytes available)"))
  else do
    let span ← slice data offset stop
    let (inner, consumed) ← nested span
    check (consumed = byteLen) (.parseError
      (s!"attachment group declared {byteLen} bytes but its contents " ++
        s!"accounted for {consumed}"))
    pure (inner, stop)

/-- A group that is not interpreted: an error, or when lenient everything that is left. -/
def uninterpreted (strict : Bool) (error : String) (counter : Counter) (data : Bytes)
    (offset : ℕ) : Run (List Attachment × ℕ) :=
  if strict then raise (.parseError error)
  else do
    let raw ← sliceFrom data offset
    pure ([.unknown counter.code counter.count raw], data.length)

/-- A group that is handed what is left of the buffer. -/
def tagged {β : Type} (tag : β → Attachment) (read : Bytes → Run (β × ℕ)) (data : Bytes)
    (offset : ℕ) : Run (List Attachment × ℕ) := do
  let rest ← sliceFrom data offset
  let (x, consumed) ← read rest
  let offset ← add offset consumed
  pure ([tag x], offset)

/-- Read one group, after its counter. -/
def parseGroup (nested : Bytes → Run (List Attachment × ℕ)) (table : CounterTable)
    (strict : Bool) (counter : Counter) (data : Bytes) (offset : ℕ) :
    Run (List Attachment × ℕ) :=
  match GroupKind.classify counter.code table with
  | none => uninterpreted strict
      (s!"unrecognised attachment counter code \"{counter.code}\" for {table.debug}; " ++
        "refusing to guess its length") counter data offset
  | some .attachedMaterialQuadlets => parseQuadlets nested counter.count data offset
  | some .controllerIdxSigs =>
      tagged .controllerSigs (parseIndexedSigs X counter.count) data offset
  | some .witnessIdxSigs => tagged .witnessSigs (parseIndexedSigs X counter.count) data offset
  | some .nonTransReceiptCouples =>
      tagged .receiptCouples (parseReceiptCouples X counter.count) data offset
  | some .firstSeenReplayCouples =>
      tagged .firstSeenReplayCouples (parseQb64Pairs X counter.count) data offset
  | some .sealSourceCouples =>
      tagged .sealSourceCouples (parseQb64Pairs X counter.count) data offset
  | some .transIdxSigGroups =>
      tagged .transIdxSigGroups (parseTransIdxSigGroups X nested counter.count) data offset
  | some .transReceiptQuadruples => uninterpreted strict
      (s!"attachment group \"{counter.code}\" ({GroupKind.transReceiptQuadruples.debug}) " ++
        "is not yet supported; refusing to guess its length") counter data offset

/-- The attachment loop.  A nested call has to be on a shorter span. -/
def parseAttachmentsFrom (table : CounterTable) (strict : Bool) :
    ℕ → Bytes → ℕ → Run (List Attachment × ℕ)
  | 0, _, _ => fault .outOfFuel
  | fuel + 1, data, offset =>
      if data.length ≤ offset then pure ([], offset)
      else do
        let first ← index data offset
        if first ≠ dash then pure ([], offset)
        else do
          let rest ← sliceFrom data offset
          check (isAscii rest) (.parseError "attachment data contains non-ASCII bytes")
          check ((fromUtf8 rest).isSome) (.parseError "attachment data is not valid UTF-8")
          let counter ← lift ((X.cesr.counterFromQb64 (text rest)).mapError fun e =>
            .parseError s!"failed to parse counter: {e.text}")
          let offset ← add offset (X.cesr.counterFullSize counter)
          -- an uninterpreted group ends at the end of the data, and so does the loop
          let (group, offset) ← parseGroup X
            (within data fun span => parseAttachmentsFrom table strict fuel span 0) table strict
            counter data offset
          let (more, offset) ← parseAttachmentsFrom table strict fuel data offset
          pure (group ++ more, offset)

/-- Read the attachment groups that follow a body. -/
def parseAttachments (table : CounterTable) (strict : Bool) (data : Bytes) :
    Run (List Attachment × ℕ) :=
  parseAttachmentsFrom X table strict (data.length + 1) data 0

/-! ### Messages -/

/-- Read a body and its attachments. -/
def parseNextSad (strict : Bool) (stream : Bytes) : Run (ParsedMessage × ℕ) := do
  let serder ← fromRaw X stream
  let rest ← sliceFrom stream serder.size
  let (attachments, consumed) ← parseAttachments X serder.table strict rest
  let total ← add serder.size consumed
  pure ({ serder, attachments }, total)

/-- Parse the next message of a stream. -/
def parseNextInner (strict : Bool) (stream : Bytes) : Run (ParsedMessage × ℕ) := do
  check (stream ≠ []) (.parseError "empty stream")
  let first ← index stream 0
  if first = '{'.toUInt8 ∨ isCborStart first ∨ isMsgPackStart first then
    parseNextSad X strict stream
  else raise (.parseError
    s!"unrecognized stream start byte: 0x{zeroPad 2 (hexLower first.toNat)}")

/-- Skip white space from an offset on. -/
def skipWhitespaceFrom : ℕ → Bytes → ℕ → Run ℕ
  | 0, _, _ => fault .outOfFuel
  | fuel + 1, stream, offset =>
      if stream.length ≤ offset then pure offset
      else do
        let b ← index stream offset
        if isAsciiWhitespace b then do
          let offset ← add offset 1
          skipWhitespaceFrom fuel stream offset
        else pure offset

/-- The message loop. -/
def parseAllFrom (strict : Bool) : ℕ → Bytes → ℕ → Run (List ParsedMessage)
  | 0, _, _ => fault .outOfFuel
  | fuel + 1, stream, offset =>
      if stream.length ≤ offset then pure []
      else do
        let offset ← skipWhitespaceFrom (stream.length + 1) stream offset
        if stream.length ≤ offset then pure []
        else do
          let tail ← sliceFrom stream offset
          let (msg, consumed) ← parseNextInner X strict tail
          check (consumed ≠ 0) (.parseError "parse_next consumed zero bytes")
          let offset ← add offset consumed
          let more ← parseAllFrom strict fuel stream offset
          pure (msg :: more)

/-- Parse all messages of a stream. -/
def parseAllInner (strict : Bool) (stream : Bytes) : Run (List ParsedMessage) :=
  parseAllFrom X strict (stream.length + 1) stream 0

end Keri.Offsets
