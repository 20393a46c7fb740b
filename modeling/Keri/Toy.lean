/-
**A concrete instance of the libraries below.**

A result about the repository takes the libraries as a parameter with the properties it needs; this
module has one instance of that parameter, small enough to compute with.  The CESR texts are the
real ones, in Base64 with the real sizes, for the codes listed, and the JSON is real JSON.  The
cryptography is a stand-in: a digest that the instance takes as an argument, signatures that repeat
the key with a checksum of the message, and a key stretcher that is a checksum.

* `Keri.Toy.cesr`, `Keri.Toy.json`, `Keri.Toy.externals` — the instance;
* `Keri.Toy.checksumDigest`, `Keri.Toy.knownDigest` — a digest of 32 bytes, and one that loses
  nothing;
* `Keri.Toy.digestQb64_injective`, `Keri.Toy.json_injective`, `Keri.Toy.dummy_not_qb64` — **what
  results assume of the libraries, the instance has**.

An encoder checks its own output: it fails unless the decoder reads back what was encoded.  This is
what makes it injective without an argument about the format.
-/

import Keri.Serder

set_option relaxedAutoImplicit false
set_option autoImplicit false

namespace Keri.Toy

/-! ### Base64 -/

/-- The digit of a value below 64. -/
def digit (n : ℕ) : UInt8 :=
  UInt8.ofNat <|
    if n < 26 then n + 65 else if n < 52 then n + 71 else if n < 62 then n - 4
    else if n = 62 then 45 else 95

/-- The value of a digit. -/
def digitValue (b : UInt8) : Option ℕ :=
  let n := b.toNat
  if 65 ≤ n ∧ n ≤ 90 then some (n - 65)
  else if 97 ≤ n ∧ n ≤ 122 then some (n - 71)
  else if 48 ≤ n ∧ n ≤ 57 then some (n + 4)
  else if n = 45 then some 62
  else if n = 95 then some 63
  else none

/-- Encode bytes, three at a time; a shorter rest is dropped. -/
def encode : Bytes → Bytes
  | a :: b :: c :: bs =>
      let n := a.toNat * 65536 + b.toNat * 256 + c.toNat
      digit (n / 262144) :: digit (n / 4096 % 64) :: digit (n / 64 % 64) :: digit (n % 64) ::
        encode bs
  | _ => []

/-- Decode digits, four at a time. -/
def decode : List ℕ → Option Bytes
  | a :: b :: c :: d :: ds =>
      let n := a * 262144 + b * 4096 + c * 64 + d
      (decode ds).map fun bs =>
        UInt8.ofNat (n / 65536) :: UInt8.ofNat (n / 256 % 256) :: UInt8.ofNat (n % 256) :: bs
  | [] => some []
  | _ => none

/-- The text of raw bytes behind a code: the code takes the place of the pad. -/
def primitiveText (code : String) (raw : Bytes) : String :=
  let pad := (strBytes code).length % 4
  code ++ textOf ((encode (List.replicate pad 0 ++ raw)).drop pad)

/-- The raw bytes behind a code of `pad` characters, up to a multiple of four. -/
def primitiveRaw (pad : ℕ) (body : Bytes) : Option Bytes := do
  let digits ← body.mapM digitValue
  let bytes ← decode (List.replicate pad 0 ++ digits)
  if bytes.take pad = List.replicate pad 0 then some (bytes.drop pad) else none

/-! ### CESR -/

def hardage (c : Char) : Option ℕ :=
  if ('A' ≤ c ∧ c ≤ 'Z') ∨ ('a' ≤ c ∧ c ≤ 'z') then some 1
  else if c = '0' then some 2
  else if c = '1' then some 4
  else none

/-- Full sizes: seeds, keys and digests, salts and numbers, signatures. -/
def matterSizage (code : String) : Option Sizage :=
  if code ∈ ["A", "B", "D", "E"] then some ⟨44⟩
  else if code = "0A" then some ⟨24⟩
  else if code = "0B" then some ⟨88⟩
  else none

/-- Raw bytes have the size of their code.  A digest is as long as it comes. -/
def rawFits (code : String) (raw : Bytes) : Bool :=
  if code ∈ ["A", "B", "D"] then raw.length == 32
  else if code = "0A" then raw.length == 16
  else if code = "0B" then raw.length == 64
  else code == "E"

def indexerSizage (code : String) : Option Sizage :=
  if code ∈ ["A", "B"] then some ⟨88⟩ else none

def matterNew (code : String) (raw : Bytes) : Except CesrError Matter :=
  if rawFits code raw = true then .ok ⟨code, raw⟩ else .error ⟨"unknown code or wrong size"⟩

/-- Decode a primitive.  A digest is as long as its text. -/
def matterFromQb64 (qb64 : String) : Except CesrError Matter :=
  let text := strBytes qb64
  match (text.head?.map fun b => Char.ofNat b.toNat).bind hardage with
  | none => .error ⟨"unknown code"⟩
  | some hs =>
      let code := textOf (text.take hs)
      match matterSizage code, primitiveRaw (hs % 4) (text.drop hs) with
      | some sizage, some raw =>
          if sizage.fs = text.length ∨ code = "E" then .ok ⟨code, raw⟩
          else .error ⟨"wrong size"⟩
      | _, _ => .error ⟨"malformed"⟩

def matterQb64 (m : Matter) : Except CesrError String :=
  let text := primitiveText m.code m.raw
  if matterFromQb64 text = .ok m then .ok text else .error ⟨"cannot be encoded"⟩

/-- Decode an indexed signature; a `B` has its other index where an `A` has none. -/
def indexerFromQb64 (qb64 : String) : Except CesrError Indexer :=
  match strBytes qb64 with
  | c :: i :: body =>
      match digitValue i, primitiveRaw 2 body with
      | some index, some raw =>
          if body.length ≠ 86 then .error ⟨"wrong size"⟩
          else if c = 65 then .ok ⟨"A", index, none, raw⟩
          else if c = 66 then .ok ⟨"B", index, some index, raw⟩
          else .error ⟨"unknown code"⟩
      | _, _ => .error ⟨"malformed"⟩
  | _ => .error ⟨"truncated"⟩

def indexerNew (code : String) (index : ℕ) (ondex : Option ℕ) (raw : Bytes) :
    Except CesrError Indexer :=
  if (indexerSizage code).isSome then .ok ⟨code, index, ondex, raw⟩
  else .error ⟨"unknown code"⟩

def indexerQb64 (x : Indexer) : Except CesrError String :=
  let text := primitiveText (x.code ++ textOf [digit x.index]) x.raw
  if indexerFromQb64 text = .ok x then .ok text else .error ⟨"cannot be encoded"⟩

def counterFromQb64 (text : String) : Except CesrError Counter :=
  match strBytes text with
  | 45 :: c :: d :: e :: _ =>
      match digitValue c, digitValue d, digitValue e with
      | some _, some d, some e => .ok ⟨textOf [45, c], d * 64 + e⟩
      | _, _, _ => .error ⟨"malformed counter"⟩
  | _ => .error ⟨"not a counter"⟩

def counterQb64 (c : Counter) : Except CesrError String :=
  let text := c.code ++ textOf [digit (c.count / 64), digit (c.count % 64)]
  if counterFromQb64 text = .ok c then .ok text else .error ⟨"cannot be encoded"⟩

def cesr : Cesr where
  hardage := hardage
  matterSizage := matterSizage
  indexerSizage := indexerSizage
  matterNew := matterNew
  matterFromQb64 := matterFromQb64
  matterQb64 := matterQb64
  indexerNew := indexerNew
  indexerFromQb64 := indexerFromQb64
  indexerQb64 := indexerQb64
  indexerDebug := fun x => s!"Indexer({x.code}, {x.index})"
  counterNew := fun code count => .ok ⟨code, count⟩
  counterFromQb64 := counterFromQb64
  counterFullSize := fun _ => 4
  counterQb64 := counterQb64

/-! ### JSON -/

/-- Escape a byte of a string literal. -/
def escape (b : UInt8) : Bytes :=
  if b = 34 ∨ b = 92 then [92, b] else if b = 10 then [92, 110] else [b]

def printString (s : String) : Bytes := 34 :: (strBytes s).flatMap escape ++ [34]

mutual

/-- Compact JSON. -/
def print : Value → Bytes
  | .null => strBytes "null"
  | .bool b => strBytes (if b then "true" else "false")
  | .number (.posInt n) => strBytes (decimal n)
  | .number (.negInt n) => 45 :: strBytes (decimal (n + 1))
  | .number (.float _) => strBytes "null"
  | .string s => printString s
  | .array xs => 91 :: printItems xs ++ [93]
  | .object fs => 123 :: printFields fs ++ [125]

/-- The items of an array. -/
def printItems : List Value → Bytes
  | [] => []
  | [x] => print x
  | x :: xs => print x ++ 44 :: printItems xs

/-- The fields of an object. -/
def printFields : List (String × Value) → Bytes
  | [] => []
  | [(k, x)] => printString k ++ 58 :: print x
  | (k, x) :: fs => printString k ++ 58 :: (print x ++ 44 :: printFields fs)

end

/-- Skip white space. -/
def skip (bs : Bytes) : Bytes := bs.dropWhile fun b => b = 32 || b = 10 || b = 9 || b = 13

/-- Skip white space after what has been parsed. -/
def skipAfter {α : Type} (parsed : Option (α × Bytes)) : Option (α × Bytes) :=
  parsed.map fun p => (p.1, skip p.2)

/-- The text of the bytes of a string literal. -/
def literalText (bs : Bytes) : Option String :=
  if isAscii bs then some (textOf bs) else fromUtf8 bs

/-- The rest of a string literal, after its opening quote; `acc` holds what has been read, last byte
first. -/
def parseString : Bytes → Bytes → Option (String × Bytes)
  | _, [] => none
  | acc, [b] => if b = 34 then (literalText acc.reverse).map (·, []) else none
  | acc, b :: c :: bs =>
      if b = 34 then (literalText acc.reverse).map (·, c :: bs)
      else if b = 92 then
        if c = 34 ∨ c = 92 then parseString (c :: acc) bs
        else if c = 110 then parseString (10 :: acc) bs
        else none
      else parseString (b :: acc) (c :: bs)

/-- A number without sign, fraction or exponent. -/
def parseNumber (bs : Bytes) : Option (Value × Bytes) :=
  let digits := bs.takeWhile fun b => 48 ≤ b && b ≤ 57
  (fromStrRadix 10 u64Bound (textOf digits)).map fun n =>
    (.number (.posInt n), bs.drop digits.length)

/-- Parse a word. -/
def parseWord (word : String) (v : Value) (bs : Bytes) : Option (Value × Bytes) :=
  if strBytes word <+: bs then some (v, bs.drop (strBytes word).length) else none

mutual

/-- Parse a value off the front of a text. -/
def parseValue : ℕ → Bytes → Option (Value × Bytes)
  | 0, _ => none
  | fuel + 1, bs =>
      match skip bs with
      | [] => none
      | b :: bs =>
          if b = 34 then (parseString [] bs).map fun (s, rest) => (.string s, rest)
          else if b = 91 then
            match skip bs with
            | 93 :: rest => some (.array [], rest)
            | bs => (parseItems fuel bs).map fun (xs, rest) => (.array xs, rest)
          else if b = 123 then
            match skip bs with
            | 125 :: rest => some (.object [], rest)
            | bs => (parseFields fuel [] bs).map fun (fs, rest) => (.object fs, rest)
          else if b = 110 then parseWord "null" .null (b :: bs)
          else if b = 116 then parseWord "true" (.bool true) (b :: bs)
          else if b = 102 then parseWord "false" (.bool false) (b :: bs)
          else parseNumber (b :: bs)

/-- Parse the items of an array and its closing bracket. -/
def parseItems : ℕ → Bytes → Option (List Value × Bytes)
  | 0, _ => none
  | fuel + 1, bs =>
      match parseValue fuel bs with
      | none => none
      | some (x, bs) =>
          match skip bs with
          | 93 :: rest => some ([x], rest)
          | 44 :: bs => (parseItems fuel bs).map fun (xs, rest) => (x :: xs, rest)
          | _ => none

/-- Parse the fields of an object and its closing brace; a repeated key is overwritten. -/
def parseFields : ℕ → Fields → Bytes → Option (Fields × Bytes)
  | 0, _, _ => none
  | fuel + 1, fs, bs =>
      match skip bs with
      | 34 :: bs =>
          match skipAfter (parseString [] bs) with
          | some (k, 58 :: bs) =>
              match skipAfter (parseValue fuel bs) with
              | some (x, 125 :: rest) => some (Fields.insert k x fs, rest)
              | some (x, 44 :: bs) => parseFields fuel (Fields.insert k x fs) bs
              | _ => none
          | _ => none
      | _ => none

end

def fromSlice (bytes : Bytes) : Except SerdeError Value :=
  match parseValue (bytes.length + 1) bytes with
  | some (v, rest) => if skip rest = [] then .ok v else .error ⟨"trailing characters"⟩
  | none => .error ⟨"malformed JSON"⟩

def toVec (v : Value) : Except SerdeError Bytes :=
  let bytes := print v
  if fromSlice bytes = .ok v then .ok bytes else .error ⟨"cannot be printed"⟩

def json : Codec where
  toVec := toVec
  fromSlice := fromSlice

/-- A serializer that is not there. -/
def noCodec : Codec where
  toVec := fun _ => .error ⟨"not supported"⟩
  fromSlice := fun _ => .error ⟨"not supported"⟩

/-! ### Signatures and digests -/

/-- A number of four bytes, mixed from all bytes of the message. -/
def checksum (message : Bytes) : ℕ :=
  message.foldl (fun acc b => (acc * 16777619 + b.toNat + 1) % 4294967291) 2166136261

def bigEndian4 (n : ℕ) : Bytes :=
  [UInt8.ofNat (n / 16777216), UInt8.ofNat (n / 65536), UInt8.ofNat (n / 256), UInt8.ofNat n]

/-- The checksum, as `len` bytes. -/
def checksumBytes (len : ℕ) (message : Bytes) : Bytes :=
  bigEndian4 (checksum message) ++ List.replicate (len - 4) 0

/-- Signatures that repeat the key, with a checksum of the message. -/
def sigScheme : SigScheme where
  keyOk := fun _ => true
  sigOk := fun _ => true
  verify := fun key message signature =>
    decide (signature = key ++ checksumBytes 32 message)
  publicKey := fun seed => some seed
  sign := fun seed message => some (seed ++ checksumBytes 32 message)

/-- A digest of 32 bytes. -/
def checksumDigest (message : Bytes) : Bytes := checksumBytes 32 message

/-- A digest that loses nothing: the message, padded to a length that needs one pad byte. -/
def paddingDigest (message : Bytes) : Bytes :=
  message ++ 1 :: List.replicate ((4 - message.length % 3) % 3) 0

/-- A digest that loses nothing and is short on the messages of a list. -/
def knownDigest (known : List Bytes) (message : Bytes) : Bytes :=
  if message ∈ known then UInt8.ofNat (known.idxOf message) :: List.replicate 31 0
  else paddingDigest message

/-- The instance with a given digest. -/
def externals (digest : Bytes → Bytes) : Externals where
  cesr := cesr
  ed25519 := sigScheme
  secp256k1 := sigScheme
  secp256r1 := sigScheme
  digest := fun _ => digest
  argon2id := fun _ _ _ len password salt => .ok (checksumBytes len (password ++ salt))
  json := json
  cbor := noCodec
  msgPack := noCodec

/-! ### What results assume of the libraries -/

theorem fromSlice_toVec {v : Value} {bytes : Bytes} (h : toVec v = .ok bytes) :
    fromSlice bytes = .ok v := by
  unfold toVec at h
  simp only at h
  split at h
  · rename_i hread
    cases h
    exact hread
  · cases h

/-- Two values are printed alike only when they are equal. -/
theorem json_injective {v w : Value} {bytes : Bytes} (hv : toVec v = .ok bytes)
    (hw : toVec w = .ok bytes) : v = w := by
  have h : Except.ok v = (Except.ok w : Except SerdeError Value) := by
    rw [← fromSlice_toVec hv, fromSlice_toVec hw]
  exact Except.ok.inj h

theorem toVec_object {fields : Fields} {bytes : Bytes} (h : toVec (.object fields) = .ok bytes) :
    ∃ tail, bytes = 123 :: tail := by
  unfold toVec at h
  simp only at h
  split at h
  · cases h
    exact ⟨_, by rw [print]; rfl⟩
  · cases h

theorem matterFromQb64_matterQb64 {m : Matter} {text : String} (h : matterQb64 m = .ok text) :
    matterFromQb64 text = .ok m := by
  unfold matterQb64 at h
  simp only at h
  split at h
  · rename_i hread
    cases h
    exact hread
  · cases h

/-- Equal digest texts are digests of equal messages, when equal digests are. -/
theorem digestQb64_injective {digest : Bytes → Bytes} (hd : Function.Injective digest)
    {as bs : Bytes} {text : String} (ha : digestQb64 (externals digest) "E" as = .ok text)
    (hb : digestQb64 (externals digest) "E" bs = .ok text) : as = bs := by
  have key : ∀ ms, digestQb64 (externals digest) "E" ms = .ok text →
      matterFromQb64 text = .ok ⟨"E", digest ms⟩ := by
    intro ms h
    have h' : (matterQb64 ⟨"E", digest ms⟩).mapError CryptoError.cesr = .ok text := h
    exact matterFromQb64_matterQb64 (Outcome.mapError_eq_ok.1 h')
  have h : Except.ok (Matter.mk "E" (digest as)) =
      (Except.ok ⟨"E", digest bs⟩ : Except CesrError Matter) := by
    rw [← key as ha, key bs hb]
  simp only [Except.ok.injEq, Matter.mk.injEq, true_and] at h
  exact hd h

theorem paddingDigest_injective : Function.Injective paddingDigest := by
  -- the padding is dropped from the end, up to the one that marks its start
  have hunpad : ∀ message : Bytes, ((paddingDigest message).reverse.dropWhile (· == 0)).tail =
      message.reverse := by
    intro message
    have hzeros : ∀ n, ∀ bs : Bytes, (List.replicate n (0 : UInt8) ++ 1 :: bs).dropWhile (· == 0) =
        1 :: bs := by
      intro n bs
      induction n with
      | zero => rfl
      | succ n ih => rw [List.replicate_succ, List.cons_append, List.dropWhile_cons_of_pos rfl, ih]
    rw [paddingDigest, List.reverse_append, List.reverse_cons, List.reverse_replicate,
      List.append_assoc, List.singleton_append, hzeros]
    rfl
  intro as bs h
  have := congrArg (fun d => (d.reverse.dropWhile (· == 0)).tail) h
  simp only [hunpad] at this
  exact List.reverse_injective this

/-- The padding ends within three bytes of the end. -/
theorem one_mem_paddingDigest (message : Bytes) :
    (1 : UInt8) ∈ (paddingDigest message).reverse.take 3 := by
  have hlt : (4 - message.length % 3) % 3 < 3 := Nat.mod_lt _ (by omega)
  rw [paddingDigest, List.reverse_append, List.reverse_cons, List.reverse_replicate,
    List.append_assoc, List.singleton_append]
  generalize (4 - message.length % 3) % 3 = k at hlt
  interval_cases k <;> simp

theorem knownDigest_injective {known : List Bytes} (h : known.length ≤ 256) :
    Function.Injective (knownDigest known) := by
  have hapart : ∀ n as, (UInt8.ofNat n :: List.replicate 31 0 : Bytes) ≠ paddingDigest as := by
    intro n as heq
    have hone := one_mem_paddingDigest as
    rw [← heq, List.reverse_cons, List.reverse_replicate,
      List.take_append_of_le_length (by simp)] at hone
    simp at hone
  intro as bs heq
  unfold knownDigest at heq
  split at heq
  · rename_i has
    split at heq
    · rename_i hbs
      have hlt := List.idxOf_lt_length_of_mem has
      have hlt' := List.idxOf_lt_length_of_mem hbs
      have hidx := congrArg UInt8.toNat (List.cons.inj heq).1
      have hsize : UInt8.size = 256 := rfl
      rw [UInt8.toNat_ofNat_of_lt' (by omega), UInt8.toNat_ofNat_of_lt' (by omega)] at hidx
      exact (List.idxOf_inj has).1 hidx
    · exact absurd heq (hapart _ _)
  · split at heq
    · exact absurd heq.symm (hapart _ _)
    · exact paddingDigest_injective heq

/-- A dummy is not a primitive. -/
theorem dummy_not_qb64 (len : ℕ) (m : Matter) : matterFromQb64 (dummyText len) ≠ .ok m := by
  have hhead : (((strBytes (dummyText len)).head?.map fun b => Char.ofNat b.toNat).bind
      hardage) = none := by
    cases len with
    | zero => rfl
    | succ n =>
        have hcons : strBytes (dummyText (n + 1)) = 35 :: strBytes (dummyText n) := by
          have happ : dummyText (n + 1) = "#" ++ dummyText n := by
            simp [dummyText, List.replicate_succ]
          rw [happ, strBytes_append]
          rfl
        rw [hcons]
        rfl
  intro h
  simp only [matterFromQb64, hhead] at h
  cases h

/-! ### Texts -/

theorem isAscii_digit (n : ℕ) : isAscii [digit n] = true := by
  have h : (digit n).toNat < 128 := by
    unfold digit
    rw [UInt8.toNat_ofNat']
    split_ifs <;> omega
  simpa [isAscii, UInt8.lt_iff_toNat_lt] using h

theorem isAscii_encode (bs : Bytes) : isAscii (encode bs) = true := by
  fun_induction encode bs with
  | case1 a b c bs n ih =>
      have hcons : ∀ k cs, isAscii cs = true → isAscii (digit k :: cs) = true := by
        intro k cs hcs
        rw [← List.singleton_append, isAscii_append, isAscii_digit, hcs]
        rfl
      exact hcons _ _ (hcons _ _ (hcons _ _ (hcons _ _ ih)))
  | case2 => rfl

theorem digitValue_lt {b : UInt8} {n : ℕ} (h : digitValue b = some n) : n < 64 := by
  unfold digitValue at h
  simp only at h
  split_ifs at h <;> (rw [← Option.some_inj.1 h]; omega)

theorem isAscii_of_digitValue {b : UInt8} {n : ℕ} (h : digitValue b = some n) :
    isAscii [b] = true := by
  have hlt : b.toNat < 128 := by
    unfold digitValue at h
    simp only at h
    split_ifs at h <;> omega
  simpa [isAscii, UInt8.lt_iff_toNat_lt] using hlt

/-- The codes of the size tables. -/
theorem mem_of_matterSizage {code : String} {sizage : Sizage}
    (h : matterSizage code = some sizage) : code ∈ ["A", "B", "D", "E", "0A", "0B"] := by
  unfold matterSizage at h
  split_ifs at h with h₁ h₂ h₃
  · simp only [List.mem_cons, List.not_mem_nil, or_false] at h₁ ⊢
    tauto
  · simp [h₂]
  · simp [h₃]

theorem primitiveText_eq (code : String) (raw : Bytes) :
    ∃ body, isAscii body = true ∧ primitiveText code raw = code ++ textOf body :=
  ⟨_, isAscii_drop (isAscii_encode _) _, rfl⟩

/-- A primitive has one of those codes, and is written behind it. -/
theorem matterQb64_eq_ok {m : Matter} {text : String} (h : matterQb64 m = .ok text) :
    m.code ∈ ["A", "B", "D", "E", "0A", "0B"] ∧
    ∃ body, isAscii body = true ∧ text = m.code ++ textOf body := by
  have hread := matterFromQb64_matterQb64 h
  constructor
  · simp only [matterFromQb64] at hread
    split at hread
    · cases hread
    · split at hread
      · rename_i hsizage _
        split at hread
        · cases hread
          exact mem_of_matterSizage hsizage
        · cases hread
      · cases hread
  · unfold matterQb64 at h
    simp only at h
    split at h
    · rw [← Except.ok.inj h]
      exact primitiveText_eq m.code m.raw
    · cases h

theorem indexerQb64_eq_ok {x : Indexer} {text : String} (h : indexerQb64 x = .ok text) :
    indexerFromQb64 text = .ok x ∧ x.code ∈ ["A", "B"] ∧
    ∃ body, isAscii body = true ∧ text = x.code ++ textOf body := by
  unfold indexerQb64 at h
  simp only at h
  split at h
  · rename_i hread
    obtain ⟨body, hbody, htext⟩ := primitiveText_eq (x.code ++ textOf [digit x.index]) x.raw
    refine ⟨Except.ok.inj h ▸ hread, ?_, [digit x.index] ++ body, ?_, ?_⟩
    · unfold indexerFromQb64 at hread
      split at hread
      · split at hread
        · split_ifs at hread <;> (cases hread; simp)
        · cases hread
      · cases hread
    · rw [isAscii_append, isAscii_digit, hbody]
      rfl
    · rw [← Except.ok.inj h, htext, textOf_append, String.append_assoc]
  · cases h

/-- A counter has a code of two characters and counts with two digits. -/
theorem counterQb64_eq_ok {c : Counter} {text : String} (h : counterQb64 c = .ok text) :
    counterFromQb64 text = .ok c ∧ c.count < 4096 ∧ (strBytes c.code).head? = some 45 ∧
    ∃ bytes, isAscii bytes = true ∧ bytes.length = 4 ∧ strBytes text = bytes ∧
      bytes.head? = some 45 := by
  unfold counterQb64 at h
  simp only at h
  split at h
  · rename_i hread
    obtain rfl := Except.ok.inj h
    obtain ⟨x, hx, hcount, hcode⟩ : ∃ x, isAscii [x] = true ∧ c.count < 4096 ∧
        c.code = textOf [45, x] := by
      unfold counterFromQb64 at hread
      split at hread
      · split at hread
        · rename_i hc hd he
          cases hread
          have h₁ := digitValue_lt hd
          have h₂ := digitValue_lt he
          exact ⟨_, isAscii_of_digitValue hc, show _ * 64 + _ < 4096 by omega, rfl⟩
        · cases hread
      · cases hread
    have hascii : isAscii [45, x] = true := by
      rw [← List.singleton_append, isAscii_append, hx]
      rfl
    have hbytes : strBytes c.code = [45, x] := by rw [hcode, strBytes_textOf hascii]
    have hdigits : ∀ a b, isAscii [digit a, digit b] = true := by
      intro a b
      rw [← List.singleton_append, isAscii_append, isAscii_digit, isAscii_digit]
      rfl
    refine ⟨hread, hcount, by rw [hbytes]; rfl,
      [45, x] ++ [digit (c.count / 64), digit (c.count % 64)], ?_, rfl, ?_, rfl⟩
    · rw [isAscii_append, hascii, hdigits]
      rfl
    · rw [strBytes_append, hbytes, strBytes_textOf (hdigits _ _)]
  · cases h

/-! ### Events to compute with -/

/-- The seed and public key number `n`. -/
def seed (n : UInt8) : Bytes := List.replicate 32 n

/-- The salt number `n`. -/
def salt (n : UInt8) : Bytes := List.replicate 16 n

def verfer (n : UInt8) : Verfer := ⟨⟨"D", seed n⟩⟩

def keyText (n : UInt8) : String := primitiveText "D" (seed n)

/-- The commitment to key number `n`. -/
def commitment (digest : Bytes → Bytes) (n : UInt8) : String :=
  primitiveText "E" (digest (strBytes (keyText n)))

/-- The signature of key number `n` at index `i`. -/
def siger (n : UInt8) (i : ℕ) (message : Bytes) : Siger :=
  ⟨⟨"A", i, none, seed n ++ checksumBytes 32 message⟩⟩

def strings (ss : List String) : Value := .array (ss.map .string)

/-- A body with its version string put in. -/
def sized (size : ℕ) (sad : Value) : Value :=
  setVersionField sad (Version.defaultV1 .json size).toVersionString

/-- The bytes of a body with its version string put in. -/
def versioned (fields : Fields) : Bytes :=
  print (sized (print (sized 0 (.object fields))).length (.object fields))

/-- The size of a body once its SAID is put in. -/
def completeSize (fields : Fields) : ℕ :=
  (print (sized 0 (.object (dummied "d" 44 fields)))).length

/-- What is digested for the SAID of a body, without and with a version string. -/
def dummiedBytes (fields : Fields) : Bytes := print (.object (dummied "d" 44 fields))

def completedBytes (fields : Fields) : Bytes :=
  print (sized (completeSize fields) (.object (dummied "d" 44 fields)))

/-- A body with its version string and SAID put in. -/
def complete (digest : Bytes → Bytes) (fields : Fields) : Value :=
  match computeSaid (externals digest) (sized (completeSize fields) (.object fields)) "d" "E"
    .json with
  | .ok (_, sad) => sad
  | .error _ => .null

/-- The fields of an inception: thresholds, keys and commitments. -/
def icpFields (kt nt : String) (keys next : List UInt8) : Fields :=
  [("v", .string ""), ("t", .string "icp"), ("d", .string ""), ("i", .string ""),
    ("s", .string "0"), ("kt", .string kt), ("k", strings (keys.map keyText)),
    ("nt", .string nt), ("n", strings (next.map (commitment checksumDigest))),
    ("bt", .string "0"), ("b", .array []), ("c", .array []), ("a", .array [])]

/-- The fields of a rotation of `i` after the event `p`. -/
def rotFields (i p s kt nt : String) (keys next : List UInt8) : Fields :=
  [("v", .string ""), ("t", .string "rot"), ("d", .string ""), ("i", .string i),
    ("s", .string s), ("p", .string p), ("kt", .string kt), ("k", strings (keys.map keyText)),
    ("nt", .string nt), ("n", strings (next.map (commitment checksumDigest))),
    ("bt", .string "0"), ("br", .array []), ("ba", .array []), ("c", .array []), ("a", .array [])]

/-- The fields of an interaction of `i` after the event `p`. -/
def ixnFields (i p s : String) : Fields :=
  [("v", .string ""), ("t", .string "ixn"), ("d", .string ""), ("i", .string i),
    ("s", .string s), ("p", .string p), ("a", .array [])]

/-- The serder read from the bytes of a body. -/
def serderOf (digest : Bytes → Bytes) (raw : Bytes) : Serder :=
  match Serder.fromRaw (externals digest) raw with
  | .ok s => s
  | .error _ => { raw := [], version := none, kind := .json, sad := .null }

/-- The text of a field, or nothing. -/
def textOfField (sad : Value) (name : String) : String := ((sad.get name).bind Value.asStr).getD ""

/-- The instance with a digest of 32 bytes. -/
def lib : Externals := externals checksumDigest

/-- The bytes of an event. -/
def eventBytes (fields : Fields) : Bytes := print (complete checksumDigest fields)

/-- An inception of key 1, with key 2 committed to. -/
def icp : Serder := serderOf checksumDigest (eventBytes (icpFields "1" "1" [1] [2]))

/-- The identifier of an event, and its SAID. -/
def pfxOf (s : Serder) : String := textOfField s.sad "i"

def saidOf (s : Serder) : String := textOfField s.sad "d"

/-- An interaction after the inception. -/
def ixn : Serder := serderOf checksumDigest (eventBytes (ixnFields (pfxOf icp) (saidOf icp) "1"))

/-- The bytes of a message with one signature, of key number `n` at index 0. -/
def signedBytes (raw : Bytes) (n : UInt8) : Bytes :=
  raw ++ strBytes ("-AAB" ++ primitiveText "AA" (seed n ++ checksumBytes 32 raw))

/-- A rotation after the interaction, to key 2. -/
def rot : Serder :=
  serderOf checksumDigest
    (eventBytes (rotFields (pfxOf icp) (saidOf ixn) "2" "1" "1" [2] [3]))

end Keri.Toy
