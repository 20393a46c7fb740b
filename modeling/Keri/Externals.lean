/-
**What the repository takes from outside.**

The CESR crate, the signature and hash libraries and the serializers are not part of the
repository.  Everything it calls of them is gathered in one structure, `Keri.Externals`, and every
modelled function that reaches one of them takes that structure as its first argument.  What a
result needs of them beyond their types is stated where it is used, as a property of `X`.

* `Keri.Matter`, `Keri.Indexer`, `Keri.Counter` — the CESR primitives as data;
* `Keri.Cesr` — encoding, decoding and the size tables of the CESR crate;
* `Keri.SigScheme`, `Keri.DigestAlg` — signatures and hashes;
* `Keri.Codec` — a serializer;
* `Keri.Externals` — all of them.
-/

import Keri.Errors

set_option relaxedAutoImplicit false
set_option autoImplicit false

namespace Keri

/-! ### CESR -/

/-- An entry of a CESR size table: the full size of a primitive, zero for a variable one. -/
structure Sizage where
  fs : ℕ
  deriving DecidableEq, Repr

/-- A CESR primitive: its code and its raw bytes. -/
structure Matter where
  code : String
  raw : Bytes
  deriving DecidableEq, Repr

/-- A CESR indexed signature: code, index, other index and raw bytes. -/
structure Indexer where
  code : String
  index : ℕ
  ondex : Option ℕ
  raw : Bytes
  deriving DecidableEq, Repr

/-- A CESR counter: a group code and a count, whose unit depends on the group. -/
structure Counter where
  code : String
  count : ℕ
  deriving DecidableEq, Repr

/-- The CESR crate. -/
structure Cesr where
  /-- The length of the code that starts with a character. -/
  hardage : Char → Option ℕ
  matterSizage : String → Option Sizage
  indexerSizage : String → Option Sizage
  matterNew : String → Bytes → Except CesrError Matter
  matterFromQb64 : String → Except CesrError Matter
  matterQb64 : Matter → Except CesrError String
  indexerNew : String → ℕ → Option ℕ → Bytes → Except CesrError Indexer
  indexerFromQb64 : String → Except CesrError Indexer
  indexerQb64 : Indexer → Except CesrError String
  /-- The `{:?}` format of an indexer. -/
  indexerDebug : Indexer → String
  counterNew : String → ℕ → Except CesrError Counter
  /-- Read a counter off the front of a text. -/
  counterFromQb64 : String → Except CesrError Counter
  counterFullSize : Counter → ℕ
  counterQb64 : Counter → Except CesrError String

/-! ### Signatures and hashes -/

/-- A signature scheme: which bytes are keys and signatures, verification, and the two operations
on a secret key. -/
structure SigScheme where
  keyOk : Bytes → Bool
  sigOk : Bytes → Bool
  /-- Verification under a key of a message against a signature. -/
  verify : Bytes → Bytes → Bytes → Bool
  publicKey : Bytes → Option Bytes
  sign : Bytes → Bytes → Option Bytes

/-- The digest algorithms a `Diger` knows. -/
inductive DigestAlg where
  | blake3_256
  | blake2b_256
  | blake2s_256
  | sha3_256
  | sha2_256
  | blake3_512
  | blake2b_512
  | sha3_512
  | sha2_512
  deriving DecidableEq, Repr

/-! ### Serializers -/

/-- A serializer between values and bytes. -/
structure Codec where
  toVec : Value → Except SerdeError Bytes
  fromSlice : Bytes → Except SerdeError Value

/-- Everything the repository calls outside itself. -/
structure Externals where
  cesr : Cesr
  ed25519 : SigScheme
  secp256k1 : SigScheme
  secp256r1 : SigScheme
  digest : DigestAlg → Bytes → Bytes
  /-- Argon2id with its memory, time and parallelism costs and output length, on a password and
  a salt. -/
  argon2id : ℕ → ℕ → ℕ → ℕ → Bytes → Bytes → Except String Bytes
  json : Codec
  cbor : Codec
  msgPack : Codec

end Keri
