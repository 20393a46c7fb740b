/-
**Keys, digests and signatures.**

The wrappers of the crypto crate around CESR primitives: `Verfer` for public keys, `Diger` for
digests, `Siger` and `Cigar` for indexed and plain signatures, `Signer` for private keys and
`Salter` for the salt they are derived from.  Each constructor checks what the source checks and
in its order; the algorithms themselves are those of `Keri.Externals`.

* `Keri.Verfer.verify` — verification under a public key, which is an error rather than `false`
  when the key or the signature is not well formed;
* `Keri.Diger.verify` — a digest is compared by computing it again;
* `Keri.Signer.signIndexed`, `Keri.Salter.signer` — signing, and deriving a key at a path.
-/

import Keri.Externals

set_option relaxedAutoImplicit false
set_option autoImplicit false

namespace Keri

open Outcome

variable (X : Externals)

/-! ### Verfer -/

/-- A public verification key. -/
structure Verfer where
  matter : Matter
  deriving DecidableEq, Repr

namespace Verfer

def validateCode (code : String) : Except CryptoError Unit :=
  ensure (code ∈ ["B", "D", "1AAA", "1AAB", "1AAI", "1AAJ"])
    (.unsupportedAlgorithm s!"unsupported verfer code: {code}")

def new (code : String) (raw : Bytes) : Except CryptoError Verfer := do
  validateCode code
  let matter ← (X.cesr.matterNew code raw).mapError .cesr
  pure ⟨matter⟩

def fromQb64 (qb64 : String) : Except CryptoError Verfer := do
  let matter ← (X.cesr.matterFromQb64 qb64).mapError .cesr
  validateCode matter.code
  pure ⟨matter⟩

def code (v : Verfer) : String := v.matter.code

def raw (v : Verfer) : Bytes := v.matter.raw

def qb64 (v : Verfer) : Except CryptoError String :=
  (X.cesr.matterQb64 v.matter).mapError .cesr

def transferable (v : Verfer) : Bool :=
  decide (v.code ∈ ["D", "1AAB", "1AAJ"])

def verifyEd25519 (v : Verfer) (message signature : Bytes) : Except CryptoError Bool := do
  ensure (v.raw.length = 32) (.invalidKeySize 32 v.raw.length)
  ensure (X.ed25519.keyOk v.raw) (.invalidKey "invalid Ed25519 public key")
  ensure (signature.length = 64) (.invalidSignature "invalid Ed25519 signature length")
  pure (X.ed25519.verify v.raw message signature)

def verifySecp256k1 (v : Verfer) (message signature : Bytes) : Except CryptoError Bool := do
  ensure (X.secp256k1.keyOk v.raw) (.invalidKey "invalid secp256k1 public key")
  ensure (X.secp256k1.sigOk signature) (.invalidSignature "invalid secp256k1 signature")
  pure (X.secp256k1.verify v.raw message signature)

def verifySecp256r1 (v : Verfer) (message signature : Bytes) : Except CryptoError Bool := do
  ensure (X.secp256r1.keyOk v.raw) (.invalidKey "invalid secp256r1 public key")
  ensure (X.secp256r1.sigOk signature) (.invalidSignature "invalid secp256r1 signature")
  pure (X.secp256r1.verify v.raw message signature)

/-- Verify a signature over a message.  A key or signature that is not well formed is an error. -/
def verify (v : Verfer) (message signature : Bytes) : Except CryptoError Bool :=
  if v.code ∈ ["B", "D"] then verifyEd25519 X v message signature
  else if v.code ∈ ["1AAA", "1AAB"] then verifySecp256k1 X v message signature
  else if v.code ∈ ["1AAI", "1AAJ"] then verifySecp256r1 X v message signature
  else .error (.unsupportedAlgorithm v.code)

end Verfer

/-! ### Diger -/

/-- A digest. -/
structure Diger where
  matter : Matter
  deriving DecidableEq, Repr

namespace Diger

/-- The algorithm of a digest code. -/
def algorithm : String → Option DigestAlg
  | "E" => some .blake3_256
  | "F" => some .blake2b_256
  | "G" => some .blake2s_256
  | "H" => some .sha3_256
  | "I" => some .sha2_256
  | "0D" => some .blake3_512
  | "0E" => some .blake2b_512
  | "0F" => some .sha3_512
  | "0G" => some .sha2_512
  | _ => none

def validateCode (code : String) : Except CryptoError Unit :=
  ensure ((algorithm code).isSome) (.unsupportedAlgorithm s!"unsupported digest code: {code}")

def computeDigest (code : String) (data : Bytes) : Except CryptoError Bytes :=
  match algorithm code with
  | some alg => .ok (X.digest alg data)
  | none => .error (.unsupportedAlgorithm s!"unsupported digest code: {code}")

def fromData (code : String) (data : Bytes) : Except CryptoError Diger := do
  let raw ← computeDigest X code data
  let matter ← (X.cesr.matterNew code raw).mapError .cesr
  pure ⟨matter⟩

def fromQb64 (qb64 : String) : Except CryptoError Diger := do
  let matter ← (X.cesr.matterFromQb64 qb64).mapError .cesr
  validateCode matter.code
  pure ⟨matter⟩

def qb64 (d : Diger) : Except CryptoError String :=
  (X.cesr.matterQb64 d.matter).mapError .cesr

/-- Compute the digest of `data` again and compare. -/
def verify (d : Diger) (data : Bytes) : Except CryptoError Bool := do
  let recomputed ← computeDigest X d.matter.code data
  pure (decide (recomputed = d.matter.raw))

end Diger

/-- The digest of `data` under a code, as text. -/
def digestQb64 (code : String) (data : Bytes) : Except CryptoError String := do
  let diger ← Diger.fromData X code data
  diger.qb64 X

/-! ### Siger and Cigar -/

/-- An indexed signature. -/
structure Siger where
  indexer : Indexer
  deriving DecidableEq, Repr

namespace Siger

def new (code : String) (index : ℕ) (ondex : Option ℕ) (raw : Bytes) :
    Except CryptoError Siger := do
  let indexer ← (X.cesr.indexerNew code index ondex raw).mapError .cesr
  pure ⟨indexer⟩

def index (s : Siger) : ℕ := s.indexer.index

def raw (s : Siger) : Bytes := s.indexer.raw

def qb64 (s : Siger) : Except CryptoError String :=
  (X.cesr.indexerQb64 s.indexer).mapError .cesr

end Siger

/-- A plain signature. -/
structure Cigar where
  matter : Matter
  deriving DecidableEq, Repr

namespace Cigar

def new (code : String) (raw : Bytes) : Except CryptoError Cigar := do
  let matter ← (X.cesr.matterNew code raw).mapError .cesr
  pure ⟨matter⟩

def raw (c : Cigar) : Bytes := c.matter.raw

def qb64 (c : Cigar) : Except CryptoError String :=
  (X.cesr.matterQb64 c.matter).mapError .cesr

end Cigar

/-! ### Signer -/

/-- The algorithm of a private key. -/
inductive Algorithm where
  | ed25519
  | secp256k1
  | secp256r1
  deriving DecidableEq, Repr

/-- A private signing key with the public key derived from it. -/
structure Signer where
  raw : Bytes
  code : String
  transferable : Bool
  verfer : Verfer
  deriving DecidableEq, Repr

namespace Signer

def algorithmFromCode : String → Except CryptoError Algorithm
  | "A" => .ok .ed25519
  | "1AAA" => .ok .secp256k1
  | "1AAB" => .ok .secp256k1
  | "1AAI" => .ok .secp256r1
  | "1AAJ" => .ok .secp256r1
  | code => .error (.unsupportedAlgorithm s!"unsupported signer code: {code}")

def deriveVerfer (code : String) (raw : Bytes) (transferable : Bool) :
    Except CryptoError Verfer := do
  match ← algorithmFromCode code with
  | .ed25519 =>
      ensure (raw.length = 32) (.invalidKeySize 32 raw.length)
      let pubkey ← okOr (X.ed25519.publicKey raw) (.invalidKey "invalid signing key")
      Verfer.new X (if transferable then "D" else "B") pubkey
  | .secp256k1 =>
      let pubkey ← okOr (X.secp256k1.publicKey raw) (.invalidKey "invalid signing key")
      Verfer.new X (if transferable then "1AAB" else "1AAA") pubkey
  | .secp256r1 =>
      let pubkey ← okOr (X.secp256r1.publicKey raw) (.invalidKey "invalid signing key")
      Verfer.new X (if transferable then "1AAJ" else "1AAI") pubkey

def newWithTransferable (code : String) (raw : Bytes) (transferable : Bool) :
    Except CryptoError Signer := do
  let verfer ← deriveVerfer X code raw transferable
  pure { raw, code, transferable, verfer }

def signRaw (s : Signer) (message : Bytes) : Except CryptoError Bytes := do
  match ← algorithmFromCode s.code with
  | .ed25519 =>
      ensure (s.raw.length = 32) (.invalidKeySize 32 s.raw.length)
      okOr (X.ed25519.sign s.raw message) (.invalidKey "invalid signing key")
  | .secp256k1 => okOr (X.secp256k1.sign s.raw message) (.invalidKey "invalid signing key")
  | .secp256r1 => okOr (X.secp256r1.sign s.raw message) (.invalidKey "invalid signing key")

def cigarCode (s : Signer) : Except CryptoError String := do
  match ← algorithmFromCode s.code with
  | .ed25519 => pure "0B"
  | .secp256k1 => pure "0C"
  | .secp256r1 => pure "0I"

def sigerCurrentCode (s : Signer) : Except CryptoError String := do
  match ← algorithmFromCode s.code with
  | .ed25519 => pure "A"
  | .secp256k1 => pure "C"
  | .secp256r1 => pure "E"

def sigerBothCode (s : Signer) : Except CryptoError String := do
  match ← algorithmFromCode s.code with
  | .ed25519 => pure "B"
  | .secp256k1 => pure "D"
  | .secp256r1 => pure "F"

/-- Sign with a plain signature. -/
def sign (s : Signer) (message : Bytes) : Except CryptoError Cigar := do
  let raw ← signRaw X s message
  Cigar.new X (← cigarCode s) raw

/-- Sign with an indexed signature, for the current key set only or for both. -/
def signIndexed (s : Signer) (message : Bytes) (index : ℕ) (only : Bool) :
    Except CryptoError Siger := do
  let raw ← signRaw X s message
  if only then
    Siger.new X (← sigerCurrentCode s) index none raw
  else
    Siger.new X (← sigerBothCode s) index (some index) raw

end Signer

/-! ### Salter -/

/-- A salt that private keys are derived from. -/
structure Salter where
  matter : Matter
  deriving DecidableEq, Repr

namespace Salter

def new (code : String) (raw : Bytes) : Except CryptoError Salter := do
  let matter ← (X.cesr.matterNew code raw).mapError .cesr
  pure ⟨matter⟩

def keySizeForCode (code : String) : Except CryptoError ℕ :=
  if code ∈ ["A", "1AAA", "1AAB", "1AAI", "1AAJ"] then .ok 32
  else .error (.unsupportedAlgorithm s!"unsupported signer code for key derivation: {code}")

def tierParams : String → Except CryptoError (ℕ × ℕ × ℕ)
  | "low" => .ok (65536, 2, 1)
  | "med" => .ok (262144, 3, 1)
  | "high" => .ok (1048576, 4, 1)
  | tier =>
      .error (.keyDerivation s!"unknown tier: {tier}, expected 'low', 'med', or 'high'")

/-- Stretch the salt at a path; the path is the password and the salt's raw bytes the salt. -/
def stretch (s : Salter) (path tier : String) (outputLen : ℕ) : Except CryptoError Bytes := do
  let (mCost, tCost, pCost) ← tierParams tier
  (X.argon2id mCost tCost pCost outputLen (strBytes path) s.matter.raw).mapError .keyDerivation

/-- Derive the private key at a path. -/
def signer (s : Salter) (code path tier : String) (transferable : Bool) :
    Except CryptoError Signer := do
  let keySize ← keySizeForCode code
  let seed ← stretch X s path tier keySize
  Signer.newWithTransferable X code seed transferable

end Salter

end Keri
