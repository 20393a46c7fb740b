/-
**The error types of the four crates.**

One inductive type per error enumeration of the source, with the constructors the modelled
functions return.  The two error types that come from outside the repository, those of the CESR
crate and of the serializers, are kept as the text they print.

* `Keri.CesrError`, `Keri.SerdeError` — errors of the libraries below;
* `Keri.CryptoError`, `Keri.CoreError`, `Keri.DbError`, `Keri.KeriError` — the crates' own;
* `Keri.CryptoError.display`, `Keri.CoreError.display` — their texts, where one error's message
  quotes another.
-/

import Keri.Value

set_option relaxedAutoImplicit false
set_option autoImplicit false

namespace Keri

/-- An error of the CESR crate. -/
structure CesrError where
  text : String
  deriving DecidableEq, Repr

/-- An error of a serializer, or of a derived `Deserialize`. -/
structure SerdeError where
  text : String
  deriving DecidableEq, Repr

/-- Errors of the cryptographic wrappers. -/
inductive CryptoError where
  | cesr (e : CesrError)
  | invalidKeySize (expected got : ℕ)
  | unsupportedAlgorithm (text : String)
  | keyDerivation (text : String)
  | invalidSignature (text : String)
  | invalidKey (text : String)
  deriving DecidableEq, Repr

/-- The `Display` text. -/
def CryptoError.display : CryptoError → String
  | .cesr e => "CESR error: " ++ e.text
  | .invalidKeySize expected got => s!"invalid key size: expected {expected}, got {got}"
  | .unsupportedAlgorithm text => "unsupported algorithm: " ++ text
  | .keyDerivation text => "key derivation error: " ++ text
  | .invalidSignature text => "invalid signature: " ++ text
  | .invalidKey text => "invalid key: " ++ text

/-- Errors of the protocol engine. -/
inductive CoreError where
  | cesr (e : CesrError)
  | crypto (e : CryptoError)
  | json (e : SerdeError)
  | cbor (text : String)
  | msgPack (text : String)
  | unexpectedIlk (text : String)
  | missingField (name : String)
  | saidMismatch
  | outOfOrder (expected got : ℕ)
  | thresholdNotMet
  | invalidPrefix (text : String)
  | invalidVersion (text : String)
  | parseError (text : String)
  | validation (text : String)
  deriving DecidableEq, Repr

/-- The `Display` text. -/
def CoreError.display : CoreError → String
  | .cesr e => "CESR error: " ++ e.text
  | .crypto e => "crypto error: " ++ e.display
  | .json e => "JSON error: " ++ e.text
  | .cbor text => "CBOR error: " ++ text
  | .msgPack text => "MessagePack error: " ++ text
  | .unexpectedIlk text => "unexpected event type: " ++ text
  | .missingField name => "missing field: " ++ name
  | .saidMismatch => "SAID verification failed"
  | .outOfOrder expected got => s!"out of order sequence number: expected {expected}, got {got}"
  | .thresholdNotMet => "signature threshold not met"
  | .invalidPrefix text => "invalid prefix: " ++ text
  | .invalidVersion text => "invalid version: " ++ text
  | .parseError text => "parse error: " ++ text
  | .validation text => "validation error: " ++ text

/-- Errors of the store. -/
inductive DbError where
  | database (text : String)
  | lmdb (text : String)
  deriving DecidableEq, Repr

/-- Errors of the top-level crate. -/
inductive KeriError where
  | cesr (e : CesrError)
  | crypto (e : CryptoError)
  | core (e : CoreError)
  | db (e : DbError)
  | config (text : String)
  | notFound (text : String)
  | alreadyExists (text : String)
  deriving DecidableEq, Repr

end Keri
