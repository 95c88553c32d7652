import Niphas.Nix.Hash

/-!
# Signatures

`signature.rs`, over abstract cryptography.  A public key is represented by its 32 bytes, of which
`checkKey` says whether `VerifyingKey::from_bytes` takes them.

`Crypto` has what the repository takes from libraries: SHA-256, the check of a key, the verification
of an Ed25519 signature, and base64.  Nothing is assumed about any of them here; where a result
rests on one, it has a hypothesis on it, or names the instance it is about.  In particular nothing
is said about how hard it is to forge a signature.  What is modelled is what the repository does
with the answers: which key a signature is checked with, and what a narinfo without a valid one is.

`verifyNarinfo` is called by no other module of the source.
-/

namespace Niphas

/-- The cryptographic primitives and the base64 decoder of the libraries the repository uses.  An
error is the text it displays. -/
structure Crypto where
  sha256 : List UInt8 → List UInt8
  base64Decode : String → Except String (List UInt8)
  checkKey : List UInt8 → Except String Unit
  verify : (pubkey msg signature : List UInt8) → Bool

/-- `NarSignature`.  The signature is a `[u8; 64]`. -/
structure NarSignature where
  keyName : String
  signature : List UInt8
  length_signature : signature.length = 64
  deriving DecidableEq

/-- The signature of this key whose bytes are all zero. -/
def NarSignature.zeros (keyName : String) : NarSignature := ⟨keyName, List.replicate 64 0, rfl⟩

/-- `NarSignature::parse`: `<keyname>:<base64>`. -/
def NarSignature.parse (lib : Crypto) (s : String) : Except NiphasError NarSignature :=
  match Str.splitOnce ":" s with
  | none => .error (.narInfoParse ("signature missing ':' separator: '" ++ s ++ "'"))
  | some (keyName, sigB64) =>
      match lib.base64Decode sigB64 with
      | .error e => .error (.narInfoParse ("invalid base64 in signature: " ++ e))
      | .ok bytes =>
          if h : bytes.length = 64 then
            .ok { keyName, signature := bytes, length_signature := h }
          else .error (.narInfoParse "signature must be 64 bytes")

/-- `TrustedKey`. -/
structure TrustedKey where
  name : String
  pubkey : List UInt8
  deriving DecidableEq

/-- `TrustedKey::parse`: `<keyname>:<base64>`. -/
def TrustedKey.parse (lib : Crypto) (s : String) : Except NiphasError TrustedKey :=
  match Str.splitOnce ":" s with
  | none => .error (.signatureVerification ("key missing ':' separator: '" ++ s ++ "'"))
  | some (name, keyB64) =>
      match lib.base64Decode keyB64 with
      | .error e => .error (.signatureVerification ("invalid base64 in public key: " ++ e))
      | .ok bytes =>
          if bytes.length ≠ 32 then
            .error (.signatureVerification "public key must be 32 bytes")
          else
            match lib.checkKey bytes with
            | .error e => .error (.signatureVerification ("invalid Ed25519 public key: " ++ e))
            | .ok () => .ok { name, pubkey := bytes }

/-- `verify_narinfo`: some signature is valid under some trusted key of its name. -/
def verifyNarinfo (lib : Crypto) (fingerprint : String) (signatures : List NarSignature)
    (trustedKeys : List TrustedKey) : Except NiphasError Unit :=
  if signatures.any fun sig => trustedKeys.any fun key =>
      sig.keyName = key.name ∧ lib.verify key.pubkey (Bytes.utf8 fingerprint) sig.signature then
    .ok ()
  else .error (.signatureVerification "no valid signature found matching any trusted key")

end Niphas
