import Niphas.Error
import Niphas.Lib.Str

/-!
# Nix hashes and their base-32 encoding

`hash.rs`.  Nix writes byte strings in a base-32 alphabet of its own, least significant digit last:
digit `n` of the text, counted from its end, holds bits `5 n` to `5 n + 4` of the byte string read
as a little-endian number.

SHA-256 itself is not part of the repository, so it is a parameter here, as everywhere above.

The two functions are written twice.  First in the way the proofs use them: a digit is a function of
the input, the decoder a loop over characters with a buffer, of which only the write into the buffer
may be out of bounds.  Then index by index, with each access to an array as it stands in the source.
`Base32` shows that the two are the same, so that the shorter version leaves out no panic.

A hash is a name of an algorithm, a colon, and a text in this alphabet.  Its digest may have any
length after decoding; the parser compares it with what the algorithm asks for.
-/

namespace Niphas

/-! ## Nix-base32 -/

/-- `NIX_BASE32_CHARS`: the alphabet omits `e`, `o`, `t` and `u`. -/
def nixBase32Chars : List Char := "0123456789abcdfghijklmnpqrsvwxyz".toList

/-- Digit `n` of the encoding, as `to_nix_base32` assembles it from one byte or two. -/
def nixBase32Digit (input : List UInt8) (n : ℕ) : UInt8 :=
  let b := n * 5
  let byteIdx := b / 8
  let bitIdx := b % 8
  let c := (input.getD byteIdx 0 >>> UInt8.ofNat bitIdx) &&& 0x1f
  if 3 < bitIdx ∧ byteIdx + 1 < input.length then
    (c ||| (input.getD (byteIdx + 1) 0 <<< UInt8.ofNat (8 - bitIdx))) &&& 0x1f
  else c

/-- `to_nix_base32`. -/
def toNixBase32 (input : List UInt8) : String :=
  let len := (input.length * 8 + 4) / 5
  String.ofList ((List.range len).reverse.map fun n =>
    nixBase32Chars.getD (nixBase32Digit input n).toNat '0')

/-- The error `from_nix_base32` gives for a character outside the alphabet. -/
def invalidBase32Char (ch : Char) : NiphasError :=
  .narInfoParse ("invalid nix-base32 character: '" ++ ch.toString ++ "'")

/-- `out[i] |= v`, which panics when `i` is out of bounds. -/
def orAt (out : List UInt8) (i : ℕ) (v : UInt8) : Result (List UInt8) :=
  if i < out.length then .ok (out.set i (out.getD i 0 ||| v)) else .error .panic

/-- One turn of the loop of `from_nix_base32`: the digit at position `i` from the end. -/
def fromNixBase32Step (outLen : ℕ) (out : List UInt8) (ch : Char) (i : ℕ) :
    Result (List UInt8) := do
  match nixBase32Chars.idxOf? ch with
  | none => fail (invalidBase32Char ch)
  | some d =>
      let digit := UInt8.ofNat d
      let b := i * 5
      let byteIdx := b / 8
      let bitIdx := b % 8
      let out ← orAt out byteIdx (digit <<< UInt8.ofNat bitIdx)
      if 3 < bitIdx ∧ byteIdx + 1 < outLen then
        orAt out (byteIdx + 1) (digit >>> UInt8.ofNat (8 - bitIdx))
      else .ok out

/-- The loop of `from_nix_base32` over the characters from the last one backwards. -/
def fromNixBase32Loop (outLen : ℕ) : List Char → ℕ → List UInt8 → Result (List UInt8)
  | [], _, out => .ok out
  | ch :: rest, i, out => do
      let out ← fromNixBase32Step outLen out ch i
      fromNixBase32Loop outLen rest (i + 1) out

/-- `from_nix_base32`.  The output buffer is sized by the length of the input in bytes. -/
def fromNixBase32 (input : String) : Result (List UInt8) :=
  let len := (Bytes.utf8 input).length
  if len = 0 then .ok []
  else
    let outLen := len * 5 / 8
    fromNixBase32Loop outLen input.toList.reverse 0 (List.replicate outLen 0)

/-! ## Index by index

The same two functions as the source has them, with each of their array accesses.  An access out of
bounds panics. -/

/-- `a[i]`. -/
def indexAt {α : Type} (a : List α) (i : ℕ) : Result α :=
  match a[i]? with
  | some v => .ok v
  | none => .error .panic

/-- One turn of the loop of `to_nix_base32`: the character it pushes for digit `n`. -/
def toNixBase32Step (input : List UInt8) (n : ℕ) : Result Char := do
  let b := n * 5
  let byteIdx := b / 8
  let bitIdx := b % 8
  let low ← indexAt input byteIdx
  let c := (low >>> UInt8.ofNat bitIdx) &&& 0x1f
  let c ←
    if 3 < bitIdx ∧ byteIdx + 1 < input.length then do
      let high ← indexAt input (byteIdx + 1)
      pure ((c ||| (high <<< UInt8.ofNat (8 - bitIdx))) &&& 0x1f)
    else pure c
  indexAt nixBase32Chars c.toNat

/-- `to_nix_base32`, access by access. -/
def toNixBase32Indexed (input : List UInt8) : Result String :=
  if input = [] then .ok ""
  else do
    let len := (input.length * 8 + 4) / 5
    let out ← (List.range len).reverse.mapM (toNixBase32Step input)
    pure (String.ofList out)

/-- `NIX_BASE32_DECODE`: the digit of each ASCII character, or 255. -/
def nixBase32Decode : List UInt8 :=
  (List.range 32).foldl (fun table i =>
    table.set (nixBase32Chars.getD i '0').toNat (UInt8.ofNat i)) (List.replicate 128 255)

/-- What a turn of the loop of `from_nix_base32` looks up. -/
def decodeDigit (ch : Char) : Result UInt8 := do
  if 128 ≤ ch.toNat then fail (invalidBase32Char ch)
  else
    let digit ← indexAt nixBase32Decode ch.toNat
    if digit = 255 then fail (invalidBase32Char ch) else pure digit

/-- The loop of `from_nix_base32`, access by access. -/
def fromNixBase32IndexedLoop (outLen : ℕ) : List Char → ℕ → List UInt8 → Result (List UInt8)
  | [], _, out => .ok out
  | ch :: rest, i, out => do
      let digit ← decodeDigit ch
      let b := i * 5
      let byteIdx := b / 8
      let bitIdx := b % 8
      let out ← orAt out byteIdx (digit <<< UInt8.ofNat bitIdx)
      let out ←
        if 3 < bitIdx ∧ byteIdx + 1 < outLen then
          orAt out (byteIdx + 1) (digit >>> UInt8.ofNat (8 - bitIdx))
        else pure out
      fromNixBase32IndexedLoop outLen rest (i + 1) out

/-- `from_nix_base32`, access by access. -/
def fromNixBase32Indexed (input : String) : Result (List UInt8) :=
  let len := (Bytes.utf8 input).length
  if len = 0 then .ok []
  else
    let outLen := len * 5 / 8
    fromNixBase32IndexedLoop outLen input.toList.reverse 0 (List.replicate outLen 0)

/-! ## `NixHash` -/

/-- `HashAlgo`. -/
inductive HashAlgo where
  | sha256
  | sha512
  | sha1
  | md5
  deriving DecidableEq, Repr

namespace HashAlgo

/-- `HashAlgo::digest_len`. -/
def digestLen : HashAlgo → ℕ
  | sha256 => 32
  | sha512 => 64
  | sha1 => 20
  | md5 => 16

/-- The `Display` of an algorithm. -/
def toString : HashAlgo → String
  | sha256 => "sha256"
  | sha512 => "sha512"
  | sha1 => "sha1"
  | md5 => "md5"

/-- The algorithm named before the `:` of a hash. -/
def parse : String → Result HashAlgo
  | "sha256" => .ok sha256
  | "sha512" => .ok sha512
  | "sha1" => .ok sha1
  | "md5" => .ok md5
  | algo => fail (.narInfoParse ("unknown hash algorithm: '" ++ algo ++ "'"))

/-- Every algorithm is read back from its name. -/
lemma parse_toString (a : HashAlgo) : parse a.toString = .ok a := by
  cases a <;> rfl

/-- Only its name is read as an algorithm. -/
lemma parse_eq_ok {s : String} {a : HashAlgo} : parse s = .ok a ↔ s = a.toString := by
  constructor
  · intro h
    rw [parse.eq_def] at h
    split at h
    all_goals cases h
    all_goals rfl
  · rintro rfl
    exact parse_toString a

end HashAlgo

/-- `NixHash`: an algorithm and the raw digest. -/
structure NixHash where
  algo : HashAlgo
  digest : List UInt8
  deriving DecidableEq, Repr

namespace NixHash

/-- `NixHash::parse`: `<algo>:<nix-base32>`. -/
def parse (s : String) : Result NixHash := do
  match Str.splitOnce ":" s with
  | none => fail (.narInfoParse "hash missing ':' separator")
  | some (algoStr, hashStr) =>
      let algo ← HashAlgo.parse algoStr
      let digest ← fromNixBase32 hashStr
      if digest.length = algo.digestLen then .ok { algo, digest }
      else
        fail (.narInfoParse ("hash digest length mismatch: expected "
          ++ Nat.repr algo.digestLen ++ ", got " ++ Nat.repr digest.length))

/-- The `Display` of a hash. -/
def toString (h : NixHash) : String := h.algo.toString ++ ":" ++ toNixBase32 h.digest

end NixHash

/-- `sha256_hash`, over an abstract SHA-256. -/
def sha256Hash (sha256 : List UInt8 → List UInt8) (data : List UInt8) : NixHash :=
  { algo := .sha256, digest := sha256 data }

end Niphas
