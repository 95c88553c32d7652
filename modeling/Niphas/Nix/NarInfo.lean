import Niphas.Nix.Signature
import Niphas.Nix.StorePath

/-!
# `.narinfo` files

`narinfo.rs`: what a binary cache says about a store path, its text format, and the fingerprint
signatures cover.

The parser is a loop over lines with one local variable for each field, and so is its model:
`Fields` are these variables, `readField` is the match on the key, and `readLine` the body of the
loop.  A later line of a key replaces an earlier one, but for `Sig`, which adds one.  Fields that
must be there are asked for behind the loop, in the order of the source, so the error of a file in
which several are missing is the right one.  Sizes are `u64` in the source and natural numbers below
2^64 here.

Three modules build on this: `NarInfoText` on what is read back, `Fingerprint` on what is signed,
and `ParserPanics` on what may panic.
-/

namespace Niphas

/-- `Compression`. -/
inductive Compression where
  | none
  | xz
  | bzip2
  | zstd
  | br
  | lzip
  | lz4
  deriving DecidableEq, Repr

namespace Compression

/-- `Compression::parse`. -/
def parse : String → Except NiphasError Compression
  | "none" => .ok none
  | "xz" => .ok xz
  | "bzip2" => .ok bzip2
  | "zstd" => .ok zstd
  | "br" => .ok br
  | "lzip" => .ok lzip
  | "lz4" => .ok lz4
  | s => .error (.narInfoParse ("unknown compression: '" ++ s ++ "'"))

/-- The `Display` of a compression method. -/
def toString : Compression → String
  | none => "none"
  | xz => "xz"
  | bzip2 => "bzip2"
  | zstd => "zstd"
  | br => "br"
  | lzip => "lzip"
  | lz4 => "lz4"

/-- Every method is read back from its name. -/
lemma parse_toString (c : Compression) : parse c.toString = .ok c := by
  cases c <;> rfl

end Compression

/-- `NarInfo`. -/
structure NarInfo where
  storePath : StorePath
  url : String
  compression : Compression
  fileHash : NixHash
  fileSize : ℕ
  narHash : NixHash
  narSize : ℕ
  references : List StorePathRef
  deriver : Option String
  signatures : List NarSignature
  ca : Option String
  deriving DecidableEq

namespace NarInfo

/-! ## Parsing -/

/-- The local variables of `NarInfo::parse`: the fields read so far. -/
structure Fields where
  storePath : Option StorePath := none
  url : Option String := none
  compression : Option Compression := none
  fileHash : Option NixHash := none
  fileSize : Option ℕ := none
  narHash : Option NixHash := none
  narSize : Option ℕ := none
  references : List StorePathRef := []
  deriver : Option String := none
  signatures : List NarSignature := []
  ca : Option String := none
  deriving DecidableEq

/-- `value.parse::<u64>()` for the size in the field `key`. -/
def parseSize (key value : String) : Except NiphasError ℕ :=
  match Str.parseU64 value with
  | .ok n => .ok n
  | .error e => .error (.narInfoParse ("invalid " ++ key ++ ": " ++ e))

/-- The `match` of the loop: one `key: value` line.  Unknown keys are ignored. -/
def readField (lib : Crypto) (f : Fields) (key value : String) : Result Fields := do
  match key with
  | "StorePath" =>
      let p ← StorePath.parse value
      return { f with storePath := some p }
  | "URL" => return { f with url := some value }
  | "Compression" =>
      let c ← Result.ofExcept (Compression.parse value)
      return { f with compression := some c }
  | "FileHash" =>
      let h ← NixHash.parse value
      return { f with fileHash := some h }
  | "FileSize" =>
      let n ← Result.ofExcept (parseSize key value)
      return { f with fileSize := some n }
  | "NarHash" =>
      let h ← NixHash.parse value
      return { f with narHash := some h }
  | "NarSize" =>
      let n ← Result.ofExcept (parseSize key value)
      return { f with narSize := some n }
  | "References" =>
      if value = "" then return f
      else
        let refs ← (Str.splitWhitespace value).mapM StorePathRef.parse
        return { f with references := refs }
  | "Deriver" => return { f with deriver := some value }
  | "Sig" =>
      let sig ← Result.ofExcept (NarSignature.parse lib value)
      return { f with signatures := f.signatures ++ [sig] }
  | "CA" => return { f with ca := some value }
  | _ => return f

/-- The body of the loop: blank lines are skipped, every other line is split at its first
`": "`. -/
def readLine (lib : Crypto) (f : Fields) (line : String) : Result Fields :=
  let line := Str.trim line
  if line = "" then .ok f
  else
    match Str.splitOnce ": " line with
    | none => fail (.narInfoParse ("malformed line: '" ++ line ++ "'"))
    | some (key, value) => readField lib f key value

/-- `.ok_or_else(..)` on a field that must be there. -/
def require {α : Type} (key : String) : Option α → Result α
  | some a => .ok a
  | none => fail (.narInfoParse ("missing " ++ key))

/-- `NarInfo::parse`. -/
def parse (lib : Crypto) (input : String) : Result NarInfo := do
  let f ← (Str.lines input).foldlM (readLine lib) {}
  let storePath ← require "StorePath" f.storePath
  let url ← require "URL" f.url
  let compression ← require "Compression" f.compression
  let fileHash ← require "FileHash" f.fileHash
  let fileSize ← require "FileSize" f.fileSize
  let narHash ← require "NarHash" f.narHash
  let narSize ← require "NarSize" f.narSize
  return { storePath, url, compression, fileHash, fileSize, narHash, narSize,
           references := f.references, deriver := f.deriver, signatures := f.signatures,
           ca := f.ca }

/-! ## The fingerprint -/

/-- `NarInfo::fingerprint`. -/
def fingerprint (info : NarInfo) : String :=
  let refs := Str.sort (info.references.map StorePathRef.toStorePathString)
  "1;" ++ info.storePath.toString ++ ";" ++ info.narHash.toString ++ ";" ++
    Nat.repr info.narSize ++ ";" ++ String.intercalate "," refs

end NarInfo

end Niphas
