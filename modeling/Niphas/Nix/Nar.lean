import Niphas.Nix.Hash
import Niphas.Lib.Reader

/-!
# The NAR reader

`nar.rs`, function for function.  `NarReader` is the reader's state: the stream still to be read,
the depth counter, the byte counter and the bytes the hasher has been fed.

The source has two node parsers.  `parseNode` is used for the root and always expects a closing
`")"` after the node body; `parseNodeInner` is used for directory entries and expects it after a
file or a symlink only, because `parseDirectory` has already consumed the `")"` that ended its entry
loop.

The recursion (directory, entry, node, directory) is bounded by `fuel`, which `parse` sets to the
length of the stream; `NarLaws.lean` shows that this bound is never what ends a run.

The depth counter is a `u16` and wraps, as it does in a release build; what a debug build does
instead is the subject of `NarChecked`.  Strings are compared by their bytes, as Rust does, and not
as lists of characters.  Errors have the texts of the source with the offending values in them, down
to what `from_utf8` says of a string that is none (`Bytes.utf8ErrorText`).

The stream is a list of bytes that is there from the beginning.  The source reads from an
asynchronous stream, and its caller has the whole archive in memory when it calls.
-/

namespace Niphas

/-! ## The tree -/

mutual

/-- `NarNode`. -/
inductive NarNode where
  | regular (executable : Bool) (contents : List UInt8)
  | symlink (target : String)
  | directory (entries : List NarEntry)

/-- `NarEntry`. -/
structure NarEntry where
  name : String
  node : NarNode

end

/-- Whether a node is a directory. -/
def NarNode.isDirectory : NarNode → Bool
  | .directory _ => true
  | _ => false

/-! ## The reader's state -/

/-- `NAR_MAGIC`. -/
def narMagic : String := "nix-archive-1"

/-- `DEFAULT_MAX_DEPTH`. -/
def defaultMaxDepth : UInt16 := 256

/-- The longest string or file `read_bytes` accepts. -/
def maxStringLen : ℕ := 128 * 1024 * 1024

/-- `NarReader`.  `inner` is what the stream still holds; `hashed` is what the hasher has been
fed, in order.  Both counters wrap, as integer arithmetic does in the release profile. -/
structure NarReader where
  inner : List UInt8
  depth : UInt16
  maxDepth : UInt16
  bytesRead : UInt64
  hashed : List UInt8
  deriving DecidableEq

namespace NarReader

/-- `NarReader::new`. -/
def new (inner : List UInt8) : NarReader :=
  { inner, depth := 0, maxDepth := defaultMaxDepth, bytesRead := 0, hashed := [] }

/-- `NarReader::with_max_depth`. -/
def withMaxDepth (r : NarReader) (maxDepth : UInt16) : NarReader := { r with maxDepth }

/-- The reader after the bytes `w` have gone through `read_exact`. -/
def advance (r : NarReader) (w : List UInt8) : NarReader :=
  { r with
    inner := r.inner.drop w.length
    bytesRead := r.bytesRead + UInt64.ofNat w.length
    hashed := r.hashed ++ w }

instance : InputStream NarReader UInt8 where
  input := inner
  advance := advance
  input_advance _ _ := rfl
  advance_nil r := by simp [advance]
  advance_append r v w := by
    simp only [advance, List.length_append, List.drop_drop, List.append_assoc,
      UInt64.ofNat_add, UInt64.add_assoc]

end NarReader

/-- A method of `NarReader` that reads and may fail. -/
abbrev NarM (α : Type) := Reader NiphasError NarReader α

namespace NarReader

/-- `Err(NiphasError::NarParse(..))`. -/
def narParseError {α : Type} (msg : String) : NarM α := throw (.narParse msg)

/-! ## Wire primitives -/

/-- `read_exact`: `n` bytes, hashed and counted. -/
def readExact (n : ℕ) : NarM (List UInt8) := fun r =>
  if n ≤ r.inner.length then .ok (r.inner.take n, r.advance (r.inner.take n))
  else .error (.narParse "unexpected EOF: early eof")

/-- `read_u64`, little-endian. -/
def readU64 : NarM ℕ := do
  let buf ← readExact 8
  pure (Bytes.ofLe buf)

/-- The zero padding after `len` bytes. -/
def padLen (len : ℕ) : ℕ := (8 - len % 8) % 8

/-- `read_bytes`: a length, that many bytes, and zero padding to a multiple of eight. -/
def readBytes : NarM (List UInt8) := do
  let len ← readU64
  if maxStringLen < len then
    narParseError ("string too large: " ++ Nat.repr len ++ " bytes")
  else
    let data ← readExact len
    if 0 < padLen len then
      let pad ← readExact (padLen len)
      if pad.any (· ≠ 0) then narParseError "non-zero padding bytes" else pure data
    else pure data

/-- `read_str`: `read_bytes`, decoded as UTF-8. -/
def readStr : NarM String := do
  let bytes ← readBytes
  match Bytes.fromUtf8 bytes with
  | some s => pure s
  | none => narParseError ("invalid UTF-8 string: " ++ Bytes.utf8ErrorText bytes)

/-- `expect_str`. -/
def expectStr (expected : String) : NarM Unit := do
  let s ← readStr
  if s ≠ expected then
    narParseError ("expected '" ++ expected ++ "', got '" ++ s ++ "'")
  else pure ()

/-! ## Nodes -/

/-- `validate_entry_name`. -/
def validateEntryName (name : String) : Except NiphasError Unit :=
  if name = "" then .error (.narParse "empty entry name")
  else if name = "." ∨ name = ".." then
    .error (.narParse ("invalid entry name: '" ++ name ++ "'"))
  else if '/' ∈ name.toList ∨ '\x00' ∈ name.toList then
    .error (.narParse ("entry name contains forbidden characters: '" ++ name ++ "'"))
  else .ok ()

/-- The order of Rust strings: their UTF-8 bytes, lexicographically. -/
def nameLt (a b : String) : Prop := Bytes.utf8 a < Bytes.utf8 b

instance : DecidableRel nameLt := fun a _ => inferInstanceAs (Decidable (Bytes.utf8 a < _))

/-- `parse_regular`. -/
def parseRegular : NarM NarNode := do
  let next ← readStr
  if next = "executable" then
    expectStr ""
    expectStr "contents"
    let contents ← readBytes
    pure (.regular true contents)
  else if next = "contents" then
    let contents ← readBytes
    pure (.regular false contents)
  else
    narParseError ("expected 'executable' or 'contents', got '" ++ next ++ "'")

/-- `parse_symlink`. -/
def parseSymlink : NarM NarNode := do
  expectStr "target"
  let target ← readStr
  pure (.symlink target)

/-- `self.depth += 1` and the check against the limit, at the head of `parse_directory`. -/
def enterDirectory : NarM Unit := fun r =>
  let r := { r with depth := r.depth + 1 }
  if r.maxDepth < r.depth then
    .error (.narParse ("directory nesting depth exceeds limit (" ++
      Nat.repr r.maxDepth.toNat ++ ")"))
  else .ok ((), r)

/-- `self.depth -= 1`, on the `")"` that ends a directory. -/
def leaveDirectory : NarM Unit := fun r => .ok ((), { r with depth := r.depth - 1 })

/-- The name checks of one directory entry: `validate_entry_name`, then the order. -/
def checkName (lastName : Option String) (name : String) : NarM Unit :=
  match validateEntryName name with
  | .error e => throw e
  | .ok () =>
      match lastName with
      | some prev =>
          if ¬ nameLt prev name then
            narParseError ("directory entries not sorted: '" ++ prev ++ "' followed by '" ++
              name ++ "'")
          else pure ()
      | none => pure ()

mutual

/-- `parse_directory`. -/
def parseDirectory : ℕ → NarM NarNode
  | 0 => narParseError "unexpected EOF: early eof"
  | fuel + 1 => do
      enterDirectory
      parseEntries fuel none []

/-- The loop of `parse_directory`, with the entries read so far (latest first). -/
def parseEntries : ℕ → Option String → List NarEntry → NarM NarNode
  | 0, _, _ => narParseError "unexpected EOF: early eof"
  | fuel + 1, lastName, entries => do
      let next ← readStr
      if next = ")" then
        leaveDirectory
        pure (.directory entries.reverse)
      else if next ≠ "entry" then
        narParseError ("expected 'entry' or ')', got '" ++ next ++ "'")
      else
        expectStr "("
        expectStr "name"
        let name ← readStr
        checkName lastName name
        expectStr "node"
        let node ← parseNodeInner fuel
        expectStr ")"
        parseEntries fuel (some name) ({ name, node } :: entries)

/-- `parse_node_inner`: an entry's node.  A directory has consumed its own `")"`. -/
def parseNodeInner : ℕ → NarM NarNode
  | 0 => narParseError "unexpected EOF: early eof"
  | fuel + 1 => do
      expectStr "("
      expectStr "type"
      let typeStr ← readStr
      if typeStr = "regular" then
        let n ← parseRegular
        expectStr ")"
        pure n
      else if typeStr = "symlink" then
        let n ← parseSymlink
        expectStr ")"
        pure n
      else if typeStr = "directory" then
        parseDirectory fuel
      else
        narParseError ("unknown node type: '" ++ typeStr ++ "'")

end

/-- `parse_node`: the root node.  The closing `")"` is expected after every type. -/
def parseNode (fuel : ℕ) : NarM NarNode := do
  expectStr "("
  expectStr "type"
  let typeStr ← readStr
  let node ←
    if typeStr = "regular" then parseRegular
    else if typeStr = "symlink" then parseSymlink
    else if typeStr = "directory" then parseDirectory fuel
    else narParseError ("unknown node type: '" ++ typeStr ++ "'")
  expectStr ")"
  pure node

/-- The body of `parse`: the magic, then the root node. -/
def parseArchive (fuel : ℕ) : NarM NarNode := do
  expectStr narMagic
  parseNode fuel

/-- `NarReader::parse`: the root node and the SHA-256 of everything the hasher was fed. -/
def parse (sha256 : List UInt8 → List UInt8) (r : NarReader) :
    Except NiphasError (NarNode × NixHash) :=
  match parseArchive (r.inner.length + 1) r with
  | .error e => .error e
  | .ok (node, r') => .ok (node, { algo := .sha256, digest := sha256 r'.hashed })

end NarReader

end Niphas
