import Niphas.Nix.Nar
import Mathlib.Data.List.Chain

/-!
# The NAR format

What a NAR is, independently of the reader: the encoding of a tree (the tests of `nar.rs` build it
token by token in the same way) and the trees that may be encoded.  `NarLaws.lean` connects the two
to the reader.

The encoding is a function, so a tree has one NAR.  That the reader accepts nothing but this is then
a statement with content: a stream it accepts *is* the encoding of what it returns.  What may be
encoded is bounded in two ways, by the rules of the format (names that are valid, different and in
order) and by what the reader takes (the length of a string, the number of directories in each
other).  Both are decidable, and the bound on the directories is an argument, as the reader's limit
is one.

The fuel at the end belongs to the reader's recursion.  It is defined here because it is a function
of the tree: no stream needs more of it than the tree that it encodes.
-/

namespace Niphas

open Bytes

/-- A token: the length in eight little-endian bytes, the bytes, and zeros up to a multiple of
eight.  `nar_str` of the tests. -/
def narToken (bs : List UInt8) : List UInt8 :=
  toLe 8 bs.length ++ (bs ++ List.replicate (NarReader.padLen bs.length) 0)

/-- The token of a string. -/
def narStr (s : String) : List UInt8 := narToken (utf8 s)

/-- What stands between the type token of a regular file and its closing `")"`. -/
def encodeRegular (executable : Bool) (contents : List UInt8) : List UInt8 :=
  (if executable then narStr "executable" ++ narStr "" else []) ++
    (narStr "contents" ++ narToken contents)

lemma encodeRegular_false (contents : List UInt8) :
    encodeRegular false contents = narStr "contents" ++ narToken contents := rfl

lemma encodeRegular_true (contents : List UInt8) :
    encodeRegular true contents
      = narStr "executable" ++ (narStr "" ++ (narStr "contents" ++ narToken contents)) :=
  List.append_assoc _ _ _

/-- What stands between the type token of a symlink and its closing `")"`. -/
def encodeSymlink (target : String) : List UInt8 := narStr "target" ++ narStr target

mutual

/-- The encoding of a node, from its `"("` to its `")"`. -/
def NarNode.encode : NarNode → List UInt8
  | .regular executable contents =>
      narStr "(" ++ (narStr "type" ++ (narStr "regular" ++
        (encodeRegular executable contents ++ narStr ")")))
  | .symlink target =>
      narStr "(" ++ (narStr "type" ++ (narStr "symlink" ++ (encodeSymlink target ++ narStr ")")))
  | .directory entries =>
      narStr "(" ++ (narStr "type" ++ (narStr "directory" ++
        (encodeEntries entries ++ narStr ")")))

/-- The encodings of the entries of a directory, one after the other. -/
def encodeEntries : List NarEntry → List UInt8
  | [] => []
  | ⟨name, node⟩ :: rest =>
      narStr "entry" ++ (narStr "(" ++ (narStr "name" ++ (narStr name ++ (narStr "node" ++
        (node.encode ++ (narStr ")" ++ encodeEntries rest))))))

end

/-- The NAR of a tree: the magic and the root node. -/
def narEncode (t : NarNode) : List UInt8 := narStr narMagic ++ t.encode

/-- A byte string `read_bytes` accepts. -/
def FitsToken (bs : List UInt8) : Prop := bs.length ≤ maxStringLen

instance (bs : List UInt8) : Decidable (FitsToken bs) :=
  inferInstanceAs (Decidable (bs.length ≤ _))

/-- A name a directory entry may have. -/
def ValidEntryName (name : String) : Prop :=
  name ≠ "" ∧ name ≠ "." ∧ name ≠ ".." ∧ '/' ∉ name.toList ∧ '\x00' ∉ name.toList

instance (name : String) : Decidable (ValidEntryName name) := inferInstanceAs (Decidable (_ ∧ _))

mutual

/-- The trees a NAR may hold, with at most `d` directories nested in each other: every string
and file fits, and the entries of every directory have valid names in strictly ascending
order. -/
def NarNode.WellFormed : ℕ → NarNode → Prop
  | _, .regular _ contents => FitsToken contents
  | _, .symlink target => FitsToken (utf8 target)
  | 0, .directory _ => False
  | d + 1, .directory entries =>
      (entries.map NarEntry.name).IsChain NarReader.nameLt ∧ EntriesWellFormed d entries

/-- Every entry has a valid name and a well-formed node. -/
def EntriesWellFormed : ℕ → List NarEntry → Prop
  | _, [] => True
  | d, ⟨name, node⟩ :: rest =>
      (ValidEntryName name ∧ FitsToken (utf8 name)) ∧ node.WellFormed d ∧
        EntriesWellFormed d rest

end

mutual

/-- Whether a tree is one a NAR may hold. -/
def NarNode.decWellFormed : (d : ℕ) → (t : NarNode) → Decidable (t.WellFormed d)
  | _, .regular _ contents => inferInstanceAs (Decidable (FitsToken contents))
  | _, .symlink target => inferInstanceAs (Decidable (FitsToken (utf8 target)))
  | 0, .directory _ => inferInstanceAs (Decidable False)
  | d + 1, .directory entries =>
      have := decEntriesWellFormed d entries
      inferInstanceAs (Decidable (_ ∧ EntriesWellFormed d entries))

/-- The same for the entries of a directory. -/
def decEntriesWellFormed :
    (d : ℕ) → (entries : List NarEntry) → Decidable (EntriesWellFormed d entries)
  | _, [] => inferInstanceAs (Decidable True)
  | d, ⟨name, node⟩ :: rest =>
      have := node.decWellFormed d
      have := decEntriesWellFormed d rest
      inferInstanceAs (Decidable ((ValidEntryName name ∧ FitsToken (utf8 name)) ∧
        node.WellFormed d ∧ EntriesWellFormed d rest))

end

instance (d : ℕ) (t : NarNode) : Decidable (t.WellFormed d) := t.decWellFormed d

mutual

/-- The fuel the reader uses up on a node: the length of the longest chain of nested calls. -/
def NarNode.fuel : NarNode → ℕ
  | .regular _ _ => 1
  | .symlink _ => 1
  | .directory entries => entriesFuel entries + 2

/-- The fuel used up on the entries of a directory and its closing `")"`. -/
def entriesFuel : List NarEntry → ℕ
  | [] => 1
  | ⟨_, node⟩ :: rest => max node.fuel (entriesFuel rest) + 1

end

end Niphas
