import Niphas.Nix.Base32Inputs

/-!
# Store paths

`store_path.rs`.  A store path is a 20-byte hash and a name; it is written
`/nix/store/<hash>-<name>`, with the hash in Nix-base32.  The two ways of writing a store path, with
the store directory and without it, identify it: `toString_injective` and `basename_injective`
below.

The length of the hash is part of the type, as it is in the source, where it is an array.  The
parser works on bytes: it takes the length of the text in bytes, cuts it at byte 32, and looks at
the byte behind.  A cut inside a character panics in Rust, so the parser returns a `Result` with the
panic as one of its faults.  There are no conditions on the name but that it is not empty.

A `StorePathRef` can only be made by its parser.  Here it is a structure with a proof that its text
parses, so the paths it stands for need no second check, and the code that skips a reference which
does not parse never does so (`StorePathRef.path`).

* `StorePath.printing_parsing` — printing and parsing are inverses, on both ways of writing.
-/

namespace Niphas

open Bytes

/-! ## `StorePath` -/

/-- `STORE_DIR`. -/
def storeDir : String := "/nix/store"

/-- `HASH_LEN`: the length of the hash part of a basename. -/
def hashLen : ℕ := 32

/-- `StorePath`.  The hash is a `[u8; 20]`. -/
structure StorePath where
  hash : List UInt8
  name : String
  length_hash : hash.length = 20
  deriving DecidableEq

namespace StorePath

/-- The store path of this name whose hash is all zeros. -/
def zeroHashed (name : String) : StorePath := ⟨List.replicate 20 0, name, rfl⟩

/-- `StorePath::parse_basename`. -/
def parseBasename (basename : String) : Result StorePath := do
  if (utf8 basename).length < hashLen + 2 then
    fail (.invalidStorePath ("store path basename too short: '" ++ basename ++ "'"))
  else
    let hashStr ← Result.orPanic (Str.sliceTo basename hashLen)
    if (utf8 basename).getD hashLen 0 ≠ 0x2d then
      fail (.invalidStorePath ("expected '-' after hash in store path: '" ++ basename ++ "'"))
    else
      let name ← Result.orPanic (Str.sliceFrom basename (hashLen + 1))
      if name = "" then
        fail (.invalidStorePath "store path name is empty")
      else
        let hashBytes ← fromNixBase32 hashStr
        if h : hashBytes.length = 20 then
          .ok { hash := hashBytes, name, length_hash := h }
        else
          fail (.invalidStorePath ("hash decode produced " ++ Nat.repr (utf8 hashStr).length
            ++ " bytes, expected 20"))

/-- `StorePath::parse`. -/
def parse (s : String) : Result StorePath :=
  match (Str.stripPrefix storeDir s).bind (Str.stripPrefix "/") with
  | none => fail (.invalidStorePath ("missing /nix/store/ prefix: '" ++ s ++ "'"))
  | some rest => parseBasename rest

/-- `StorePath::hash_str`. -/
def hashStr (p : StorePath) : String := toNixBase32 p.hash

/-- `StorePath::basename`. -/
def basename (p : StorePath) : String := p.hashStr ++ "-" ++ p.name

/-- The `Display` of a store path. -/
def toString (p : StorePath) : String := storeDir ++ "/" ++ p.hashStr ++ "-" ++ p.name

lemma length_utf8_hashStr (p : StorePath) : (utf8 p.hashStr).length = hashLen := by
  rw [hashStr, length_utf8_toNixBase32, p.length_hash]
  rfl

lemma toString_eq (p : StorePath) : p.toString = storeDir ++ ("/" ++ p.basename) := by
  simp only [toString, basename, String.append_assoc]

lemma parse_storeDir_append (s : String) : parse (storeDir ++ ("/" ++ s)) = parseBasename s := by
  rw [parse, Str.stripPrefix_append, Option.bind_some, Str.stripPrefix_append]

/-- What is printed without the store directory is read back. -/
lemma parseBasename_basename (p : StorePath) (hname : p.name ≠ "") :
    parseBasename p.basename = .ok p := by
  have hhash := length_utf8_hashStr p
  have hdash : (utf8 "-").length = 1 := rfl
  have hpos : 0 < (utf8 p.name).length := by
    rw [List.length_pos_iff]
    exact fun h => hname (utf8_injective h)
  have hassoc : p.basename = p.hashStr ++ ("-" ++ p.name) := String.append_assoc
  have hlen : ¬ (utf8 p.basename).length < hashLen + 2 := by
    rw [hassoc, utf8_append, utf8_append, List.length_append, List.length_append, hdash, hhash]
    omega
  have hto : Str.sliceTo p.basename hashLen = some p.hashStr := by
    rw [hassoc, ← hhash, Str.sliceTo_append]
  have hsep : (utf8 p.basename).getD hashLen 0 = 0x2d := by
    rw [hassoc, utf8_append, ← hhash, List.getD_append_right _ _ _ _ (Nat.le_refl _), Nat.sub_self,
      utf8_append]
    rfl
  have hfrom : Str.sliceFrom p.basename (hashLen + 1) = some p.name := by
    have hcut : hashLen + 1 = (utf8 (p.hashStr ++ "-")).length := by
      rw [utf8_append, List.length_append, hhash, hdash]
    rw [basename, hcut, Str.sliceFrom_append]
  simp only [parseBasename, if_neg hlen, hto, hsep, ne_eq, not_true_eq_false, if_false, hfrom,
    if_neg hname, Result.orPanic, hashStr, fromNixBase32_toNixBase32, bind, Except.bind,
      p.length_hash, dite_true]

/-- What `parse_basename` accepts has a name, and it is printed as it was read. -/
lemma of_parseBasename {s : String} {p : StorePath} (h : parseBasename s = .ok p) :
    p.name ≠ "" ∧ p.basename = s := by
  unfold parseBasename at h
  split at h
  · cases h
  next hlen =>
  cases hto : Str.sliceTo s hashLen with
  | none => simp only [hto, Result.orPanic, bind, Except.bind, reduceCtorEq] at h
  | some hashPart =>
  simp only [hto, Result.orPanic, bind, Except.bind] at h
  split at h
  · cases h
  next hdash =>
  cases hfrom : Str.sliceFrom s (hashLen + 1) with
  | none => simp only [hfrom, reduceCtorEq] at h
  | some name =>
  simp only [hfrom] at h
  split at h
  · cases h
  next hname =>
  cases hdec : fromNixBase32 hashPart with
  | error e => simp only [hdec, reduceCtorEq] at h
  | ok hash =>
  simp only [hdec] at h
  split at h
  · cases h
    have hpre := fromUtf8_eq_some.mp hto
    have hsuf := fromUtf8_eq_some.mp hfrom
    have hhash : (utf8 hashPart).length = hashLen := by
      rw [hpre, List.length_take]
      omega
    refine ⟨hname, utf8_injective ?_⟩
    rw [basename, hashStr, toNixBase32_of_fromNixBase32 hdec (by rw [spareBits, hhash]; rfl),
      utf8_append,
      utf8_append, hpre, hsuf, List.append_assoc]
    have hcons : utf8 "-" ++ (utf8 s).drop (hashLen + 1) = (utf8 s).drop hashLen := by
      rw [List.drop_eq_getElem_cons (by omega : hashLen < (utf8 s).length),
        ← List.getD_eq_getElem _ 0 (by omega), not_not.mp hdash]
      rfl
    rw [hcons, List.take_append_drop]
  · cases h

/-- What is printed is read back. -/
lemma parse_toString (p : StorePath) (hname : p.name ≠ "") : parse p.toString = .ok p := by
  rw [toString_eq, parse_storeDir_append, parseBasename_basename p hname]

/-- What `parse` accepts is printed as it was read. -/
lemma of_parse {s : String} {p : StorePath} (h : parse s = .ok p) : p.toString = s := by
  rw [parse] at h
  split at h
  · cases h
  next rest hstrip =>
  obtain ⟨t, ht, hrest⟩ := Option.bind_eq_some_iff.mp hstrip
  rw [Str.stripPrefix_eq_some] at ht hrest
  rw [toString_eq, (of_parseBasename h).2, ht, hrest]

/-- A basename identifies its path. -/
lemma basename_injective : Function.Injective basename := by
  intro p q h
  have hbytes : utf8 p.hashStr ++ utf8 ("-" ++ p.name) =
      utf8 q.hashStr ++ utf8 ("-" ++ q.name) := by
    rw [← utf8_append, ← utf8_append, ← String.append_assoc, ← String.append_assoc]
    exact congrArg utf8 h
  obtain ⟨hhash, hname⟩ := List.append_inj hbytes
    ((length_utf8_hashStr p).trans (length_utf8_hashStr q).symm)
  rw [utf8_append, utf8_append] at hname
  obtain ⟨hash, name, _⟩ := p
  obtain ⟨hash', name', _⟩ := q
  have hhash' : hash = hash' := toNixBase32_injective (utf8_injective hhash)
  have hname' : name = name' := utf8_injective (List.append_cancel_left hname)
  subst hhash' hname'
  rfl

/-- The string of a store path identifies it. -/
lemma toString_injective : Function.Injective toString := by
  intro p q h
  rw [toString_eq, toString_eq] at h
  have hbytes := congrArg utf8 h
  simp only [utf8_append, List.append_cancel_left_eq, utf8_inj] at hbytes
  exact basename_injective hbytes

end StorePath

/-! ## `StorePathRef` -/

/-- `StorePathRef`.  Its field is private and `parse` is its only constructor, so the basename it
holds is always one that `parse_basename` accepts. -/
structure StorePathRef where
  val : String
  valid : ∃ p, StorePath.parseBasename val = .ok p
  deriving DecidableEq

namespace StorePathRef

/-- `StorePathRef::parse`. -/
def parse (s : String) : Result StorePathRef :=
  match h : StorePath.parseBasename s with
  | .ok p => .ok { val := s, valid := ⟨p, h⟩ }
  | .error e => .error e

/-- `StorePathRef::to_store_path_string`. -/
def toStorePathString (r : StorePathRef) : String := storeDir ++ "/" ++ r.val

/-- The store path a reference names. -/
def path (r : StorePathRef) : StorePath :=
  match h : StorePath.parseBasename r.val with
  | .ok p => p
  | .error _ => absurd r.valid (by rw [h]; rintro ⟨_, ⟨⟩⟩)

lemma parseBasename_val (r : StorePathRef) : StorePath.parseBasename r.val = .ok r.path := by
  unfold path
  split
  · assumption
  · next h => exact absurd r.valid (by rw [h]; rintro ⟨_, ⟨⟩⟩)

/-- A reference is the basename of the path it names. -/
lemma basename_path (r : StorePathRef) : r.path.basename = r.val :=
  (StorePath.of_parseBasename r.parseBasename_val).2

lemma toString_path (r : StorePathRef) : r.path.toString = r.toStorePathString := by
  rw [StorePath.toString_eq, basename_path, toStorePathString, String.append_assoc]

/-- A reference turned into a store path string always parses. -/
lemma parse_toStorePathString (r : StorePathRef) :
    StorePath.parse r.toStorePathString = .ok r.path := by
  rw [toStorePathString, String.append_assoc, StorePath.parse_storeDir_append, parseBasename_val]

end StorePathRef

/-! ## Printing and parsing -/

/-- **Printing and parsing are inverses**, with the store directory and without it, for hashes of
20 bytes and names that are not empty.  So the strings of store paths and their basenames identify
them, and a reference is written as the path it names. -/
theorem StorePath.printing_parsing :
    (∀ p : StorePath, p.name ≠ "" → parse p.toString = .ok p ∧ parseBasename p.basename = .ok p) ∧
    (∀ s p, parse s = .ok p → p.toString = s) ∧
    (∀ s p, parseBasename s = .ok p → p.name ≠ "" ∧ p.basename = s) ∧
    Function.Injective toString ∧ Function.Injective basename ∧
    ∀ r : StorePathRef, parseBasename r.val = .ok r.path ∧ r.path.toString = r.toStorePathString :=
  ⟨fun p hname => ⟨parse_toString p hname, parseBasename_basename p hname⟩, fun _ _ h => of_parse h,
    fun _ _ h => of_parseBasename h, toString_injective, basename_injective,
    fun r => ⟨r.parseBasename_val, r.toString_path⟩⟩

/-- A name with a character of two bytes. -/
theorem StorePath.printing_parsing_cafe :
    parse (zeroHashed "café-1.0").toString = .ok (zeroHashed "café-1.0") ∧
      parseBasename (zeroHashed "café-1.0").basename = .ok (zeroHashed "café-1.0") :=
  printing_parsing.1 (zeroHashed "café-1.0") (by decide)

end Niphas
