import Niphas.Nix.Base32Inputs
import Niphas.Nix.NarInfoText

/-!
# Where the parsers panic

The texts of `hash.rs`, `store_path.rs` and `narinfo.rs` come from outside, and two accesses in
their parsers are not guarded: the output buffer of `from_nix_base32`, and the cut of a basename at
byte 32.  Everything else that is wrong with a text is an error.

A panic passes through every caller, so the question is asked of each parser in turn, down to a
whole narinfo file.  There it matters what stands before the line at hand: a line that is rejected
ends the parser with an error, and a panic on a later line is never reached.  `hash_decoding_panics`
therefore says of a file that it panics exactly when a line does that the parser gets to.

The base64 decoder, which is a library, returns an error for what it does not take.  That it does
not panic is built into its type (`Crypto`).

* `hash_decoding_panics` — on which strings, hashes and narinfo files a parser panics.
* `StorePath.parseBasename_eq_panic`, `StorePath.parse_eq_panic` — the same for store paths.
-/

namespace Niphas

open Bytes

/-! ## Hashes -/

/-- A hash of a known algorithm whose digest overruns. -/
def HashOverruns (s : String) : Prop :=
  ∃ (algo : HashAlgo) (hashStr : String), s = algo.toString ++ (":" ++ hashStr) ∧ Overruns hashStr

/-- An algorithm that is not known is an error. -/
lemma HashAlgo.parse_ne_panic (algoStr : String) : HashAlgo.parse algoStr ≠ .error .panic := by
  intro h
  rw [parse.eq_def] at h
  split at h <;> cases h

/-- What is in front of the first colon names the algorithm, and what is behind it overruns. -/
lemma hashOverruns_iff {algoStr hashStr : String} (hcolon : ':' ∉ algoStr.toList) :
    HashOverruns (algoStr ++ (":" ++ hashStr)) ↔
      ∃ algo, HashAlgo.parse algoStr = .ok algo ∧ Overruns hashStr := by
  have hsplit := @Str.splitOnce_append _ _ ":" _ rfl hcolon hashStr
  constructor
  · rintro ⟨algo, hashStr', heq, h⟩
    have hsplit' := @Str.splitOnce_append _ _ ":" _ rfl (NixHash.colon_not_mem_toString algo)
      hashStr'
    rw [← heq, hsplit, Option.some.injEq, Prod.mk.injEq] at hsplit'
    obtain ⟨rfl, rfl⟩ := hsplit'
    exact ⟨algo, HashAlgo.parse_toString algo, h⟩
  · rintro ⟨algo, halgo, h⟩
    exact ⟨algo, hashStr, by rw [HashAlgo.parse_eq_ok.mp halgo], h⟩

lemma NixHash.parse_eq_panic (s : String) : NixHash.parse s = .error .panic ↔ HashOverruns s := by
  rw [parse]
  split
  next hnone =>
    refine ⟨fun h => (by cases h), ?_⟩
    rintro ⟨algo, hashStr, rfl, -⟩
    rw [@Str.splitOnce_append _ _ ":" _ rfl (colon_not_mem_toString algo)] at hnone
    cases hnone
  next algoStr hashStr hsplit =>
  obtain ⟨rfl, hcolon⟩ := (Str.splitOnce_eq_some rfl).mp hsplit
  rw [hashOverruns_iff hcolon]
  cases halgo : HashAlgo.parse algoStr with
  | error e =>
      constructor
      · rintro ⟨⟩
        exact absurd halgo (HashAlgo.parse_ne_panic algoStr)
      · rintro ⟨algo, ⟨⟩, -⟩
  | ok algo =>
      rw [Result.ok_bind]
      have hdec := fromNixBase32_eq_panic hashStr
      cases hdigest : fromNixBase32 hashStr with
      | error e =>
          rw [hdigest] at hdec
          constructor
          · rintro ⟨⟩
            exact ⟨algo, rfl, hdec.mp rfl⟩
          · rintro ⟨_, -, h⟩
            cases hdec.mpr h
            rfl
      | ok digest =>
          rw [hdigest] at hdec
          rw [Result.ok_bind]
          constructor
          · intro h
            split at h <;> cases h
          · rintro ⟨_, -, h⟩
            cases hdec.mpr h

/-! ## Store paths -/

namespace StorePath

/-- A basename long enough to be cut at byte 32, where a character is in the way. -/
def CutsChar (s : String) : Prop :=
  hashLen + 2 ≤ (utf8 s).length ∧ ¬ Str.IsCharBoundary s hashLen

/-- A hash part is decoded without a panic. -/
lemma fromNixBase32_hashPart {s : String} (hlen : (utf8 s).length = hashLen) :
    fromNixBase32 s ≠ .error .panic := by
  intro hpanic
  have hmod := ((fromNixBase32_eq_panic s).mp hpanic).2
  rw [hlen] at hmod
  revert hmod
  decide

/-- Behind a dash a basename can be cut. -/
lemma exists_sliceFrom {s a : String} (hlen : hashLen + 2 ≤ (utf8 s).length)
    (hto : Str.sliceTo s hashLen = some a) (hdash : (utf8 s).getD hashLen 0 = 0x2d) :
    ∃ name, Str.sliceFrom s (hashLen + 1) = some name := by
  obtain ⟨b, rfl, ha⟩ := (Str.sliceTo_eq_some (by omega)).mp hto
  have hpos : 0 < (utf8 b).length := by
    rw [utf8_append, List.length_append, ha] at hlen
    omega
  have hfirst : utf8 "-" <+: utf8 b := by
    rw [utf8_append, List.getD_append_right _ _ _ _ ha.le, ha, Nat.sub_self] at hdash
    obtain ⟨byte, bytes, hb⟩ := List.exists_cons_of_length_pos hpos
    rw [hb] at hdash ⊢
    obtain rfl : byte = 0x2d := hdash
    exact ⟨bytes, rfl⟩
  obtain ⟨name, rfl⟩ := exists_of_utf8_prefix hfirst
  have hcut : hashLen + 1 = (utf8 (a ++ "-")).length := by
    rw [utf8_append, List.length_append, ha]
    rfl
  rw [← String.append_assoc, hcut, Str.sliceFrom_append]
  exact ⟨name, rfl⟩

/-- **When a basename panics.** -/
lemma parseBasename_eq_panic (s : String) : parseBasename s = .error .panic ↔ CutsChar s := by
  unfold parseBasename
  split
  next hshort =>
    refine ⟨fun h => (by cases h), fun h => ?_⟩
    exact absurd h.1 (Nat.not_le.mpr hshort)
  next hlen =>
  have hlen' : hashLen + 2 ≤ (utf8 s).length := Nat.not_lt.mp hlen
  have hnone := @Str.sliceTo_eq_none s hashLen (by omega)
  cases hto : Str.sliceTo s hashLen with
  | none => exact ⟨fun _ => ⟨hlen', hnone.mp hto⟩, fun _ => rfl⟩
  | some hashPart =>
      have hcut : ¬ CutsChar s := by
        intro hcut
        rw [hnone.mpr hcut.2] at hto
        cases hto
      refine ⟨fun h => absurd h ?_, fun h => absurd h hcut⟩
      rw [Result.orPanic, Result.ok_bind]
      split
      · exact fun h => by cases h
      next hdash =>
      obtain ⟨name, hfrom⟩ := exists_sliceFrom hlen' hto (not_not.mp hdash)
      rw [hfrom, Result.orPanic, Result.ok_bind]
      split
      · exact fun h => by cases h
      · obtain ⟨b, -, hhash⟩ := (Str.sliceTo_eq_some (by omega)).mp hto
        have hdec := fromNixBase32_hashPart hhash
        cases hdigest : fromNixBase32 hashPart with
        | error e =>
            intro h
            cases h
            exact hdec hdigest
        | ok hash =>
            rw [Result.ok_bind]
            split
            · exact fun h => by cases h
            · exact fun h => by cases h

/-- **When a store path panics.** -/
lemma parse_eq_panic (s : String) :
    parse s = .error .panic ↔ ∃ rest, s = storeDir ++ ("/" ++ rest) ∧ CutsChar rest := by
  constructor
  · intro h
    rw [parse] at h
    split at h
    · cases h
    next rest hstrip =>
    obtain ⟨t, ht, hrest⟩ := Option.bind_eq_some_iff.mp hstrip
    rw [Str.stripPrefix_eq_some] at ht hrest
    exact ⟨rest, by rw [ht, hrest], (parseBasename_eq_panic rest).mp h⟩
  · rintro ⟨rest, rfl, hcut⟩
    rw [parse_storeDir_append]
    exact (parseBasename_eq_panic rest).mpr hcut

end StorePath

lemma StorePathRef.parse_eq_panic (s : String) :
    StorePathRef.parse s = .error .panic ↔ StorePath.CutsChar s := by
  rw [← StorePath.parseBasename_eq_panic, parse]
  split
  next p hp => exact ⟨fun h => (by cases h), fun h => (by cases hp.symm.trans h)⟩
  next e he =>
    constructor
    · rintro ⟨⟩
      exact he
    · intro h
      cases he.symm.trans h
      rfl

/-! ## narinfo files -/

namespace NarInfo

/-- The first store path name of a list that is not accepted is cut inside a character. -/
def CutsCharFirst (names : List String) : Prop :=
  ∃ pre name post, names = pre ++ name :: post ∧ (∀ s ∈ pre, ∃ r, StorePathRef.parse s = .ok r) ∧
    StorePath.CutsChar name

/-- A line whose hash overruns. -/
def HashLinePanics (key value : String) : Prop :=
  (key = "FileHash" ∨ key = "NarHash") ∧ HashOverruns value

/-- A line with a store path that is cut inside a character. -/
def PathLinePanics (key value : String) : Prop :=
  key = "StorePath" ∧ (∃ rest, value = storeDir ++ ("/" ++ rest) ∧ StorePath.CutsChar rest) ∨
    key = "References" ∧ CutsCharFirst (Str.splitWhitespace value)

/-- `parse` gets to a line with this key and this value: it accepts all lines before. -/
def Reaches (lib : Crypto) (input key value : String) : Prop :=
  ∃ pre line post f, Str.lines input = pre ++ line :: post ∧
    pre.foldlM (readLine lib) {} = .ok f ∧ Str.trim line ≠ "" ∧
      Str.splitOnce ": " (Str.trim line) = some (key, value)

lemma mapM_parse_eq_panic (names : List String) :
    names.mapM StorePathRef.parse = .error .panic ↔ CutsCharFirst names := by
  rw [Result.mapM_eq_error]
  simp only [StorePathRef.parse_eq_panic]
  rfl

/-- A field read through a parser panics where the parser does. -/
lemma field_eq_panic {α : Type} (r : Result α) (g : α → Fields) :
    (do let a ← r; return g a : Result Fields) = .error .panic ↔ r = .error .panic := by
  cases r with
  | error e => exact ⟨fun h => (by cases h; rfl), fun h => (by cases h; rfl)⟩
  | ok a => exact ⟨fun h => (by cases h), fun h => (by cases h)⟩

lemma ofExcept_ne_panic {α : Type} (r : Except NiphasError α) :
    Result.ofExcept r ≠ .error .panic := by
  cases r <;> exact fun h => by cases h

lemma not_cutsCharFirst_nil : ¬ CutsCharFirst [] := by
  rintro ⟨pre, name, post, heq, -⟩
  exact List.append_ne_nil_of_right_ne_nil pre (List.cons_ne_nil name post) heq.symm

/-- **When a line panics.**  Only the four keys with a hash or a store path can. -/
lemma readField_eq_panic (lib : Crypto) (f : Fields) (key value : String) :
    readField lib f key value = .error .panic ↔
      HashLinePanics key value ∨ PathLinePanics key value := by
  have hpure : ∀ g : Fields, (pure g : Result Fields) ≠ .error .panic := fun _ h => by cases h
  have hquiet : ∀ {α : Type} (r : Except NiphasError α) (g : α → Fields),
      (do let a ← Result.ofExcept r; return g a : Result Fields) ≠ .error .panic := by
    intro α r g h
    exact ofExcept_ne_panic r ((field_eq_panic _ g).mp h)
  rw [readField.eq_def, HashLinePanics, PathLinePanics]
  split
  · rw [field_eq_panic, StorePath.parse_eq_panic]
    simp
  · exact iff_of_false (hpure _) (by simp)
  · exact iff_of_false (hquiet _ _) (by simp)
  · rw [field_eq_panic, NixHash.parse_eq_panic]
    simp
  · exact iff_of_false (hquiet _ _) (by simp)
  · rw [field_eq_panic, NixHash.parse_eq_panic]
    simp
  · exact iff_of_false (hquiet _ _) (by simp)
  · split
    next hnil =>
      subst hnil
      have hnone : ¬ CutsCharFirst (Str.splitWhitespace "") := not_cutsCharFirst_nil
      exact iff_of_false (hpure _) (by simp [hnone])
    · rw [field_eq_panic, mapM_parse_eq_panic]
      simp
  · exact iff_of_false (hpure _) (by simp)
  · exact iff_of_false (hquiet _ _) (by simp)
  · exact iff_of_false (hpure _) (by simp)
  next hkeys hno => exact iff_of_false (hpure _) (by simp_all)

lemma require_ne_panic {α : Type} (key : String) (a : Option α) :
    require key a ≠ .error .panic := by
  cases a <;> exact fun h => by cases h

lemma bind_ne_panic {α β : Type} {r : Result α} {g : α → Result β} (hr : r ≠ .error .panic)
    (hg : ∀ a, g a ≠ .error .panic) : (r >>= g) ≠ .error .panic := by
  cases r with
  | error e =>
      intro h
      cases h
      exact hr rfl
  | ok a => exact hg a

/-- **When a narinfo file panics**: at the first line that is not accepted, and there by its hash or
by its store paths. -/
lemma parse_eq_panic (lib : Crypto) (input : String) :
    parse lib input = .error .panic ↔ ∃ key value, Reaches lib input key value ∧
      (HashLinePanics key value ∨ PathLinePanics key value) := by
  have hline : ∀ f line, readLine lib f line = .error .panic ↔ Str.trim line ≠ "" ∧
      ∃ key value, Str.splitOnce ": " (Str.trim line) = some (key, value) ∧
        (HashLinePanics key value ∨ PathLinePanics key value) := by
    intro f line
    simp only [readLine]
    split
    next hblank => exact iff_of_false (fun h => by cases h) fun h => h.1 hblank
    next hblank =>
    split
    next hsplit =>
      refine iff_of_false (fun h => by cases h) ?_
      rintro ⟨-, key, value, h, -⟩
      cases hsplit.symm.trans h
    next key value hsplit =>
      rw [readField_eq_panic]
      constructor
      · exact fun h => ⟨hblank, key, value, hsplit, h⟩
      · rintro ⟨-, key', value', h, hpanic⟩
        cases hsplit.symm.trans h
        exact hpanic
  have hloop : parse lib input = .error .panic ↔
      (Str.lines input).foldlM (readLine lib) {} = .error .panic := by
    rw [parse]
    cases hfold : (Str.lines input).foldlM (readLine lib) {} with
    | error e => exact ⟨fun h => (by cases h; rfl), fun h => (by cases h; rfl)⟩
    | ok f =>
        refine iff_of_false ?_ fun h => by cases h
        rw [Result.ok_bind]
        iterate 7 refine bind_ne_panic (require_ne_panic _ _) fun _ => ?_
        exact fun h => by cases h
  rw [hloop, Result.foldlM_eq_error]
  constructor
  · rintro ⟨pre, line, post, f, hlines, hpre, hpanic⟩
    obtain ⟨hblank, key, value, hsplit, h⟩ := (hline f line).mp hpanic
    exact ⟨key, value, ⟨pre, line, post, f, hlines, hpre, hblank, hsplit⟩, h⟩
  · rintro ⟨key, value, ⟨pre, line, post, f, hlines, hpre, hblank, hsplit⟩, h⟩
    exact ⟨pre, line, post, f, hlines, hpre, (hline f line).mpr ⟨hblank, key, value, hsplit, h⟩⟩

end NarInfo

/-! ## The result -/

/-- **When hash decoding panics.**  A string overruns when all its characters are digits and there
are 1, 3 or 6 of them more than a multiple of 8.  The decoder panics on exactly these; so a hash
does when its algorithm is known and its digest overruns, and a narinfo file when it is accepted up
to a line with such a hash (or to a store path that is cut inside a character). -/
theorem hash_decoding_panics (lib : Crypto) (s : String) :
    (fromNixBase32Indexed s = .error .panic ↔ Overruns s) ∧
    (NixHash.parse s = .error .panic ↔ HashOverruns s) ∧
    (NarInfo.parse lib s = .error .panic ↔ ∃ key value, NarInfo.Reaches lib s key value ∧
      (NarInfo.HashLinePanics key value ∨ NarInfo.PathLinePanics key value)) := by
  refine ⟨?_, NixHash.parse_eq_panic s, NarInfo.parse_eq_panic lib s⟩
  rw [fromNixBase32Indexed_eq, fromNixBase32_eq_panic]

/-- **A hash of one digit** panics in each of the three. -/
theorem hash_decoding_panics_digit :
    fromNixBase32Indexed "0" = .error .panic ∧ NixHash.parse "sha256:0" = .error .panic ∧
      NarInfo.parse NarInfo.zeroLib "FileHash: sha256:0" = .error .panic := by
  have hdigit : Overruns "0" := by decide
  have hhash : HashOverruns "sha256:0" := ⟨.sha256, "0", rfl, hdigit⟩
  refine ⟨?_, (NixHash.parse_eq_panic _).mpr hhash, (NarInfo.parse_eq_panic _ _).mpr ?_⟩
  · rw [fromNixBase32Indexed_eq]
    exact (fromNixBase32_eq_panic _).mpr hdigit
  · exact ⟨"FileHash", "sha256:0", ⟨[], "FileHash: sha256:0", [], {}, by decide, rfl, by decide,
      by decide⟩, .inl ⟨.inl rfl, hhash⟩⟩

end Niphas
