import Niphas.Nix.NarGrammar

/-!
# What the NAR reader accepts

One law per method of `NarReader`, each an equivalence: the method succeeds with a value just when
the stream starts with the one encoding of that value.

The laws are instances of `Reads`, so they compose: the law of a method is put together from those
of the methods it calls, in the order of the calls, by `Reads.bind_eq_ok`.  No proof looks at the
bytes of a stream twice.  After the primitives (numbers, strings with their padding, an expected
token) come files and symlinks, and then the two ends of a directory, which are about the depth
counter and read nothing.

Counter and limit are compared after the counter has been raised.  In the laws this is a condition
on the reader (`InRange`), and how many more directories it may enter is a number (`room`).
-/

namespace Niphas

open Bytes Reader InputStream

namespace NarReader

variable {r r' : NarReader}

@[simp] lemma input_eq : input r = r.inner := rfl
@[simp] lemma advance_eq (w : List UInt8) : InputStream.advance r w = r.advance w := rfl
@[simp] lemma advance_inner (w : List UInt8) : (r.advance w).inner = r.inner.drop w.length := rfl
@[simp] lemma advance_depth (w : List UInt8) : (r.advance w).depth = r.depth := rfl
@[simp] lemma advance_maxDepth (w : List UInt8) : (r.advance w).maxDepth = r.maxDepth := rfl
@[simp] lemma advance_hashed (w : List UInt8) : (r.advance w).hashed = r.hashed ++ w := rfl

lemma advance_append (v w : List UInt8) : r.advance (v ++ w) = (r.advance v).advance w :=
  InputStream.advance_append r v w

/-- Reading `v` and then `w` is reading `v ++ w`. -/
lemma prefix_inner_advance {v w : List UInt8} :
    v ++ w <+: r.inner ↔ v <+: r.inner ∧ w <+: (r.advance v).inner := append_prefix_iff (s := r)

/-! ## Wire primitives -/

lemma readExact_reads (n : ℕ) : Reads (readExact n) id fun _ d => d.length = n := by
  intro r d r'
  simp only [readExact, id_eq, input_eq, advance_eq]
  split
  · next h =>
      simp only [Except.ok.injEq, Prod.mk.injEq]
      constructor
      · rintro ⟨rfl, rfl⟩
        exact ⟨List.length_take_of_le h, List.take_prefix _ _, rfl⟩
      · rintro ⟨rfl, hpre, rfl⟩
        have htake : r.inner.take d.length = d := (List.prefix_iff_eq_take.mp hpre).symm
        exact ⟨htake, by rw [htake]⟩
  · next h =>
      simp only [reduceCtorEq, false_iff, not_and]
      intro hlen hpre
      exact absurd (hlen ▸ hpre.length_le) h

lemma readU64_reads : Reads readU64 (toLe 8) fun _ n => n < 2 ^ 64 := by
  intro r n r'
  simp only [readU64, (readExact_reads 8).bind_eq_ok, pure_eq_ok, id_eq, input_eq, advance_eq]
  constructor
  · rintro ⟨buf, hlen, hpre, rfl, rfl⟩
    have hbuf : toLe 8 (ofLe buf) = buf := by rw [← hlen, toLe_ofLe]
    have hlt := ofLe_lt buf
    rw [hlen] at hlt
    rw [hbuf]
    exact ⟨lt_of_lt_of_eq hlt (by norm_num), hpre, rfl⟩
  · rintro ⟨hn, hpre, rfl⟩
    refine ⟨toLe 8 n, length_toLe 8 n, hpre, ?_, rfl⟩
    exact (ofLe_toLe 8 n (lt_of_lt_of_eq hn (by norm_num))).symm

/-- The padding check accepts zeros only. -/
lemma any_ne_zero_iff (pad : List UInt8) :
    pad.any (· ≠ 0) = false ↔ pad = List.replicate pad.length 0 := by
  simp [List.any_eq_false, List.eq_replicate_iff]

/-- `read_bytes` after the length has been read. -/
lemma readPadded_reads (len : ℕ) :
    Reads (do
        let data ← readExact len
        if 0 < padLen len then
          let pad ← readExact (padLen len)
          if pad.any (· ≠ 0) then narParseError "non-zero padding bytes" else pure data
        else pure data : NarM (List UInt8))
      (fun d => d ++ List.replicate (padLen len) 0) fun _ d => d.length = len := by
  intro r d r'
  simp only [(readExact_reads len).bind_eq_ok, id_eq, input_eq, advance_eq]
  by_cases hpad : 0 < padLen len
  · simp only [hpad, if_true, (readExact_reads _).bind_eq_ok, id_eq, input_eq, advance_eq]
    constructor
    · rintro ⟨data, hlen, hpre, pad, hplen, hppre, h⟩
      split at h
      · exact absurd h throw_ne_ok
      · next hz =>
          obtain ⟨rfl, rfl⟩ := pure_eq_ok.mp h
          have hzero : pad = List.replicate (padLen len) 0 := by
            rw [← hplen]
            exact (any_ne_zero_iff pad).mp (Bool.not_eq_true _ ▸ hz)
          subst hzero
          exact ⟨hlen, prefix_inner_advance.mpr ⟨hpre, hppre⟩, (advance_append _ _).symm⟩
    · rintro ⟨hlen, hpre, rfl⟩
      obtain ⟨h₁, h₂⟩ := prefix_inner_advance.mp hpre
      refine ⟨d, hlen, h₁, List.replicate (padLen len) 0, List.length_replicate, h₂, ?_⟩
      rw [if_neg (by simp), pure_eq_ok]
      exact ⟨rfl, advance_append _ _⟩
  · have hzero : padLen len = 0 := Nat.eq_zero_of_not_pos hpad
    simp only [hzero, lt_irrefl, if_false, pure_eq_ok, List.replicate_zero, List.append_nil]
    constructor
    · rintro ⟨data, hlen, hpre, rfl, rfl⟩
      exact ⟨hlen, hpre, rfl⟩
    · rintro ⟨hlen, hpre, rfl⟩
      exact ⟨d, hlen, hpre, rfl, rfl⟩

/-- **`read_bytes` reads exactly one token**, of at most `maxStringLen` bytes. -/
lemma readBytes_reads : Reads readBytes narToken fun _ d => FitsToken d := by
  intro r d r'
  simp only [readBytes, readU64_reads.bind_eq_ok, input_eq, advance_eq]
  constructor
  · rintro ⟨len, -, hpre, h⟩
    split at h
    · exact absurd h throw_ne_ok
    · next hle =>
        obtain ⟨rfl, hrest, rfl⟩ := (readPadded_reads len _ _ _).mp h
        exact ⟨not_lt.mp hle, prefix_inner_advance.mpr ⟨hpre, hrest⟩, (advance_append _ _).symm⟩
  · rintro ⟨hfit, hpre, rfl⟩
    obtain ⟨h₁, h₂⟩ := prefix_inner_advance.mp hpre
    have hlt : d.length < 2 ^ 64 := lt_of_le_of_lt hfit (by decide)
    refine ⟨d.length, hlt, h₁, ?_⟩
    rw [if_neg (not_lt.mpr hfit)]
    exact (readPadded_reads _ _ _ _).mpr ⟨rfl, h₂, advance_append _ _⟩

lemma readStr_reads : Reads readStr narStr fun _ s => FitsToken (utf8 s) := by
  intro r s r'
  simp only [readStr, readBytes_reads.bind_eq_ok, input_eq, advance_eq]
  constructor
  · rintro ⟨bytes, hfit, hpre, h⟩
    cases ht : fromUtf8 bytes with
    | none =>
        rw [ht] at h
        exact absurd h throw_ne_ok
    | some t =>
        rw [ht] at h
        obtain ⟨rfl, rfl⟩ := pure_eq_ok.mp h
        rw [← fromUtf8_eq_some.mp ht] at hfit hpre ⊢
        exact ⟨hfit, hpre, rfl⟩
  · rintro ⟨hfit, hpre, rfl⟩
    refine ⟨utf8 s, hfit, hpre, ?_⟩
    rw [fromUtf8_eq_some.mpr rfl]
    exact pure_eq_ok.mpr ⟨rfl, rfl⟩

lemma expectStr_reads (expected : String) :
    Reads (expectStr expected) (fun _ => narStr expected) fun _ _ => FitsToken (utf8 expected) := by
  intro r u r'
  simp only [expectStr, readStr_reads.bind_eq_ok, input_eq, advance_eq]
  constructor
  · rintro ⟨s, hfit, hpre, h⟩
    split at h
    · exact absurd h throw_ne_ok
    · next hs =>
        obtain rfl : s = expected := not_not.mp hs
        exact ⟨hfit, hpre, (pure_eq_ok.mp h).2⟩
  · rintro ⟨hfit, hpre, rfl⟩
    refine ⟨expected, hfit, hpre, ?_⟩
    rw [if_neg (not_not.mpr rfl)]
    exact pure_eq_ok.mpr ⟨rfl, rfl⟩

/-- An expected token in front of a continuation. -/
lemma expectStr_bind {expected : String} (hfit : FitsToken (utf8 expected)) {α : Type}
    {f : Unit → NarM α} {a : α} :
    (expectStr expected >>= f) r = .ok (a, r') ↔
      narStr expected <+: r.inner ∧ f () (r.advance (narStr expected)) = .ok (a, r') := by
  simp only [(expectStr_reads expected).bind_eq_ok, hfit, true_and, input_eq, advance_eq]
  exact ⟨fun ⟨_, h⟩ => h, fun h => ⟨(), h⟩⟩

/-! ## Files and symlinks -/

/-- The contents token, the last part of either form of a regular file. -/
lemma readContents_eq_ok {executable : Bool} {n : NarNode} :
    (do let contents ← readBytes; pure (.regular executable contents) : NarM NarNode) r
        = .ok (n, r') ↔
      ∃ c, n = .regular executable c ∧ FitsToken c ∧ narToken c <+: r.inner ∧
        r' = r.advance (narToken c) := by
  simp only [readBytes_reads.bind_eq_ok, pure_eq_ok, input_eq, advance_eq]
  constructor
  · rintro ⟨c, hfit, hpre, rfl, rfl⟩
    exact ⟨c, rfl, hfit, hpre, rfl⟩
  · rintro ⟨c, rfl, hfit, hpre, rfl⟩
    exact ⟨c, hfit, hpre, rfl, rfl⟩

lemma parseRegular_eq_ok {n : NarNode} :
    parseRegular r = .ok (n, r') ↔
      ∃ e c, n = .regular e c ∧ FitsToken c ∧ encodeRegular e c <+: r.inner ∧
        r' = r.advance (encodeRegular e c) := by
  rw [parseRegular, readStr_reads.bind_eq_ok]
  constructor
  · rintro ⟨next, -, hpre, h⟩
    split at h
    · next hnext =>
        subst hnext
        rw [expectStr_bind (by decide), expectStr_bind (by decide), readContents_eq_ok] at h
        obtain ⟨hempty, hcontents, c, rfl, hfit, hc, rfl⟩ := h
        refine ⟨true, c, rfl, hfit, ?_, ?_⟩
        · simp only [encodeRegular_true, prefix_inner_advance]
          exact ⟨hpre, hempty, hcontents, hc⟩
        · simp only [encodeRegular_true, advance_append]
          rfl
    · split at h
      · next hnext =>
          subst hnext
          obtain ⟨c, rfl, hfit, hc, rfl⟩ := readContents_eq_ok.mp h
          refine ⟨false, c, rfl, hfit, ?_, ?_⟩ <;> rw [encodeRegular_false]
          · exact prefix_inner_advance.mpr ⟨hpre, hc⟩
          · exact (advance_append _ _).symm
      · exact absurd h throw_ne_ok
  · rintro ⟨e, c, rfl, hfit, hpre, rfl⟩
    cases e with
    | false =>
        rw [encodeRegular_false] at hpre ⊢
        obtain ⟨h₁, h₂⟩ := prefix_inner_advance.mp hpre
        refine ⟨"contents", by decide, h₁, ?_⟩
        exact readContents_eq_ok.mpr ⟨c, rfl, hfit, h₂, advance_append _ _⟩
    | true =>
        simp only [encodeRegular_true, prefix_inner_advance] at hpre
        obtain ⟨h₁, h₂, h₃, h₄⟩ := hpre
        refine ⟨"executable", by decide, h₁, ?_⟩
        rw [if_pos rfl, expectStr_bind (by decide), expectStr_bind (by decide),
          readContents_eq_ok]
        refine ⟨h₂, h₃, c, rfl, hfit, h₄, ?_⟩
        simp only [encodeRegular_true, advance_append]
        rfl

lemma parseSymlink_eq_ok {n : NarNode} :
    parseSymlink r = .ok (n, r') ↔
      ∃ t, n = .symlink t ∧ FitsToken (utf8 t) ∧ encodeSymlink t <+: r.inner ∧
        r' = r.advance (encodeSymlink t) := by
  rw [parseSymlink, expectStr_bind (by decide), readStr_reads.bind_eq_ok]
  simp only [pure_eq_ok, encodeSymlink, prefix_inner_advance, advance_append, input_eq,
    advance_eq]
  constructor
  · rintro ⟨h₁, t, hfit, h₂, rfl, rfl⟩
    exact ⟨t, rfl, hfit, ⟨h₁, h₂⟩, rfl⟩
  · rintro ⟨t, rfl, hfit, ⟨h₁, h₂⟩, rfl⟩
    exact ⟨h₁, t, hfit, h₂, rfl, rfl⟩

/-! ## Directories -/

lemma validateEntryName_eq_ok {name : String} :
    validateEntryName name = .ok () ↔ ValidEntryName name := by
  unfold validateEntryName ValidEntryName
  split
  · next h => simp [h]
  · next h =>
      split
      · next hdot => rcases hdot with rfl | rfl <;> simp
      · next hdot =>
          split
          · next hbad => rcases hbad with hbad | hbad <;> simp [hbad]
          · next hbad =>
              simp only [not_or] at hdot hbad
              simp [h, hdot, hbad]

lemma checkName_eq_ok {lastName : Option String} {name : String} {u : Unit} :
    checkName lastName name r = .ok (u, r') ↔
      ValidEntryName name ∧ (∀ prev ∈ lastName, nameLt prev name) ∧ r' = r := by
  rw [← validateEntryName_eq_ok]
  unfold checkName
  cases validateEntryName name with
  | error e => simp
  | ok v =>
      cases lastName with
      | none => simp
      | some prev => by_cases h : nameLt prev name <;> simp [h, narParseError]

/-- The depth counter is in range: below the limit, and a limit at which it cannot wrap. -/
def InRange (r : NarReader) : Prop :=
  r.depth.toNat ≤ r.maxDepth.toNat ∧ r.maxDepth.toNat < 65535

/-- How many more directories may be entered. -/
def room (r : NarReader) : ℕ := r.maxDepth.toNat - r.depth.toNat

@[simp] lemma inRange_advance {w : List UInt8} : (r.advance w).InRange ↔ r.InRange := Iff.rfl
@[simp] lemma room_advance (w : List UInt8) : (r.advance w).room = r.room := rfl

/-- The reader one directory further down. -/
def deeper (r : NarReader) : NarReader := { r with depth := r.depth + 1 }

/-- The reader one directory further up. -/
def shallower (r : NarReader) : NarReader := { r with depth := r.depth - 1 }

@[simp] lemma deeper_inner : r.deeper.inner = r.inner := rfl
@[simp] lemma deeper_advance_shallower (w : List UInt8) :
    (r.deeper.advance w).shallower = r.advance w := by
  simp [deeper, shallower, advance]

lemma toNat_depth_deeper_of_lt (h : r.depth.toNat < 65535) :
    r.deeper.depth.toNat = r.depth.toNat + 1 := by
  simp only [deeper, UInt16.toNat_add, UInt16.reduceToNat]
  omega

lemma toNat_depth_deeper (h : r.InRange) : r.deeper.depth.toNat = r.depth.toNat + 1 :=
  toNat_depth_deeper_of_lt (lt_of_le_of_lt h.1 h.2)

/-- The counter is raised first, wherever that takes it, and then compared with the limit. -/
lemma enterDirectory_iff {u : Unit} :
    enterDirectory r = .ok (u, r') ↔
      r.deeper.depth.toNat ≤ r.maxDepth.toNat ∧ r' = r.deeper := by
  have hiff : r.maxDepth < r.depth + 1 ↔ ¬ r.deeper.depth.toNat ≤ r.maxDepth.toNat := by
    rw [UInt16.lt_iff_toNat_lt, Nat.not_le]
    rfl
  simp only [enterDirectory, hiff]
  split_ifs with hle
  · simp only [hle, true_and, Except.ok.injEq, Prod.mk.injEq, eq_comm]
    rfl
  · simp only [hle, false_and]

lemma enterDirectory_eq_ok (h : r.InRange) {u : Unit} :
    enterDirectory r = .ok (u, r') ↔ 0 < r.room ∧ r' = r.deeper := by
  have hroom : r.deeper.depth.toNat ≤ r.maxDepth.toNat ↔ 0 < r.room := by
    rw [toNat_depth_deeper h, room]
    omega
  rw [enterDirectory_iff, hroom]

lemma inRange_deeper (h : r.InRange) (hroom : 0 < r.room) : r.deeper.InRange := by
  have hd := toNat_depth_deeper h
  refine ⟨?_, h.2⟩
  rw [hd]
  unfold room at hroom
  change _ ≤ r.maxDepth.toNat
  omega

lemma room_deeper (h : r.InRange) : r.deeper.room = r.room - 1 := by
  have hd := toNat_depth_deeper h
  rw [room, hd, room]
  change r.maxDepth.toNat - _ = _
  omega

end NarReader

end Niphas
