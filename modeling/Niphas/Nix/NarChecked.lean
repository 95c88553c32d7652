import Niphas.Nix.NarNodeLaw

/-!
# The NAR reader where arithmetic is checked

`nar.rs` as a debug build runs it: `self.depth += 1` and `self.depth -= 1` panic instead of
wrapping.  `parseNodeInnerChecked` and its companions are the readers of `Nar.lean` with these two
panics, and with an outcome of its own for a recursion that has used up its fuel.

So the bound on the recursion, which has no counterpart in the source, is told apart from an error
of the source here, and it can be shown that it is never reached.  The same readers serve for two
questions then: does the recursion end on every stream, also on those that are refused, and may the
counter overflow?

Every function of the recursion is written once more, with the two operations on the counter
exchanged, and a relation says that nothing else is different (`AgreesChecked`).  It is kept by
sequencing, so it is proved along the structure of the readers, without a look at the stream.

* `agrees_checked` — a checked reader does what the reader of a release build does, or stops in one
  of these ways.
* `parseNodeInnerChecked_eq` — with a limit at which the counter cannot overflow, and with as much
  fuel as the stream has bytes, it never stops in any of them: the recursion ends on every stream.
* `parseNodeInner_nested` — what `parse_node_inner` accepts, leaves and counts.
-/

namespace Niphas

open Bytes Reader

/-- How a run of the checked reader ends without a tree: with an error of the source, with a panic
of the depth counter, or because the bound on the recursion is used up. -/
inductive NarStop where
  | err (e : NiphasError)
  | overflow
  | underflow
  | outOfFuel
  deriving DecidableEq

/-- The stop is not an error of the source. -/
def NarStop.Added : NarStop → Prop
  | .err _ => False
  | _ => True

/-- A method of the checked reader. -/
abbrev CheckedM (α : Type) := Reader NarStop NarReader α

namespace NarReader

/-- A method that does not touch the depth counter. -/
def unchecked {α : Type} (p : NarM α) : CheckedM α := p.withErrors NarStop.err

/-- `self.depth += 1`, checked, and what follows it at the head of `parse_directory`. -/
def enterDirectoryChecked : CheckedM Unit := fun r =>
  if r.depth.toNat + 1 < 65536 then unchecked enterDirectory r else .error .overflow

/-- `self.depth -= 1`, checked. -/
def leaveDirectoryChecked : CheckedM Unit := fun r =>
  if 0 < r.depth.toNat then unchecked leaveDirectory r else .error .underflow

mutual

/-- `parse_directory`. -/
def parseDirectoryChecked : ℕ → CheckedM NarNode
  | 0 => throw .outOfFuel
  | fuel + 1 => do
      enterDirectoryChecked
      parseEntriesChecked fuel none []

/-- The loop of `parse_directory`. -/
def parseEntriesChecked : ℕ → Option String → List NarEntry → CheckedM NarNode
  | 0, _, _ => throw .outOfFuel
  | fuel + 1, lastName, entries => do
      let next ← unchecked readStr
      if next = ")" then
        leaveDirectoryChecked
        pure (.directory entries.reverse)
      else if next ≠ "entry" then
        unchecked (narParseError ("expected 'entry' or ')', got '" ++ next ++ "'"))
      else
        unchecked (expectStr "(")
        unchecked (expectStr "name")
        let name ← unchecked readStr
        unchecked (checkName lastName name)
        unchecked (expectStr "node")
        let node ← parseNodeInnerChecked fuel
        unchecked (expectStr ")")
        parseEntriesChecked fuel (some name) ({ name, node } :: entries)

/-- `parse_node_inner`. -/
def parseNodeInnerChecked : ℕ → CheckedM NarNode
  | 0 => throw .outOfFuel
  | fuel + 1 => do
      unchecked (expectStr "(")
      unchecked (expectStr "type")
      let typeStr ← unchecked readStr
      if typeStr = "regular" then
        let n ← unchecked parseRegular
        unchecked (expectStr ")")
        pure n
      else if typeStr = "symlink" then
        let n ← unchecked parseSymlink
        unchecked (expectStr ")")
        pure n
      else if typeStr = "directory" then
        parseDirectoryChecked fuel
      else
        unchecked (narParseError ("unknown node type: '" ++ typeStr ++ "'"))

end

/-- `parse_node`. -/
def parseNodeChecked (fuel : ℕ) : CheckedM NarNode := do
  unchecked (expectStr "(")
  unchecked (expectStr "type")
  let typeStr ← unchecked readStr
  let node ←
    if typeStr = "regular" then unchecked parseRegular
    else if typeStr = "symlink" then unchecked parseSymlink
    else if typeStr = "directory" then parseDirectoryChecked fuel
    else unchecked (narParseError ("unknown node type: '" ++ typeStr ++ "'"))
  unchecked (expectStr ")")
  pure node

/-- The body of `parse`. -/
def parseArchiveChecked (fuel : ℕ) : CheckedM NarNode := do
  unchecked (expectStr narMagic)
  parseNodeChecked fuel

lemma not_added_of_unchecked {α : Type} {p : NarM α} {r : NarReader} {stop : NarStop}
    (h : unchecked p r = .error stop) : ¬ stop.Added := by
  rw [unchecked, Reader.withErrors] at h
  split at h
  · cases h
  · cases h
    exact id

/-! ## What it has in common with the release build -/

/-- A checked reader and the one of a release build. -/
abbrev AgreesChecked {α : Type} (c : CheckedM α) (p : NarM α) : Prop :=
  Agrees NarStop.err NarStop.Added c p

lemma agrees_enterDirectory : AgreesChecked enterDirectoryChecked enterDirectory := by
  intro r
  unfold enterDirectoryChecked
  split
  · exact .inl rfl
  · exact .inr ⟨.overflow, trivial, rfl⟩

lemma agrees_leaveDirectory : AgreesChecked leaveDirectoryChecked leaveDirectory := by
  intro r
  unfold leaveDirectoryChecked
  split
  · exact .inl rfl
  · exact .inr ⟨.underflow, trivial, rfl⟩

lemma agrees_unchecked {α : Type} (p : NarM α) : AgreesChecked (unchecked p) p :=
  Agrees.withErrors p

/-- The three readers of the recursion, at one amount of fuel. -/
structure AgreesAt (fuel : ℕ) : Prop where
  node : AgreesChecked (parseNodeInnerChecked fuel) (parseNodeInner fuel)
  entries : ∀ lastName entries,
    AgreesChecked (parseEntriesChecked fuel lastName entries) (parseEntries fuel lastName entries)
  directory : AgreesChecked (parseDirectoryChecked fuel) (parseDirectory fuel)

/-- **A checked reader does what the one of a release build does**, or stops in a way of its
own. -/
lemma agrees_checked (fuel : ℕ) : AgreesAt fuel := by
  induction fuel with
  | zero =>
      refine ⟨?_, fun lastName entries => ?_, ?_⟩
      · rw [parseNodeInnerChecked]
        exact .throw trivial _
      · rw [parseEntriesChecked]
        exact .throw trivial _
      · rw [parseDirectoryChecked]
        exact .throw trivial _
  | succ fuel ih =>
      refine ⟨?_, fun lastName entries => ?_, ?_⟩
      · rw [parseNodeInnerChecked, parseNodeInner]
        refine (agrees_unchecked _).bind fun _ => (agrees_unchecked _).bind fun _ =>
          (agrees_unchecked _).bind fun typeStr => ?_
        split_ifs
        · exact (agrees_unchecked _).bind fun n => (agrees_unchecked _).bind fun _ => .pure n
        · exact (agrees_unchecked _).bind fun n => (agrees_unchecked _).bind fun _ => .pure n
        · exact ih.directory
        · exact agrees_unchecked _
      · rw [parseEntriesChecked, parseEntries]
        refine (agrees_unchecked _).bind fun next => ?_
        split_ifs
        · exact agrees_leaveDirectory.bind fun _ => .pure _
        · exact agrees_unchecked _
        · exact (agrees_unchecked _).bind fun _ => (agrees_unchecked _).bind fun _ =>
            (agrees_unchecked _).bind fun name => (agrees_unchecked _).bind fun _ =>
            (agrees_unchecked _).bind fun _ => ih.node.bind fun node =>
            (agrees_unchecked _).bind fun _ => ih.entries _ _
      · rw [parseDirectoryChecked, parseDirectory]
        exact agrees_enterDirectory.bind fun _ => ih.entries none []

/-! ## What it stops with -/

/-- What may end a run with the limit `m`: an error of the source, and where the limit is `u16::MAX`
an overflow of the counter. -/
def Allowed (m : ℕ) (stop : NarStop) : Prop := stop.Added → m = 65535 ∧ stop = .overflow

/-- A reader with the limit `m`, `d` directories down, with less than `n` bytes to come. -/
structure At (m d n : ℕ) (r : NarReader) : Prop where
  length : r.inner.length < n
  depth : r.depth.toNat = d
  maxDepth : r.maxDepth.toNat = m

/-- With the limit `m` the checked reader takes a reader in `P` to one in `Q`, or fails in a way
that is allowed. -/
abbrev EndsChecked (m : ℕ) {α : Type} (P : NarReader → Prop) (c : CheckedM α)
    (Q : NarReader → Prop) : Prop :=
  Ends (Allowed m) P c Q

section

variable {m d n k : ℕ} {α : Type}

lemma At.mono {r : NarReader} (h : At m d n r) (hnk : n ≤ k) : At m d k r :=
  ⟨lt_of_lt_of_le h.length hnk, h.depth, h.maxDepth⟩

/-- A method that consumes some bytes leaves a shorter stream. -/
lemma ends_unchecked {p : NarM α}
    (h : ∀ r a r', p r = .ok (a, r') → ∃ w, w <+: r.inner ∧ r' = r.advance w ∧ n ≤ k + w.length) :
    EndsChecked m (At m d n) (unchecked p) (At m d k) := by
  intro r hr
  constructor
  · intro a r' hrun
    obtain ⟨w, hpre, rfl, hle⟩ := h r a r' (withErrors_eq_ok.mp hrun)
    have hlen := hpre.length_le
    have hlt := hr.length
    refine ⟨?_, hr.depth, hr.maxDepth⟩
    rw [advance_inner, List.length_drop]
    omega
  · exact fun stop hrun hadded => absurd hadded (not_added_of_unchecked hrun)

lemma ends_readStr (hnk : n ≤ k + 8) :
    EndsChecked m (At m d n) (unchecked readStr) (At m d k) := by
  refine ends_unchecked fun r s r' hrun => ?_
  obtain ⟨-, hpre, rfl⟩ := (readStr_reads r s r').mp hrun
  have hlen := length_narStr_pos s
  exact ⟨narStr s, hpre, rfl, by omega⟩

lemma ends_expectStr {expected : String} (hnk : n ≤ k + 8) :
    EndsChecked m (At m d n) (unchecked (expectStr expected)) (At m d k) := by
  refine ends_unchecked fun r u r' hrun => ?_
  obtain ⟨-, hpre, rfl⟩ := (expectStr_reads expected r u r').mp hrun
  have hlen := length_narStr_pos expected
  exact ⟨narStr expected, hpre, rfl, by omega⟩

lemma ends_checkName {lastName : Option String} {name : String} :
    EndsChecked m (At m d n) (unchecked (checkName lastName name)) (At m d n) := by
  refine ends_unchecked fun r u r' hrun => ?_
  obtain ⟨-, -, rfl⟩ := checkName_eq_ok.mp hrun
  exact ⟨[], List.nil_prefix, (InputStream.advance_nil r').symm, le_rfl⟩

lemma ends_parseRegular : EndsChecked m (At m d n) (unchecked parseRegular) (At m d n) := by
  refine ends_unchecked fun r t r' hrun => ?_
  obtain ⟨e, c, -, -, hpre, rfl⟩ := parseRegular_eq_ok.mp hrun
  exact ⟨encodeRegular e c, hpre, rfl, Nat.le_add_right _ _⟩

lemma ends_parseSymlink : EndsChecked m (At m d n) (unchecked parseSymlink) (At m d n) := by
  refine ends_unchecked fun r t r' hrun => ?_
  obtain ⟨target, -, -, hpre, rfl⟩ := parseSymlink_eq_ok.mp hrun
  exact ⟨encodeSymlink target, hpre, rfl, Nat.le_add_right _ _⟩

lemma ends_narParseError {P Q : NarReader → Prop} (msg : String) :
    EndsChecked m P (unchecked (narParseError msg) : CheckedM α) Q :=
  fun _ _ => ⟨nofun, fun _ hrun hadded => absurd hadded (not_added_of_unchecked hrun)⟩

/-- A directory is entered below the limit; only at `u16::MAX` the counter cannot be raised. -/
lemma ends_enterDirectory (hd : d ≤ m) :
    EndsChecked m (At m d n) enterDirectoryChecked fun r => d < m ∧ At m (d + 1) n r := by
  intro r hr
  have hm : m < 65536 := hr.maxDepth ▸ r.maxDepth.toNat_lt
  rw [enterDirectoryChecked, hr.depth]
  by_cases hfits : d + 1 < 65536
  · have hdeeper : r.deeper.depth.toNat = d + 1 := by
      rw [toNat_depth_deeper_of_lt (by rw [hr.depth]; omega), hr.depth]
    rw [if_pos hfits]
    constructor
    · intro u r' hrun
      obtain ⟨hle, rfl⟩ := enterDirectory_iff.mp (withErrors_eq_ok.mp hrun)
      rw [hdeeper, hr.maxDepth] at hle
      exact ⟨hle, hr.length, hdeeper, hr.maxDepth⟩
    · exact fun stop hrun hadded => absurd hadded (not_added_of_unchecked hrun)
  · rw [if_neg hfits]
    refine ⟨nofun, fun stop hrun _ => ?_⟩
    cases hrun
    exact ⟨by omega, rfl⟩

/-- A directory that has been entered can be left. -/
lemma ends_leaveDirectory :
    EndsChecked m (At m (d + 1) n) leaveDirectoryChecked (At m d n) := by
  intro r hr
  have hpos : 0 < r.depth.toNat := by
    rw [hr.depth]
    exact Nat.succ_pos d
  rw [leaveDirectoryChecked, if_pos hpos]
  refine ⟨fun u r' hrun => ?_, nofun⟩
  cases withErrors_eq_ok.mp hrun
  refine ⟨hr.length, ?_, hr.maxDepth⟩
  have hdepth := hr.depth
  have hlt := r.depth.toNat_lt
  simp only [UInt16.toNat_sub, UInt16.reduceToNat]
  omega

end

/-- The three readers of the recursion end, at one amount of fuel: it is more than the bytes the
stream has left, and a directory needs one more. -/
structure EndsAt (m fuel : ℕ) : Prop where
  node : ∀ d, d ≤ m → EndsChecked m (At m d fuel) (parseNodeInnerChecked fuel) (At m d fuel)
  entries : ∀ d, d < m → ∀ lastName entries,
    EndsChecked m (At m (d + 1) fuel) (parseEntriesChecked fuel lastName entries) (At m d fuel)
  directory : ∀ d, d ≤ m →
    EndsChecked m (At m d (fuel - 1)) (parseDirectoryChecked fuel) (At m d (fuel - 1))

/-- No stream is shorter than none. -/
lemma ends_of_zero {m d : ℕ} {α : Type} {c : CheckedM α} {Q : NarReader → Prop} :
    EndsChecked m (At m d 0) c Q :=
  fun _ hr => absurd hr.length (Nat.not_lt_zero _)

lemma endsNode_succ {m fuel : ℕ} (ih : EndsAt m fuel) {d : ℕ} (hd : d ≤ m) :
    EndsChecked m (At m d (fuel + 1)) (parseNodeInnerChecked (fuel + 1)) (At m d (fuel + 1)) := by
  have hmono : ∀ r, At m d (fuel - 1) r → At m d (fuel + 1) r := fun r hr => hr.mono (by omega)
  rw [parseNodeInnerChecked]
  refine (ends_expectStr (k := fuel - 1) (by omega)).bind fun _ =>
    (ends_expectStr le_self_add).bind fun _ => (ends_readStr le_self_add).bind fun typeStr => ?_
  split_ifs
  · exact ends_parseRegular.bind fun _ => (ends_expectStr le_self_add).bind fun _ => .pure hmono
  · exact ends_parseSymlink.bind fun _ => (ends_expectStr le_self_add).bind fun _ => .pure hmono
  · exact (ih.directory d hd).conseq (fun _ hr => hr) hmono
  · exact ends_narParseError _

lemma endsEntries_succ {m fuel : ℕ} (ih : EndsAt m fuel) {d : ℕ} (hd : d < m)
    (lastName : Option String) (entries : List NarEntry) :
    EndsChecked m (At m (d + 1) (fuel + 1)) (parseEntriesChecked (fuel + 1) lastName entries)
      (At m d (fuel + 1)) := by
  have hmono : ∀ r, At m d fuel r → At m d (fuel + 1) r := fun r hr => hr.mono (Nat.le_succ fuel)
  rw [parseEntriesChecked]
  refine (ends_readStr (k := fuel) (by omega)).bind fun next => ?_
  split_ifs
  · exact ends_leaveDirectory.bind fun _ => .pure hmono
  · exact ends_narParseError _
  · refine (ends_expectStr le_self_add).bind fun _ => (ends_expectStr le_self_add).bind fun _ =>
      (ends_readStr le_self_add).bind fun name => ends_checkName.bind fun _ =>
      (ends_expectStr le_self_add).bind fun _ => (ih.node (d + 1) hd).bind fun node =>
      (ends_expectStr le_self_add).bind fun _ => ?_
    exact (ih.entries d hd _ _).conseq (fun _ hr => hr) hmono

/-- **The recursion ends**, and nothing but what is allowed ends it early: each call has read a
token more than the one before, and the counter stays within the limit. -/
lemma ends_checked (m fuel : ℕ) : EndsAt m fuel := by
  induction fuel with
  | zero => exact ⟨fun _ _ => ends_of_zero, fun _ _ _ _ => ends_of_zero, fun _ _ => ends_of_zero⟩
  | succ fuel ih =>
      refine ⟨fun d hd => endsNode_succ ih hd, fun d hd => endsEntries_succ ih hd, fun d hd => ?_⟩
      rw [parseDirectoryChecked, Nat.add_sub_cancel]
      exact (ends_enterDirectory hd).bind fun _ => .given fun hlt => ih.entries d hlt none []

/-- With a limit at which the counter cannot overflow and more fuel than the stream has bytes, the
checked reader does what the one of a release build does. -/
lemma parseNodeInnerChecked_eq {r : NarReader} {fuel : ℕ} (hr : r.InRange)
    (hfuel : r.inner.length < fuel) :
    parseNodeInnerChecked fuel r = unchecked (parseNodeInner fuel) r := by
  rcases (agrees_checked fuel).node r with hagree | ⟨stop, hadded, hstop⟩
  · exact hagree
  · have hends := (ends_checked _ fuel).node _ hr.1 r ⟨hfuel, rfl, rfl⟩
    exact absurd (hends.2 stop hstop hadded).1 (Nat.ne_of_lt hr.2)

/-! ## Nested nodes -/

/-- `parse_node_inner` with the default limit, on a reader that is some directories down: it
succeeds just when the stream starts with the encoding of a tree that has room below the limit, it
leaves the rest of the stream and the depth counter, it counts the bytes of the encoding, and its
recursion ends: no run stops in the checked reader's own ways. -/
theorem parseNodeInner_nested {r : NarReader} {fuel : ℕ} (hmax : r.maxDepth = defaultMaxDepth)
    (hdepth : r.depth.toNat ≤ 256) (hfuel : r.inner.length < fuel) :
    (∀ t rest, (∃ r', parseNodeInner fuel r = .ok (t, r') ∧ r'.inner = rest) ↔
        r.inner = t.encode ++ rest ∧ t.WellFormed (256 - r.depth.toNat)) ∧
      (∀ t r', parseNodeInner fuel r = .ok (t, r') →
        r'.depth = r.depth ∧ r'.bytesRead = r.bytesRead + UInt64.ofNat t.encode.length) ∧
      parseNodeInnerChecked fuel r ≠ .error .outOfFuel ∧
      parseNodeInnerChecked fuel r = unchecked (parseNodeInner fuel) r := by
  have hlimit : r.maxDepth.toNat = 256 := by rw [hmax]; rfl
  have hr : r.InRange := ⟨by omega, by omega⟩
  have hroom : r.room = 256 - r.depth.toNat := by rw [room, hlimit]
  have hlaw := fun r' t => (narLaws fuel).1 r r' t hr
  have hchecked := parseNodeInnerChecked_eq hr hfuel
  refine ⟨fun t rest => ⟨?_, ?_⟩, fun t r' hrun => ?_, ?_, hchecked⟩
  · rintro ⟨r', hrun, rfl⟩
    obtain ⟨-, hwf, hpre, rfl⟩ := (hlaw r' t).mp hrun
    obtain ⟨rest, hrest⟩ := hpre
    refine ⟨?_, hroom ▸ hwf⟩
    rw [advance_inner, ← hrest, List.drop_left]
  · rintro ⟨hinner, hwf⟩
    have hpre : t.encode <+: r.inner := hinner ▸ List.prefix_append _ _
    have hle : t.fuel ≤ fuel := (t.fuel_le_length.trans hpre.length_le).trans hfuel.le
    refine ⟨r.advance t.encode, (hlaw _ t).mpr ⟨hle, hroom ▸ hwf, hpre, rfl⟩, ?_⟩
    rw [advance_inner, hinner, List.drop_left]
  · obtain ⟨-, -, -, rfl⟩ := (hlaw r' t).mp hrun
    exact ⟨rfl, rfl⟩
  · intro hstop
    rw [hchecked] at hstop
    exact not_added_of_unchecked hstop trivial

/-- A directory with an executable, a link to it and a directory in it. -/
def binNode : NarNode :=
  .directory [⟨"hello", .regular true [104, 105]⟩, ⟨"hi", .symlink "hello"⟩,
    ⟨"lib", .directory []⟩]

/-- Such a directory three directories down, with a byte behind it. -/
theorem parseNodeInner_nested_bin :
    ∃ r', parseNodeInner 2000
        { inner := binNode.encode ++ [7], depth := 3, maxDepth := 256, bytesRead := 24,
          hashed := [] } = .ok (binNode, r') ∧ r'.inner = [7] :=
  ((parseNodeInner_nested rfl (by decide) (by decide +kernel)).1 _ _).mpr
    ⟨rfl, by decide⟩

end NarReader

end Niphas
