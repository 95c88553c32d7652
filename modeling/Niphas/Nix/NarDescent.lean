import Niphas.Nix.NarChecked

/-!
# Directories one in the other

What makes the depth counter overflow.  With the limit `u16::MAX` no directory is refused, and the
counter overflows at the 65536th that is open: this module says of a stream when it gets there.

The difficulty is that such a stream need not be accepted, and need not even be long enough to be:
the counter overflows when the head of the last directory has been read, whatever comes then.  So
the streams cannot be described by the trees they encode.  `Descends` describes them as the reader
goes through them: entries that are whole and in order, and then one whose node is a directory in
which the same goes on.  The entries that are whole must not overflow themselves, and what is read
of them has to be known although the limit is `u16::MAX`.

For this the reader is compared with one that has a smaller limit.  A reader that is one directory
further down, with a limit one larger, has the same room, and does the same (`couples_checked`).
Inside of a directory the limit `u16::MAX` can so be lowered by one, and then the law applies.

* `couples_checked` — only the room below the limit matters: a reader one directory further down,
  with a limit one larger, does the same.
* `parseNodeInnerChecked_eq_ok` — so the law of `parse_node_inner` holds with the limit `u16::MAX`,
  where the counter does not overflow.
* `Descends` — a stream that opens directories one in the other before anything in it is refused.
* `overflow_iff` — the counter overflows just on these.
-/

namespace Niphas

open Bytes Reader

namespace NarReader

/-! ## One directory further down -/

/-- `s` has the limit `m` and is `d` directories down, and `r` is one further down, with a limit one
larger. -/
structure OneDeeper (m d : ℕ) (r s : NarReader) : Prop where
  inner : r.inner = s.inner
  bytesRead : r.bytesRead = s.bytesRead
  hashed : r.hashed = s.hashed
  depth : r.depth.toNat = d + 1
  depth_le : s.depth.toNat = d
  maxDepth : r.maxDepth.toNat = m + 1
  maxDepth_le : s.maxDepth.toNat = m
  le : d ≤ m

section

variable {m d : ℕ} {α : Type}

lemma OneDeeper.advance {r s : NarReader} (h : OneDeeper m d r s) (w : List UInt8) :
    OneDeeper m d (r.advance w) (s.advance w) :=
  ⟨congrArg (List.drop w.length) h.inner, congrArg (· + UInt64.ofNat w.length) h.bytesRead,
    congrArg (· ++ w) h.hashed, h.depth, h.depth_le, h.maxDepth, h.maxDepth_le, h.le⟩

lemma OneDeeper.unique {r r' s : NarReader} (h : OneDeeper m d r s) (h' : OneDeeper m d r' s) :
    r = r' := by
  have hdepth := UInt16.toNat_inj.mp (h.depth.trans h'.depth.symm)
  have hmax := UInt16.toNat_inj.mp (h.maxDepth.trans h'.maxDepth.symm)
  have hinner := h.inner.trans h'.inner.symm
  have hread := h.bytesRead.trans h'.bytesRead.symm
  have hhashed := h.hashed.trans h'.hashed.symm
  cases r
  cases r'
  simp only at hdepth hmax hinner hread hhashed
  rw [hdepth, hmax, hinner, hread, hhashed]

/-- A checked reader, and one of a release build on a reader one directory further up. -/
abbrev CouplesAt (m d d' : ℕ) (c : CheckedM α) (p : NarM α) : Prop :=
  Couples (OneDeeper m d) c p (OneDeeper m d')

/-- A method that looks at the stream only. -/
lemma couples_unchecked {p : NarM α}
    (h : ∀ r s a r', r.inner = s.inner → p r = .ok (a, r') →
      ∃ w, r' = r.advance w ∧ p s = .ok (a, s.advance w)) : CouplesAt m d d (unchecked p) p := by
  intro r s hrs
  constructor
  · intro a s' hrun
    obtain ⟨w, rfl, hrun'⟩ := h s r a s' hrs.inner.symm hrun
    exact ⟨r.advance w, withErrors_eq_ok.mpr hrun', hrs.advance w⟩
  · intro e hrun
    cases hrun' : unchecked p r with
    | error e' => exact ⟨e', rfl⟩
    | ok res =>
        obtain ⟨w, -, hrun''⟩ := h r s res.1 res.2 hrs.inner (withErrors_eq_ok.mp hrun')
        rw [hrun''] at hrun
        cases hrun

lemma couples_readStr : CouplesAt m d d (unchecked readStr) readStr := by
  refine couples_unchecked fun r s a r' hinner hrun => ?_
  obtain ⟨hfit, hpre, rfl⟩ := (readStr_reads r a r').mp hrun
  have hpre' : narStr a <+: s.inner := hinner ▸ hpre
  exact ⟨narStr a, rfl, (readStr_reads s a _).mpr ⟨hfit, hpre', rfl⟩⟩

lemma couples_expectStr (expected : String) :
    CouplesAt m d d (unchecked (expectStr expected)) (expectStr expected) := by
  refine couples_unchecked fun r s u r' hinner hrun => ?_
  obtain ⟨hfit, hpre, rfl⟩ := (expectStr_reads expected r u r').mp hrun
  have hpre' : narStr expected <+: s.inner := hinner ▸ hpre
  exact ⟨narStr expected, rfl, (expectStr_reads expected s u _).mpr ⟨hfit, hpre', rfl⟩⟩

lemma couples_checkName (lastName : Option String) (name : String) :
    CouplesAt m d d (unchecked (checkName lastName name)) (checkName lastName name) := by
  refine couples_unchecked fun r s u r' hinner hrun => ?_
  obtain ⟨hvalid, hlast, rfl⟩ := checkName_eq_ok.mp hrun
  exact ⟨[], (InputStream.advance_nil r').symm,
    checkName_eq_ok.mpr ⟨hvalid, hlast, InputStream.advance_nil s⟩⟩

lemma couples_parseRegular : CouplesAt m d d (unchecked parseRegular) parseRegular := by
  refine couples_unchecked fun r s t r' hinner hrun => ?_
  obtain ⟨e, c, rfl, hfit, hpre, rfl⟩ := parseRegular_eq_ok.mp hrun
  exact ⟨encodeRegular e c, rfl, parseRegular_eq_ok.mpr ⟨e, c, rfl, hfit, hinner ▸ hpre, rfl⟩⟩

lemma couples_parseSymlink : CouplesAt m d d (unchecked parseSymlink) parseSymlink := by
  refine couples_unchecked fun r s t r' hinner hrun => ?_
  obtain ⟨target, rfl, hfit, hpre, rfl⟩ := parseSymlink_eq_ok.mp hrun
  exact ⟨encodeSymlink target, rfl,
    parseSymlink_eq_ok.mpr ⟨target, rfl, hfit, hinner ▸ hpre, rfl⟩⟩

lemma couples_narParseError {d' : ℕ} (msg : String) :
    CouplesAt m d d' (unchecked (narParseError msg) : CheckedM α) (narParseError msg) :=
  fun _ _ _ => ⟨fun _ _ hrun => absurd hrun throw_ne_ok, fun _ _ => ⟨_, rfl⟩⟩

/-- Both are below their limits, or neither is. -/
lemma couples_enterDirectory (hm : m < 65535) :
    CouplesAt m d (d + 1) enterDirectoryChecked enterDirectory := by
  intro r s hrs
  have hs : s.deeper.depth.toNat = d + 1 := by
    rw [toNat_depth_deeper_of_lt (by rw [hrs.depth_le]; exact lt_of_le_of_lt hrs.le hm),
      hrs.depth_le]
  have henter : d < m → enterDirectoryChecked r = .ok ((), r.deeper) ∧
      OneDeeper m (d + 1) r.deeper s.deeper := by
    intro hd
    have hr : r.deeper.depth.toNat = d + 1 + 1 := by
      rw [toNat_depth_deeper_of_lt (by rw [hrs.depth]; omega), hrs.depth]
    refine ⟨?_, hrs.inner, hrs.bytesRead, hrs.hashed, hr, hs, hrs.maxDepth, hrs.maxDepth_le, hd⟩
    rw [enterDirectoryChecked, if_pos (by rw [hrs.depth]; omega)]
    refine withErrors_eq_ok.mpr (enterDirectory_iff.mpr ⟨?_, rfl⟩)
    rw [hr, hrs.maxDepth]
    exact Nat.succ_le_succ hd
  constructor
  · intro u s' hrun
    obtain ⟨hle, rfl⟩ := enterDirectory_iff.mp hrun
    rw [hs, hrs.maxDepth_le] at hle
    exact ⟨r.deeper, henter hle⟩
  · intro e hrun
    cases hrun' : enterDirectoryChecked r with
    | error e' => exact ⟨e', rfl⟩
    | ok res =>
        have hends := (ends_enterDirectory (Nat.succ_le_succ hrs.le) r
          ⟨Nat.lt_succ_self _, hrs.depth, hrs.maxDepth⟩).1 res.1 res.2 hrun'
        have hok : enterDirectory s = .ok ((), s.deeper) := by
          refine enterDirectory_iff.mpr ⟨?_, rfl⟩
          rw [hs, hrs.maxDepth_le]
          exact Nat.lt_of_succ_lt_succ hends.1
        rw [hok] at hrun
        cases hrun

lemma couples_leaveDirectory :
    CouplesAt m (d + 1) d leaveDirectoryChecked leaveDirectory := by
  intro r s hrs
  refine ⟨fun u s' hrun => ?_, nofun⟩
  cases hrun
  have hr := r.depth.toNat_lt
  have hs := s.depth.toNat_lt
  have hdepth := hrs.depth
  have hdepth' := hrs.depth_le
  refine ⟨r.shallower, ?_, hrs.inner, hrs.bytesRead, hrs.hashed, ?_, ?_, hrs.maxDepth,
    hrs.maxDepth_le, (Nat.le_succ d).trans hrs.le⟩
  · rw [leaveDirectoryChecked, if_pos (by omega)]
    exact withErrors_eq_ok.mpr rfl
  · simp only [shallower, UInt16.toNat_sub, UInt16.reduceToNat]
    omega
  · simp only [UInt16.toNat_sub, UInt16.reduceToNat]
    omega

end

/-- The three readers of the recursion, at one amount of fuel. -/
structure CouplesNode (m fuel : ℕ) : Prop where
  node : ∀ d, CouplesAt m d d (parseNodeInnerChecked fuel) (parseNodeInner fuel)
  entries : ∀ d lastName entries, CouplesAt m (d + 1) d
    (parseEntriesChecked fuel lastName entries) (parseEntries fuel lastName entries)
  directory : ∀ d, CouplesAt m d d (parseDirectoryChecked fuel) (parseDirectory fuel)

/-- **Only the room matters**: a checked reader one directory further down, with a limit one larger,
returns the same trees. -/
lemma couples_checked {m : ℕ} (hm : m < 65535) (fuel : ℕ) : CouplesNode m fuel := by
  induction fuel with
  | zero =>
      refine ⟨fun d => ?_, fun d lastName entries => ?_, fun d => ?_⟩
      · rw [parseNodeInnerChecked, parseNodeInner]
        exact .throw _ _
      · rw [parseEntriesChecked, parseEntries]
        exact .throw _ _
      · rw [parseDirectoryChecked, parseDirectory]
        exact .throw _ _
  | succ fuel ih =>
      refine ⟨fun d => ?_, fun d lastName entries => ?_, fun d => ?_⟩
      · rw [parseNodeInnerChecked, parseNodeInner]
        refine (couples_expectStr _).bind fun _ => (couples_expectStr _).bind fun _ =>
          couples_readStr.bind fun typeStr => ?_
        split_ifs
        · exact couples_parseRegular.bind fun n => (couples_expectStr _).bind fun _ => .pure n
        · exact couples_parseSymlink.bind fun n => (couples_expectStr _).bind fun _ => .pure n
        · exact ih.directory d
        · exact couples_narParseError _
      · rw [parseEntriesChecked, parseEntries]
        refine couples_readStr.bind fun next => ?_
        split_ifs
        · exact couples_leaveDirectory.bind fun _ => .pure _
        · exact couples_narParseError _
        · exact (couples_expectStr _).bind fun _ => (couples_expectStr _).bind fun _ =>
            couples_readStr.bind fun name => (couples_checkName _ _).bind fun _ =>
            (couples_expectStr _).bind fun _ => (ih.node (d + 1)).bind fun node =>
            (couples_expectStr _).bind fun _ => ih.entries d _ _
      · rw [parseDirectoryChecked, parseDirectory]
        exact (couples_enterDirectory hm).bind fun _ => ih.entries d none []

/-- The law of `parse_node_inner` with the limit `u16::MAX`, inside of a directory: what does not
overflow is read as with any other limit. -/
lemma parseNodeInnerChecked_eq_ok {fuel : ℕ} {r r' : NarReader} {t : NarNode}
    (hmax : r.maxDepth.toNat = 65535) (hpos : 0 < r.depth.toNat) :
    parseNodeInnerChecked fuel r = .ok (t, r') ↔
      t.fuel ≤ fuel ∧ t.WellFormed r.room ∧ t.encode <+: r.inner ∧ r' = r.advance t.encode := by
  let s : NarReader := { r with depth := r.depth - 1, maxDepth := 65534 }
  have hlt := r.depth.toNat_lt
  have hdepth : s.depth.toNat = r.depth.toNat - 1 := by
    simp only [s, UInt16.toNat_sub, UInt16.reduceToNat]
    omega
  have hrs : OneDeeper 65534 (r.depth.toNat - 1) r s :=
    ⟨rfl, rfl, rfl, by omega, hdepth, hmax, rfl, by omega⟩
  have hs : s.InRange := by
    refine ⟨?_, (by decide : (65534 : UInt16).toNat < 65535)⟩
    rw [hrs.depth_le, hrs.maxDepth_le]
    exact hrs.le
  have hroom : s.room = r.room := by
    rw [room, room, hrs.depth_le, hrs.maxDepth_le, hmax]
    omega
  have hcouple := (couples_checked (m := 65534) (by decide) fuel).node (r.depth.toNat - 1)
  have hlaw := fun s' => (narLaws fuel).1 s s' t hs
  rw [hroom] at hlaw
  constructor
  · intro hrun
    obtain ⟨s', hrun', hrs'⟩ := hcouple.eq_ok hrs hrun
    obtain ⟨hfuel, hwf, hpre, rfl⟩ := (hlaw s').mp hrun'
    exact ⟨hfuel, hwf, hpre, hrs'.unique (hrs.advance _)⟩
  · rintro ⟨hfuel, hwf, hpre, rfl⟩
    obtain ⟨r', hrun, hrs'⟩ := (hcouple r s hrs).1 t _ ((hlaw _).mpr ⟨hfuel, hwf, hpre, rfl⟩)
    rw [hrun, hrs'.unique (hrs.advance _)]

/-! ## How a run ends -/

/-- An outcome that is not an error of the source. -/
def Settled {α : Type} (out : Except NarStop (α × NarReader)) : Prop :=
  ∀ stop, out = .error stop → stop.Added

lemma settled_ok {α : Type} (a : α) (r : NarReader) : Settled (.ok (a, r)) := nofun

lemma settled_overflow {α : Type} : Settled (.error .overflow : Except NarStop (α × NarReader)) :=
  fun _ h => Except.error.inj h ▸ trivial

section

variable {α β : Type} {r : NarReader} {out : Except NarStop (α × NarReader)}

lemma unchecked_bind (hout : Settled out) {p : NarM β} {f : β → CheckedM α} :
    (unchecked p >>= f) r = out ↔ ∃ b r₁, p r = .ok (b, r₁) ∧ f b r₁ = out := by
  rw [bind_eq_iff]
  constructor
  · rintro (⟨stop, hrun, rfl⟩ | ⟨b, r₁, hrun, h⟩)
    · exact absurd (hout stop rfl) (not_added_of_unchecked hrun)
    · exact ⟨b, r₁, withErrors_eq_ok.mp hrun, h⟩
  · rintro ⟨b, r₁, hrun, h⟩
    exact .inr ⟨b, r₁, withErrors_eq_ok.mpr hrun, h⟩

lemma unchecked_expect (hout : Settled out) {s : String} (hfit : FitsToken (utf8 s))
    {f : Unit → CheckedM α} :
    (unchecked (expectStr s) >>= f) r = out ↔
      narStr s <+: r.inner ∧ f () (r.advance (narStr s)) = out := by
  rw [unchecked_bind hout]
  constructor
  · rintro ⟨u, r₁, hrun, h⟩
    obtain ⟨-, hpre, rfl⟩ := (expectStr_reads s r u r₁).mp hrun
    exact ⟨hpre, h⟩
  · rintro ⟨hpre, h⟩
    exact ⟨(), _, (expectStr_reads s r () _).mpr ⟨hfit, hpre, rfl⟩, h⟩

lemma unchecked_read (hout : Settled out) {f : String → CheckedM α} :
    (unchecked readStr >>= f) r = out ↔
      ∃ s, FitsToken (utf8 s) ∧ narStr s <+: r.inner ∧ f s (r.advance (narStr s)) = out := by
  rw [unchecked_bind hout]
  constructor
  · rintro ⟨s, r₁, hrun, h⟩
    obtain ⟨hfit, hpre, rfl⟩ := (readStr_reads r s r₁).mp hrun
    exact ⟨s, hfit, hpre, h⟩
  · rintro ⟨s, hfit, hpre, h⟩
    exact ⟨s, _, (readStr_reads r s _).mpr ⟨hfit, hpre, rfl⟩, h⟩

/-- No settled outcome comes of an error of the source. -/
lemma unchecked_narParseError_ne (hout : Settled out) (msg : String) :
    (unchecked (narParseError msg) : CheckedM α) r ≠ out := by
  intro hrun
  exact hout (.err (.narParse msg)) (hrun.symm.trans rfl)

end

/-! ## One step of the readers -/

/-- What stands before the entries of a directory. -/
def directoryHead : List UInt8 := narStr "(" ++ (narStr "type" ++ narStr "directory")

/-- What stands before the node of an entry. -/
def entryHead (name : String) : List UInt8 :=
  narStr "entry" ++ (narStr "(" ++ (narStr "name" ++ (narStr name ++ narStr "node")))

/-- A name that may be the next one of a directory. -/
def Follows (lastName : Option String) (name : String) : Prop :=
  (ValidEntryName name ∧ FitsToken (utf8 name)) ∧ ∀ prev ∈ lastName, nameLt prev name

section

variable {r : NarReader} {out : Except NarStop (NarNode × NarReader)}

/-- The head of a node, in front of the dispatch. -/
lemma typeToken_eq_iff (hout : Settled out) {f : String → CheckedM NarNode} :
    (do
        unchecked (expectStr "(")
        unchecked (expectStr "type")
        let typeStr ← unchecked readStr
        f typeStr : CheckedM NarNode) r = out ↔
      ∃ typeStr, FitsToken (utf8 typeStr) ∧
        narStr "(" ++ (narStr "type" ++ narStr typeStr) <+: r.inner ∧
        f typeStr (r.advance (narStr "(" ++ (narStr "type" ++ narStr typeStr))) = out := by
  rw [unchecked_expect hout (by decide), unchecked_expect hout (by decide), unchecked_read hout]
  simp only [prefix_inner_advance, advance_append]
  constructor
  · rintro ⟨h₁, h₂, t, hfit, h₃, h⟩
    exact ⟨t, hfit, ⟨h₁, h₂, h₃⟩, h⟩
  · rintro ⟨t, hfit, ⟨h₁, h₂, h₃⟩, h⟩
    exact ⟨h₁, h₂, t, hfit, h₃, h⟩

/-- The head of an entry, after its `"entry"` token. -/
lemma entryToken_eq_iff (hout : Settled out) {lastName : Option String}
    {f : String → CheckedM NarNode} :
    (do
        unchecked (expectStr "(")
        unchecked (expectStr "name")
        let name ← unchecked readStr
        unchecked (checkName lastName name)
        unchecked (expectStr "node")
        f name : CheckedM NarNode) r = out ↔
      ∃ name, Follows lastName name ∧
        narStr "(" ++ (narStr "name" ++ (narStr name ++ narStr "node")) <+: r.inner ∧
        f name (r.advance (narStr "(" ++ (narStr "name" ++ (narStr name ++ narStr "node"))))
          = out := by
  rw [unchecked_expect hout (by decide), unchecked_expect hout (by decide), unchecked_read hout]
  simp only [unchecked_bind hout (p := checkName _ _), checkName_eq_ok, prefix_inner_advance,
    advance_append]
  constructor
  · rintro ⟨h₁, h₂, name, hfit, h₃, u, r₁, ⟨hvalid, hlast, rfl⟩, h⟩
    rw [unchecked_expect hout (by decide)] at h
    exact ⟨name, ⟨⟨hvalid, hfit⟩, hlast⟩, ⟨h₁, h₂, h₃, h.1⟩, h.2⟩
  · rintro ⟨name, ⟨⟨hvalid, hfit⟩, hlast⟩, ⟨h₁, h₂, h₃, h₄⟩, h⟩
    refine ⟨h₁, h₂, name, hfit, h₃, (), _, ⟨hvalid, hlast, rfl⟩, ?_⟩
    exact (unchecked_expect hout (by decide)).mpr ⟨h₄, h⟩

/-- One turn of the loop: the directory ends, or an entry comes. -/
lemma parseEntriesChecked_eq_iff (hout : Settled out) {fuel : ℕ} {lastName : Option String}
    {acc : List NarEntry} :
    parseEntriesChecked (fuel + 1) lastName acc r = out ↔
      (narStr ")" <+: r.inner ∧
          (do leaveDirectoryChecked; pure (.directory acc.reverse) : CheckedM NarNode)
            (r.advance (narStr ")")) = out) ∨
        ∃ name, Follows lastName name ∧ entryHead name <+: r.inner ∧
          (do
              let node ← parseNodeInnerChecked fuel
              unchecked (expectStr ")")
              parseEntriesChecked fuel (some name) ({ name, node } :: acc) : CheckedM NarNode)
            (r.advance (entryHead name)) = out := by
  rw [parseEntriesChecked, unchecked_read hout]
  constructor
  · rintro ⟨next, -, hpre, h⟩
    split at h
    · next hclose => exact .inl ⟨hclose ▸ hpre, by rwa [← hclose]⟩
    · split at h
      · exact absurd h (unchecked_narParseError_ne hout _)
      · next hentry =>
          obtain rfl : next = "entry" := not_not.mp hentry
          obtain ⟨name, hname, hpre', h⟩ := (entryToken_eq_iff hout).mp h
          refine .inr ⟨name, hname, prefix_inner_advance.mpr ⟨hpre, hpre'⟩, ?_⟩
          rwa [entryHead, advance_append]
  · rintro (⟨hpre, h⟩ | ⟨name, hname, hpre, h⟩)
    · refine ⟨")", by decide, hpre, ?_⟩
      rw [if_pos rfl]
      exact h
    · obtain ⟨hentry, hpre⟩ := prefix_inner_advance.mp hpre
      refine ⟨"entry", by decide, hentry, ?_⟩
      rw [if_neg (by decide), if_neg (by decide), entryToken_eq_iff hout]
      rw [entryHead, advance_append] at h
      exact ⟨name, hname, hpre, h⟩

end

/-! ## Streams that go down

An entry that is whole is read to its end without an overflow, so it nests at most as many
directories as are left.  The last entry need not be whole.
-/

/-- The entries of a directory, after the name `lastName`, under which `n` more directories are
opened one in the other: entries that are whole and in order come first, each with no more levels
than are left of 65535, and then one whose node is a directory of which this holds again. -/
inductive Descends : ℕ → Option String → List UInt8 → Prop
  | here {lastName : Option String} {bs : List UInt8} : Descends 0 lastName bs
  | down {n : ℕ} {lastName : Option String} {name : String} {bs : List UInt8}
      (hname : Follows lastName name) (h : Descends n none bs) :
      Descends (n + 1) lastName (entryHead name ++ (directoryHead ++ bs))
  | past {n : ℕ} {lastName : Option String} {name : String} {node : NarNode} {bs : List UInt8}
      (hname : Follows lastName name) (hnode : node.WellFormed n)
      (h : Descends (n + 1) (some name) bs) :
      Descends (n + 1) lastName (entryHead name ++ (node.encode ++ (narStr ")" ++ bs)))

/-- The same after the head of an entry: its node is the next directory, or it is whole. -/
def DescendsNode (n : ℕ) (name : String) (bs : List UInt8) : Prop :=
  (∃ bs', bs = directoryHead ++ bs' ∧ Descends n none bs') ∨
    ∃ (node : NarNode) (bs' : List UInt8), bs = node.encode ++ (narStr ")" ++ bs') ∧
      node.WellFormed n ∧ Descends (n + 1) (some name) bs'

lemma descends_succ_iff {n : ℕ} {lastName : Option String} {bs : List UInt8} :
    Descends (n + 1) lastName bs ↔
      ∃ name bs', bs = entryHead name ++ bs' ∧ Follows lastName name ∧ DescendsNode n name bs' := by
  constructor
  · intro h
    cases h with
    | down hname h => exact ⟨_, _, rfl, hname, .inl ⟨_, rfl, h⟩⟩
    | past hname hnode h => exact ⟨_, _, rfl, hname, .inr ⟨_, _, rfl, hnode, h⟩⟩
  · rintro ⟨name, _, rfl, hname, ⟨bs', rfl, h⟩ | ⟨node, bs', rfl, hnode, h⟩⟩
    · exact .down hname h
    · exact .past hname hnode h

section

variable {r : NarReader} {w bs : List UInt8}

lemma begins_of_inner_eq (h : r.inner = w ++ bs) : w <+: r.inner := ⟨bs, h.symm⟩

lemma advance_inner_of_eq (h : r.inner = w ++ bs) : (r.advance w).inner = bs := by
  rw [advance_inner, h, List.drop_left]

lemma inner_eq_append (h : w <+: r.inner) : r.inner = w ++ (r.advance w).inner := by
  obtain ⟨bs, hbs⟩ := h
  rw [advance_inner_of_eq hbs.symm, hbs]

end

/-- The readers overflow just on these, at one amount of fuel: the limit is `u16::MAX`, and `n` more
directories may be opened. -/
structure OverflowsAt (fuel : ℕ) : Prop where
  node : ∀ {r : NarReader} {n : ℕ}, r.maxDepth.toNat = 65535 → r.depth.toNat + n = 65535 →
    r.inner.length < fuel →
      (parseNodeInnerChecked fuel r = .error .overflow ↔
        ∃ bs, r.inner = directoryHead ++ bs ∧ Descends n none bs)
  entries : ∀ {r : NarReader} {n : ℕ} (lastName : Option String) (acc : List NarEntry),
    r.maxDepth.toNat = 65535 → 0 < r.depth.toNat → r.depth.toNat + n = 65535 →
      r.inner.length < fuel →
      (parseEntriesChecked fuel lastName acc r = .error .overflow ↔
        Descends (n + 1) lastName r.inner)
  directory : ∀ {r : NarReader} {n : ℕ}, r.maxDepth.toNat = 65535 →
    r.depth.toNat + n = 65535 → r.inner.length < fuel - 1 →
      (parseDirectoryChecked fuel r = .error .overflow ↔ Descends n none r.inner)

section

variable {r : NarReader} {fuel n : ℕ}

/-- With the limit `u16::MAX` a release build refuses no directory: the counter wraps. -/
lemma enterDirectory_of_max (hmax : r.maxDepth.toNat = 65535) :
    enterDirectory r = .ok ((), r.deeper) := by
  refine enterDirectory_iff.mpr ⟨?_, rfl⟩
  rw [hmax]
  exact Nat.le_of_lt_succ r.deeper.depth.toNat_lt

lemma enterDirectoryChecked_of_lt (hmax : r.maxDepth.toNat = 65535) (hlt : r.depth.toNat < 65535) :
    enterDirectoryChecked r = .ok ((), r.deeper) := by
  rw [enterDirectoryChecked, if_pos (by omega)]
  exact withErrors_eq_ok.mpr (enterDirectory_of_max hmax)

/-- The counter is raised below `u16::MAX`, and there is one directory less to open. -/
lemma overflowsDirectory_succ (ih : OverflowsAt fuel) (hmax : r.maxDepth.toNat = 65535)
    (hdepth : r.depth.toNat + n = 65535) (hlen : r.inner.length < fuel) :
    parseDirectoryChecked (fuel + 1) r = .error .overflow ↔ Descends n none r.inner := by
  rw [parseDirectoryChecked]
  cases n with
  | zero =>
      have hfull : enterDirectoryChecked r = .error .overflow := by
        rw [enterDirectoryChecked, if_neg (by omega)]
      exact iff_of_true (bind_of_error hfull) .here
  | succ n =>
      have hlt : r.depth.toNat < 65535 := by omega
      have hdeeper := toNat_depth_deeper_of_lt hlt
      rw [bind_of_ok (enterDirectoryChecked_of_lt hmax hlt)]
      exact ih.entries (r := r.deeper) none [] hmax (by omega) (by omega) hlen

/-- The `")"` of a node does not. -/
lemma closed_ne_overflow (node : NarNode) :
    (do unchecked (expectStr ")"); pure node : CheckedM NarNode) r ≠ .error .overflow := by
  intro h
  obtain ⟨-, h⟩ := (unchecked_expect settled_overflow (by decide)).mp h
  cases h

/-- Only a directory overflows. -/
lemma overflowsNode_succ (ih : OverflowsAt fuel) (hmax : r.maxDepth.toNat = 65535)
    (hdepth : r.depth.toNat + n = 65535) (hlen : r.inner.length < fuel + 1) :
    parseNodeInnerChecked (fuel + 1) r = .error .overflow ↔
      ∃ bs, r.inner = directoryHead ++ bs ∧ Descends n none bs := by
  have hdirectory : directoryHead <+: r.inner →
      (parseDirectoryChecked fuel (r.advance directoryHead) = .error .overflow ↔
        Descends n none (r.advance directoryHead).inner) := by
    intro hpre
    have hhead := length_narStr_pos "("
    have hhead' := length_narStr_pos "type"
    have hle := hpre.length_le
    refine ih.directory hmax hdepth ?_
    rw [advance_inner, List.length_drop]
    simp only [directoryHead, List.length_append] at hle ⊢
    omega
  rw [parseNodeInnerChecked, typeToken_eq_iff settled_overflow]
  constructor
  · rintro ⟨typeStr, -, hpre, h⟩
    split_ifs at h with hregular hsymlink htype
    · obtain ⟨node, r₁, -, h⟩ := (unchecked_bind settled_overflow).mp h
      exact absurd h (closed_ne_overflow node)
    · obtain ⟨node, r₁, -, h⟩ := (unchecked_bind settled_overflow).mp h
      exact absurd h (closed_ne_overflow node)
    · subst htype
      exact ⟨_, inner_eq_append hpre, (hdirectory hpre).mp h⟩
    · exact absurd h (unchecked_narParseError_ne settled_overflow _)
  · rintro ⟨bs, hinner, h⟩
    have hpre := begins_of_inner_eq hinner
    refine ⟨"directory", by decide, hpre, ?_⟩
    rw [if_neg (by decide), if_neg (by decide), if_pos rfl]
    exact (hdirectory hpre).mpr ((advance_inner_of_eq hinner).symm ▸ h)

/-- An entry, after its head, overflows in its own node, or it is whole and a later one does. -/
lemma overflowsEntry (ih : OverflowsAt fuel) {name : String} {acc : List NarEntry}
    (hmax : r.maxDepth.toNat = 65535) (hpos : 0 < r.depth.toNat)
    (hdepth : r.depth.toNat + n = 65535) (hlen : r.inner.length < fuel) :
    (do
        let node ← parseNodeInnerChecked fuel
        unchecked (expectStr ")")
        parseEntriesChecked fuel (some name) ({ name, node } :: acc) : CheckedM NarNode) r
        = .error .overflow ↔
      DescendsNode n name r.inner := by
  have hroom : r.room = n := by
    rw [room, hmax]
    omega
  have hrest : ∀ (node : NarNode), parseEntriesChecked fuel (some name) ({ name, node } :: acc)
        ((r.advance node.encode).advance (narStr ")")) = .error .overflow ↔
      Descends (n + 1) (some name) ((r.advance node.encode).advance (narStr ")")).inner := by
    intro node
    refine ih.entries _ _ hmax hpos hdepth (lt_of_le_of_lt ?_ hlen)
    simp only [advance_inner, List.length_drop]
    omega
  rw [bind_eq_iff]
  constructor
  · rintro (⟨stop, hstop, hout⟩ | ⟨node, r₁, hrun, h⟩)
    · cases hout
      exact .inl ((ih.node hmax hdepth hlen).mp hstop)
    · obtain ⟨-, hwf, hpre, rfl⟩ := (parseNodeInnerChecked_eq_ok hmax hpos).mp hrun
      obtain ⟨hclose, h⟩ := (unchecked_expect settled_overflow (by decide)).mp h
      refine .inr ⟨node, _, ?_, hroom ▸ hwf, (hrest node).mp h⟩
      rw [← inner_eq_append hclose]
      exact inner_eq_append hpre
  · rintro (hdown | ⟨node, bs, hinner, hwf, h⟩)
    · exact .inl ⟨.overflow, (ih.node hmax hdepth hlen).mpr hdown, rfl⟩
    · have hpre := begins_of_inner_eq hinner
      have hclose := advance_inner_of_eq hinner
      have hfuel : node.fuel ≤ fuel :=
        (node.fuel_le_length.trans hpre.length_le).trans hlen.le
      refine .inr ⟨node, _, (parseNodeInnerChecked_eq_ok hmax hpos).mpr
        ⟨hfuel, hroom.symm ▸ hwf, hpre, rfl⟩, ?_⟩
      refine (unchecked_expect settled_overflow (by decide)).mpr ⟨begins_of_inner_eq hclose, ?_⟩
      exact (hrest node).mpr ((advance_inner_of_eq hclose).symm ▸ h)

/-- The loop passes whole entries, and overflows in a directory among them. -/
lemma overflowsEntries_succ (ih : OverflowsAt fuel) {lastName : Option String}
    {acc : List NarEntry} (hmax : r.maxDepth.toNat = 65535) (hpos : 0 < r.depth.toNat)
    (hdepth : r.depth.toNat + n = 65535) (hlen : r.inner.length < fuel + 1) :
    parseEntriesChecked (fuel + 1) lastName acc r = .error .overflow ↔
      Descends (n + 1) lastName r.inner := by
  have hentry : ∀ name, entryHead name <+: r.inner →
      (r.advance (entryHead name)).inner.length < fuel := by
    intro name hpre
    have hhead := length_narStr_pos "entry"
    have hle := hpre.length_le
    rw [advance_inner, List.length_drop]
    simp only [entryHead, List.length_append] at hle ⊢
    omega
  rw [parseEntriesChecked_eq_iff settled_overflow, descends_succ_iff]
  constructor
  · rintro (⟨hpre, h⟩ | ⟨name, hname, hpre, h⟩)
    · have hleave : leaveDirectoryChecked (r.advance (narStr ")"))
          = .ok ((), (r.advance (narStr ")")).shallower) := if_pos hpos
      rw [bind_of_ok hleave] at h
      cases h
    · refine ⟨name, _, inner_eq_append hpre, hname, ?_⟩
      exact (overflowsEntry (r := r.advance (entryHead name)) ih hmax hpos hdepth
        (hentry name hpre)).mp h
  · rintro ⟨name, bs, hinner, hname, h⟩
    have hpre := begins_of_inner_eq hinner
    refine .inr ⟨name, hname, hpre, ?_⟩
    exact (overflowsEntry (r := r.advance (entryHead name)) ih hmax hpos hdepth
      (hentry name hpre)).mpr ((advance_inner_of_eq hinner).symm ▸ h)

/-- **What makes the counter overflow**, by induction on the fuel. -/
lemma overflow_iff (fuel : ℕ) : OverflowsAt fuel := by
  induction fuel with
  | zero =>
      exact ⟨fun _ _ hlen => absurd hlen (Nat.not_lt_zero _),
        fun _ _ _ _ _ hlen => absurd hlen (Nat.not_lt_zero _),
        fun _ _ hlen => absurd hlen (Nat.not_lt_zero _)⟩
  | succ fuel ih =>
      exact ⟨fun hmax hdepth hlen => overflowsNode_succ ih hmax hdepth hlen,
        fun _ _ hmax hpos hdepth hlen => overflowsEntries_succ ih hmax hpos hdepth hlen,
        fun hmax hdepth hlen => overflowsDirectory_succ ih hmax hdepth hlen⟩

/-- An archive that opens `n + 1` directories one in the other. -/
def OpensNested (n : ℕ) (b : List UInt8) : Prop :=
  ∃ bs, b = narStr narMagic ++ (directoryHead ++ bs) ∧ Descends n none bs

/-- The same for a whole archive. -/
lemma parseArchiveChecked_overflow_iff (hmax : r.maxDepth.toNat = 65535)
    (hdepth : r.depth.toNat + n = 65535) (hlen : r.inner.length < fuel) :
    parseArchiveChecked fuel r = .error .overflow ↔ OpensNested n r.inner := by
  have hdirectory : narStr narMagic ++ directoryHead <+: r.inner →
      (parseDirectoryChecked fuel ((r.advance (narStr narMagic)).advance directoryHead)
          = .error .overflow ↔
        Descends n none ((r.advance (narStr narMagic)).advance directoryHead).inner) := by
    intro hpre
    have hmagic := length_narStr_pos narMagic
    have hle := hpre.length_le
    refine (overflow_iff fuel).directory hmax hdepth ?_
    rw [← advance_append, advance_inner, List.length_drop]
    simp only [List.length_append] at hle ⊢
    omega
  rw [parseArchiveChecked, unchecked_expect settled_overflow (by decide), parseNodeChecked,
    typeToken_eq_iff settled_overflow]
  constructor
  · rintro ⟨hmagic, typeStr, -, hpre, h⟩
    dsimp only at h
    split_ifs at h with hregular hsymlink htype
    · obtain ⟨node, r₁, -, h⟩ := (unchecked_bind settled_overflow).mp h
      exact absurd h (closed_ne_overflow node)
    · obtain ⟨node, r₁, -, h⟩ := (unchecked_bind settled_overflow).mp h
      exact absurd h (closed_ne_overflow node)
    · subst htype
      have hboth : narStr narMagic ++ directoryHead <+: r.inner :=
        prefix_inner_advance.mpr ⟨hmagic, hpre⟩
      rcases bind_eq_iff.mp h with ⟨stop, hstop, hout⟩ | ⟨node, r₁, -, h⟩
      · cases hout
        refine ⟨_, ?_, (hdirectory hboth).mp hstop⟩
        rw [← List.append_assoc, ← advance_append]
        exact inner_eq_append hboth
      · exact absurd h (closed_ne_overflow node)
    · obtain ⟨node, r₁, hrun, -⟩ := (unchecked_bind settled_overflow).mp h
      exact absurd hrun throw_ne_ok
  · rintro ⟨bs, hinner, h⟩
    rw [← List.append_assoc] at hinner
    have hboth := begins_of_inner_eq hinner
    have hrest := advance_inner_of_eq hinner
    rw [advance_append] at hrest
    obtain ⟨hmagic, hpre⟩ := prefix_inner_advance.mp hboth
    refine ⟨hmagic, "directory", by decide, hpre, ?_⟩
    dsimp only
    rw [if_neg (by decide), if_neg (by decide), if_pos rfl]
    exact bind_of_error ((hdirectory hboth).mpr (hrest.symm ▸ h))

end

end NarReader

end Niphas
