import Niphas.Nix.NarDescent

/-!
# The depth limit of the NAR reader

The counter is raised before it is compared with the limit, so it reaches one more than the limit,
and with the limit `u16::MAX` there is no such number.  A build with checked arithmetic panics
there; one without takes the counter back to zero, and the limit is none.

The claim behind the limit has two sides, and both have to be looked at in both builds.  The counter
is not to leave its range, which is a matter of the checked reader, and a tree that is returned is
not to nest deeper than the limit, which is a matter of what a release build returns.
`DepthLimited` has the two as fields.  For every limit below `u16::MAX` they follow from the laws.
With `u16::MAX` the laws do not apply to a release build, as the counter may wrap; they do apply as
long as it does not, and when it does is the subject of `NarDescent`.

* `DepthLimited` — what the limit is for: the counter neither overflows nor goes below zero, and no
  tree nests deeper than the limit.
* `depthLimited_iff` — it holds of every limit but `u16::MAX`, and there of every stream that does
  not open 65536 directories one in the other.
* `not_depthLimited_max` — such a stream, with what both builds do.
-/

namespace Niphas

open Bytes Reader

/-! ## Nesting -/

mutual

/-- How many directories of a tree are nested in each other. -/
def NarNode.nesting : NarNode → ℕ
  | .regular _ _ => 0
  | .symlink _ => 0
  | .directory entries => entriesNesting entries + 1

/-- How many are in the entries of a directory. -/
def entriesNesting : List NarEntry → ℕ
  | [] => 0
  | ⟨_, node⟩ :: rest => max node.nesting (entriesNesting rest)

end

mutual

/-- A well-formed tree nests no deeper than it may. -/
lemma NarNode.nesting_le : ∀ (t : NarNode) {d : ℕ}, t.WellFormed d → t.nesting ≤ d
  | .regular _ _, _, _ => Nat.zero_le _
  | .symlink _, _, _ => Nat.zero_le _
  | .directory entries, d, h => by
      obtain ⟨hpos, -, hentries⟩ := wellFormed_directory.mp h
      have hle := entriesNesting_le entries hentries
      rw [NarNode.nesting]
      omega

lemma entriesNesting_le : ∀ (es : List NarEntry) {d : ℕ}, EntriesWellFormed d es →
    entriesNesting es ≤ d
  | [], _, _ => Nat.zero_le _
  | ⟨_, node⟩ :: rest, d, h => by
      obtain ⟨-, hnode, hrest⟩ := h
      exact max_le (NarNode.nesting_le node hnode) (entriesNesting_le rest hrest)

end

lemma entriesNesting_le_of_forall {d : ℕ} : ∀ {es : List NarEntry},
    (∀ e ∈ es, e.node.nesting ≤ d) → entriesNesting es ≤ d
  | [], _ => Nat.zero_le _
  | ⟨_, _⟩ :: _, h => by
      obtain ⟨hnode, hrest⟩ := List.forall_mem_cons.mp h
      exact max_le hnode (entriesNesting_le_of_forall hrest)

namespace NarReader

/-! ## The limit -/

/-- `NarReader::parse` where arithmetic is checked. -/
def parseChecked (sha256 : List UInt8 → List UInt8) (r : NarReader) :
    Except NarStop (NarNode × NixHash) :=
  match parseArchiveChecked (r.inner.length + 1) r with
  | .error e => .error e
  | .ok (node, r') => .ok (node, { algo := .sha256, digest := sha256 r'.hashed })

lemma parseChecked_eq_error {sha256 : List UInt8 → List UInt8} {r : NarReader} {stop : NarStop} :
    parseChecked sha256 r = .error stop ↔
      parseArchiveChecked (r.inner.length + 1) r = .error stop := by
  rw [parseChecked]
  split
  · next e hrun => rw [hrun, Except.error.injEq, Except.error.injEq]
  · next node r' hrun =>
    rw [hrun]
    exact iff_of_false nofun nofun

/-- With this limit and this stream the counter does not overflow and does not go below zero, and a
tree that is returned nests no deeper than the limit. -/
structure DepthLimited (maxDepth : UInt16) (b : List UInt8) : Prop where
  no_overflow : ∀ sha256, parseChecked sha256 ((new b).withMaxDepth maxDepth) ≠ .error .overflow
  no_underflow : ∀ sha256, parseChecked sha256 ((new b).withMaxDepth maxDepth) ≠ .error .underflow
  nesting_le : ∀ sha256 t h, parse sha256 ((new b).withMaxDepth maxDepth) = .ok (t, h) →
    t.nesting ≤ maxDepth.toNat

/-- A whole archive ends in a way that is allowed, or with a tree. -/
lemma ends_parseArchiveChecked (m fuel : ℕ) :
    EndsChecked m (At m 0 fuel) (parseArchiveChecked fuel) (At m 0 (fuel - 1)) := by
  have hclose : ∀ node : NarNode, EndsChecked m (At m 0 (fuel - 1))
      (do unchecked (expectStr ")"); pure node) (At m 0 (fuel - 1)) := fun node =>
    (ends_expectStr le_self_add).bind fun _ => .pure fun _ hr => hr
  rw [parseArchiveChecked, parseNodeChecked]
  refine (ends_expectStr (k := fuel - 1) (by omega)).bind fun _ =>
    (ends_expectStr le_self_add).bind fun _ => (ends_expectStr le_self_add).bind fun _ =>
    (ends_readStr le_self_add).bind fun typeStr => ?_
  dsimp only
  split_ifs
  · exact ends_parseRegular.bind hclose
  · exact ends_parseSymlink.bind hclose
  · exact ((ends_checked m fuel).directory 0 (Nat.zero_le m)).bind hclose
  · exact (ends_narParseError _).bind hclose

lemma agrees_parseArchiveChecked (fuel : ℕ) :
    AgreesChecked (parseArchiveChecked fuel) (parseArchive fuel) := by
  have hclose : ∀ node : NarNode, AgreesChecked (do unchecked (expectStr ")"); pure node)
      (do expectStr ")"; pure node) := fun node => (agrees_unchecked _).bind fun _ => .pure node
  rw [parseArchiveChecked, parseArchive, parseNodeChecked, parseNode]
  refine (agrees_unchecked _).bind fun _ => (agrees_unchecked _).bind fun _ =>
    (agrees_unchecked _).bind fun _ => (agrees_unchecked _).bind fun typeStr => ?_
  dsimp only
  split_ifs
  · exact (agrees_unchecked _).bind hclose
  · exact (agrees_unchecked _).bind hclose
  · exact (agrees_checked fuel).directory.bind hclose
  · exact (agrees_unchecked _).bind hclose

section

variable {maxDepth : UInt16} {b : List UInt8} {sha256 : List UInt8 → List UInt8}

/-- What the checked reader stops with beyond the errors of the source is an overflow, with the
limit `u16::MAX`. -/
lemma parseChecked_allowed {stop : NarStop}
    (h : parseChecked sha256 ((new b).withMaxDepth maxDepth) = .error stop) :
    Allowed maxDepth.toNat stop := by
  have hends := ends_parseArchiveChecked maxDepth.toNat (b.length + 1)
    ((new b).withMaxDepth maxDepth) ⟨Nat.lt_succ_self _, rfl, rfl⟩
  have hrun := parseChecked_eq_error.mp h
  exact hends.2 stop hrun

/-- With the limit `u16::MAX` it overflows just where 65536 directories are opened. -/
lemma parseChecked_overflow_iff (hmax : maxDepth.toNat = 65535) :
    parseChecked sha256 ((new b).withMaxDepth maxDepth) = .error .overflow ↔
      OpensNested 65535 b := by
  rw [parseChecked_eq_error]
  exact parseArchiveChecked_overflow_iff (r := (new b).withMaxDepth maxDepth) hmax
    (Nat.zero_add _) (Nat.lt_succ_self _)

end

/-! ## What is returned where the counter does not overflow -/

section

variable {r r' : NarReader} {t : NarNode} {fuel : ℕ}

/-- The loop of a directory returns no more levels than it has room for. -/
lemma nesting_le_of_parseEntries {lastName : Option String} {acc : List NarEntry}
    (hmax : r.maxDepth.toNat = 65535) (hpos : 0 < r.depth.toNat)
    (hacc : ∀ e ∈ acc, e.node.nesting ≤ r.room)
    (hrun : parseEntriesChecked fuel lastName acc r = .ok (t, r')) : t.nesting ≤ r.room + 1 := by
  induction fuel generalizing lastName acc r with
  | zero => cases hrun
  | succ fuel ih =>
      rcases (parseEntriesChecked_eq_iff (settled_ok t r')).mp hrun with
        ⟨-, h⟩ | ⟨name, -, -, h⟩
      · obtain ⟨u, r₁, -, h⟩ := Reader.bind_eq_ok.mp h
        obtain ⟨rfl, -⟩ := pure_eq_ok.mp h
        rw [NarNode.nesting]
        exact Nat.succ_le_succ (entriesNesting_le_of_forall fun e he =>
          hacc e (List.mem_reverse.mp he))
      · obtain ⟨node, r₁, hnode, h⟩ := Reader.bind_eq_ok.mp h
        obtain ⟨-, hwf, -, rfl⟩ :=
          (parseNodeInnerChecked_eq_ok (r := r.advance (entryHead name)) hmax hpos).mp hnode
        obtain ⟨-, h⟩ := (unchecked_expect (settled_ok t r') (by decide)).mp h
        exact ih (r := ((r.advance _).advance _).advance _) hmax hpos
          (List.forall_mem_cons.mpr ⟨node.nesting_le hwf, hacc⟩) h

lemma nesting_le_of_parseDirectory (hmax : r.maxDepth.toNat = 65535) (hdepth : r.depth.toNat = 0)
    (hrun : parseDirectoryChecked fuel r = .ok (t, r')) : t.nesting ≤ 65535 := by
  cases fuel with
  | zero => cases hrun
  | succ fuel =>
      have hlt : r.depth.toNat < 65535 := by omega
      have hdeeper := toNat_depth_deeper_of_lt hlt
      rw [parseDirectoryChecked, bind_of_ok (enterDirectoryChecked_of_lt hmax hlt)] at hrun
      have hle := nesting_le_of_parseEntries (r := r.deeper) hmax (by omega)
        (fun e he => absurd he List.not_mem_nil) hrun
      have hroom : r.deeper.room = 65534 := by
        rw [room, hdeeper, hdepth]
        exact congrArg (· - 1) hmax
      rwa [hroom] at hle

lemma nesting_le_of_parseArchive (hmax : r.maxDepth.toNat = 65535) (hdepth : r.depth.toNat = 0)
    (hrun : parseArchiveChecked fuel r = .ok (t, r')) : t.nesting ≤ 65535 := by
  have hclosed : ∀ {node : NarNode} {r₁ : NarReader},
      (do unchecked (expectStr ")"); pure node : CheckedM NarNode) r₁ = .ok (t, r') →
        t = node := by
    intro node r₁ h
    obtain ⟨u, r₂, -, h⟩ := Reader.bind_eq_ok.mp h
    exact (pure_eq_ok.mp h).1
  rw [parseArchiveChecked, unchecked_expect (settled_ok t r') (by decide), parseNodeChecked,
    typeToken_eq_iff (settled_ok t r')] at hrun
  obtain ⟨-, typeStr, -, -, h⟩ := hrun
  dsimp only at h
  split_ifs at h
  · obtain ⟨node, r₁, hbody, h⟩ := (unchecked_bind (settled_ok t r')).mp h
    obtain ⟨e, c, rfl, -⟩ := parseRegular_eq_ok.mp hbody
    rw [hclosed h]
    exact Nat.zero_le _
  · obtain ⟨node, r₁, hbody, h⟩ := (unchecked_bind (settled_ok t r')).mp h
    obtain ⟨target, rfl, -⟩ := parseSymlink_eq_ok.mp hbody
    rw [hclosed h]
    exact Nat.zero_le _
  · obtain ⟨node, r₁, hbody, h⟩ := Reader.bind_eq_ok.mp h
    rw [hclosed h]
    exact nesting_le_of_parseDirectory (r := (r.advance _).advance _) hmax hdepth hbody
  · obtain ⟨node, r₁, hbody, -⟩ := (unchecked_bind (settled_ok t r')).mp h
    exact absurd hbody throw_ne_ok

end

/-! ## When the limit limits -/

section

variable {maxDepth : UInt16} {b : List UInt8}

/-- Below `u16::MAX` the limit limits. -/
lemma depthLimited_of_lt (hmax : maxDepth.toNat < 65535) : DepthLimited maxDepth b := by
  have hstop : ∀ sha256 {stop : NarStop}, stop.Added →
      parseChecked sha256 ((new b).withMaxDepth maxDepth) ≠ .error stop := by
    intro sha256 stop hadded h
    exact absurd (parseChecked_allowed h hadded).1 (Nat.ne_of_lt hmax)
  refine ⟨fun sha256 => hstop sha256 trivial, fun sha256 => hstop sha256 trivial,
    fun sha256 t h hrun => ?_⟩
  obtain ⟨hwf, -, -⟩ := (parse_eq_ok hmax).mp hrun
  exact t.nesting_le hwf

/-- With it, it does where the counter does not overflow. -/
lemma depthLimited_of_not_opensNested (hmax : maxDepth.toNat = 65535)
    (hb : ¬ OpensNested 65535 b) : DepthLimited maxDepth b := by
  refine ⟨fun sha256 h => hb ((parseChecked_overflow_iff hmax).mp h), fun sha256 h => ?_,
    fun sha256 t h hrun => ?_⟩
  · cases (parseChecked_allowed h trivial).2
  · have hr : ((new b).withMaxDepth maxDepth).inner = b := rfl
    rw [parse, hr] at hrun
    split at hrun
    · cases hrun
    · next node r' hparse =>
      cases hrun
      rcases agrees_parseArchiveChecked (b.length + 1) ((new b).withMaxDepth maxDepth) with
        hagree | ⟨stop, hadded, hstop⟩
      · rw [hmax]
        exact nesting_le_of_parseArchive hmax rfl (hagree.trans (withErrors_eq_ok.mpr hparse))
      · have herror : parseChecked sha256 ((new b).withMaxDepth maxDepth) = .error stop :=
          parseChecked_eq_error.mpr hstop
        obtain ⟨-, rfl⟩ := parseChecked_allowed herror hadded
        exact absurd ((parseChecked_overflow_iff hmax).mp herror) hb

end

/-- **The depth limit** does what it is for, except with the limit `u16::MAX` on a stream that opens
65536 directories one in the other. -/
theorem depthLimited_iff (maxDepth : UInt16) (b : List UInt8) :
    DepthLimited maxDepth b ↔ maxDepth.toNat < 65535 ∨ ¬ OpensNested 65535 b := by
  have hmax : maxDepth.toNat < 65535 ∨ maxDepth.toNat = 65535 := by
    have hlt : maxDepth.toNat < 65536 := maxDepth.toNat_lt
    omega
  rcases hmax with hmax | hmax
  · exact iff_of_true (depthLimited_of_lt hmax) (.inl hmax)
  · constructor
    · exact fun h => .inr fun hb => h.no_overflow id ((parseChecked_overflow_iff hmax).mpr hb)
    · rintro (hlt | hb)
      · exact absurd hmax (Nat.ne_of_lt hlt)
      · exact depthLimited_of_not_opensNested hmax hb

/-! ## Directories and nothing else -/

/-- The entries of a directory with `n` directories below it, each the only entry of the one
before. -/
def nestedEntries : ℕ → List NarEntry
  | 0 => []
  | n + 1 => [⟨"a", .directory (nestedEntries n)⟩]

lemma entriesNesting_nestedEntries (n : ℕ) : entriesNesting (nestedEntries n) = n := by
  induction n with
  | zero => rfl
  | succ n ih => simp [nestedEntries, entriesNesting, NarNode.nesting, ih]

lemma entriesFuel_nestedEntries (n : ℕ) : entriesFuel (nestedEntries n) = 3 * n + 1 := by
  induction n with
  | zero => rfl
  | succ n ih =>
      simp only [nestedEntries, entriesFuel, NarNode.fuel, ih]
      omega

lemma encodeEntries_nestedEntries (n : ℕ) :
    encodeEntries (nestedEntries (n + 1)) = entryHead "a" ++ (directoryHead ++
      (encodeEntries (nestedEntries n) ++ (narStr ")" ++ narStr ")"))) := by
  simp only [nestedEntries, encodeEntries, NarNode.encode, entryHead, directoryHead,
    List.append_assoc, List.append_nil]

lemma follows_a : Follows none "a" :=
  ⟨⟨⟨by decide, by decide, by decide, by decide, by decide⟩, by decide⟩, nofun⟩

lemma descends_nestedEntries (n : ℕ) (bs : List UInt8) :
    Descends n none (encodeEntries (nestedEntries n) ++ bs) := by
  induction n generalizing bs with
  | zero => exact .here
  | succ n ih =>
      rw [encodeEntries_nestedEntries, List.append_assoc, List.append_assoc, List.append_assoc]
      exact .down follows_a (ih _)

/-- The archive of `n + 1` directories nested in each other. -/
def nestedArchive (n : ℕ) : List UInt8 := archiveEncode (.directory (nestedEntries n))

lemma nestedArchive_eq (n : ℕ) :
    nestedArchive n = narStr narMagic ++ (directoryHead ++
      (encodeEntries (nestedEntries n) ++ narStr ")" ++ narStr ")")) := by
  simp only [nestedArchive, archiveEncode, rootEncode, NarNode.isDirectory, if_true,
    NarNode.encode, directoryHead, List.append_assoc]

lemma opensNested_nestedArchive (n : ℕ) : OpensNested n (nestedArchive n) := by
  refine ⟨_, nestedArchive_eq n, ?_⟩
  rw [List.append_assoc]
  exact descends_nestedEntries n _

section

variable {α : Type} {r : NarReader} {fuel : ℕ}

lemma run_expect {s : String} {f : Unit → NarM α} (hfit : FitsToken (utf8 s))
    (hpre : narStr s <+: r.inner) : (expectStr s >>= f) r = f () (r.advance (narStr s)) :=
  (expectStr_reads s).bind_of_begins (a := ()) hfit hpre

lemma run_read {s : String} {f : String → NarM α} (hfit : FitsToken (utf8 s))
    (hpre : narStr s <+: r.inner) : (readStr >>= f) r = f s (r.advance (narStr s)) :=
  readStr_reads.bind_of_begins hfit hpre

lemma run_directoryHead {f : String → NarM α} (hpre : directoryHead <+: r.inner) :
    (do expectStr "("; expectStr "type"; let typeStr ← readStr; f typeStr : NarM α) r
      = f "directory" (r.advance directoryHead) := by
  obtain ⟨hopen, hrest⟩ := prefix_inner_advance.mp hpre
  obtain ⟨htype, hdirectory⟩ := prefix_inner_advance.mp hrest
  rw [run_expect (by decide) hopen, run_expect (by decide) htype, run_read (by decide) hdirectory]
  simp only [directoryHead, advance_append]

lemma run_entryHead (hpre : entryHead "a" <+: r.inner) :
    parseEntries (fuel + 1) none [] r = (do
      let node ← parseNodeInner fuel
      expectStr ")"
      parseEntries fuel (some "a") [⟨"a", node⟩] : NarM NarNode) (r.advance (entryHead "a")) := by
  have hcheck : ∀ r, checkName none "a" r = .ok ((), r) := fun r =>
    checkName_eq_ok.mpr ⟨follows_a.1.1, nofun, rfl⟩
  obtain ⟨hentry, hrest⟩ := prefix_inner_advance.mp hpre
  obtain ⟨hopen, hrest⟩ := prefix_inner_advance.mp hrest
  obtain ⟨hname, hrest⟩ := prefix_inner_advance.mp hrest
  obtain ⟨ha, hnode⟩ := prefix_inner_advance.mp hrest
  rw [parseEntries, run_read (by decide) hentry, if_neg (by decide), if_neg (by decide),
    run_expect (by decide) hopen, run_expect (by decide) hname, run_read (by decide) ha,
    bind_of_ok (hcheck _), run_expect (by decide) hnode]
  simp only [entryHead, advance_append]

lemma parseEntries_close (lastName : Option String) (entries : List NarEntry)
    (hpre : narStr ")" <+: r.inner) :
    parseEntries (fuel + 1) lastName entries r
      = .ok (.directory entries.reverse, (r.advance (narStr ")")).shallower) := by
  rw [parseEntries, run_read (by decide) hpre, if_pos rfl]
  exact closeEntries_eq_ok.mpr ⟨rfl, rfl⟩

/-- With the limit `u16::MAX` a release build reads any number of directories, one in the other. -/
lemma parseDirectory_nested (n : ℕ) (hmax : r.maxDepth.toNat = 65535) (hfuel : 3 * n + 2 ≤ fuel)
    (hpre : encodeEntries (nestedEntries n) ++ narStr ")" <+: r.inner) :
    parseDirectory fuel r = .ok (.directory (nestedEntries n),
      r.advance (encodeEntries (nestedEntries n) ++ narStr ")")) := by
  induction n generalizing r fuel with
  | zero =>
      obtain ⟨k, rfl⟩ := Nat.exists_eq_add_of_le' hfuel
      rw [parseDirectory, bind_of_ok (enterDirectory_of_max hmax)]
      refine (parseEntries_close (r := r.deeper) none [] hpre).trans ?_
      rw [deeper_advance_shallower]
      rfl
  | succ n ih =>
      obtain ⟨k, rfl⟩ := Nat.exists_eq_add_of_le' hfuel
      obtain ⟨j, hj⟩ : ∃ j, k + (3 * (n + 1) + 2) = j + 1 + 1 + 1 := ⟨k + 3 * n + 2, by omega⟩
      rw [hj, parseDirectory, bind_of_ok (enterDirectory_of_max hmax)]
      rw [encodeEntries_nestedEntries] at hpre ⊢
      simp only [List.append_assoc, prefix_inner_advance] at hpre ⊢
      obtain ⟨hentry, hdirectory, hentries, hclose, hclose', hend⟩ := hpre
      have hnode : parseNodeInner (j + 1) (r.deeper.advance (entryHead "a"))
          = .ok (.directory (nestedEntries n), (r.deeper.advance (entryHead "a")).advance
            (directoryHead ++ (encodeEntries (nestedEntries n) ++ narStr ")"))) := by
        rw [parseNodeInner]
        refine (run_directoryHead (r := r.deeper.advance (entryHead "a")) hdirectory).trans ?_
        rw [if_neg (by decide), if_neg (by decide), if_pos rfl, advance_append]
        exact ih hmax (by omega) (prefix_inner_advance.mpr ⟨hentries, hclose⟩)
      refine (run_entryHead (r := r.deeper) hentry).trans ?_
      rw [bind_of_ok hnode, run_expect (by decide), parseEntries_close]
      · simp only [← advance_append, deeper_advance_shallower, List.append_assoc]
        rfl
      · simp only [advance_append]
        exact hend
      · simp only [advance_append]
        exact hclose'

end

/-- A release build returns the tree, whatever its depth. -/
lemma parse_nestedArchive {maxDepth : UInt16} {sha256 : List UInt8 → List UInt8}
    (hmax : maxDepth.toNat = 65535) (n : ℕ) :
    ∃ h, parse sha256 ((new (nestedArchive n)).withMaxDepth maxDepth)
      = .ok (.directory (nestedEntries n), h) := by
  let r := (new (nestedArchive n)).withMaxDepth maxDepth
  have hfuel : 3 * n + 2 ≤ r.inner.length + 1 := by
    have hentries := entriesFuel_le_length (nestedEntries n)
    have hmagic := length_narStr_pos narMagic
    rw [entriesFuel_nestedEntries] at hentries
    change _ ≤ (nestedArchive n).length + 1
    rw [nestedArchive_eq]
    simp only [List.length_append]
    omega
  have hpre : nestedArchive n <+: r.inner := List.prefix_refl _
  rw [nestedArchive_eq] at hpre
  obtain ⟨hmagic, hpre⟩ := prefix_inner_advance.mp hpre
  obtain ⟨hhead, hpre⟩ := prefix_inner_advance.mp hpre
  obtain ⟨hbody, hclose⟩ := prefix_inner_advance.mp hpre
  have hrun : ∃ r', parseArchive (r.inner.length + 1) r
      = .ok (.directory (nestedEntries n), r') := by
    refine ⟨(((r.advance (narStr narMagic)).advance directoryHead).advance
      (encodeEntries (nestedEntries n) ++ narStr ")")).advance (narStr ")"), ?_⟩
    rw [parseArchive, run_expect (by decide) hmagic, parseNode]
    refine (run_directoryHead (r := r.advance (narStr narMagic)) hhead).trans ?_
    dsimp only
    rw [if_neg (by decide), if_neg (by decide), if_pos rfl,
      bind_of_ok (parseDirectory_nested n hmax hfuel hbody), run_expect (by decide) hclose]
    rfl
  obtain ⟨r', hrun⟩ := hrun
  exact ⟨_, parse_of_ok rfl hrun⟩

/-- With the limit 65535 and an archive of 65536 nested directories, a build with checked arithmetic
panics, and a release build returns a tree that nests deeper than the limit. -/
theorem not_depthLimited_max :
    ¬ DepthLimited 65535 (nestedArchive 65535) ∧
      parseChecked id ((new (nestedArchive 65535)).withMaxDepth 65535) = .error .overflow ∧
      ∃ t h, parse id ((new (nestedArchive 65535)).withMaxDepth 65535) = .ok (t, h) ∧
        (65535 : UInt16).toNat < t.nesting := by
  have hmax : (65535 : UInt16).toNat = 65535 := rfl
  have hchecked : parseChecked id ((new (nestedArchive 65535)).withMaxDepth 65535)
      = .error .overflow :=
    (parseChecked_overflow_iff hmax).mpr (opensNested_nestedArchive 65535)
  obtain ⟨h, hrun⟩ := parse_nestedArchive hmax 65535
  refine ⟨fun hlimited => hlimited.no_overflow id hchecked, hchecked, _, h, hrun, ?_⟩
  rw [NarNode.nesting, entriesNesting_nestedEntries]
  exact Nat.lt_succ_self _

end NarReader

end Niphas
