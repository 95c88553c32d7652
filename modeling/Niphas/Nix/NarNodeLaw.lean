import Niphas.Nix.NarLaws

/-!
# The recursive part of the NAR reader

The law of `parseNodeInner`: it succeeds with a tree just when the stream starts with the encoding
of that tree, the tree is well formed and nests no deeper than the reader has room for, and then
exactly the encoding has been read.  Both directions are proved at once, by induction on the fuel,
together with the law of the entry loop.

`fuel` is accounted for exactly (`NarNode.fuel`), and `NarNode.fuel_le_length` says that the length
of the stream is always enough: the bound never ends a run on a stream that could have been
accepted.

The three functions that call each other have three laws, stated for one amount of fuel.  A step of
the induction goes once around: a node of the next amount is a head and a body, and the body of a
directory is its loop with the amount there was.  The loop has an argument of its own, the last
name, so its law is about the rest of a directory, with names that come after that one.

* `narLaws` — the laws at every amount of fuel.
* `parseNode_eq_ok_iff_inner` — the parser of the root reads one token more behind a directory.
* `parse_eq_ok` — what `parse` accepts, and what it hashes.
-/

namespace Niphas

open Bytes Reader

/-! ## Facts about the format -/

lemma length_narToken_pos (bs : List UInt8) : 8 ≤ (narToken bs).length := by
  simp only [narToken, List.length_append, length_toLe]
  omega

lemma length_narStr_pos (s : String) : 8 ≤ (narStr s).length := length_narToken_pos _

lemma wellFormed_directory {d : ℕ} {entries : List NarEntry} :
    (NarNode.directory entries).WellFormed d ↔
      0 < d ∧ (entries.map NarEntry.name).IsChain NarReader.nameLt ∧
        EntriesWellFormed (d - 1) entries := by
  cases d <;> simp [NarNode.WellFormed]

/-- A name in front of an ascending list of names. -/
lemma isChain_option_append {lastName : Option String} {name : String} {names : List String} :
    (lastName.toList ++ name :: names).IsChain NarReader.nameLt ↔
      (∀ prev ∈ lastName, NarReader.nameLt prev name) ∧
        (name :: names).IsChain NarReader.nameLt := by
  cases lastName <;> simp [List.isChain_cons_cons]

mutual

/-- The encoding of a node is longer than the fuel the reader needs for it. -/
lemma NarNode.fuel_le_length : ∀ t : NarNode, t.fuel ≤ t.encode.length
  | .regular _ _ => by
      have h := length_narStr_pos "("
      simp only [NarNode.fuel, NarNode.encode, List.length_append]
      omega
  | .symlink _ => by
      have h := length_narStr_pos "("
      simp only [NarNode.fuel, NarNode.encode, List.length_append]
      omega
  | .directory entries => by
      have h := length_narStr_pos "("
      have ih := entriesFuel_le_length entries
      simp only [NarNode.fuel, NarNode.encode, List.length_append]
      omega

lemma entriesFuel_le_length : ∀ es : List NarEntry, entriesFuel es ≤ (encodeEntries es).length + 1
  | [] => by simp [entriesFuel]
  | ⟨_, node⟩ :: rest => by
      have h := length_narStr_pos "entry"
      have ihn := NarNode.fuel_le_length node
      have ihr := entriesFuel_le_length rest
      simp only [entriesFuel, encodeEntries, List.length_append]
      omega

end

namespace NarReader

variable {r r' : NarReader}

/-! ## The two laws, at one amount of fuel -/

/-- `parse_node_inner` accepts exactly the encodings of well-formed nodes. -/
def NodeLaw (fuel : ℕ) : Prop :=
  ∀ (r r' : NarReader) (t : NarNode), r.InRange →
    (parseNodeInner fuel r = .ok (t, r') ↔
      t.fuel ≤ fuel ∧ t.WellFormed r.room ∧ t.encode <+: r.inner ∧ r' = r.advance t.encode)

/-- The loop of `parse_directory` accepts exactly the encodings of well-formed entries, in
ascending order after the last name, followed by `")"`. -/
def EntriesLaw (fuel : ℕ) : Prop :=
  ∀ (r r' : NarReader) (lastName : Option String) (acc : List NarEntry) (n : NarNode), r.InRange →
    (parseEntries fuel lastName acc r = .ok (n, r') ↔
      ∃ es, n = .directory (acc.reverse ++ es) ∧ entriesFuel es ≤ fuel ∧
        (lastName.toList ++ es.map NarEntry.name).IsChain nameLt ∧
        EntriesWellFormed r.room es ∧ encodeEntries es ++ narStr ")" <+: r.inner ∧
        r' = (r.advance (encodeEntries es ++ narStr ")")).shallower)

/-- `parse_directory` accepts the entries and the `")"` of a well-formed directory, and leaves
the depth counter where it was. -/
def DirectoryLaw (fuel : ℕ) : Prop :=
  ∀ (r r' : NarReader) (n : NarNode), r.InRange →
    (parseDirectory fuel r = .ok (n, r') ↔
      ∃ es, n = .directory es ∧ entriesFuel es + 1 ≤ fuel ∧
        (NarNode.directory es).WellFormed r.room ∧ encodeEntries es ++ narStr ")" <+: r.inner ∧
        r' = r.advance (encodeEntries es ++ narStr ")"))

/-! ## One turn of the loop -/

/-- The `")"` that ends a directory. -/
lemma closeEntries_eq_ok {acc : List NarEntry} {n : NarNode} :
    (do leaveDirectory; pure (.directory acc.reverse) : NarM NarNode) r = .ok (n, r') ↔
      n = .directory acc.reverse ∧ r' = r.shallower := by
  rw [Reader.bind_eq_ok]
  constructor
  · rintro ⟨u, r₁, hleave, h⟩
    cases hleave
    exact pure_eq_ok.mp h
  · rintro ⟨rfl, rfl⟩
    exact ⟨(), r.shallower, rfl, pure_eq_ok.mpr ⟨rfl, rfl⟩⟩

/-- One entry, after its `"entry"` token, in front of the rest of the loop. -/
lemma parseEntry_eq_ok {fuel : ℕ} (hnode : NodeLaw fuel) (hr : r.InRange)
    {lastName : Option String} {f : String → NarNode → NarM NarNode} {n : NarNode} :
    (do
        expectStr "("
        expectStr "name"
        let name ← readStr
        checkName lastName name
        expectStr "node"
        let node ← parseNodeInner fuel
        expectStr ")"
        f name node : NarM NarNode) r = .ok (n, r') ↔
      ∃ (name : String) (node : NarNode),
        ((ValidEntryName name ∧ FitsToken (utf8 name)) ∧ ∀ prev ∈ lastName, nameLt prev name) ∧
        (node.fuel ≤ fuel ∧ node.WellFormed r.room) ∧
        narStr "(" ++ (narStr "name" ++ (narStr name ++ (narStr "node" ++
          (node.encode ++ narStr ")")))) <+: r.inner ∧
        f name node (r.advance (narStr "(" ++ (narStr "name" ++ (narStr name ++ (narStr "node" ++
          (node.encode ++ narStr ")")))))) = .ok (n, r') := by
  rw [expectStr_bind (by decide), expectStr_bind (by decide), readStr_reads.bind_eq_ok]
  simp only [Reader.bind_eq_ok (p := checkName _ _), checkName_eq_ok, input_eq, advance_eq]
  constructor
  · rintro ⟨h₁, h₂, name, hfit, h₃, u, r₁, ⟨hvalid, hlast, rfl⟩, h⟩
    rw [expectStr_bind (by decide), Reader.bind_eq_ok] at h
    obtain ⟨h₄, node, r₂, hn, h⟩ := h
    obtain ⟨hfuel, hwf, h₅, rfl⟩ := (hnode _ _ _ (by simpa using hr)).mp hn
    rw [expectStr_bind (by decide)] at h
    refine ⟨name, node, ⟨⟨hvalid, hfit⟩, hlast⟩, ⟨hfuel, by simpa using hwf⟩, ?_, ?_⟩
    · simp only [prefix_inner_advance]
      exact ⟨h₁, h₂, h₃, h₄, h₅, h.1⟩
    · simpa only [advance_append] using h.2
  · rintro ⟨name, node, ⟨⟨hvalid, hfit⟩, hlast⟩, ⟨hfuel, hwf⟩, hpre, h⟩
    simp only [prefix_inner_advance] at hpre
    obtain ⟨h₁, h₂, h₃, h₄, h₅, h₆⟩ := hpre
    refine ⟨h₁, h₂, name, hfit, h₃, (), _, ⟨hvalid, hlast, rfl⟩, ?_⟩
    rw [expectStr_bind (by decide), Reader.bind_eq_ok]
    refine ⟨h₄, node, _, (hnode _ _ _ (by simpa using hr)).mpr
      ⟨hfuel, by simpa using hwf, h₅, rfl⟩, ?_⟩
    rw [expectStr_bind (by decide)]
    exact ⟨h₆, by simpa only [advance_append] using h⟩

lemma entriesLaw_succ {fuel : ℕ} (hnode : NodeLaw fuel) (hentries : EntriesLaw fuel) :
    EntriesLaw (fuel + 1) := by
  intro r r' lastName acc n hr
  rw [parseEntries, readStr_reads.bind_eq_ok]
  simp only [input_eq, advance_eq]
  constructor
  · rintro ⟨next, -, hpre, h⟩
    split at h
    · next hclose =>
        subst hclose
        obtain ⟨rfl, rfl⟩ := closeEntries_eq_ok.mp h
        refine ⟨[], by simp, by simp [entriesFuel], ?_, trivial, hpre, rfl⟩
        cases lastName <;> simp
    · split at h
      · exact absurd h throw_ne_ok
      · next hentry =>
          obtain rfl : next = "entry" := not_not.mp hentry
          obtain ⟨name, node, hname, hnd, hpre', h⟩ :=
            (parseEntry_eq_ok hnode (by simpa using hr)).mp h
          obtain ⟨es, rfl, hfuel, hchain, hwf, hes, rfl⟩ :=
            (hentries _ _ _ _ _ (by simpa using hr)).mp h
          refine ⟨⟨name, node⟩ :: es, by simp, ?_, ?_, ?_, ?_, ?_⟩
          · simp only [entriesFuel]
            omega
          · exact isChain_option_append.mpr ⟨hname.2, hchain⟩
          · exact ⟨hname.1, by simpa using hnd.2, by simpa using hwf⟩
          · simp only [encodeEntries, List.append_assoc, prefix_inner_advance] at hpre' hes ⊢
            simp only [advance_append] at hes
            tauto
          · simp only [encodeEntries, List.append_assoc, advance_append]
  · rintro ⟨es, rfl, hfuel, hchain, hwf, hpre, rfl⟩
    cases es with
    | nil =>
        refine ⟨")", by decide, hpre, ?_⟩
        rw [if_pos rfl, closeEntries_eq_ok]
        simp [encodeEntries]
    | cons e es =>
        obtain ⟨name, node⟩ := e
        obtain ⟨hlast, hchain⟩ := isChain_option_append.mp hchain
        obtain ⟨hname, hnode', hwf⟩ := hwf
        simp only [entriesFuel] at hfuel
        simp only [encodeEntries, List.append_assoc, prefix_inner_advance] at hpre
        obtain ⟨h₀, h₁, h₂, h₃, h₄, h₅, h₆, h₇, h₈⟩ := hpre
        refine ⟨"entry", by decide, h₀, ?_⟩
        rw [if_neg (by decide), if_neg (by decide),
          parseEntry_eq_ok hnode (by simpa using hr)]
        refine ⟨name, node, ⟨hname, hlast⟩, ⟨by omega, by simpa using hnode'⟩, ?_, ?_⟩
        · simp only [prefix_inner_advance]
          exact ⟨h₁, h₂, h₃, h₄, h₅, h₆⟩
        · refine (hentries _ _ _ _ _ (by simpa using hr)).mpr
            ⟨es, by simp, by omega, hchain, by simpa using hwf, ?_, ?_⟩
          · simp only [prefix_inner_advance, advance_append]
            exact ⟨h₇, h₈⟩
          · simp only [encodeEntries, List.append_assoc, advance_append]

lemma directoryLaw_succ {fuel : ℕ} (hentries : EntriesLaw fuel) : DirectoryLaw (fuel + 1) := by
  intro r r' n hr
  rw [parseDirectory, Reader.bind_eq_ok]
  simp only [enterDirectory_eq_ok hr]
  constructor
  · rintro ⟨u, r₁, ⟨hroom, rfl⟩, h⟩
    obtain ⟨es, rfl, hfuel, hchain, hwf, hpre, rfl⟩ :=
      (hentries _ _ _ _ _ (inRange_deeper hr hroom)).mp h
    rw [room_deeper hr] at hwf
    refine ⟨es, by simp, by omega, wellFormed_directory.mpr ⟨hroom, by simpa using hchain, hwf⟩,
      hpre, deeper_advance_shallower _⟩
  · rintro ⟨es, rfl, hfuel, hwf, hpre, rfl⟩
    obtain ⟨hroom, hchain, hes⟩ := wellFormed_directory.mp hwf
    refine ⟨(), r.deeper, ⟨hroom, rfl⟩, (hentries _ _ _ _ _ (inRange_deeper hr hroom)).mpr
      ⟨es, by simp, by omega, by simpa using hchain, ?_, hpre,
        (deeper_advance_shallower _).symm⟩⟩
    rw [room_deeper hr]
    exact hes

/-! ## One node -/

/-- A file or symlink body and its `")"`. -/
lemma closed_eq_ok {body : NarM NarNode} {n : NarNode} :
    (do let n ← body; expectStr ")"; pure n : NarM NarNode) r = .ok (n, r') ↔
      ∃ r₁, body r = .ok (n, r₁) ∧ narStr ")" <+: r₁.inner ∧ r' = r₁.advance (narStr ")") := by
  have hfit : FitsToken (utf8 ")") := by decide
  rw [Reader.bind_eq_ok]
  simp only [expectStr_bind hfit, pure_eq_ok]
  constructor
  · rintro ⟨n', r₁, hbody, hpre, rfl, rfl⟩
    exact ⟨r₁, hbody, hpre, rfl⟩
  · rintro ⟨r₁, hbody, hpre, rfl⟩
    exact ⟨n, r₁, hbody, hpre, rfl, rfl⟩

/-- The type token in front of the dispatch of either node parser. -/
lemma typeToken_eq_ok {f : String → NarM NarNode} {n : NarNode} :
    (do expectStr "("; expectStr "type"; let typeStr ← readStr; f typeStr : NarM NarNode) r
        = .ok (n, r') ↔
      ∃ typeStr, FitsToken (utf8 typeStr) ∧
        narStr "(" ++ (narStr "type" ++ narStr typeStr) <+: r.inner ∧
        f typeStr (r.advance (narStr "(" ++ (narStr "type" ++ narStr typeStr)))
          = .ok (n, r') := by
  rw [expectStr_bind (by decide), expectStr_bind (by decide), readStr_reads.bind_eq_ok]
  simp only [prefix_inner_advance, advance_append, input_eq, advance_eq]
  constructor
  · rintro ⟨h₁, h₂, t, hfit, h₃, h⟩
    exact ⟨t, hfit, ⟨h₁, h₂, h₃⟩, h⟩
  · rintro ⟨t, hfit, ⟨h₁, h₂, h₃⟩, h⟩
    exact ⟨h₁, h₂, t, hfit, h₃, h⟩

lemma nodeLaw_succ {fuel : ℕ} (hdir : DirectoryLaw fuel) : NodeLaw (fuel + 1) := by
  intro r r' t hr
  rw [parseNodeInner, typeToken_eq_ok]
  constructor
  · rintro ⟨typeStr, -, hpre, h⟩
    simp only [prefix_inner_advance] at hpre
    split at h
    · next htype =>
        subst htype
        obtain ⟨r₁, hparse, hclose, rfl⟩ := closed_eq_ok.mp h
        obtain ⟨e, c, rfl, hfit, hbody, rfl⟩ := parseRegular_eq_ok.mp hparse
        refine ⟨by simp [NarNode.fuel], hfit, ?_, ?_⟩
        · simp only [NarNode.encode, prefix_inner_advance, advance_append] at hbody hclose ⊢
          tauto
        · simp only [NarNode.encode, advance_append]
    split at h
    · next htype =>
        subst htype
        obtain ⟨r₁, hparse, hclose, rfl⟩ := closed_eq_ok.mp h
        obtain ⟨target, rfl, hfit, hbody, rfl⟩ := parseSymlink_eq_ok.mp hparse
        refine ⟨by simp [NarNode.fuel], hfit, ?_, ?_⟩
        · simp only [NarNode.encode, prefix_inner_advance, advance_append] at hbody hclose ⊢
          tauto
        · simp only [NarNode.encode, advance_append]
    split at h
    · next htype =>
        subst htype
        obtain ⟨es, rfl, hfuel, hwf, hbody, rfl⟩ := (hdir _ _ _ (by simpa using hr)).mp h
        refine ⟨by simp only [NarNode.fuel]; omega, by simpa using hwf, ?_, ?_⟩
        · simp only [NarNode.encode, prefix_inner_advance, advance_append] at hbody ⊢
          tauto
        · simp only [NarNode.encode, advance_append]
    · exact absurd h throw_ne_ok
  · rintro ⟨hfuel, hwf, hpre, rfl⟩
    cases t with
    | regular e c =>
        simp only [NarNode.encode, prefix_inner_advance] at hpre
        obtain ⟨h₁, h₂, h₃, h₄, h₅⟩ := hpre
        refine ⟨"regular", by decide, by simp only [prefix_inner_advance]; tauto, ?_⟩
        rw [if_pos rfl, closed_eq_ok]
        refine ⟨_, parseRegular_eq_ok.mpr ⟨e, c, rfl, hwf, ?_, rfl⟩, ?_, ?_⟩ <;>
          simp only [NarNode.encode, advance_append] <;> assumption
    | symlink target =>
        simp only [NarNode.encode, prefix_inner_advance] at hpre
        obtain ⟨h₁, h₂, h₃, h₄, h₅⟩ := hpre
        refine ⟨"symlink", by decide, by simp only [prefix_inner_advance]; tauto, ?_⟩
        rw [if_neg (by decide), if_pos rfl, closed_eq_ok]
        refine ⟨_, parseSymlink_eq_ok.mpr ⟨target, rfl, hwf, ?_, rfl⟩, ?_, ?_⟩ <;>
          simp only [NarNode.encode, advance_append] <;> assumption
    | directory es =>
        simp only [NarNode.encode, prefix_inner_advance] at hpre
        obtain ⟨h₁, h₂, h₃, h₄⟩ := hpre
        simp only [NarNode.fuel] at hfuel
        refine ⟨"directory", by decide, by simp only [prefix_inner_advance]; tauto, ?_⟩
        rw [if_neg (by decide), if_neg (by decide), if_pos rfl]
        refine (hdir _ _ _ (by simpa using hr)).mpr
          ⟨es, rfl, by omega, by simpa using hwf, ?_, ?_⟩
        · simp only [prefix_inner_advance, advance_append]
          exact h₄
        · simp only [NarNode.encode, advance_append]

/-! ## The laws at every amount of fuel -/

lemma entriesFuel_pos : ∀ es : List NarEntry, 0 < entriesFuel es
  | [] => by simp [entriesFuel]
  | ⟨_, _⟩ :: _ => by simp [entriesFuel]

lemma nodeFuel_pos (t : NarNode) : 0 < t.fuel := by
  cases t <;> simp [NarNode.fuel]

/-- The three laws, by induction on the fuel: each call of the recursion spends one unit. -/
theorem narLaws (fuel : ℕ) : NodeLaw fuel ∧ EntriesLaw fuel ∧ DirectoryLaw fuel := by
  induction fuel with
  | zero =>
      refine ⟨?_, ?_, ?_⟩
      · intro r r' t _
        have ht := nodeFuel_pos t
        rw [parseNodeInner]
        exact ⟨fun h => absurd h throw_ne_ok, fun h => by omega⟩
      · intro r r' lastName acc n _
        rw [parseEntries]
        refine ⟨fun h => absurd h throw_ne_ok, fun ⟨es, _, h, _⟩ => ?_⟩
        have hes := entriesFuel_pos es
        omega
      · intro r r' n _
        rw [parseDirectory]
        exact ⟨fun h => absurd h throw_ne_ok, fun ⟨es, _, h, _⟩ => by omega⟩
  | succ fuel ih =>
      obtain ⟨hnode, hentries, hdir⟩ := ih
      exact ⟨nodeLaw_succ hdir, entriesLaw_succ hnode hentries, directoryLaw_succ hentries⟩

/-! ## The root node

The parser of the root is the other one with one more token behind a directory, so its law follows.
-/

/-- A file or a symlink is never mistaken for a directory. -/
lemma isDirectory_of_parse {n : NarNode} :
    (parseRegular r = .ok (n, r') → n.isDirectory = false) ∧
      (parseSymlink r = .ok (n, r') → n.isDirectory = false) := by
  constructor
  · intro h
    obtain ⟨e, c, rfl, -⟩ := parseRegular_eq_ok.mp h
    rfl
  · intro h
    obtain ⟨t, rfl, -⟩ := parseSymlink_eq_ok.mp h
    rfl

/-- **The two node parsers differ on directories only**: `parse_node` reads what
`parse_node_inner` reads, and after a directory one more `")"`, although the directory has
consumed its own. -/
theorem parseNode_eq_ok_iff_inner {fuel : ℕ} {t : NarNode} (hr : r.InRange) :
    parseNode fuel r = .ok (t, r') ↔
      ∃ r₁, parseNodeInner (fuel + 1) r = .ok (t, r₁) ∧
        if t.isDirectory then narStr ")" <+: r₁.inner ∧ r' = r₁.advance (narStr ")")
        else r' = r₁ := by
  rw [parseNode, parseNodeInner]
  simp only [typeToken_eq_ok]
  constructor
  · rintro ⟨typeStr, hfit, hpre, h⟩
    split at h
    · next htype =>
        obtain ⟨r₁, hbody, -⟩ := closed_eq_ok.mp h
        refine ⟨r', ⟨typeStr, hfit, hpre, by rw [if_pos htype]; exact h⟩, ?_⟩
        rw [isDirectory_of_parse.1 hbody]
        rfl
    split at h
    · next hreg htype =>
        obtain ⟨r₁, hbody, -⟩ := closed_eq_ok.mp h
        refine ⟨r', ⟨typeStr, hfit, hpre, by rw [if_neg hreg, if_pos htype]; exact h⟩, ?_⟩
        rw [isDirectory_of_parse.2 hbody]
        rfl
    split at h
    · next hreg hsym htype =>
        obtain ⟨r₁, hbody, hclose, rfl⟩ := closed_eq_ok.mp h
        obtain ⟨es, rfl, -⟩ := ((narLaws fuel).2.2 _ _ _ (by simpa using hr)).mp hbody
        refine ⟨r₁, ⟨typeStr, hfit, hpre, ?_⟩, hclose, rfl⟩
        rw [if_neg hreg, if_neg hsym, if_pos htype]
        exact hbody
    · obtain ⟨_, _, hthrow, -⟩ := Reader.bind_eq_ok.mp h
      exact absurd hthrow throw_ne_ok
  · rintro ⟨r₁, ⟨typeStr, hfit, hpre, h⟩, hclose⟩
    refine ⟨typeStr, hfit, hpre, ?_⟩
    split at h
    · next htype =>
        obtain ⟨r₂, hbody, -⟩ := closed_eq_ok.mp h
        rw [isDirectory_of_parse.1 hbody] at hclose
        obtain rfl : r' = r₁ := hclose
        rw [if_pos htype]
        exact h
    split at h
    · next hreg htype =>
        obtain ⟨r₂, hbody, -⟩ := closed_eq_ok.mp h
        rw [isDirectory_of_parse.2 hbody] at hclose
        obtain rfl : r' = r₁ := hclose
        rw [if_neg hreg, if_pos htype]
        exact h
    split at h
    · next hreg hsym htype =>
        obtain ⟨es, rfl, -⟩ := ((narLaws fuel).2.2 _ _ _ (by simpa using hr)).mp h
        rw [if_neg hreg, if_neg hsym, if_pos htype, closed_eq_ok]
        exact ⟨r₁, h, hclose⟩
    · exact absurd h throw_ne_ok

/-- What `parse_node` reads for a root. -/
def rootEncode (t : NarNode) : List UInt8 :=
  t.encode ++ if t.isDirectory then narStr ")" else []

/-- **The law of `parse_node`.** -/
theorem parseNode_eq_ok {fuel : ℕ} {t : NarNode} (hr : r.InRange) :
    parseNode fuel r = .ok (t, r') ↔
      t.fuel ≤ fuel + 1 ∧ t.WellFormed r.room ∧ rootEncode t <+: r.inner ∧
        r' = r.advance (rootEncode t) := by
  rw [parseNode_eq_ok_iff_inner hr, rootEncode]
  simp only [(narLaws (fuel + 1)).1 _ _ _ hr]
  cases t.isDirectory with
  | false =>
      simp only [Bool.false_eq_true, if_false, List.append_nil]
      constructor
      · rintro ⟨r₁, ⟨hfuel, hwf, hpre, rfl⟩, rfl⟩
        exact ⟨hfuel, hwf, hpre, rfl⟩
      · rintro ⟨hfuel, hwf, hpre, rfl⟩
        exact ⟨_, ⟨hfuel, hwf, hpre, rfl⟩, rfl⟩
  | true =>
      simp only [if_true, prefix_inner_advance, advance_append]
      constructor
      · rintro ⟨r₁, ⟨hfuel, hwf, hpre, rfl⟩, hend, rfl⟩
        exact ⟨hfuel, hwf, ⟨hpre, hend⟩, rfl⟩
      · rintro ⟨hfuel, hwf, ⟨hpre, hend⟩, rfl⟩
        exact ⟨_, ⟨hfuel, hwf, hpre, rfl⟩, hend, rfl⟩

/-! ## The archive -/

/-- What `parse` reads for a tree: the magic and the root node. -/
def archiveEncode (t : NarNode) : List UInt8 := narStr narMagic ++ rootEncode t

lemma archiveEncode_eq (t : NarNode) :
    archiveEncode t = narEncode t ++ if t.isDirectory then narStr ")" else [] := by
  rw [archiveEncode, rootEncode, narEncode, List.append_assoc]

lemma fuel_le_of_prefix {t : NarNode} {b : List UInt8} (h : archiveEncode t <+: b) :
    t.fuel ≤ b.length := by
  have hlen := h.length_le
  have ht := t.fuel_le_length
  simp only [archiveEncode, rootEncode, List.length_append] at hlen
  omega

lemma parse_of_error {sha256 : List UInt8 → List UInt8} {r : NarReader} {fuel : ℕ}
    {e : NiphasError} (hfuel : fuel = r.inner.length + 1) (h : parseArchive fuel r = .error e) :
    parse sha256 r = .error e := by
  subst hfuel
  simp only [parse, h]

lemma parse_of_ok {sha256 : List UInt8 → List UInt8} {r r' : NarReader} {fuel : ℕ} {t : NarNode}
    (hfuel : fuel = r.inner.length + 1) (h : parseArchive fuel r = .ok (t, r')) :
    parse sha256 r = .ok (t, { algo := .sha256, digest := sha256 r'.hashed }) := by
  subst hfuel
  simp only [parse, h]

/-- **The law of `parse`**, on a fresh reader with any limit at which the counter cannot wrap:
it succeeds just when the stream starts with an archive of a well-formed tree, and then the hash
is the SHA-256 of that archive.  What follows the archive in the stream is not looked at. -/
theorem parse_eq_ok {sha256 : List UInt8 → List UInt8} {b : List UInt8} {maxDepth : UInt16}
    (hmax : maxDepth.toNat < 65535) {t : NarNode} {h : NixHash} :
    parse sha256 ((new b).withMaxDepth maxDepth) = .ok (t, h) ↔
      t.WellFormed maxDepth.toNat ∧ archiveEncode t <+: b ∧
        h = { algo := .sha256, digest := sha256 (archiveEncode t) } := by
  have hr : ((new b).withMaxDepth maxDepth).InRange := ⟨Nat.zero_le _, hmax⟩
  have harchive : ∀ r', parseArchive (b.length + 1) ((new b).withMaxDepth maxDepth) = .ok (t, r') ↔
      t.WellFormed maxDepth.toNat ∧ archiveEncode t <+: b ∧
        r' = ((new b).withMaxDepth maxDepth).advance (archiveEncode t) := by
    intro r'
    rw [parseArchive, expectStr_bind (by decide), parseNode_eq_ok (by simpa using hr)]
    simp only [archiveEncode, advance_append]
    constructor
    · rintro ⟨hmagic, -, hwf, hroot, rfl⟩
      exact ⟨hwf, (prefix_inner_advance (r := (new b).withMaxDepth maxDepth)).mpr
        ⟨hmagic, hroot⟩, rfl⟩
    · rintro ⟨hwf, hpre, rfl⟩
      have hfuel := fuel_le_of_prefix hpre
      obtain ⟨hmagic, hroot⟩ :=
        (prefix_inner_advance (r := (new b).withMaxDepth maxDepth)).mp hpre
      exact ⟨hmagic, by omega, hwf, hroot, rfl⟩
  have hfuel : b.length + 1 = ((new b).withMaxDepth maxDepth).inner.length + 1 := rfl
  cases hp : parseArchive (b.length + 1) ((new b).withMaxDepth maxDepth) with
  | error e =>
      rw [parse_of_error hfuel hp]
      simp only [reduceCtorEq, false_iff, not_and]
      intro hwf hpre _
      have := (harchive _).mpr ⟨hwf, hpre, rfl⟩
      rw [hp] at this
      cases this
  | ok res =>
      obtain ⟨node, r'⟩ := res
      rw [parse_of_ok hfuel hp]
      simp only [Except.ok.injEq, Prod.mk.injEq]
      rw [hp] at harchive
      simp only [Except.ok.injEq, Prod.mk.injEq] at harchive
      constructor
      · rintro ⟨rfl, rfl⟩
        obtain ⟨hwf, hpre, hr'⟩ := (harchive r').mp ⟨rfl, rfl⟩
        refine ⟨hwf, hpre, ?_⟩
        rw [hr']
        rfl
      · rintro ⟨hwf, hpre, rfl⟩
        obtain ⟨rfl, hr'⟩ := (harchive _).mpr ⟨hwf, hpre, rfl⟩
        refine ⟨rfl, ?_⟩
        rw [hr']
        rfl

end NarReader

end Niphas
