import Niphas.Csi.CacheWorld

/-!
# Extraction, among other tasks

What `cache.rs` does under the mutex of a path, as pre- and postconditions over the rules of the
cache.  A call inside the temporary directory changes nothing else, so the tree that grows there is
only this task's: it ends as the tree of the NAR, and is then moved to its place as a whole.

The proof follows the code.  `extract_node` is recursive over the tree of the NAR, and so is its
triple: at a vacant place of the tree that grows, it puts the tree of the node.  What makes a step
go through is that the path of an entry leads to the entry, and this depends on what is above it.
`Entering` says that a directory has the entries put in so far and no others, and `DirTree` that a
way through real directories leads to itself, whatever the others do elsewhere.  That no name occurs
twice in a directory is a property of what the reader accepts.

An attempt may end early, by an error at any of its calls.  Then nothing has been moved, and nothing
is said about the temporary directory, which may be left as it is.

* `triple_local` — the rule for a call inside the temporary directory.
* `extractNode_triple` — `extract_node` turns a vacant place into the tree of the node, by induction
  on the node, with the entries of a directory put in one by one.
* `fetchAndExtract_triple` — one attempt as a whole.
-/

namespace Niphas

open FileSystem RelyGuarantee

variable {lib : Libraries} {cacheDir : String} {d : Path} {fs₀ : FS}
  {Good : String → NarInfo → Prop} {p pid : ℕ} {b : String} {t : FS} {w w' : CacheWorld}

/-! ## Steps -/

/-- Two entries of a directory lie side by side. -/
lemma not_prefix_entry {d : Path} {m n : String} (h : m ≠ n) (r : Path) :
    ¬ d ++ [m] <+: d ++ [n] ++ r := by
  rw [List.append_assoc, List.prefix_append_right_inj, List.singleton_append,
    List.cons_prefix_cons]
  exact fun hpre => h hpre.1

/-- A change in the temporary directory of a path whose mutex the task holds. -/
lemma CacheInv.local_step (h : CacheInv lib cacheDir d fs₀ Good w) (hw : Holding p b w) {fs' : FS}
    (hfs' : SameBut (tmpPath d b w.pid) w.fs fs') :
    CacheInv lib cacheDir d fs₀ Good { w with fs := fs' } ∧
      CacheGuar d p w { w with fs := fs' } := by
  refine ⟨⟨h.owned.sameBut (List.cons_ne_nil _ _) hfs', h.good, h.free, fun name hname => ?_⟩,
    fun q hq => ⟨id, fun hs => ⟨hs, rfl⟩, fun _ b' hb' => ⟨hb', ?_⟩, fun _ _ h => h⟩,
    fun _ => .inr ⟨b, hw.lock, .inl hfs'⟩, fun _ _ h => h⟩
  · -- an entry that is not a temporary directory is another one
    have hsub : subtree fs' (d ++ [name]) = subtree w.fs (d ++ [name]) :=
      hfs'.subtree_eq (not_prefix_entry fun heq => hname (heq ▸ isTmp_tmpName b w.pid))
    rw [hsub]
    exact h.entries name hname
  · -- the temporary directory of another task is another one
    have hne : tmpName b w.pid ≠ tmpName b' w.pid := by
      intro heq
      have hbb : b = b' := tmpName_injective w.pid heq
      rw [← hbb, hw.lock, Option.some.injEq] at hb'
      exact hq hb'.symm
    exact hfs'.subtree_eq (not_prefix_entry hne)

/-- The extracted tree is moved to its place. -/
lemma CacheInv.publish_step (h : CacheInv lib cacheDir d fs₀ Good w) (hw : Holding p b w)
    (hb : ¬ IsTmp b) (hsome : w.fs (tmpPath d b w.pid) ≠ none)
    (hintact : w.Intact lib b (subtree w.fs (tmpPath d b w.pid))) :
    let fs' := moveTree w.fs (tmpPath d b w.pid) (d ++ [b])
    CacheInv lib cacheDir d fs₀ Good { w with fs := fs' } ∧
      CacheGuar d p w { w with fs := fs' } := by
  have hne : b ≠ tmpName b w.pid := fun heq => hb (heq ▸ isTmp_tmpName b w.pid)
  have hremove : SameBut (tmpPath d b w.pid) w.fs (removeTree w.fs (tmpPath d b w.pid)) :=
    sameBut_graft _ _ _
  have hput : SameBut (d ++ [b]) (removeTree w.fs (tmpPath d b w.pid))
      (moveTree w.fs (tmpPath d b w.pid) (d ++ [b])) := sameBut_graft _ _ _
  -- what stands beside both
  have hother : ∀ name, name ≠ b → name ≠ tmpName b w.pid →
      subtree (moveTree w.fs (tmpPath d b w.pid) (d ++ [b])) (d ++ [name]) =
        subtree w.fs (d ++ [name]) := fun name hnb hnt =>
    (hput.subtree_eq (not_prefix_entry (Ne.symm hnb))).trans
      (hremove.subtree_eq (not_prefix_entry (Ne.symm hnt)))
  refine ⟨⟨?_, h.good, h.free, fun name hname => ?_⟩,
    fun q hq => ⟨id, fun hs => ⟨hs, rfl⟩, fun _ b' hb' => ⟨hb', ?_⟩, fun _ _ h => h⟩,
    fun _ => .inr ⟨b, hw.lock, .inr ⟨hsome, ?_⟩⟩, fun _ _ h => h⟩
  · exact (h.owned.sameBut (List.cons_ne_nil _ _) hremove).sameBut (List.cons_ne_nil _ _) hput
  · by_cases hnb : name = b
    · subst hnb
      right
      have hsub : subtree (moveTree w.fs (tmpPath d name w.pid) (d ++ [name])) (d ++ [name]) =
          subtree w.fs (tmpPath d name w.pid) := subtree_graft _ _ _
      rw [hsub]
      exact hintact
    · rw [hother name hnb fun heq => hname (heq ▸ isTmp_tmpName b w.pid)]
      exact h.entries name hname
  · refine hother _ (fun heq => hb (heq ▸ isTmp_tmpName b' w.pid)) fun heq => ?_
    have hbb : b' = b := tmpName_injective w.pid heq
    rw [hbb, hw.lock, Option.some.injEq] at hb'
    exact hq hb'.symm
  · have hnot : ¬ d ++ [b] <+: tmpPath d b w.pid := by
      have h := not_prefix_entry (d := d) hne []
      rwa [List.append_nil] at h
    have hself : removeTree w.fs (tmpPath d b w.pid) (tmpPath d b w.pid) = none := by
      have h := graft_append w.fs (tmpPath d b w.pid) (fun _ => none) []
      rwa [List.append_nil] at h
    exact (graft_outside _ hnot _).trans hself

/-! ## Calls in the temporary directory -/

namespace Working

variable {q : Path}

/-- A way below the temporary directory. -/
lemma through (hw : Working d p b pid t w) (ho : Owned fs₀ cacheDir d w.fs)
    (hb : IsName (tmpName b pid)) (h : Through t q) :
    Through (subtree w.fs d) (tmpName b pid :: q) := by
  refine Through.cons ?_ hb.2.2.1 ?_
  · rw [subtree, List.append_nil]
    exact ho.isDir
  · have htree := hw.tree
    rw [tmpPath, ← subtree_subtree] at htree
    rwa [htree]

lemma fs_eq (hw : Working d p b pid t w) (q : Path) : w.fs (d ++ tmpName b pid :: q) = t q := by
  rw [← hw.tree, subtree, tmpPath, List.append_assoc, List.singleton_append]

lemma subtree_set (hw : Working d p b pid t w) (q : Path) (e : Option Entry) :
    subtree (set w.fs (d ++ tmpName b pid :: q) e) (tmpPath d b pid) = set t q e := by
  have hpath : d ++ tmpName b pid :: q = tmpPath d b pid ++ q := by
    rw [tmpPath, List.append_assoc, List.singleton_append]
  rw [hpath, FileSystem.subtree_set, hw.tree]

lemma sameBut {fs' : FS} (h : SameBut (d ++ tmpName b pid :: q) w.fs fs') :
    SameBut (tmpPath d b pid) w.fs fs' := by
  have hpath : d ++ tmpName b pid :: q = tmpPath d b pid ++ q := by
    rw [tmpPath, List.append_assoc, List.singleton_append]
  rw [hpath] at h
  exact h.mono

end Working

/-- **The rule for a call inside the temporary directory.** -/
lemma triple_local {o : FsOp} {post : o.Answer → FS → Prop}
    (h : ∀ w fs' r, Owned fs₀ cacheDir d w.fs → Working d p b pid t w → o.Sem w.fs r fs' →
      CacheAllowed cacheDir d Good p (.fs o) r w →
      SameBut (tmpPath d b pid) w.fs fs' ∧ post r (subtree fs' (tmpPath d b pid))) :
    (cacheRules lib cacheDir d fs₀ Good).Triple p (Working d p b pid t) (cacheOp (.fs o))
      fun r w => ∃ t', post r t' ∧ Working d p b pid t' w := by
  refine Triple.op stable_working
    (fun r => Stable.ex fun t' => (stable_const _).and stable_working) ?_
  rintro w hinv hw r _ ⟨fs', hs, rfl⟩ hallowed
  obtain ⟨hsame, hpost⟩ := h w fs' r hinv.owned hw hs hallowed
  have hstep := hinv.local_step hw.holding (by rwa [hw.pid_eq])
  exact ⟨hstep.1, hstep.2, _, hpost, hw.serving, hw.pid_eq, hw.lock, rfl⟩

/-- The error of a call is passed on. -/
lemma ofIo_triple {r : Except String Unit} {pre post : CacheWorld → Prop}
    (hpost : (cacheRules lib cacheDir d fs₀ Good).Stable p post)
    (hok : r = .ok () → ∀ w, pre w → post w) (herr : ∀ w, pre w → Holding p b w) :
    (cacheRules lib cacheDir d fs₀ Good).TripleExcept p pre (CacheM.ofIo r) (fun _ => post)
      fun _ => Holding p b := by
  rcases r with e | ⟨⟩
  · exact TripleExcept.ofExcept (fun _ _ => hpost) (fun _ => stable_holding)
      fun w _ hpre => herr w hpre
  · exact TripleExcept.ofExcept (fun _ _ => hpost) (fun _ => stable_holding)
      fun w _ hpre => hok rfl w hpre

/-- A call whose error is passed on, and what comes behind it. -/
lemma io_bind {o : FsOp} (f : o.Answer → Except String Unit) {after : FS → Prop} {α : Type}
    {k : Unit → CacheM α} {post : α → CacheWorld → Prop}
    (h : ∀ w fs' r, Owned fs₀ cacheDir d w.fs → Working d p b pid t w → o.Sem w.fs r fs' →
      CacheAllowed cacheDir d Good p (.fs o) r w →
      SameBut (tmpPath d b pid) w.fs fs' ∧ (f r = .ok () → after (subtree fs' (tmpPath d b pid))))
    (hk : ∀ t₁, after t₁ → (cacheRules lib cacheDir d fs₀ Good).TripleExcept p
      (Working d p b pid t₁) (k ()) post fun _ => Holding p b) :
    (cacheRules lib cacheDir d fs₀ Good).TripleExcept p (Working d p b pid t)
      (CacheM.op (.fs o) >>= fun r => CacheM.ofIo (f r) >>= k : CacheM α) post
      fun _ => Holding p b := by
  have hop : (cacheRules lib cacheDir d fs₀ Good).Triple p (Working d p b pid t) (cacheOp (.fs o))
      fun r w => ∃ t', (f r = .ok () → after t') ∧ Working d p b pid t' w := triple_local h
  refine TripleExcept.bind (fun _ => stable_holding)
    (TripleExcept.lift (fun r => Stable.ex fun t' => (stable_const _).and stable_working) hop)
    fun r => ?_
  have hstable : (cacheRules lib cacheDir d fs₀ Good).Stable p fun w =>
      ∃ t', after t' ∧ Working d p b pid t' w :=
    Stable.ex fun t' => (stable_const _).and stable_working
  refine TripleExcept.bind (fun _ => stable_holding)
    (ofIo_triple hstable (fun hr w ⟨t', ht', hw⟩ => ⟨t', ht' hr, hw⟩)
      fun w ⟨t', _, hw⟩ => hw.holding) fun _ => ?_
  rintro w hi ⟨t', ht', hw⟩
  exact hk t' ht' w hi hw

/-- Nothing comes behind it. -/
lemma io_last {o : FsOp} (f : o.Answer → Except String Unit) {t₁ : FS}
    (h : ∀ w fs' r, Owned fs₀ cacheDir d w.fs → Working d p b pid t w → o.Sem w.fs r fs' →
      CacheAllowed cacheDir d Good p (.fs o) r w →
      SameBut (tmpPath d b pid) w.fs fs' ∧
        (f r = .ok () → subtree fs' (tmpPath d b pid) = t₁)) :
    (cacheRules lib cacheDir d fs₀ Good).TripleExcept p (Working d p b pid t)
      (CacheM.op (.fs o) >>= fun r => CacheM.ofIo (f r) : CacheM Unit)
      (fun _ => Working d p b pid t₁) fun _ => Holding p b := by
  have hbind := @io_bind lib _ _ _ _ _ _ _ _ _ f (fun t' => t' = t₁) _ pure
    (fun _ => Working d p b pid t₁) h fun t' ht' => by
      subst ht'
      exact TripleExcept.ofExcept (fun _ _ => stable_working) (fun _ => stable_holding)
        fun _ _ hw => hw
  have heq : (fun r => CacheM.ofIo (f r) >>= pure) = fun r => CacheM.ofIo (f r) :=
    funext fun r => bind_pure _
  rwa [heq] at hbind

/-! ## Extraction -/

/-- There is no symlink at a vacant place. -/
lemma vacant_not_symlink {q : Path} (h : Vacant t q) (target : String) :
    t q ≠ some (.symlink target) := by
  rcases h.self with h | h
  · rw [h]
    exact nofun
  · rw [h]
    exact nofun

section

variable {path : String} {q : Path}

/-- A file is written. -/
lemma regular_triple (hb : IsName b) (hpath : Names cacheDir path (tmpName b pid :: q))
    (hway : Through t q) (hfree : Vacant t q) (executable : Bool) (contents : List UInt8) :
    (cacheRules lib cacheDir d fs₀ Good).TripleExcept p (Working d p b pid t)
      (extractNode (.regular executable contents) path)
      (fun _ => Working d p b pid (graft t q (nodeTree (.regular executable contents))))
      fun _ => Holding p b := by
  have hname := isName_tmpName hb pid
  rw [extractNode]
  -- the mode the file is created with is not known
  refine @io_bind lib _ _ _ _ _ _ _ _ (.write path contents) (fun r => r)
    (fun t' => ∃ mode, t' = set t q (some (.file contents mode))) _ _ _
    (fun w fs' r ho hw hs _ => ?_) ?_
  · have hsem := ho.write_sem hpath (List.cons_ne_nil _ _) (hw.through ho hname hway)
      (fun target => by rw [hw.fs_eq]; exact vacant_not_symlink hfree target) hs
    refine ⟨Working.sameBut hsem.1, fun hr => ?_⟩
    obtain ⟨mode, rfl⟩ := hsem.2 hr
    exact ⟨mode, hw.subtree_set q _⟩
  rintro t' ⟨mode, rfl⟩
  refine @io_last lib _ _ _ _ _ _ _ _ (.setPermissions path (fileMode executable)) (fun r => r) _
    fun w fs' r ho hw hs _ => ?_
  have hset : Through (set t q (some (.file contents mode))) q := by
    refine ⟨hway.1, fun r s hrs hs => ?_⟩
    rw [set_of_ne _ ?_]
    · exact hway.2 r s hrs hs
    · rintro rfl
      exact hs (List.append_right_eq_self.mp hrs.symm)
  have hsem := ho.setPermissions_sem hpath (List.cons_ne_nil _ _) (hw.through ho hname hset)
    ((hw.fs_eq q).trans (set_self _ _ _)) hs
  refine ⟨Working.sameBut hsem.1, fun hr => ?_⟩
  rw [hsem.2 hr, hw.subtree_set, set_set, nodeTree_leaf rfl, nodeTree,
    graft_leaf fun r hr => hfree.below hr]

/-- A symlink is made. -/
lemma symlink_triple (hb : IsName b) (hpath : Names cacheDir path (tmpName b pid :: q))
    (hway : Through t q) (hfree : Vacant t q) (target : String) :
    (cacheRules lib cacheDir d fs₀ Good).TripleExcept p (Working d p b pid t)
      (extractNode (.symlink target) path)
      (fun _ => Working d p b pid (graft t q (nodeTree (.symlink target))))
      fun _ => Holding p b := by
  rw [extractNode]
  refine @io_last lib _ _ _ _ _ _ _ _ (.symlink target path) (fun r => r) _
    fun w fs' r ho hw hs _ => ?_
  have hsem := ho.symlink_sem hpath (List.cons_ne_nil _ _)
    (hw.through ho (isName_tmpName hb pid) hway) hs
  refine ⟨Working.sameBut hsem.1, fun hr => ?_⟩
  rw [hsem.2 hr, hw.subtree_set, nodeTree_leaf rfl, nodeTree,
    graft_leaf fun r hr => hfree.below hr]

/-- A directory is made, unless it is there already. -/
lemma directory_triple (hb : IsName b) (hpath : Names cacheDir path (tmpName b pid :: q))
    (hway : Through t q) (hfree : Vacant t q) {α : Type} {rest : CacheM α}
    {post : α → CacheWorld → Prop}
    (hrest : (cacheRules lib cacheDir d fs₀ Good).TripleExcept p
      (Working d p b pid (graft t q emptyDir)) rest post fun _ => Holding p b) :
    (cacheRules lib cacheDir d fs₀ Good).TripleExcept p (Working d p b pid t)
      (do
        if ← CacheM.op (.fs (.exists path)) then rest
        else
          CacheM.ofIo (← CacheM.op (.fs (.createDirAll path)))
          rest : CacheM α) post fun _ => Holding p b := by
  have hname := isName_tmpName hb pid
  have hexists : (cacheRules lib cacheDir d fs₀ Good).Triple p (Working d p b pid t)
      (cacheOp (.fs (.exists path))) fun r w => ∃ t', (t' = t ∧ (r = true → t q ≠ none)) ∧
        Working d p b pid t' w := by
    refine triple_local fun w fs' r ho hw hs _ => ?_
    have hsem := ho.exists_sem hpath (List.cons_ne_nil _ _) (hw.through ho hname hway)
      (fun target => by rw [hw.fs_eq]; exact vacant_not_symlink hfree target) hs
    rw [hsem.1]
    refine ⟨SameBut.refl _ _, hw.tree, fun hr => ?_⟩
    rw [← hw.fs_eq q]
    exact hsem.2 hr
  refine TripleExcept.bind (fun _ => stable_holding)
    (TripleExcept.lift (fun r => Stable.ex fun t' => (stable_const _).and stable_working) hexists)
    fun r => ?_
  rintro w hi ⟨t', ⟨rfl, hr⟩, hw⟩
  cases r with
  | true =>
      -- what is there is an empty directory
      have hdir : graft t' q emptyDir = t' := by
        rcases hfree with hnone | hempty
        · refine absurd ?_ (hr rfl)
          have h := congrFun hnone []
          rwa [subtree, List.append_nil] at h
        · rw [← hempty, graft_subtree]
      rw [hdir] at hrest
      exact hrest w hi hw
  | false =>
      refine @io_bind lib _ _ _ _ _ _ _ _ (.createDirAll path) (fun r => r)
        (fun t₁ => t₁ = graft t' q emptyDir) _ _ _ (fun w fs' r ho hw hs _ => ?_) ?_ w hi hw
      · have hsem := ho.createDirAll_sem hpath (List.cons_ne_nil _ _) (hw.through ho hname hway)
          (by rw [hw.fs_eq]; exact hfree.self) hs
        refine ⟨Working.sameBut hsem.1, fun hr => ?_⟩
        rw [hsem.2 hr, hw.subtree_set, emptyDir, graft_leaf fun r hr => hfree.below hr]
      · rintro t₁ rfl
        exact hrest

end

/-- The entries of a directory that is there. -/
structure Entering (t : FS) (q : Path) (done : List NarEntry) : Prop where
  way : Through t q
  tree : subtree t q = nodeTree (.directory done)

lemma Entering.isDir {q : Path} {done : List NarEntry} (h : Entering t q done) :
    t q = some .dir := by
  have hroot := congrFun h.tree []
  rwa [subtree, List.append_nil, nodeTree] at hroot

/-- A new entry finds its place vacant. -/
lemma Entering.vacant {q : Path} {done : List NarEntry} (h : Entering t q done) {name : String}
    (hname : name ∉ done.map NarEntry.name) : Vacant t (q ++ [name]) := by
  left
  rw [← subtree_subtree, h.tree]
  funext r
  rw [subtree, List.singleton_append, nodeTree, entriesTree_of_not_mem r hname]
  rfl

/-- A new entry is put in. -/
lemma Entering.put {q : Path} {done : List NarEntry} (h : Entering t q done) {name : String}
    {node : NarNode} (hname : name ∉ done.map NarEntry.name) :
    Entering (graft t (q ++ [name]) (nodeTree node)) q (done ++ [⟨name, node⟩]) := by
  have hgraft : graft t (q ++ [name]) (nodeTree node) =
      graft t q (graft (nodeTree (.directory done)) [name] (nodeTree node)) := by
    rw [← graft_graft, ← h.tree, graft_subtree]
  rw [hgraft, graft_nodeTree_directory hname]
  exact ⟨h.way.graft, subtree_graft _ _ _⟩

mutual

/-- **Extraction of a node** at a vacant place. -/
lemma extractNode_triple (hb : IsName b) :
    ∀ (node : NarNode) {depth : ℕ} {path : String} {q : Path} {t : FS}, node.WellFormed depth →
      Names cacheDir path (tmpName b pid :: q) → Through t q → Vacant t q →
      (cacheRules lib cacheDir d fs₀ Good).TripleExcept p (Working d p b pid t)
        (extractNode node path) (fun _ => Working d p b pid (graft t q (nodeTree node)))
        fun _ => Holding p b
  | .regular executable contents, _, path, q, t, _, hpath, hway, hfree =>
      regular_triple hb hpath hway hfree executable contents
  | .symlink target, _, path, q, t, _, hpath, hway, hfree =>
      symlink_triple hb hpath hway hfree target
  | .directory entries, 0, path, q, t, hwf, hpath, hway, hfree => hwf.elim
  | .directory entries, depth + 1, path, q, t, hwf, hpath, hway, hfree => by
      rw [extractNode]
      refine directory_triple hb hpath hway hfree ?_
      have hentering : Entering (graft t q emptyDir) q [] :=
        ⟨hway.graft, by rw [subtree_graft, nodeTree_empty]⟩
      have h := extractEntries_triple hb entries hwf.2 hpath hentering
        (by simpa only [List.nil_append] using hwf.1)
      simpa only [graft_graft_self, List.nil_append] using h

/-- **Extraction of entries** into a directory. -/
lemma extractEntries_triple (hb : IsName b) :
    ∀ (rest : List NarEntry) {depth : ℕ} {path : String} {q : Path} {t : FS}
      {done : List NarEntry}, EntriesWellFormed depth rest →
      Names cacheDir path (tmpName b pid :: q) → Entering t q done →
      ((done ++ rest).map NarEntry.name).IsChain NarReader.nameLt →
      (cacheRules lib cacheDir d fs₀ Good).TripleExcept p (Working d p b pid t)
        (extractEntries rest path)
        (fun _ => Working d p b pid (graft t q (nodeTree (.directory (done ++ rest)))))
        fun _ => Holding p b
  | [], _, path, q, t, done, _, hpath, hent, hchain => by
      rw [extractEntries, List.append_nil, ← hent.tree, graft_subtree]
      exact TripleExcept.ofExcept (fun _ _ => stable_working) (fun _ => stable_holding)
        fun _ _ hw => hw
  | ⟨name, node⟩ :: rest, _, path, q, t, done, hwf, hpath, hent, hchain => by
      obtain ⟨⟨hname, -⟩, hnode, hrest⟩ := hwf
      have hnew := not_mem_of_isChain hchain
      rw [extractEntries]
      refine TripleExcept.bind (fun _ => stable_holding)
        (extractNode_triple hb node hnode (hpath.join hname)
          (hent.way.snoc hent.isDir hname.2.2.1) (hent.vacant hnew)) fun _ => ?_
      have happ : done ++ [⟨name, node⟩] ++ rest = done ++ ⟨name, node⟩ :: rest := by
        rw [List.append_assoc, List.singleton_append]
      have h := extractEntries_triple hb rest hrest hpath (hent.put hnew)
        (by rwa [happ])
      rwa [happ, graft_graft_below] at h

end

/-! ## One attempt -/

/-- The name of the temporary directory, as a path. -/
lemma names_tmp (hdir : HomeDir fs₀ cacheDir d) (hb : IsName b) :
    Names cacheDir (joinPath cacheDir (tmpName b pid)) [tmpName b pid] :=
  hdir.names.join (isName_tmpName hb pid)

/-- A value is passed on, or an error is. -/
lemma ofResult_triple {α : Type} {r : Result α} {pre : CacheWorld → Prop}
    {post : α → CacheWorld → Prop}
    (hpost : ∀ a, (cacheRules lib cacheDir d fs₀ Good).Stable p (post a))
    (hok : ∀ a, r = .ok a → ∀ w, pre w → post a w) (herr : ∀ w, pre w → Holding p b w) :
    (cacheRules lib cacheDir d fs₀ Good).TripleExcept p pre (CacheM.ofResult r) post
      fun _ => Holding p b := by
  refine TripleExcept.ofExcept (fun a _ => hpost a) (fun _ => stable_holding) fun w _ hw => ?_
  cases r with
  | ok a => exact hok a rfl w hw
  | error e => exact herr w hw

/-- The temporary directory is removed, if that succeeds. -/
lemma discardDir_triple (hb : IsName b) :
    (cacheRules lib cacheDir d fs₀ Good).TripleExcept p (Working d p b pid t)
      (CacheM.discardDir (joinPath cacheDir (tmpName b pid))) (fun _ => Holding p b)
      fun _ => Holding p b := by
  have hop : (cacheRules lib cacheDir d fs₀ Good).Triple p (Working d p b pid t)
      (cacheOp (.fs (.removeDirAll (joinPath cacheDir (tmpName b pid))))) fun _ w =>
        ∃ t', True ∧ Working d p b pid t' w := by
    refine triple_local fun w fs' r ho hw hs _ => ⟨?_, trivial⟩
    exact ho.removeDirAll_sem (names_tmp ho.first hb) (List.cons_ne_nil _ _)
      (hw.through ho (isName_tmpName hb pid) (through_nil _)) hs
  refine TripleExcept.bind (fun _ => stable_holding)
    (TripleExcept.lift (fun r => Stable.ex fun t' => (stable_const _).and stable_working) hop)
    fun _ => TripleExcept.ofExcept (fun _ _ => stable_holding) (fun _ => stable_holding) ?_
  rintro w - ⟨t', -, hw⟩
  exact hw.holding

/-- The extracted tree takes its place, or stays where it is. -/
lemma rename_triple (hb : IsName b) (hnt : ¬ IsTmp b) {info : NarInfo} {node : NarNode}
    (hnar : MatchesNar lib info node) :
    (cacheRules lib cacheDir d fs₀ Good).Triple p
      (fun w => Working d p b pid (nodeTree node) w ∧ w.fetched b info)
      (cacheOp (.fs (.rename (joinPath cacheDir (tmpName b pid)) (joinPath cacheDir b))))
      fun r w => Holding p b w ∧ ∀ e, r = .error e → Working d p b pid (nodeTree node) w := by
  refine Triple.op (stable_working.and stable_fetched)
    (fun r => stable_holding.and (Stable.all fun e => Stable.imp stable_working)) ?_
  rintro w hinv ⟨hw, hfetched⟩ r _ ⟨fs', hs, rfl⟩ -
  have ho := hinv.owned
  have hroot : subtree w.fs d [] = some .dir := by
    rw [subtree, List.append_nil]
    exact ho.isDir
  rcases ho.rename_sem (names_tmp ho.first hb) (List.cons_ne_nil _ _)
    (hw.through ho (isName_tmpName hb pid) (through_nil _)) (ho.first.names.join hb)
    (List.cons_ne_nil _ _) (Through.cons hroot hb.2.2.1 (through_nil _)) hs with
    rfl | ⟨rfl, hsome, rfl⟩
  · exact ⟨hinv, CacheGuar.refl d p w, hw.holding, fun _ _ => hw⟩
  · have hpid := hw.pid_eq
    subst hpid
    have hstep := hinv.publish_step hw.holding hnt hsome
      ⟨info, node, hfetched, hnar, hw.tree⟩
    exact ⟨hstep.1, hstep.2, ⟨hw.serving, hw.lock⟩, fun e he => by cases he⟩

/-- What was fetched stays fetched. -/
lemma frame_fetched {α : Type} {info : NarInfo} {pre : CacheWorld → Prop} {prog : CacheM α}
    {post : α → CacheWorld → Prop}
    (h : (cacheRules lib cacheDir d fs₀ Good).TripleExcept p pre prog post fun _ => Holding p b) :
    (cacheRules lib cacheDir d fs₀ Good).TripleExcept p (fun w => pre w ∧ w.fetched b info) prog
      (fun a w => post a w ∧ w.fetched b info) fun _ => Holding p b :=
  h.frame stable_fetched fun _ _ hw hg => hg.fetched b info hw

/-- What is done in the temporary directory once it is there. -/
lemma extractNar_triple (hb : IsName b) (hnt : ¬ IsTmp b) {info : NarInfo}
    {data nar : List UInt8} (hfile : sha256Hash lib.sha256 data = info.fileHash)
    (hdec : decompressNar lib info data = .ok nar) :
    (cacheRules lib cacheDir d fs₀ Good).TripleExcept p
      (fun w => Working d p b pid emptyDir w ∧ w.fetched b info)
      (extractNar lib info nar (joinPath cacheDir (tmpName b pid)) (joinPath cacheDir b))
      (fun _ => Holding p b) fun _ => Holding p b := by
  have hdiscard : ∀ {t e}, (cacheRules lib cacheDir d fs₀ Good).TripleExcept p
      (Working d p b pid t) (do
        CacheM.discardDir (joinPath cacheDir (tmpName b pid))
        CacheM.ofResult (fail e) : CacheM Unit) (fun _ => Holding p b) fun _ => Holding p b :=
    TripleExcept.bind (fun _ => stable_holding) (discardDir_triple hb) fun _ =>
      ofResult_triple (fun _ => stable_holding) nofun fun _ hw => hw
  rw [extractNar]
  cases hparse : NarReader.parse lib.sha256 (NarReader.new nar) with
  | error e => exact hdiscard.conseq (fun _ _ hw => hw.1) fun _ _ _ hw => hw
  | ok parsed =>
  obtain ⟨node, narHash⟩ := parsed
  dsimp only
  split
  · exact hdiscard.conseq (fun _ _ hw => hw.1) fun _ _ _ hw => hw
  next hhash =>
  rw [not_not] at hhash
  subst hhash
  have hwf : node.WellFormed 256 := (parse_new_eq_ok.mp hparse).1
  have hextract : (cacheRules lib cacheDir d fs₀ Good).TripleExcept p
      (fun w => Working d p b pid emptyDir w ∧ w.fetched b info)
      (extractNode node (joinPath cacheDir (tmpName b pid)))
      (fun _ w => Working d p b pid (nodeTree node) w ∧ w.fetched b info)
      fun _ => Holding p b := by
    refine @Triple.given _ _ _ _ _ _ (HomeDir fs₀ cacheDir d) _ (fun hdir => ?_) fun w hi _ =>
      hi.owned.first
    have hnode : (cacheRules lib cacheDir d fs₀ Good).TripleExcept p (Working d p b pid emptyDir)
        (extractNode node (joinPath cacheDir (tmpName b pid)))
        (fun _ => Working d p b pid (graft emptyDir [] (nodeTree node))) fun _ => Holding p b :=
      extractNode_triple hb node hwf (names_tmp hdir hb) (through_nil _) (.inr rfl)
    rw [graft_nil] at hnode
    exact frame_fetched hnode
  refine TripleExcept.bind (fun _ => stable_holding) hextract fun _ => ?_
  refine TripleExcept.bind (fun _ => stable_holding)
    (TripleExcept.lift (fun r => stable_holding.and (Stable.all fun e => Stable.imp stable_working))
      (rename_triple hb hnt ⟨data, nar, hfile, hdec, hparse⟩)) fun r => ?_
  cases r with
  | ok u =>
      exact TripleExcept.ofExcept (fun _ _ => stable_holding) (fun _ => stable_holding)
        fun _ _ hw => hw.1
  | error e => exact hdiscard.conseq (fun _ _ hw => hw.2 e rfl) fun _ _ _ hw => hw

/-- The driver's process id. -/
lemma processId_triple :
    (cacheRules lib cacheDir d fs₀ Good).TripleExcept p (Holding p b) (CacheM.op .processId)
      (fun pid w => ∃ t, Working d p b pid t w) fun _ => Holding p b := by
  have hstable : ∀ pid, (cacheRules lib cacheDir d fs₀ Good).Stable p fun w =>
      ∃ t, Working d p b pid t w := fun _ => Stable.ex fun _ => stable_working
  refine TripleExcept.lift hstable (Triple.op stable_holding hstable ?_)
  rintro w hi hw _ _ ⟨rfl, rfl⟩ -
  exact ⟨hi, CacheGuar.refl d p _, _, hw.serving, rfl, hw.lock, rfl⟩

/-- The temporary directory is created, where there was none or an empty one. -/
lemma createTmp_triple (hb : IsName b) :
    (cacheRules lib cacheDir d fs₀ Good).TripleExcept p (Working d p b pid t)
      (CacheM.op (.fs (.createDirAll (joinPath cacheDir (tmpName b pid)))) >>= fun r =>
        CacheM.ofIo r : CacheM Unit)
      (fun _ => Working d p b pid emptyDir) fun _ => Holding p b := by
  refine @io_last lib _ _ _ _ _ _ _ _
    (.createDirAll (joinPath cacheDir (tmpName b pid))) (fun r => r) _
    fun w fs' r ho hw hs hallowed => ?_
  have hvacant : Vacant t [] := by
    have h := hallowed b hw.lock (by rw [hw.pid_eq])
    rw [hw.pid_eq, Vacant, hw.tree] at h
    exact h
  have hsem := ho.createDirAll_sem (names_tmp ho.first hb) (List.cons_ne_nil _ _)
    (hw.through ho (isName_tmpName hb pid) (through_nil _))
    (by rw [hw.fs_eq]; exact hvacant.self) hs
  refine ⟨Working.sameBut hsem.1, fun hr => ?_⟩
  rw [hsem.2 hr, hw.subtree_set, ← graft_leaf fun r hr => hvacant.below hr, graft_nil]
  rfl

/-- What is done with a NAR that was downloaded. -/
lemma unpackNar_triple (hb : IsName b) (hnt : ¬ IsTmp b) {info : NarInfo} {data : List UInt8} :
    (cacheRules lib cacheDir d fs₀ Good).TripleExcept p
      (fun w => Holding p b w ∧ w.fetched b info) (unpackNar lib cacheDir b info data)
      (fun _ => Holding p b) fun _ => Holding p b := by
  rw [unpackNar]
  dsimp only
  split
  · exact ofResult_triple (fun _ => stable_holding) nofun fun _ hw => hw.1
  next hfile =>
  rw [not_not] at hfile
  have hdec : (cacheRules lib cacheDir d fs₀ Good).TripleExcept p
      (fun w => Holding p b w ∧ w.fetched b info)
      (CacheM.ofResult (Result.ofExcept (decompressNar lib info data)))
      (fun nar w => Result.ofExcept (decompressNar lib info data) = .ok nar ∧
        Holding p b w ∧ w.fetched b info) fun _ => Holding p b :=
    ofResult_triple (fun _ => (stable_const _).and (stable_holding.and stable_fetched))
      (fun _ hok _ hw => ⟨hok, hw⟩) fun _ hw => hw.1
  refine TripleExcept.bind (fun _ => stable_holding) hdec fun nar => ?_
  refine TripleExcept.given (fun hnar => ?_) fun _ _ hw => Result.ofExcept_eq_ok.mp hw.1
  refine TripleExcept.bind (fun _ => stable_holding)
    ((frame_fetched processId_triple).conseq (fun _ _ hw => hw.2) fun _ _ _ hw => hw) fun pid => ?_
  rintro w hi ⟨⟨t, hw⟩, hfetched⟩
  have hcreate := @frame_fetched _ _ _ _ _ _ _ _ info _ _ _
    (@createTmp_triple lib cacheDir d fs₀ Good p pid b t hb)
  exact TripleExcept.bindAssoc (fun _ => stable_holding) hcreate
    (fun _ => extractNar_triple hb hnt hfile hnar) w hi ⟨hw, hfetched⟩

/-- A narinfo is fetched. -/
lemma fetchNarinfoByHash_triple {hash : String} :
    (cacheRules lib cacheDir d fs₀ Good).TripleExcept p (Holding p b)
      (CacheM.op (.fetchNarinfoByHash hash))
      (fun r w => Holding p b w ∧ ∀ info, r = .ok info → w.fetched b info)
      fun _ => Holding p b := by
  have hstable : ∀ r : Result NarInfo, (cacheRules lib cacheDir d fs₀ Good).Stable p fun w =>
      Holding p b w ∧ ∀ info, r = .ok info → w.fetched b info := fun _ =>
    stable_holding.and (Stable.all fun info => Stable.imp stable_fetched)
  refine TripleExcept.lift hstable (Triple.op stable_holding hstable ?_)
  rintro w hi hw r _ rfl hallowed
  have hgrow : ∀ b' info, w.fetched b' info →
      w.fetched b' info ∨ w.locks b' = some p ∧ r = .ok info := fun _ _ h => .inl h
  refine ⟨⟨hi.owned, ?_, hi.free, fun name hname => ?_⟩,
    ⟨fun q _ => ⟨id, fun hs => ⟨hs, rfl⟩, fun _ b' hb' => ⟨hb', rfl⟩, hgrow⟩,
      fun _ => .inl rfl, hgrow⟩,
    ⟨hw.serving, hw.lock⟩, fun info hr => .inr ⟨hw.lock, hr⟩⟩
  · rintro b' info (hold | ⟨hlock, hr⟩)
    · exact hi.good b' info hold
    · exact hallowed b' info hlock hr
  · exact (hi.entries name hname).imp_right fun ⟨info, node, hfetched, hnar⟩ =>
      ⟨info, node, .inl hfetched, hnar⟩

/-- Asking whether something is there changes nothing. -/
lemma exists_triple {pre : CacheWorld → Prop} {path : String}
    (hpre : (cacheRules lib cacheDir d fs₀ Good).Stable p pre) :
    (cacheRules lib cacheDir d fs₀ Good).Triple p pre (cacheOp (.fs (.exists path)))
      fun _ => pre := by
  refine Triple.op hpre (fun _ => hpre) ?_
  rintro w hi hw r _ ⟨fs', hs, rfl⟩ -
  rw [hs.1]
  exact ⟨hi, CacheGuar.refl d p _, hw⟩

/-- A download changes nothing. -/
lemma fetchNar_triple {info : NarInfo} :
    (cacheRules lib cacheDir d fs₀ Good).TripleExcept p (Holding p b) (CacheM.op (.fetchNar info))
      (fun _ => Holding p b) fun _ => Holding p b := by
  refine TripleExcept.lift (fun _ => stable_holding)
    (Triple.op stable_holding (fun _ => stable_holding) ?_)
  rintro w hi hw r _ rfl -
  exact ⟨hi, CacheGuar.refl d p _, hw⟩

/-- **One attempt**, under the mutex of its path. -/
lemma fetchAndExtract_triple (hb : IsName b) :
    (cacheRules lib cacheDir d fs₀ Good).TripleExcept p (Holding p b)
      (fetchAndExtract lib cacheDir b) (fun _ => Holding p b) fun _ => Holding p b := by
  rw [fetchAndExtract]
  have hparse : (cacheRules lib cacheDir d fs₀ Good).TripleExcept p (Holding p b)
      (CacheM.ofResult (StorePath.parseBasename b))
      (fun sp w => StorePath.parseBasename b = .ok sp ∧ Holding p b w) fun _ => Holding p b :=
    ofResult_triple (fun _ => (stable_const _).and stable_holding) (fun _ hok _ hw => ⟨hok, hw⟩)
      fun _ hw => hw
  refine TripleExcept.bind (fun _ => stable_holding) hparse fun sp => ?_
  refine TripleExcept.given (fun hsp => ?_) fun _ _ hw => hw.1
  have hnt := not_isTmp_of_parseBasename hsp
  refine TripleExcept.bind (fun _ => stable_holding)
    (fetchNarinfoByHash_triple.conseq (fun _ _ hw => hw.2) fun _ _ _ hw => hw) fun r => ?_
  have hinfo : (cacheRules lib cacheDir d fs₀ Good).TripleExcept p
      (fun w => Holding p b w ∧ ∀ info, r = .ok info → w.fetched b info) (CacheM.ofResult r)
      (fun info w => Holding p b w ∧ w.fetched b info) fun _ => Holding p b :=
    ofResult_triple (fun _ => stable_holding.and stable_fetched)
      (fun info hok _ hw => ⟨hw.1, hw.2 info hok⟩) fun _ hw => hw.1
  refine TripleExcept.bind (fun _ => stable_holding) hinfo fun info => ?_
  refine TripleExcept.bind (fun _ => stable_holding)
    (frame_fetched fetchNar_triple) fun answer => ?_
  have hdata : (cacheRules lib cacheDir d fs₀ Good).TripleExcept p
      (fun w => Holding p b w ∧ w.fetched b info) (CacheM.ofResult (Result.ofExcept answer))
      (fun _ w => Holding p b w ∧ w.fetched b info) fun _ => Holding p b :=
    ofResult_triple (fun _ => stable_holding.and stable_fetched) (fun _ _ _ hw => hw)
      fun _ hw => hw.1
  exact TripleExcept.bind (fun _ => stable_holding) hdata fun data => unpackNar_triple hb hnt

/-- What `ensure_cached` does for one path under its mutex. -/
lemma ensureLocked_triple (hb : IsName b) :
    (cacheRules lib cacheDir d fs₀ Good).TripleExcept p (Holding p b)
      (ensureLocked lib cacheDir b) (fun _ => Holding p b) fun _ => Holding p b := by
  rw [ensureLocked]
  refine TripleExcept.bind (fun _ => stable_holding)
    (TripleExcept.lift (fun _ => stable_holding) (exists_triple stable_holding)) fun r => ?_
  cases r with
  | true =>
      exact ofResult_triple (fun _ => stable_holding) (fun _ _ _ hw => hw) fun _ hw => hw
  | false => exact fetchAndExtract_triple hb

end Niphas
