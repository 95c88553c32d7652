import Niphas.Csi.CacheCalls

/-!
# What the cache directory holds

The three guarantees of the node cache, over every run of the driver: an entry is the tree of one
NAR that matches its narinfo, extraction writes to the temporary directory only, and what becomes
present was signed for.

`extract_node` cleans up nothing when it fails, so the next attempt may find its temporary directory
full.  All three guarantees hold in every run in which that does not happen (`Fresh`), the third
where moreover every narinfo is `Verified`, because the driver itself never calls `verify_narinfo`.

Both conditions are about single steps: what stands at the temporary directory when it is created,
and what a narinfo says when it has been fetched.  There is none on the order of the calls, on the
number of tasks, on failures or on crashes.  The counterexamples are runs of one task, in which the
first attempt fails at its second entry; the second attempt then takes what it finds for its own, or
follows a symlink that it finds.  As everywhere in these modules, the paths asked for name single
entries (`CacheWorld`).

* `entries_intact`, `leftover_entry` — integrity of entries.
* `extraction_confined`, `leftover_symlink` — confinement of extraction.
* `entries_verified`, `unsigned_entry` — signatures.
-/

namespace Niphas

open FileSystem System

variable {lib : Libraries} {cacheDir : String} {d : Path} {fs₀ : FS}

/-! ## Integrity -/

section

variable {evs : List (nodeCache lib cacheDir).Event} {c : (nodeCache lib cacheDir).Config}
  {name : String}

/-- **Integrity.**  In every run in which temporary directories are created fresh, every entry that
is not a temporary directory is the tree of one NAR that matches a narinfo fetched for it.  The
calls are for paths that name single entries (`CacheCall.Begins`). -/
theorem entries_intact (hdir : EmptyDir fs₀ cacheDir d)
    (hrun : Run (nodeCache lib cacheDir) (Fresh d) (Config.idle (CacheWorld.first fs₀)) evs c)
    (hname : ¬ IsTmp name) (hsome : c.world.fs (d ++ [name]) ≠ none) :
    c.world.Intact lib name (subtree c.world.fs (d ++ [name])) := by
  have hinv : CacheInv lib cacheDir d fs₀ (fun _ _ => True) c.world :=
    inv_of_run hdir.home (fun _ _ h => ⟨h, vouched_true⟩) hrun
  refine (hinv.entries name hname).resolve_left fun hsub => hsome ?_
  have hroot := congrFun hsub []
  rw [subtree, subtree, List.append_nil] at hroot
  rw [hroot]
  exact hdir.empty _ ⟨name, [], rfl⟩

end

/-- The entry of a path that was fetched. -/
theorem entries_intact_hello :
    ∃ evs c, EmptyDir plainFiles "/c" ["c"] ∧
      Run (nodeCache plainLibraries "/c") (Fresh ["c"]) (Config.idle (CacheWorld.first plainFiles))
        evs c ∧ c.world.fs (["c"] ++ [hello]) ≠ none ∧
      c.world.Intact plainLibraries hello (subtree c.world.fs (["c"] ++ [hello])) := by
  obtain ⟨evs, hrun⟩ := @reaches_hello [] (fun _ _ => True) trivial
  have hrun' := hrun.imp fun _ _ h => h.1
  exact ⟨evs, _, emptyDir_plainFiles, hrun', helloFiles_hello,
    entries_intact emptyDir_plainFiles hrun' not_isTmp_hello helloFiles_hello⟩

/-- The extraction of a first NAR fails half-way, and the next one is extracted over what it left:
the entry is the tree of neither. -/
theorem leftover_entry :
    ∃ evs c, EmptyDir plainFiles "/c" ["c"] ∧
      Run (nodeCache plainLibraries "/c") (AnyStep _) (Config.idle (CacheWorld.first plainFiles))
        evs c ∧ ¬ IsTmp hello ∧ c.world.fs (["c"] ++ [hello]) ≠ none ∧
      ¬ c.world.Intact plainLibraries hello (subtree c.world.fs (["c"] ++ [hello])) := by
  obtain ⟨evs, hrun⟩ := reaches_mixed
  refine ⟨evs, _, emptyDir_plainFiles, hrun, not_isTmp_hello, mixedFiles_hello, ?_⟩
  rintro ⟨info, node, hfetched, hnar, htree⟩
  have htree : subtree leftoverFiles (["c"] ++ [helloTmp]) = nodeTree node :=
    subtree_mixedFiles.symm.trans htree
  rcases hfetched with (hnone | ⟨-, hinfo⟩) | ⟨-, hinfo⟩
  · exact hnone
  · -- the first NAR has a second entry
    cases hinfo
    rw [eq_of_matchesNar wellFormed_brokenNode hnar] at htree
    have hb := congrFun htree ["b"]
    rw [subtree, leftoverFiles, set_of_ne _ (by simp), createdFiles, set_of_ne _ (by simp)] at hb
    cases hb
  · -- the second NAR has none
    cases hinfo
    rw [eq_of_matchesNar wellFormed_emptyNode hnar] at htree
    have ha : leftoverFiles (["c"] ++ [helloTmp, "a"]) = nodeTree emptyNode ["a"] :=
      congrFun htree ["a"]
    rw [leftoverFiles, set_self] at ha
    cases ha

/-! ## Confinement -/

section

variable {evs : List (nodeCache lib cacheDir).Event} {c c' : (nodeCache lib cacheDir).Config}

/-- **Confinement.**  In every run in which temporary directories are created fresh, whatever a call
that creates or changes entries changes is in the temporary directory of a path whose mutex the
task holds. -/
theorem extraction_confined (hdir : HomeDir fs₀ cacheDir d)
    (hrun : Run (nodeCache lib cacheDir) (Fresh d) (Config.idle (CacheWorld.first fs₀)) evs c)
    {p : ℕ} {o : FsOp} {r : o.Answer} (hfresh : Fresh d c (.op p (.fs o) r))
    (hstep : Step (nodeCache lib cacheDir) c (.op p (.fs o) r) c') (ho : o.Writes)
    (hserving : c.world.phase = .serving) :
    c'.world.fs = c.world.fs ∨ ∃ b, c.world.locks b = some p ∧
      SameBut (tmpPath d b c.world.pid) c.world.fs c'.world.fs := by
  have hchange := @localChange_of_run lib cacheDir d fs₀ (fun _ _ => True) p _ hdir
    (fun _ _ h => ⟨h, vouched_true⟩) _ _ _ hrun _ _ hfresh hstep hserving
  obtain ⟨call, k, w, -, ⟨fs', hs, rfl⟩, rfl⟩ := Step.of_op hstep
  refine hchange.imp_right fun ⟨b, hlock, hb⟩ => ⟨b, hlock, hb.resolve_right ?_⟩
  -- no such call moves a directory away
  exact fun hgone => hs.grows ho _ hgone.1 hgone.2

end

/-- The step that writes the file of a path that is being fetched. -/
theorem extraction_confined_hello :
    ∃ evs c c', HomeDir plainFiles "/c" ["c"] ∧
      Run (nodeCache plainLibraries "/c") (Fresh ["c"]) (Config.idle (CacheWorld.first plainFiles))
        evs c ∧
      Step (nodeCache plainLibraries "/c") c
        (.op 0 (.fs (.write (joinPath (joinPath "/c" helloTmp) "a") [104])) (.ok ())) c' ∧
      c'.world.fs ≠ c.world.fs ∧
      (c'.world.fs = c.world.fs ∨ ∃ b, c.world.locks b = some 0 ∧
        SameBut (tmpPath ["c"] b c.world.pid) c.world.fs c'.world.fs) := by
  have hallowed : ∀ o r w', CacheOp.Plain o r →
      CacheAllowed "/c" ["c"] (fun _ _ => True) 0 o r w' := fun _ _ _ ho => allowed_of_plain ho
  have hexists : (FsOp.exists (joinPath "/c" (tmpName hello servingNode.pid))).Sem createdFiles true
      createdFiles :=
    owned_createdFiles.exists_ok names_helloTmp (List.cons_ne_nil _ _) (through_helloTmp rfl)
      (set_self _ _ _)
  have hwrite := owned_createdFiles.write_ok (names_helloTmp.join (by decide : IsName "a"))
    (List.cons_ne_nil _ _) (through_entry rfl (set_self _ _ _) (by decide)) rfl [104] 0
  have hattempt := @attempt_hello helloNode (fun _ _ => True) _
    (@matchesNar_narinfoOf _ [] wellFormed_helloNode) trivial
  -- the attempt, up to its file
  obtain ⟨k, hgo⟩ : ∃ k, Goes (nodeCache plainLibraries "/c")
      (CacheAllowed "/c" ["c"] fun _ _ => True) 0 (ensureCached plainLibraries "/c" [hello])
      servingNode (.call (.fs (.write (joinPath (joinPath "/c" helloTmp) "a") [104])) k)
      (servingNode.attempting 0 hello (narinfoOf helloNode []) createdFiles) := by
    apply Exists.intro
    refine (ensureCached_goes stripStoreDir_hello hattempt).trans ?_
    exact goes_op true (sem_attempting hexists) (hallowed _ _ _ trivial) Goes.refl
  obtain ⟨evs, hrun⟩ := @Reaches.underWay (nodeCache plainLibraries "/c") (Fresh ["c"]) _ 0 _
    (.ensureCached [hello]) _ _ _ _
    ((@reaches_servingNode (fun _ _ => True)).imp fun _ _ h => h.1)
    (fun _ _ _ hev => (by cases hev)) ⟨rfl, isName_hello_paths, rfl⟩ hgo
    fun w rest o r hq => (fresh_of_allowed hq).1
  obtain ⟨c', hstep, hfiles⟩ : ∃ c', Step (nodeCache plainLibraries "/c")
      ((Config.idle (servingNode.attempting 0 hello (narinfoOf helloNode []) createdFiles)).set 0
        (some { call := .ensureCached [hello], rest := .call _ k }))
      (.op 0 (.fs (.write (joinPath (joinPath "/c" helloTmp) "a") [104])) (.ok ())) c' ∧
        c'.world.fs = set createdFiles (["c"] ++ [helloTmp, "a"]) (some (.file [104] 0)) :=
    ⟨_, .op (Config.set_self _ _ _) (sem_attempting hwrite), rfl⟩
  refine ⟨evs, _, c', emptyDir_plainFiles.home, hrun, hstep, fun heq => ?_,
    extraction_confined emptyDir_plainFiles.home hrun (fun _ _ _ hev => (by cases hev)) hstep
      trivial rfl⟩
  have ha := congrFun (hfiles.symm.trans heq) (["c"] ++ [helloTmp, "a"])
  rw [set_self] at ha
  cases ha

/-- The extraction of a first NAR leaves a symlink, and the next one writes through it. -/
theorem leftover_symlink :
    ∃ evs c c', HomeDir plainFiles "/c" ["c"] ∧
      Run (nodeCache plainLibraries "/c") (AnyStep _) (Config.idle (CacheWorld.first plainFiles))
        evs c ∧
      Step (nodeCache plainLibraries "/c") c (.op 0
        (.fs (.write (joinPath (joinPath (joinPath "/c" helloTmp) "a") "x") [])) (.ok ())) c' ∧
      c.world.phase = .serving ∧
      ¬ (c'.world.fs = c.world.fs ∨ ∃ b, c.world.locks b = some 0 ∧
        SameBut (tmpPath ["c"] b c.world.pid) c.world.fs c'.world.fs) := by
  have hexists : (FsOp.exists (joinPath "/c" (tmpName hello leftoverNode.pid))).Sem leftoverFiles
      true leftoverFiles :=
    owned_leftoverFiles.exists_ok names_helloTmp (List.cons_ne_nil _ _) (through_helloTmp rfl)
      leftoverFiles_tmp
  have hlink : (FsOp.exists (joinPath (joinPath "/c" (tmpName hello leftoverNode.pid)) "a")).Sem
      leftoverFiles true leftoverFiles :=
    ⟨rfl, fun _ => ⟨_, lookup_link, by rw [leftoverFiles_etc.1]; exact nofun⟩⟩
  have hwrite : (FsOp.write (joinPath (joinPath (joinPath "/c" helloTmp) "a") "x") []).Sem
      leftoverFiles (.ok ()) (set leftoverFiles ["etc", "x"] (some (.file [] 0))) :=
    ⟨_, 0, lookup_behind_link, .inl leftoverFiles_etc.2, rfl⟩
  -- the second attempt, up to the file below the symlink
  have hattempt := @attempt_leftover _ _ (@matchesNar_narinfoOf _ [] wellFormed_insideNode)
  obtain ⟨k, hgo⟩ : ∃ k, Goes (nodeCache plainLibraries "/c") (fun _ _ _ _ => True) 0
      (ensureCached plainLibraries "/c" [hello]) leftoverNode
      (.call (.fs (.write (joinPath (joinPath (joinPath "/c" helloTmp) "a") "x") [])) k)
      (leftoverNode.attempting 0 hello (narinfoOf insideNode []) leftoverFiles) := by
    apply Exists.intro
    refine (ensureCached_goes stripStoreDir_hello hattempt).trans ?_
    refine goes_op true (sem_attempting hexists) trivial ?_
    exact goes_op true (sem_attempting hlink) trivial Goes.refl
  obtain ⟨evs, hrun⟩ := @Reaches.underWay (nodeCache plainLibraries "/c") (AnyStep _) _ 0 _
    (.ensureCached [hello]) _ _ _ _
    ((@reaches_leftoverNode (fun _ _ => True) trivial).imp fun _ _ _ => trivial) trivial
    ⟨rfl, isName_hello_paths, rfl⟩ hgo fun _ _ _ _ _ => trivial
  refine ⟨evs, _, _, emptyDir_plainFiles.home, hrun,
    .op (Config.set_self _ _ _) ⟨_, hwrite, rfl⟩, rfl, ?_⟩
  have hchanged : set leftoverFiles ["etc", "x"] (some (.file [] 0)) ["etc", "x"] ≠
      leftoverFiles ["etc", "x"] := by
    rw [set_self, leftoverFiles_etc.2]
    exact nofun
  rintro (heq | ⟨b, -, hb⟩)
  · exact hchanged (congrFun heq ["etc", "x"])
  · exact hchanged (hb ["etc", "x"] (by simp [tmpPath]))

/-! ## Signatures -/

/-- What a narinfo is to be: for the path that is asked for, and signed. -/
def Verified (lib : Libraries) (trustedKeys : List TrustedKey) (basename : String)
    (info : NarInfo) : Prop :=
  StorePath.parseBasename basename = .ok info.storePath ∧
    verifyNarinfo lib.toCrypto info.fingerprint info.signatures trustedKeys = .ok ()

section

variable {evs : List (nodeCache lib cacheDir).Event} {c : (nodeCache lib cacheDir).Config}
  {name : String}

/-- **Signatures.**  In every run in which moreover every narinfo that is fetched is verified,
whatever becomes present in the cache directory was extracted under a verified narinfo.  Here too
the calls are for paths that name single entries (`CacheCall.Begins`). -/
theorem entries_verified {trustedKeys : List TrustedKey} (hdir : HomeDir fs₀ cacheDir d)
    (hrun : Run (nodeCache lib cacheDir)
      (fun c ev => Fresh d c ev ∧ Vouched (Verified lib trustedKeys) c ev)
      (Config.idle (CacheWorld.first fs₀)) evs c)
    (hname : ¬ IsTmp name) (hnone : fs₀ (d ++ [name]) = none)
    (hsome : c.world.fs (d ++ [name]) ≠ none) :
    ∃ info node, c.world.fetched name info ∧ Verified lib trustedKeys name info ∧
      MatchesNar lib info node ∧ subtree c.world.fs (d ++ [name]) = nodeTree node := by
  have hinv := inv_of_run hdir (fun _ _ h => h) hrun
  obtain ⟨info, node, hfetched, hnar, htree⟩ :
      c.world.Intact lib name (subtree c.world.fs (d ++ [name])) := by
    refine (hinv.entries name hname).resolve_left fun hsub => hsome ?_
    have hroot := congrFun hsub []
    rw [subtree, subtree, List.append_nil] at hroot
    rw [hroot, hnone]
  exact ⟨info, node, hfetched, hinv.good name info hfetched, hnar, htree⟩

end

/-- A key that is configured. -/
def sampleKey : TrustedKey := { name := "cache", pubkey := List.replicate 32 0 }

/-- The entry of a path whose narinfo was signed. -/
theorem entries_verified_hello :
    ∃ evs c, HomeDir plainFiles "/c" ["c"] ∧
      Run (nodeCache plainLibraries "/c")
        (fun c ev => Fresh ["c"] c ev ∧ Vouched (Verified plainLibraries [sampleKey]) c ev)
        (Config.idle (CacheWorld.first plainFiles)) evs c ∧
      c.world.fs (["c"] ++ [hello]) ≠ none ∧
      ∃ info node, c.world.fetched hello info ∧ Verified plainLibraries [sampleKey] hello info ∧
        MatchesNar plainLibraries info node ∧
          subtree c.world.fs (["c"] ++ [hello]) = nodeTree node := by
  have hgood : Verified plainLibraries [sampleKey] hello (narinfoOf helloNode [.zeros "cache"]) :=
    ⟨parseBasename_hello, rfl⟩
  obtain ⟨evs, hrun⟩ := reaches_hello hgood
  exact ⟨evs, _, emptyDir_plainFiles.home, hrun, helloFiles_hello,
    entries_verified emptyDir_plainFiles.home hrun not_isTmp_hello rfl helloFiles_hello⟩

/-- A path is fetched under a narinfo without any signature, and becomes present. -/
theorem unsigned_entry :
    ∃ evs c, HomeDir plainFiles "/c" ["c"] ∧
      Run (nodeCache plainLibraries "/c") (AnyStep _) (Config.idle (CacheWorld.first plainFiles))
        evs c ∧
      ¬ IsTmp hello ∧ plainFiles (["c"] ++ [hello]) = none ∧
      c.world.fs (["c"] ++ [hello]) ≠ none ∧
      ∀ trustedKeys, ¬ ∃ info, c.world.fetched hello info ∧
        Verified plainLibraries trustedKeys hello info := by
  obtain ⟨evs, hrun⟩ := @reaches_hello [] (fun _ _ => True) trivial
  refine ⟨evs, _, emptyDir_plainFiles.home, hrun.imp fun _ _ _ => trivial, not_isTmp_hello, rfl,
    helloFiles_hello, fun trustedKeys => ?_⟩
  rintro ⟨info, hfetched, -, hsigned⟩
  rcases hfetched with hnone | ⟨-, hinfo⟩
  · exact hnone
  · cases hinfo
    cases hsigned

end Niphas
