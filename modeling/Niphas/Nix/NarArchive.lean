import Niphas.Nix.NarNodeLaw

/-!
# Round trip and canonicity of NAR archives

What `parse_eq_ok` says about whole archives, in both directions.

* Completeness: the archive of a well-formed tree is read back as that tree, with the hash of the
  whole archive, **unless the root is a directory**.  `parse_node` expects a `")"` that
  `parse_directory` has already consumed, so the archive of a directory ends one token too early for
  it.
* Soundness: an accepted stream starts with an archive, but it need not end with it.  `parse` does
  not look at what follows the root node, and after a directory it demands an extra `")"`.
  `Overrun` names the streams that go on after a complete archive in this way; on all others the
  reader is exact.

Both are equivalences, over all trees and over all streams.  The one is about the writer's side: it
says of a tree whether its NAR is read back.  The other is about the reader's side, where there is
nothing but a stream, and says of it whether the tree and the hash that are returned are its own.
Where they are, the stream is determined by the tree, so different streams are not confused.

Nothing is assumed about SHA-256.  The hash that is returned is that of the bytes that were read,
and whether these are all bytes of the stream is what canonicity is about.
-/

namespace Niphas

open Bytes NarReader

/-- `parse_eq_ok` for the reader `NarReader::new` builds. -/
lemma parse_new_eq_ok {sha256 : List UInt8 → List UInt8} {b : List UInt8} {t : NarNode}
    {h : NixHash} :
    parse sha256 (new b) = .ok (t, h) ↔
      t.WellFormed 256 ∧ archiveEncode t <+: b ∧
        h = { algo := .sha256, digest := sha256 (archiveEncode t) } :=
  @parse_eq_ok sha256 b defaultMaxDepth (by decide) t h

/-- The NAR of a directory has no room for the token `parse_node` still expects. -/
lemma not_archiveEncode_prefix {t : NarNode} (h : t.isDirectory = true) :
    ¬ archiveEncode t <+: narEncode t := by
  intro hpre
  have hlen := hpre.length_le
  have hpos := length_narStr_pos ")"
  rw [archiveEncode_eq, h, if_pos rfl, List.length_append] at hlen
  omega

/-- **Round trip.**  The reader gives back a well-formed tree from its NAR, with the SHA-256 of
the whole NAR, exactly when the root is not a directory. -/
theorem parse_narEncode_iff (sha256 : List UInt8 → List UInt8) (t : NarNode)
    (ht : t.WellFormed 256) :
    parse sha256 (new (narEncode t)) =
        .ok (t, { algo := .sha256, digest := sha256 (narEncode t) }) ↔
      t.isDirectory = false := by
  rw [parse_new_eq_ok]
  cases hdir : t.isDirectory with
  | true =>
      simp only [Bool.true_eq_false, iff_false, not_and]
      exact fun _ hpre _ => not_archiveEncode_prefix hdir hpre
  | false =>
      have henc : archiveEncode t = narEncode t := by
        rw [archiveEncode_eq, hdir, if_neg Bool.false_ne_true, List.append_nil]
      rw [henc]
      exact ⟨fun _ => rfl, fun _ => ⟨ht, List.prefix_refl _, rfl⟩⟩

/-- The round trip of an executable file. -/
theorem parse_narEncode_executable :
    (NarNode.regular true [35, 33]).WellFormed 256 ∧
      ∀ sha256 : List UInt8 → List UInt8,
        parse sha256 (new (narEncode (.regular true [35, 33]))) =
          .ok (.regular true [35, 33],
            { algo := .sha256, digest := sha256 (narEncode (.regular true [35, 33])) }) := by
  have hwf : (NarNode.regular true [35, 33]).WellFormed 256 := by decide
  exact ⟨hwf, fun sha256 => (parse_narEncode_iff sha256 _ hwf).mpr rfl⟩

/-- The smallest NAR that is rejected: the empty directory. -/
theorem parse_empty_directory :
    (NarNode.directory []).WellFormed 256 ∧
      ∀ sha256 : List UInt8 → List UInt8,
        parse sha256 (new (narEncode (.directory []))) =
          .error (.narParse "unexpected EOF: early eof") :=
  ⟨⟨List.IsChain.nil, trivial⟩, fun _ => rfl⟩

/-! ## Canonicity -/

/-- Streams that go on after a complete archive: the NAR of a file or a symlink with anything
behind it, or the NAR of a directory with another `")"` behind it. -/
def Overrun (b : List UInt8) : Prop :=
  ∃ (t : NarNode) (w : List UInt8), t.WellFormed 256 ∧ b = narEncode t ++ w ∧
    if t.isDirectory then narStr ")" <+: w else w ≠ []

/-- What the reader should guarantee of a stream it accepts: the stream is the NAR of the tree
returned, the tree obeys the rules of the format, and the hash is that of the whole stream. -/
def AcceptedExactly (sha256 : List UInt8 → List UInt8) (b : List UInt8) : Prop :=
  ∀ t h, parse sha256 (new b) = .ok (t, h) →
    b = narEncode t ∧ t.WellFormed 256 ∧ h = { algo := .sha256, digest := sha256 b }

/-- An accepted stream that does not overrun is the NAR of its tree. -/
lemma eq_narEncode_of_not_overrun {b : List UInt8} {t : NarNode} (hb : ¬ Overrun b)
    (ht : t.WellFormed 256) (hpre : archiveEncode t <+: b) :
    b = narEncode t ∧ archiveEncode t = narEncode t := by
  obtain ⟨w, rfl⟩ := hpre
  have hsplit := archiveEncode_eq t
  cases hdir : t.isDirectory with
  | true =>
      refine absurd ⟨t, narStr ")" ++ w, ht, ?_, ?_⟩ hb
      · rw [hsplit, hdir, if_pos rfl, List.append_assoc]
      · rw [hdir]
        exact List.prefix_append _ _
  | false =>
      rw [hdir, if_neg Bool.false_ne_true, List.append_nil] at hsplit
      have hw : w = [] := by
        by_contra hne
        exact hb ⟨t, w, ht, by rw [hsplit], by rw [hdir]; exact hne⟩
      rw [hw, List.append_nil]
      exact ⟨hsplit, hsplit⟩

/-- A stream that overruns is accepted, and it is not the NAR of its tree. -/
lemma not_acceptedExactly_of_overrun {sha256 : List UInt8 → List UInt8} {b : List UInt8}
    (hb : Overrun b) : ¬ AcceptedExactly sha256 b := by
  obtain ⟨t, w, ht, rfl, hw⟩ := hb
  have hpos := length_narStr_pos ")"
  have hpre : archiveEncode t <+: narEncode t ++ w := by
    rw [archiveEncode_eq]
    cases hdir : t.isDirectory with
    | true =>
        rw [hdir] at hw
        exact (List.prefix_append_right_inj _).mpr hw
    | false =>
        rw [if_neg Bool.false_ne_true, List.append_nil]
        exact List.prefix_append _ _
  have hne : w ≠ [] := by
    rintro rfl
    cases hdir : t.isDirectory with
    | true =>
        rw [hdir] at hw
        have hlen := List.IsPrefix.length_le hw
        simp only [List.length_nil] at hlen
        omega
    | false =>
        rw [hdir] at hw
        exact hw rfl
  intro h
  obtain ⟨heq, -⟩ := h t _ (parse_new_eq_ok.mpr ⟨ht, hpre, rfl⟩)
  exact hne (List.append_right_eq_self.mp heq)

/-- **Canonicity.**  What the reader accepts is canonical exactly on the streams that do not go
on after a complete archive; and among those, different streams never give the same tree. -/
theorem acceptedExactly_iff (sha256 : List UInt8 → List UInt8) :
    (∀ b, AcceptedExactly sha256 b ↔ ¬ Overrun b) ∧
      ∀ b b' t h h', ¬ Overrun b → ¬ Overrun b' → parse sha256 (new b) = .ok (t, h) →
        parse sha256 (new b') = .ok (t, h') → b = b' := by
  constructor
  · intro b
    refine ⟨fun h hb => not_acceptedExactly_of_overrun hb h, fun hb t h hp => ?_⟩
    obtain ⟨ht, hpre, rfl⟩ := parse_new_eq_ok.mp hp
    obtain ⟨hb, henc⟩ := eq_narEncode_of_not_overrun hb ht hpre
    exact ⟨hb, ht, by rw [henc, ← hb]⟩
  · intro b b' t h h' hb hb' hp hp'
    obtain ⟨ht, hpre, -⟩ := parse_new_eq_ok.mp hp
    obtain ⟨-, hpre', -⟩ := parse_new_eq_ok.mp hp'
    rw [(eq_narEncode_of_not_overrun hb ht hpre).1, (eq_narEncode_of_not_overrun hb' ht hpre').1]

/-- The NAR of a symlink does not overrun, and no other stream that does not is read as it. -/
theorem not_overrun_symlink :
    ¬ Overrun (narEncode (.symlink "a")) ∧
      ∀ b h, ¬ Overrun b → parse id (new b) = .ok (.symlink "a", h) →
        b = narEncode (.symlink "a") := by
  have hwf : (NarNode.symlink "a").WellFormed 256 := by decide
  have hp := (parse_narEncode_iff id _ hwf).mpr rfl
  have hb : ¬ Overrun (narEncode (.symlink "a")) := by
    refine ((acceptedExactly_iff id).1 _).mp fun t h hp' => ?_
    rw [hp, Except.ok.injEq, Prod.mk.injEq] at hp'
    rw [← hp'.1, ← hp'.2]
    exact ⟨rfl, hwf, rfl⟩
  exact ⟨hb, fun b h hb' hp' => (acceptedExactly_iff id).2 _ _ _ _ _ hb' hb hp' hp⟩

/-- Two streams that are accepted although they are not the NAR of the tree returned: a symlink
with a byte behind it, hashed without that byte, and an empty directory with a second `")"`. -/
theorem parse_overrun :
    (∀ sha256 : List UInt8 → List UInt8,
      parse sha256 (new (narEncode (.symlink "a") ++ [0])) =
          .ok (.symlink "a", { algo := .sha256, digest := sha256 (narEncode (.symlink "a")) }) ∧
        ∃ h, parse sha256 (new (narEncode (.directory []) ++ narStr ")")) =
          .ok (.directory [], h)) ∧
      narEncode (.symlink "a") ++ [0] ≠ narEncode (.symlink "a") ∧
      narEncode (.directory []) ++ narStr ")" ≠ narEncode (.directory []) := by
  have hlink : archiveEncode (.symlink "a") = narEncode (.symlink "a") := by
    rw [archiveEncode_eq]
    exact List.append_nil _
  have hdir : archiveEncode (.directory []) = narEncode (.directory []) ++ narStr ")" := by
    rw [archiveEncode_eq]
    rfl
  refine ⟨fun sha256 =>
    ⟨?_, { algo := .sha256, digest := sha256 (archiveEncode (.directory [])) }, ?_⟩, ?_, ?_⟩
  · rw [parse_new_eq_ok, hlink]
    exact ⟨by decide, List.prefix_append _ _, rfl⟩
  · rw [parse_new_eq_ok]
    exact ⟨⟨List.IsChain.nil, trivial⟩, by rw [hdir], rfl⟩
  · exact fun h => List.cons_ne_nil _ _ (List.append_right_eq_self.mp h)
  · intro h
    have hpos := length_narStr_pos ")"
    rw [List.append_right_eq_self.mp h] at hpos
    exact absurd hpos (by decide)

end Niphas
