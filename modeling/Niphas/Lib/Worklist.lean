import Mathlib.Data.Finset.Card
import Mathlib.Data.Prod.Lex
import Mathlib.Data.Set.Finite.Basic
import Mathlib.Order.WellFounded
import Mathlib.Tactic.Push

/-!
# Batched worklist search

Exploring a graph whose edges are only known by expanding a node, where an expansion may fail and
several expansions are under way at a time.

A batch is taken off the front of the queue; the nodes of it that were not seen before are expanded,
and the expansions of one batch may finish in any order.  What a finished expansion returns goes to
the end of the queue, without the nodes seen already.  The queue may hold a node several times, or a
node that has been seen meanwhile: nodes are marked when they leave the queue, not when they enter
it.

The search is a relation, so it is open which expansion finishes next, and what is shown holds for
every order.  The graph may be infinite; where only finitely many nodes can be reached, the search
ends.  A failed expansion is no step: a program that stops at the first failure stops in a state of
the search.

* `Step.inv` — one step keeps the invariant `Inv`.
* `acc_step` — every run is finite when the reachable nodes are.
* `Inv.of_finished` — what has been visited when there is nothing left to do.
-/

namespace Worklist

variable {α ε : Type}

/-- The nodes reachable from `root` through successful expansions. -/
inductive Reachable (expand : α → Except ε (List α)) (root : α) : α → Prop
  | root : Reachable expand root root
  | step {a b : α} {succs : List α} :
      Reachable expand root a → expand a = .ok succs → b ∈ succs → Reachable expand root b

/-- A search in progress. -/
structure State (α : Type) where
  visited : Finset α
  queue : List α
  inFlight : List α
  order : List α

namespace State

/-- Nothing has been taken off the queue yet. -/
def start (root : α) : State α := { visited := ∅, queue := [root], inFlight := [], order := [] }

/-- Begin to expand `a`, unless it was seen before. -/
def visit [DecidableEq α] (s : State α) (a : α) : State α :=
  if a ∈ s.visited then s
  else { s with visited := insert a s.visited, inFlight := s.inFlight ++ [a] }

/-- Take the next `k` nodes off the queue. -/
def batch [DecidableEq α] (k : ℕ) (s : State α) : State α :=
  (s.queue.take k).foldl visit { s with queue := s.queue.drop k }

/-- The expansion of `a` has returned `succs`. -/
def finish [DecidableEq α] (s : State α) (a : α) (succs : List α) : State α :=
  { s with
    inFlight := s.inFlight.erase a
    order := s.order ++ [a]
    queue := s.queue ++ succs.filter (· ∉ s.visited) }

/-- Nothing is left to do. -/
def Finished (s : State α) : Prop := s.queue = [] ∧ s.inFlight = []

end State

open State

/-- One step of a search with batches of `k` nodes: the next batch, once the last one is through,
or the end of one expansion. -/
inductive Step [DecidableEq α] (expand : α → Except ε (List α)) (k : ℕ) : State α → State α → Prop
  | batch {s : State α} : s.inFlight = [] → s.queue ≠ [] → Step expand k s (s.batch k)
  | finish {s : State α} {a : α} {succs : List α} :
      a ∈ s.inFlight → expand a = .ok succs → Step expand k s (s.finish a succs)

/-! ## The invariant -/

/-- What holds of a search at every point. -/
structure Inv (expand : α → Except ε (List α)) (root : α) (s : State α) : Prop where
  /-- The visited nodes are those finished and those under way. -/
  visited_iff : ∀ a, a ∈ s.visited ↔ a ∈ s.order ∨ a ∈ s.inFlight
  /-- No node is expanded twice. -/
  nodup : (s.order ++ s.inFlight).Nodup
  /-- Only reachable nodes are considered. -/
  reachable : ∀ a, a ∈ s.visited ∨ a ∈ s.queue → Reachable expand root a
  /-- Where a finished node leads is visited or waiting. -/
  expanded : ∀ a ∈ s.order, ∃ succs, expand a = .ok succs ∧
    ∀ b ∈ succs, b ∈ s.visited ∨ b ∈ s.queue
  /-- The root is the first node to be finished. -/
  root_first : s.order.head? = some root ∨
    s.order = [] ∧ (s.inFlight = [] ∧ s.queue = [root] ∨ s.inFlight = [root] ∧ s.queue = [])

variable {expand : α → Except ε (List α)} {root : α} {k : ℕ}

lemma Inv.start : Inv expand root (State.start root) where
  visited_iff a := by simp [State.start]
  nodup := List.nodup_nil
  reachable a h := by
    have ha : a = root := by simpa [State.start] using h
    exact ha ▸ .root
  expanded a h := absurd h List.not_mem_nil
  root_first := .inr ⟨rfl, .inl ⟨rfl, rfl⟩⟩

section

variable [DecidableEq α]

/-! ## What a batch does -/

@[simp] lemma visit_queue (s : State α) (a : α) : (s.visit a).queue = s.queue := by
  unfold visit
  split <;> rfl

@[simp] lemma visit_order (s : State α) (a : α) : (s.visit a).order = s.order := by
  unfold visit
  split <;> rfl

lemma mem_visit_visited {s : State α} {a b : α} :
    b ∈ (s.visit a).visited ↔ b = a ∨ b ∈ s.visited := by
  unfold visit
  split
  · next ha => exact ⟨.inr, fun h => h.elim (fun hb => hb ▸ ha) id⟩
  · exact Finset.mem_insert

@[simp] lemma foldl_visit_queue (l : List α) (s : State α) :
    (l.foldl visit s).queue = s.queue := by
  induction l generalizing s with
  | nil => rfl
  | cons a l ih => rw [List.foldl_cons, ih, visit_queue]

@[simp] lemma foldl_visit_order (l : List α) (s : State α) :
    (l.foldl visit s).order = s.order := by
  induction l generalizing s with
  | nil => rfl
  | cons a l ih => rw [List.foldl_cons, ih, visit_order]

lemma mem_foldl_visit_visited {l : List α} {s : State α} {b : α} :
    b ∈ (l.foldl visit s).visited ↔ b ∈ l ∨ b ∈ s.visited := by
  induction l generalizing s with
  | nil => simp
  | cons a l ih =>
      rw [List.foldl_cons, ih, mem_visit_visited, List.mem_cons]
      tauto

/-- The bookkeeping of nodes under way survives `visit`. -/
lemma visit_bookkeeping {s : State α} {a : α}
    (hiff : ∀ b, b ∈ s.visited ↔ b ∈ s.order ∨ b ∈ s.inFlight)
    (hnodup : (s.order ++ s.inFlight).Nodup) :
    (∀ b, b ∈ (s.visit a).visited ↔ b ∈ (s.visit a).order ∨ b ∈ (s.visit a).inFlight) ∧
      ((s.visit a).order ++ (s.visit a).inFlight).Nodup := by
  unfold visit
  split
  · exact ⟨hiff, hnodup⟩
  · next ha =>
      constructor
      · intro b
        rw [Finset.mem_insert, hiff, List.mem_append, List.mem_singleton]
        tauto
      · have hnew : a ∉ s.order ++ s.inFlight := by
          rw [List.mem_append, ← hiff]
          exact ha
        rw [← List.append_assoc]
        exact List.nodup_append.mpr ⟨hnodup, List.nodup_singleton a,
          fun b hb c hc hbc => hnew (by rwa [hbc, List.mem_singleton.mp hc] at hb)⟩

lemma foldl_visit_bookkeeping {l : List α} {s : State α}
    (hiff : ∀ b, b ∈ s.visited ↔ b ∈ s.order ∨ b ∈ s.inFlight)
    (hnodup : (s.order ++ s.inFlight).Nodup) :
    (∀ b, b ∈ (l.foldl visit s).visited ↔
        b ∈ (l.foldl visit s).order ∨ b ∈ (l.foldl visit s).inFlight) ∧
      ((l.foldl visit s).order ++ (l.foldl visit s).inFlight).Nodup := by
  induction l generalizing s with
  | nil => exact ⟨hiff, hnodup⟩
  | cons a l ih =>
      obtain ⟨hiff', hnodup'⟩ := visit_bookkeeping (a := a) hiff hnodup
      exact ih hiff' hnodup'

lemma batch_queue (s : State α) : (s.batch k).queue = s.queue.drop k := foldl_visit_queue _ _

lemma batch_order (s : State α) : (s.batch k).order = s.order := foldl_visit_order _ _

lemma mem_batch_visited {s : State α} {b : α} :
    b ∈ (s.batch k).visited ↔ b ∈ s.queue.take k ∨ b ∈ s.visited := mem_foldl_visit_visited

lemma mem_batch {s : State α} {b : α} :
    b ∈ (s.batch k).visited ∨ b ∈ (s.batch k).queue ↔ b ∈ s.visited ∨ b ∈ s.queue := by
  rw [mem_batch_visited, batch_queue]
  nth_rewrite 3 [← List.take_append_drop k s.queue]
  rw [List.mem_append]
  tauto

lemma foldl_visit_inFlight_of_visited {l : List α} {s : State α} (h : ∀ a ∈ l, a ∈ s.visited) :
    (l.foldl visit s).inFlight = s.inFlight := by
  induction l with
  | nil => rfl
  | cons a l ih =>
      have ha : s.visit a = s := if_pos (h a List.mem_cons_self)
      rw [List.foldl_cons, ha, ih fun b hb => h b (List.mem_cons_of_mem a hb)]

/-- A batch of nodes seen before starts nothing. -/
lemma batch_inFlight_of_visited {s : State α} (h : ∀ a ∈ s.queue.take k, a ∈ s.visited) :
    (s.batch k).inFlight = s.inFlight :=
  foldl_visit_inFlight_of_visited (s := { s with queue := s.queue.drop k }) h

/-! ## Steps keep the invariant -/

lemma batch_zero (s : State α) : s.batch 0 = s := rfl

lemma Inv.batch {s : State α} (hs : Inv expand root s) (hidle : s.inFlight = []) :
    Inv expand root (s.batch k) := by
  rcases Nat.eq_zero_or_pos k with rfl | hk
  · rwa [batch_zero]
  obtain ⟨hiff, hnodup⟩ := foldl_visit_bookkeeping (l := s.queue.take k)
    (s := { s with queue := s.queue.drop k }) hs.visited_iff hs.nodup
  refine ⟨hiff, hnodup, fun a ha => hs.reachable a (mem_batch.mp ha), fun a ha => ?_, ?_⟩
  · rw [batch_order] at ha
    obtain ⟨succs, hexp, hsub⟩ := hs.expanded a ha
    exact ⟨succs, hexp, fun b hb => mem_batch.mpr (hsub b hb)⟩
  · rw [batch_order]
    rcases hs.root_first with h | ⟨horder, ⟨-, hqueue⟩ | ⟨hflight, -⟩⟩
    · exact .inl h
    · -- the first batch is the root alone
      obtain ⟨k, rfl⟩ : ∃ n, k = n + 1 := ⟨k - 1, by omega⟩
      have hvis : root ∉ s.visited := by
        rw [hs.visited_iff, horder, hidle]
        simp
      refine .inr ⟨horder, .inr ⟨?_, ?_⟩⟩
      · simp only [State.batch, hqueue, List.take_succ_cons, List.take_nil, List.foldl_cons,
          List.foldl_nil, visit, if_neg hvis, hidle, List.nil_append]
      · rw [batch_queue, hqueue, List.drop_succ_cons, List.drop_nil]
    · rw [hidle] at hflight
      exact absurd hflight (List.cons_ne_nil _ _).symm

lemma Inv.finish {s : State α} {a : α} {succs : List α} (hs : Inv expand root s)
    (ha : a ∈ s.inFlight) (hexp : expand a = .ok succs) :
    Inv expand root (s.finish a succs) := by
  have hperm : ((s.order ++ [a]) ++ s.inFlight.erase a).Perm (s.order ++ s.inFlight) := by
    rw [List.append_assoc, List.singleton_append]
    exact (List.perm_cons_erase ha).symm.append_left _
  have hreach : Reachable expand root a := hs.reachable a (.inl ((hs.visited_iff a).mpr (.inr ha)))
  have hsub : ∀ b, b ∈ s.visited ∨ b ∈ s.queue →
      b ∈ (s.finish a succs).visited ∨ b ∈ (s.finish a succs).queue :=
    fun b hb => hb.imp id (List.mem_append_left _)
  refine ⟨fun b => ?_, hperm.nodup_iff.mpr hs.nodup, ?_, ?_, ?_⟩
  · change b ∈ s.visited ↔ b ∈ s.order ++ [a] ∨ b ∈ s.inFlight.erase a
    rw [hs.visited_iff, ← List.mem_append, ← List.mem_append]
    exact hperm.mem_iff.symm
  · rintro b (hb | hb)
    · exact hs.reachable b (.inl hb)
    · rcases List.mem_append.mp hb with hb | hb
      · exact hs.reachable b (.inr hb)
      · exact .step hreach hexp (List.mem_filter.mp hb).1
  · intro c hc
    rcases List.mem_append.mp hc with hc | hc
    · obtain ⟨succs', hexp', hsub'⟩ := hs.expanded c hc
      exact ⟨succs', hexp', fun b hb => hsub b (hsub' b hb)⟩
    · rw [List.mem_singleton.mp hc]
      refine ⟨succs, hexp, fun b hb => ?_⟩
      by_cases hvis : b ∈ s.visited
      · exact .inl hvis
      · exact .inr (List.mem_append_right _ (List.mem_filter.mpr ⟨hb, decide_eq_true hvis⟩))
  · rcases hs.root_first with h | ⟨horder, ⟨hflight, -⟩ | ⟨hflight, -⟩⟩
    · left
      change (s.order ++ [a]).head? = some root
      rw [List.head?_append, h]
      rfl
    · rw [hflight] at ha
      exact absurd ha List.not_mem_nil
    · rw [hflight, List.mem_singleton] at ha
      left
      change (s.order ++ [a]).head? = some root
      rw [horder, ha]
      rfl

/-- **Step lemma.** -/
lemma Step.inv {s t : State α} (h : Step expand k s t) (hs : Inv expand root s) :
    Inv expand root t := by
  cases h with
  | batch hidle _ => exact hs.batch hidle
  | finish ha hexp => exact hs.finish ha hexp

/-! ## Termination -/

/-- What decreases with every step, lexicographically: the reachable nodes not yet seen, the
expansions under way, the length of the queue. -/
noncomputable def weight (hfin : {a | Reachable expand root a}.Finite) (s : State α) :
    ℕ ×ₗ ℕ ×ₗ ℕ :=
  toLex ((hfin.toFinset \ s.visited).card, toLex (s.inFlight.length, s.queue.length))

lemma Step.weight_lt {s t : State α} (hfin : {a | Reachable expand root a}.Finite) (hk : 0 < k)
    (h : Step expand k s t) (hs : Inv expand root s) : weight hfin t < weight hfin s := by
  cases h with
  | batch hidle hne =>
      by_cases hold : ∀ a ∈ s.queue.take k, a ∈ s.visited
      · -- nothing new: the queue gets shorter
        have hvis : (s.batch k).visited = s.visited := by
          ext a
          rw [mem_batch_visited]
          exact ⟨fun h => h.elim (hold a) id, .inr⟩
        have hflight : (s.batch k).inFlight = [] := by
          rw [batch_inFlight_of_visited hold, hidle]
        have hlen : 0 < s.queue.length := List.length_pos_iff.mpr hne
        refine Prod.Lex.toLex_lt_toLex.mpr (.inr ⟨by rw [hvis], ?_⟩)
        refine Prod.Lex.toLex_lt_toLex.mpr (.inr ⟨by rw [hflight, hidle], ?_⟩)
        change (s.batch k).queue.length < s.queue.length
        rw [batch_queue, List.length_drop]
        omega
      · -- something new: fewer nodes are left
        push Not at hold
        obtain ⟨a, ha, hnew⟩ := hold
        refine Prod.Lex.toLex_lt_toLex.mpr (.inl (Finset.card_lt_card ?_))
        refine Finset.ssubset_iff_of_subset (fun b hb => ?_) |>.mpr ⟨a, ?_, ?_⟩
        · rw [Finset.mem_sdiff, mem_batch_visited] at hb
          exact Finset.mem_sdiff.mpr ⟨hb.1, fun h => hb.2 (.inr h)⟩
        · rw [Finset.mem_sdiff, Set.Finite.mem_toFinset]
          exact ⟨hs.reachable a (.inr (List.mem_of_mem_take ha)), hnew⟩
        · rw [Finset.mem_sdiff, mem_batch_visited]
          exact fun h => h.2 (.inl ha)
  | @finish a succs ha hexp =>
      refine Prod.Lex.toLex_lt_toLex.mpr (.inr ⟨rfl, Prod.Lex.toLex_lt_toLex.mpr (.inl ?_)⟩)
      change (s.inFlight.erase a).length < s.inFlight.length
      have hlen : 0 < s.inFlight.length := List.length_pos_of_mem ha
      rw [List.length_erase_of_mem ha]
      omega

/-- **Termination.**  No run of a search over finitely many reachable nodes goes on for ever. -/
theorem acc_step (hfin : {a | Reachable expand root a}.Finite) (hk : 0 < k) {s : State α}
    (hs : Inv expand root s) : Acc (fun t s => Step expand k s t) s := by
  induction h : weight hfin s using WellFoundedLT.induction generalizing s with
  | ind w ih =>
      subst h
      exact ⟨_, fun t ht => ih _ (ht.weight_lt hfin hk hs) (ht.inv hs) rfl⟩

end

/-! ## The result -/

/-- **A finished search has seen exactly the reachable nodes**, each once, and every expansion
has succeeded. -/
theorem Inv.of_finished {s : State α} (hs : Inv expand root s) (hfin : s.Finished) :
    s.order.head? = some root ∧ s.order.Nodup ∧
      (∀ a, a ∈ s.order ↔ Reachable expand root a) ∧
      ∀ a, Reachable expand root a → ∃ succs, expand a = .ok succs := by
  obtain ⟨hqueue, hflight⟩ := hfin
  have hroot : s.order.head? = some root := by
    rcases hs.root_first with h | ⟨-, ⟨-, h⟩ | ⟨h, -⟩⟩
    · exact h
    · rw [hqueue] at h
      exact absurd h (List.cons_ne_nil _ _).symm
    · rw [hflight] at h
      exact absurd h (List.cons_ne_nil _ _).symm
  have hvis : ∀ a, a ∈ s.visited ↔ a ∈ s.order := by
    intro a
    rw [hs.visited_iff, hflight]
    simp
  have hall : ∀ a, Reachable expand root a → a ∈ s.order := by
    intro a ha
    induction ha with
    | root => exact List.mem_of_mem_head? hroot
    | step _ hexp hb ih =>
        obtain ⟨succs, hexp', hsub⟩ := hs.expanded _ ih
        rw [hexp, Except.ok.injEq] at hexp'
        subst hexp'
        rcases hsub _ hb with h | h
        · exact (hvis _).mp h
        · rw [hqueue] at h
          exact absurd h List.not_mem_nil
  refine ⟨hroot, (List.nodup_append.mp hs.nodup).1, fun a => ⟨fun ha => ?_, hall a⟩, fun a ha => ?_⟩
  · exact hs.reachable a (.inl ((hvis a).mpr ha))
  · obtain ⟨succs, hexp, -⟩ := hs.expanded a (hall a ha)
    exact ⟨succs, hexp⟩

end Worklist
