import Mathlib
import Niphas.Lib.Worklist

/-!
# The order and the length of a batched search

In which order the nodes of a `Worklist` search are finished, and how many batches it takes.

A search that takes its nodes breadth first does not finish them in topological order, even on a
graph without cycles: a node is taken as soon as one node leads to it, and others may come later.
It depends on the batches.  `State.Ready` is the condition on one batch, and the order follows if
every batch meets it; what has been finished in the wrong order stays so.  Edges from a node to
itself do not count.

The number of batches is bounded by counting what goes through the queue.

* `Step.ordered` — if a batch starts a node only when all other nodes that lead to it are finished,
  the nodes are finished in topological order.
* `not_sublist_of_first` — a node that is finished before one that leads to it stays before it.
* `batch_queue_lt`, `sum_degree_le` — a batch takes something off the queue, and what is ever put
  into it is bounded by the edges of the graph.
-/

namespace Worklist

variable {α ε : Type} {expand : α → Except ε (List α)} {root : α} {k : ℕ}

/-! ## Topological order -/

/-- An edge between two different nodes. -/
def Edge (expand : α → Except ε (List α)) (a b : α) : Prop :=
  a ≠ b ∧ ∃ succs, expand a = .ok succs ∧ b ∈ succs

/-- The nodes that the next batch of `k` starts are led to, apart from themselves, by finished nodes
only. -/
def State.Ready (expand : α → Except ε (List α)) (root : α) (k : ℕ) (s : State α) : Prop :=
  ∀ b ∈ s.queue.take k, b ∉ s.visited → ∀ a, Reachable expand root a → Edge expand a b → a ∈ s.order

/-- Every node of the list has the nodes that lead to it in front of it. -/
def Sorted (expand : α → Except ε (List α)) (root : α) (l : List α) : Prop :=
  ∀ a b, Reachable expand root a → Edge expand a b → b ∈ l → [a, b].Sublist l

/-- What holds of a search whose batches were all ready. -/
structure Ordered (expand : α → Except ε (List α)) (root : α) (s : State α) : Prop where
  /-- What leads to a visited node is finished. -/
  started : ∀ a b, Reachable expand root a → Edge expand a b → b ∈ s.visited → a ∈ s.order
  sorted : Sorted expand root s.order

lemma Ordered.start : Ordered expand root (State.start root) where
  started _ b _ _ hb := absurd hb (Finset.notMem_empty b)
  sorted _ _ _ _ hb := absurd hb List.not_mem_nil

section

variable [DecidableEq α]

lemma Ordered.batch {s : State α} (h : Ordered expand root s) (hready : s.Ready expand root k) :
    Ordered expand root (s.batch k) := by
  refine ⟨fun a b ha hab hb => ?_, ?_⟩
  · rw [batch_order]
    by_cases hold : b ∈ s.visited
    · exact h.started a b ha hab hold
    · have htaken := (mem_batch_visited.mp hb).resolve_right hold
      exact hready b htaken hold a ha hab
  · rw [batch_order]
    exact h.sorted

lemma Ordered.finish {s : State α} {c : α} (h : Ordered expand root s)
    (hinv : Inv expand root s) (hc : c ∈ s.inFlight) (succs : List α) :
    Ordered expand root (s.finish c succs) := by
  refine ⟨fun a b ha hab hb => List.mem_append_left _ (h.started a b ha hab hb), ?_⟩
  intro a b ha hab hb
  rcases List.mem_append.mp hb with hb | hb
  · exact (h.sorted a b ha hab hb).trans (List.sublist_append_left _ _)
  · -- the new node is the last one, and what leads to it was finished before it was started
    obtain rfl := List.mem_singleton.mp hb
    have hmem := h.started a b ha hab ((hinv.visited_iff b).mpr (.inr hc))
    exact (List.singleton_sublist.mpr hmem).append (List.Sublist.refl [b])

/-- **Step lemma.** -/
lemma Step.ordered {s t : State α} (h : Step expand k s t) (hinv : Inv expand root s)
    (hready : s.inFlight = [] → s.Ready expand root k) (hs : Ordered expand root s) :
    Ordered expand root t := by
  cases h with
  | batch hidle _ => exact hs.batch (hready hidle)
  | finish ha hexp => exact hs.finish hinv ha _

/-- What is finished stays in its place. -/
lemma Step.order_prefix {s t : State α} (h : Step expand k s t) : s.order <+: t.order := by
  cases h with
  | batch _ _ => rw [batch_order]
  | finish _ _ => exact List.prefix_append _ _

end

/-- A node before which another one has not come never has it in front. -/
lemma not_sublist_of_first {l pre : List α} {a b : α} (hl : l.Nodup) (hpre : pre ++ [b] <+: l)
    (ha : a ∉ pre) : ¬ [a, b].Sublist l := by
  intro hsub
  obtain ⟨post, rfl⟩ := hpre
  obtain ⟨front, back, heq, hfront, hback⟩ := List.cons_sublist_iff.mp hsub
  have hb : b ∈ back := List.singleton_sublist.mp hback
  rw [List.append_assoc] at heq
  rcases List.append_eq_append_iff.mp heq with ⟨mid, rfl, hmid⟩ | ⟨mid, rfl, -⟩
  · have ha' : a ∈ mid := (List.mem_append.mp hfront).resolve_left ha
    obtain ⟨c, mid, rfl⟩ := List.exists_cons_of_ne_nil (List.ne_nil_of_mem ha')
    obtain rfl : b = c := (List.cons.inj hmid).1
    rw [List.append_assoc, heq, List.nodup_append] at hl
    exact hl.2.2 b (List.mem_append_right _ List.mem_cons_self) b hb rfl
  · exact ha (List.mem_append_left _ hfront)

/-! ## Number of batches -/

/-- How many nodes the expansion of `a` puts forward. -/
def degree (expand : α → Except ε (List α)) (a : α) : ℕ :=
  match expand a with
  | .ok succs => succs.length
  | .error _ => 0

lemma degree_of_ok {a : α} {succs : List α} (h : expand a = .ok succs) :
    degree expand a = succs.length := by
  rw [degree, h]

/-- `n` batches after the start: what they took off the queue was put into it by a finished node. -/
def Spent (expand : α → Except ε (List α)) (n : ℕ) (s : State α) : Prop :=
  n + s.queue.length ≤ 1 + (s.order.map (degree expand)).sum

lemma Spent.start (root : α) : Spent expand 0 (State.start root) := by
  simp [Spent, State.start]

section

variable [DecidableEq α]

/-- A batch takes at least one node off the queue. -/
lemma batch_queue_lt (hk : 0 < k) {s : State α} (hne : s.queue ≠ []) :
    (s.batch k).queue.length < s.queue.length := by
  have hpos := List.length_pos_iff.mpr hne
  rw [batch_queue, List.length_drop]
  omega

/-- An end of an expansion puts no more than its successors into it. -/
lemma finish_queue_le (s : State α) {a : α} {succs : List α} (h : expand a = .ok succs) :
    (s.finish a succs).queue.length ≤ s.queue.length + degree expand a := by
  have hfilter := List.length_filter_le (fun b => decide (b ∉ s.visited)) succs
  rw [State.finish, List.length_append, degree_of_ok h]
  omega

lemma Spent.batch {n : ℕ} {s : State α} (h : Spent expand n s) (hk : 0 < k) (hne : s.queue ≠ []) :
    Spent expand (n + 1) (s.batch k) := by
  have hlt := batch_queue_lt hk hne
  rw [Spent] at h ⊢
  rw [batch_order]
  omega

lemma Spent.finish {n : ℕ} {s : State α} {a : α} {succs : List α} (h : Spent expand n s)
    (hexp : expand a = .ok succs) : Spent expand n (s.finish a succs) := by
  have hle := finish_queue_le s hexp
  have hsum : ((s.finish a succs).order.map (degree expand)).sum =
      (s.order.map (degree expand)).sum + degree expand a := by
    rw [State.finish, List.map_append, List.sum_append, List.map_singleton, List.sum_singleton]
  rw [Spent] at h ⊢
  omega

end

/-- The edges out of the finished nodes are some of the edges of the graph. -/
lemma sum_degree_le [DecidableEq α] (hfin : {a | Reachable expand root a}.Finite) {s : State α}
    (hinv : Inv expand root s) :
    (s.order.map (degree expand)).sum ≤ ∑ a ∈ hfin.toFinset, degree expand a := by
  have hnodup := (List.nodup_append.mp hinv.nodup).1
  rw [← List.sum_toFinset _ hnodup]
  refine Finset.sum_le_sum_of_subset fun a ha => ?_
  rw [Set.Finite.mem_toFinset]
  exact hinv.reachable a (.inl ((hinv.visited_iff a).mpr (.inl (List.mem_toFinset.mp ha))))

end Worklist
