import Fuyao.Merge.Merge
import Mathlib.Order.MinMax

/-!
# Proofs: what a history of merges leads to

Where merging computes a join, a history leads to the least upper bound of its updates
(`History.isLUB_eval`), so histories of the same updates agree. Where merging keeps one of two values, a
history keeps one of its updates of the highest rank (`History.top_eval`), and histories agree only if there
is one such update (`History.agree_iff`).
-/

namespace Merge

variable {V W D : Type*} [Mergeable V]

namespace History

omit [Mergeable V] in
@[simp] theorem leaves_leaf (v : V) : (leaf v).leaves = [v] := rfl

omit [Mergeable V] in
@[simp] theorem leaves_node (t u : History V) : (node t u).leaves = t.leaves ++ u.leaves := rfl

omit [Mergeable V] in
theorem sameUpdates_node_comm (t u : History V) : (node t u).SameUpdates (node u t) := by
  intro v
  rw [leaves_node, leaves_node, List.mem_append, List.mem_append, or_comm]

omit [Mergeable V] in
@[simp] theorem leaves_map (f : V → W) (t : History V) : (t.map f).leaves = t.leaves.map f := by
  induction t with
  | leaf v => rfl
  | node into other ihi iho => rw [map, leaves_node, leaves_node, List.map_append, ihi, iho]

/-- What `f` sees of the state is the state of what it sees, if `f` commutes with merging. -/
theorem map_eval [Mergeable W] {f : V → W} (hf : ∀ a b, f (merge a b) = merge (f a) (f b)) (t : History V) :
    f t.eval = (t.map f).eval := by
  induction t with
  | leaf v => rfl
  | node into other ihi iho => rw [eval, hf, ihi, iho, map, eval]

/-- A quantity of which merging takes the maximum is that of one of the updates. -/
theorem exists_leaf_eq_eval {E : Type*} [LinearOrder E] {f : V → E}
    (hf : ∀ a b, f (merge a b) = max (f a) (f b)) (t : History V) : ∃ v ∈ t.leaves, f v = f t.eval := by
  induction t with
  | leaf v => exact ⟨v, List.mem_singleton_self v, rfl⟩
  | node into other ihi iho =>
    obtain ⟨v, hv, hvi⟩ := ihi
    obtain ⟨w, hw, hwo⟩ := iho
    rw [eval, hf]
    rcases max_choice (f into.eval) (f other.eval) with h | h
    · exact ⟨v, List.mem_append_left _ hv, by rw [h, hvi]⟩
    · exact ⟨w, List.mem_append_right _ hw, by rw [h, hwo]⟩

section Join

variable [SemilatticeSup D] [Denotes V D]

/-- A history leads to the join of its updates. -/
theorem isLUB_eval (t : History V) : IsLUB {d | ∃ v ∈ t.leaves, denote v = d} (denote t.eval) := by
  induction t with
  | leaf v => simp [eval]
  | node into other ihi iho =>
    have hunion : {d | ∃ v ∈ (node into other).leaves, denote v = d} =
        {d | ∃ v ∈ into.leaves, denote v = d} ∪ {d | ∃ v ∈ other.leaves, denote v = d} := by
      ext d
      simp only [leaves_node, List.mem_append, Set.mem_ofPred_eq, Set.mem_union]
      grind
    rw [hunion, eval, Denotes.denote_merge]
    exact ihi.union iho

theorem denote_le_eval {t : History V} {v : V} (hv : v ∈ t.leaves) : denote v ≤ denote t.eval :=
  t.isLUB_eval.1 ⟨v, hv, rfl⟩

/-- The order, the grouping and the repetition of merges make no difference. -/
theorem denote_eval_congr {t u : History V} (h : t.SameUpdates u) : denote t.eval = denote u.eval := by
  have hset : {d | ∃ v ∈ t.leaves, denote v = d} = {d | ∃ v ∈ u.leaves, denote v = d} := by
    ext d
    exact exists_congr fun v => and_congr_left fun _ => h v
  exact t.isLUB_eval.unique (hset ▸ u.isLUB_eval)

end Join

section Choice

variable {E : Type*} [LinearOrder E] {rank : V → E}

/-- A history keeps one of its updates of the highest rank. -/
theorem top_eval (hc : Chooses rank) (t : History V) : Top rank t.leaves t.eval := by
  induction t with
  | leaf v => simp [Top, eval]
  | node into other ihi iho =>
    rw [eval, leaves_node]
    constructor
    · rcases hc.mem into.eval other.eval with h | h <;> rw [h]
      · exact List.mem_append_left _ ihi.1
      · exact List.mem_append_right _ iho.1
    · intro w hw
      rw [hc.rank_merge]
      rcases List.mem_append.mp hw with hw | hw
      · exact (ihi.2 w hw).trans (le_max_left _ _)
      · exact (iho.2 w hw).trans (le_max_right _ _)

omit [Mergeable V] in
theorem exists_of {updates : List V} {v : V} (hv : v ∈ updates) : ∃ t : History V, t.Of updates := by
  have key (l : List V) : ∃ t : History V, ∀ w, w ∈ t.leaves ↔ w = v ∨ w ∈ l := by
    induction l with
    | nil => exact ⟨leaf v, by simp⟩
    | cons u l ih =>
      obtain ⟨t, ht⟩ := ih
      exact ⟨node t (leaf u), fun w => by simp [ht]; tauto⟩
  obtain ⟨t, ht⟩ := key updates
  refine ⟨t, fun w => (ht w).trans ⟨?_, Or.inr⟩⟩
  rintro (rfl | hw)
  · exact hv
  · exact hw

/-- All histories of some updates agree just if no two of them share the highest rank. -/
theorem agree_iff (hc : Chooses rank) (updates : List V) :
    (∀ t u : History V, t.Of updates → u.Of updates → t.eval = u.eval) ↔
      ∀ p q, Top rank updates p → Top rank updates q → p = q := by
  have htop {t : History V} (ht : t.Of updates) : Top rank updates t.eval :=
    ⟨(ht _).mp (top_eval hc t).1, fun w hw => (top_eval hc t).2 w ((ht w).mpr hw)⟩
  constructor
  · intro h p q hp hq
    obtain ⟨t, ht⟩ := exists_of hp.1
    have hrank {a : V} (ha : Top rank updates a) : rank t.eval = rank a :=
      le_antisymm (ha.2 _ (htop ht).1) ((htop ht).2 a ha.1)
    have hadd {a : V} (ha : a ∈ updates) :
        (node t (leaf a)).Of updates ∧ (node (leaf a) t).Of updates := by
      constructor <;> intro w <;>
        simp only [leaves_node, leaves_leaf, List.mem_append, List.mem_singleton, ht w] <;> grind
    -- either of the two is kept if it comes where ties are won
    rcases hc.ties with hties | hties
    · have heval := h _ _ (hadd hp.1).1 (hadd hq.1).1
      rwa [eval, eval, eval, eval, hties _ _ (hrank hp), hties _ _ (hrank hq)] at heval
    · have heval := h _ _ (hadd hp.1).2 (hadd hq.1).2
      rwa [eval, eval, eval, eval, hties _ _ (hrank hp).symm, hties _ _ (hrank hq).symm] at heval
  · intro h t u ht hu
    exact h _ _ (htop ht) (htop hu)

end Choice

end History

end Merge
