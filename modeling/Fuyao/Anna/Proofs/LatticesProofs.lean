import Fuyao.Anna.Lattices
import Fuyao.Cpp.Proofs.ContainersProofs
import Fuyao.Merge.Proofs.MergeProofs
import Mathlib.Data.Finset.Erase
import Mathlib.Data.Finset.Lattice.Basic
import Mathlib.Order.Lattice.Nat
import Mathlib.Order.WithBot

/-!
# Proofs: replicas of a lattice

Each lattice stands for an element of a semilattice, and merging computes the join (`Denotes`): a counter
stands for a number, a set for a finite set, and a map for a function that is `⊥` where there is no
entry.
-/

namespace Anna

open Cpp Merge

theorem MaxLattice.toNat_doMerge (l : MaxLattice) (e : UInt32) :
    (l.doMerge e).element.toNat = max l.element.toNat e.toNat := by
  simp only [doMerge, UInt32.toUInt32_toInt32, UInt32.lt_iff_toNat_lt]
  split
  case isTrue h => exact (max_eq_right h.le).symm
  case isFalse h => exact (max_eq_left (not_lt.mp h)).symm

instance : Denotes MaxLattice ℕ where
  denote l := l.element.toNat
  denote_merge a b := a.toNat_doMerge b.element

namespace SetLattice

variable {T : Type} [DecidableEq T]

instance : Denotes (SetLattice T) (Finset T) where
  denote l := ⟨l.element.elems, l.element.nodup⟩
  denote_merge a b := by
    ext x
    rw [Finset.sup_eq_union, Finset.mem_union]
    change x ∈ a.element.insertAll b.element.elems ↔ x ∈ a.element ∨ x ∈ b.element.elems
    rw [UnorderedSet.mem_insertAll, or_comm]

end SetLattice

namespace MapLattice

variable {K V D : Type} [DecidableEq K] [Mergeable V] [SemilatticeSup D] [Denotes V D]

/-- What the entry at a key stands for. -/
def entry (v : Option V) : WithBot D :=
  match v with
  | some v => (denote v : D)
  | none => ⊥

theorem entry_lookup_insertPair (l : MapLattice K V) (k : K) (v : V) (a : K) :
    entry ((l.insertPair k v).element.lookup a) =
      entry (l.element.lookup a) ⊔ if a = k then ((denote v : D) : WithBot D) else ⊥ := by
  unfold insertPair
  by_cases ha : a = k
  · subst ha
    split
    case h_1 found hf => simp [hf, entry, Denotes.denote_merge]
    case h_2 hf => simp [hf, entry]
  · split <;> simp [AList.lookup_insert_ne ha, ha]

theorem entry_lookup_foldl_insertPair (pairs : List (Sigma fun _ : K => V)) (hp : pairs.NodupKeys)
    (l : MapLattice K V) (a : K) :
    entry ((pairs.foldl (fun l pair => l.insertPair pair.1 pair.2) l).element.lookup a) =
      entry (D := D) (l.element.lookup a) ⊔ entry (pairs.dlookup a) := by
  induction pairs generalizing l with
  | nil => simp [entry]
  | cons pair pairs ih =>
    obtain ⟨hnot, hp⟩ := List.nodupKeys_cons.mp hp
    rw [List.foldl_cons, ih hp, entry_lookup_insertPair, sup_assoc]
    congr 1
    by_cases ha : a = pair.1
    · subst ha
      rw [List.dlookup_eq_none.mpr hnot, List.dlookup_cons_eq]
      simp [entry]
    · rw [List.dlookup_cons_ne _ _ ha, if_neg ha, bot_sup_eq]

instance : Denotes (MapLattice K V) (K → WithBot D) where
  denote l k := entry (l.element.lookup k)
  denote_merge a b := funext fun k =>
    entry_lookup_foldl_insertPair b.element.entries b.element.nodupKeys a k

theorem denote_apply (l : MapLattice K V) (k : K) : (denote l : K → WithBot D) k = entry (l.element.lookup k) :=
  rfl

end MapLattice

section Counters

variable {K : Type} [DecidableEq K]

theorem entry_injective {v w : Option MaxLattice}
    (h : (MapLattice.entry v : WithBot ℕ) = MapLattice.entry w) : v = w := by
  cases v with
  | none =>
    cases w with
    | none => rfl
    | some w => exact absurd h.symm WithBot.coe_ne_bot
  | some v =>
    cases w with
    | none => exact absurd h WithBot.coe_ne_bot
    | some w =>
      have hvw : v.element = w.element := UInt32.toNat_inj.mp (WithBot.coe_inj.mp h)
      rw [show v = w from congrArg MaxLattice.mk hvw]

/-- Two maps of counters are equal for `operator==` if they stand for the same function. -/
theorem beq_iff_denote_eq {l r : MapLattice K MaxLattice} :
    (l == r) = true ↔ (denote l : K → WithBot ℕ) = denote r := by
  change l.element.equal r.element = true ↔ _
  rw [UnorderedMap.equal_iff]
  constructor
  · intro h
    funext k
    rw [MapLattice.denote_apply, MapLattice.denote_apply, h k]
  · intro h k
    exact entry_injective (congrFun h k)

/-- The counter that a history ends with, at every key: the largest one that an update brought. -/
theorem lookup_eval_eq_some_iff (t : History (MapLattice K MaxLattice)) (k : K) (n : UInt32) :
    t.eval.element.lookup k = some ⟨n⟩ ↔
      (∃ l ∈ t.leaves, l.element.lookup k = some ⟨n⟩) ∧
        ∀ l ∈ t.leaves, ∀ m, l.element.lookup k = some ⟨m⟩ → m ≤ n := by
  have hmax (a b : MapLattice K MaxLattice) :
      (denote (merge a b) : K → WithBot ℕ) k = max (denote a k) (denote b k) := by
    rw [Denotes.denote_merge]
    rfl
  obtain ⟨top, htop, heq⟩ := History.exists_leaf_eq_eval (f := fun l => (denote l : K → WithBot ℕ) k) hmax t
  have htopk : top.element.lookup k = t.eval.element.lookup k := entry_injective heq
  have hle {l : MapLattice K MaxLattice} (hl : l ∈ t.leaves) {m n : UInt32}
      (hm : l.element.lookup k = some ⟨m⟩) (hn : t.eval.element.lookup k = some ⟨n⟩) : m ≤ n := by
    have h := History.denote_le_eval (D := K → WithBot ℕ) hl k
    rw [MapLattice.denote_apply, MapLattice.denote_apply, hm, hn] at h
    exact UInt32.le_iff_toNat_le.mpr (WithBot.coe_le_coe.mp h)
  constructor
  · intro h
    exact ⟨⟨top, htop, htopk.trans h⟩, fun l hl m hm => hle hl hm h⟩
  · rintro ⟨⟨l, hl, hn⟩, hbound⟩
    have hsome : t.eval.element.lookup k ≠ none := by
      intro hnone
      have h := History.denote_le_eval (D := K → WithBot ℕ) hl k
      rw [MapLattice.denote_apply, MapLattice.denote_apply, hn, hnone] at h
      exact WithBot.coe_ne_bot (le_bot_iff.mp h)
    obtain ⟨⟨m⟩, hm⟩ := Option.ne_none_iff_exists'.mp hsome
    have hmn : m = n := UInt32.le_antisymm (hbound top htop m (htopk.trans hm)) (hle hl hn hm)
    rw [hm, hmn]

end Counters

/-- Vector clocks of replicas agree, and they are exact, whatever the order, the grouping and the
repetition of the merges. -/
theorem vector_clocks_converge (t u : History VectorClock) (h : t.SameUpdates u) :
    (t.eval == u.eval) = true ∧
      ∀ id n, t.eval.element.lookup id = some ⟨n⟩ ↔
        (∃ vc ∈ t.leaves, vc.element.lookup id = some ⟨n⟩) ∧
          ∀ vc ∈ t.leaves, ∀ m, vc.element.lookup id = some ⟨m⟩ → m ≤ n :=
  ⟨beq_iff_denote_eq.mpr (History.denote_eval_congr h), lookup_eval_eq_some_iff t⟩

/-- The clock with these counters. -/
def clockOf (counters : List (Bytes × UInt32)) : VectorClock :=
  counters.foldl (fun vc e => vc.insert e.1 ⟨e.2⟩) ⟨∅⟩

theorem vector_clocks_converge_sample :
    (merge (clockOf [([97], 1)]) (clockOf [([97], 2), ([98], 1)]) ==
      merge (clockOf [([97], 2), ([98], 1)]) (clockOf [([97], 1)])) = true :=
  (vector_clocks_converge (.node (.leaf _) (.leaf _)) (.node (.leaf _) (.leaf _))
    (History.sameUpdates_node_comm _ _)).1

/-! ## Causal versions -/

theorem VectorClock.denote_eq_clock (vc : VectorClock) : denote vc = vc.clock := by
  funext id
  rw [MapLattice.denote_apply, clock]
  cases vc.element.lookup id <;> rfl

theorem VectorClock.clock_merge (a b : VectorClock) : (merge a b).clock = a.clock ⊔ b.clock := by
  rw [← denote_eq_clock, ← denote_eq_clock, ← denote_eq_clock, Denotes.denote_merge]

theorem VectorClock.beq_iff {a b : VectorClock} : (a == b) = true ↔ a.clock = b.clock := by
  rw [beq_iff_denote_eq, denote_eq_clock, denote_eq_clock]

/-- Only the ids that a clock has need to be compared. -/
theorem VectorClock.clock_le_iff {a b : VectorClock} :
    a.clock ≤ b.clock ↔ ∀ e ∈ a.element.entries, a.clock e.1 ≤ b.clock e.1 := by
  constructor
  · intro h e _
    exact h e.1
  · intro h id
    by_cases hid : id ∈ a.element
    · obtain ⟨n, hn⟩ := Option.isSome_iff_exists.mp (AList.lookup_isSome.mpr hid)
      exact h ⟨id, n⟩ (AList.mem_lookup_iff.mp hn)
    · rw [clock, AList.lookup_eq_none.mpr hid]
      exact bot_le

theorem Dotted.mono {l l' : List VectorClock} (h : Dotted l') (hsub : l ⊆ l') : Dotted l := by
  intro p hp
  obtain ⟨id, hid⟩ := h p (hsub hp)
  exact ⟨id, fun q hq => hid q (hsub hq)⟩

namespace Versioned

variable {R D : Type} [Mergeable R]

theorem vector_clock_merge (e p : Versioned R) :
    (merge e p).vector_clock = merge e.vector_clock p.vector_clock := by
  change (e.doMerge p).vector_clock = _
  unfold doMerge
  grind

/-- What a merge does to the rest of a version, by the order of the clocks. -/
theorem rest_merge_cases (e p : Versioned R) :
    (e.vector_clock.clock ≤ p.vector_clock.clock ∧ (merge e p).rest = p.rest) ∨
      (p.vector_clock.clock ≤ e.vector_clock.clock ∧ (merge e p).rest = e.rest) ∨
      (¬ e.vector_clock.clock ≤ p.vector_clock.clock ∧ ¬ p.vector_clock.clock ≤ e.vector_clock.clock ∧
        (merge e p).rest = merge e.rest p.rest) := by
  change (_ ∧ (e.doMerge p).rest = _) ∨ (_ ∧ (e.doMerge p).rest = _) ∨ (_ ∧ _ ∧ (e.doMerge p).rest = _)
  have hnew : (merge e.vector_clock p.vector_clock == p.vector_clock) = true ↔
      e.vector_clock.clock ≤ p.vector_clock.clock := by
    rw [VectorClock.beq_iff, VectorClock.clock_merge, sup_eq_right]
  have hold : (merge e.vector_clock p.vector_clock == e.vector_clock) = true ↔
      p.vector_clock.clock ≤ e.vector_clock.clock := by
    rw [VectorClock.beq_iff, VectorClock.clock_merge, sup_eq_left]
  unfold doMerge
  by_cases h : e.vector_clock.clock ≤ p.vector_clock.clock
  · exact .inl ⟨h, by simp [hnew.mpr h]⟩
  · by_cases h' : p.vector_clock.clock ≤ e.vector_clock.clock
    · exact .inr (.inl ⟨h', by simp [hold.mpr h', mt hnew.mp h]⟩)
    · exact .inr (.inr ⟨h, h', by simp [mt hnew.mp h, mt hold.mp h']⟩)

theorem clock_le_eval {t : History (Versioned R)} {p : Versioned R} (hp : p ∈ t.leaves) :
    p.vector_clock.clock ≤ t.eval.vector_clock.clock := by
  rw [History.map_eval vector_clock_merge, ← VectorClock.denote_eq_clock, ← VectorClock.denote_eq_clock]
  exact History.denote_le_eval (by rw [History.leaves_map]; exact List.mem_map_of_mem hp)

/-- A version that a state covers is covered by one of the versions the state was merged from. -/
theorem exists_leaf_clock_le {t : History (Versioned R)} {l : List VectorClock} (hl : Dotted l)
    (hsub : t.leaves.map vector_clock ⊆ l) {p : VectorClock} (hp : p ∈ l)
    (hle : p.clock ≤ t.eval.vector_clock.clock) : ∃ q ∈ t.leaves, p.clock ≤ q.vector_clock.clock := by
  obtain ⟨id, hid⟩ := hl p hp
  obtain ⟨q, hq, hqid⟩ := History.exists_leaf_eq_eval (f := fun p => p.vector_clock.clock id)
    (fun a b => by rw [vector_clock_merge, VectorClock.clock_merge]; rfl) t
  have hpq : p.clock id ≤ q.vector_clock.clock id := (hle id).trans_eq hqid.symm
  exact ⟨q, hq, hid _ (hsub (List.mem_map_of_mem hq)) hpq⟩

/-- Versions that follow one another replace one another: the last one remains. -/
theorem exists_last_of_chain (t : History (Versioned R))
    (h : ∀ p ∈ t.leaves, ∀ q ∈ t.leaves,
      p.vector_clock.clock ≤ q.vector_clock.clock ∨ q.vector_clock.clock ≤ p.vector_clock.clock) :
    ∃ last ∈ t.leaves, t.eval.rest = last.rest ∧ t.eval.vector_clock.clock = last.vector_clock.clock := by
  induction t with
  | leaf v => exact ⟨v, List.mem_singleton_self v, rfl, rfl⟩
  | node into other ihi iho =>
    have hi {p} (hp : p ∈ into.leaves) : p ∈ (History.node into other).leaves := List.mem_append_left _ hp
    have ho {p} (hp : p ∈ other.leaves) : p ∈ (History.node into other).leaves := List.mem_append_right _ hp
    obtain ⟨p, hp, hpr, hpc⟩ := ihi fun a ha b hb => h a (hi ha) b (hi hb)
    obtain ⟨q, hq, hqr, hqc⟩ := iho fun a ha b hb => h a (ho ha) b (ho hb)
    have hclock : (History.node into other).eval.vector_clock.clock =
        p.vector_clock.clock ⊔ q.vector_clock.clock := by
      rw [History.eval, vector_clock_merge, VectorClock.clock_merge, hpc, hqc]
    rcases rest_merge_cases into.eval other.eval with ⟨hle, hr⟩ | ⟨hle, hr⟩ | ⟨hn, hn', -⟩
    · rw [hpc, hqc] at hle
      exact ⟨q, ho hq, hr.trans hqr, hclock.trans (sup_eq_right.mpr hle)⟩
    · rw [hpc, hqc] at hle
      exact ⟨p, hi hp, hr.trans hpr, hclock.trans (sup_eq_left.mpr hle)⟩
    · rw [hpc, hqc] at hn hn'
      exact absurd (h p (hi hp) q (ho hq)) (not_or_intro hn hn')

section Kept

variable [SemilatticeSup D] [Denotes R D]

/-- The versions `kept` make up the rest of the state that a history leads to, and where the versions
carry dots the others are superseded. -/
structure Kept (t : History (Versioned R)) (kept : List (Versioned R)) : Prop where
  subset : kept ⊆ t.leaves
  isLUB : IsLUB {d | ∃ q ∈ kept, denote q.rest = d} (denote t.eval.rest : D)
  covers : Dotted (t.leaves.map vector_clock) →
    ∀ p ∈ t.leaves, ∃ q ∈ kept, p.vector_clock.clock ≤ q.vector_clock.clock

/-- The side whose clock dominates stands for both. -/
theorem covers_of_dominates {into other : History (Versioned R)} {kept : List (Versioned R)}
    (hk : Kept (D := D) other kept) {l : List VectorClock} (hl : Dotted l)
    (hi : into.leaves.map vector_clock ⊆ l) (ho : other.leaves.map vector_clock ⊆ l)
    (hle : into.eval.vector_clock.clock ≤ other.eval.vector_clock.clock) {p : Versioned R}
    (hp : p ∈ into.leaves ∨ p ∈ other.leaves) :
    ∃ q ∈ kept, p.vector_clock.clock ≤ q.vector_clock.clock := by
  have hother : ∃ q ∈ other.leaves, p.vector_clock.clock ≤ q.vector_clock.clock := by
    rcases hp with hp | hp
    · exact exists_leaf_clock_le hl ho (hi (List.mem_map_of_mem hp)) ((clock_le_eval hp).trans hle)
    · exact ⟨p, hp, le_rfl⟩
  obtain ⟨q, hq, hpq⟩ := hother
  obtain ⟨r, hr, hqr⟩ := hk.covers (hl.mono ho) q hq
  exact ⟨r, hr, hpq.trans hqr⟩

theorem isLUB_append {kept kept' : List (Versioned R)} {d d' : D}
    (h : IsLUB {d | ∃ q ∈ kept, denote q.rest = d} d) (h' : IsLUB {d | ∃ q ∈ kept', denote q.rest = d} d') :
    IsLUB {d | ∃ q ∈ kept ++ kept', denote q.rest = d} (d ⊔ d') := by
  have hunion : {d : D | ∃ q ∈ kept ++ kept', denote q.rest = d} =
      {d | ∃ q ∈ kept, denote q.rest = d} ∪ {d | ∃ q ∈ kept', denote q.rest = d} := by
    ext d
    simp only [List.mem_append, Set.mem_ofPred_eq, Set.mem_union]
    grind
  rw [hunion]
  exact h.union h'

theorem exists_kept (t : History (Versioned R)) : ∃ kept, Kept (D := D) t kept := by
  induction t with
  | leaf v => exact ⟨[v], by simp, by simp [History.eval], fun _ p hp => ⟨p, hp, le_rfl⟩⟩
  | node into other ihi iho =>
    obtain ⟨kept, hk⟩ := ihi
    obtain ⟨kept', hk'⟩ := iho
    have hi : into.leaves ⊆ (History.node into other).leaves := List.subset_append_left _ _
    have ho : other.leaves ⊆ (History.node into other).leaves := List.subset_append_right _ _
    have hic := List.map_subset vector_clock hi
    have hoc := List.map_subset vector_clock ho
    have heval : (History.node into other).eval = merge into.eval other.eval := rfl
    rcases rest_merge_cases into.eval other.eval with ⟨hle, hr⟩ | ⟨hle, hr⟩ | ⟨-, -, hr⟩
    · refine ⟨kept', fun _ hx => ho (hk'.subset hx), by rw [heval, hr]; exact hk'.isLUB, ?_⟩
      intro hl p hp
      exact covers_of_dominates hk' hl hic hoc hle (List.mem_append.mp hp)
    · refine ⟨kept, fun _ hx => hi (hk.subset hx), by rw [heval, hr]; exact hk.isLUB, ?_⟩
      intro hl p hp
      exact covers_of_dominates hk hl hoc hic hle (List.mem_append.mp hp).symm
    · refine ⟨kept ++ kept', ?_, ?_, ?_⟩
      · exact List.append_subset.mpr ⟨fun _ hx => hi (hk.subset hx), fun _ hx => ho (hk'.subset hx)⟩
      · rw [heval, hr, Denotes.denote_merge]
        exact isLUB_append hk.isLUB hk'.isLUB
      · intro hl p hp
        rcases List.mem_append.mp hp with hp | hp
        · obtain ⟨q, hq, hpq⟩ := hk.covers (hl.mono hic) p hp
          exact ⟨q, List.mem_append_left _ hq, hpq⟩
        · obtain ⟨q, hq, hpq⟩ := hk'.covers (hl.mono hoc) p hp
          exact ⟨q, List.mem_append_right _ hq, hpq⟩

end Kept

end Versioned

section SingleKey

variable {T : Type} [Mergeable T]

namespace SingleKeyCausalLattice

/-- The element as a version of its value. -/
def versioned (l : SingleKeyCausalLattice T) : Versioned T := ⟨l.element.vector_clock, l.element.value⟩

theorem versioned_merge (l r : SingleKeyCausalLattice T) :
    (merge l r).versioned = merge l.versioned r.versioned := rfl

end SingleKeyCausalLattice

/-- Replicas that have merged the same versions, one of which follows the other whichever two are taken,
have the last of these versions. -/
theorem successive_versions_converge (t u : History (SingleKeyCausalLattice T)) (hsame : t.SameUpdates u)
    (hchain : ∀ l ∈ t.leaves, ∀ m ∈ t.leaves,
      l.element.vector_clock.clock ≤ m.element.vector_clock.clock ∨
        m.element.vector_clock.clock ≤ l.element.vector_clock.clock)
    (hvalue : ∀ l ∈ t.leaves, ∀ m ∈ t.leaves,
      l.element.vector_clock.clock = m.element.vector_clock.clock → l.element.value = m.element.value) :
    ∃ last ∈ t.leaves, (∀ l ∈ t.leaves, l.element.vector_clock.clock ≤ last.element.vector_clock.clock) ∧
      ∀ replica ∈ [t.eval, u.eval],
        replica.element.vector_clock.clock = last.element.vector_clock.clock ∧
          replica.element.value = last.element.value := by
  have hlast (w : History (SingleKeyCausalLattice T)) (hw : ∀ l, l ∈ w.leaves ↔ l ∈ t.leaves) :
      ∃ last ∈ t.leaves, (∀ l ∈ t.leaves, l.element.vector_clock.clock ≤ last.element.vector_clock.clock) ∧
        w.eval.element.vector_clock.clock = last.element.vector_clock.clock ∧
          w.eval.element.value = last.element.value := by
    have hmap := History.map_eval SingleKeyCausalLattice.versioned_merge w
    obtain ⟨last, hmem, hrest, hclock⟩ :=
      Versioned.exists_last_of_chain (w.map SingleKeyCausalLattice.versioned) (by
        simp only [History.leaves_map, List.mem_map]
        rintro _ ⟨l, hl, rfl⟩ _ ⟨m, hm, rfl⟩
        exact hchain l ((hw l).mp hl) m ((hw m).mp hm))
    rw [History.leaves_map, List.mem_map] at hmem
    obtain ⟨l, hl, rfl⟩ := hmem
    rw [← hmap] at hrest hclock
    refine ⟨l, (hw l).mp hl, ?_, hclock, hrest⟩
    intro m hm
    have hle := Versioned.clock_le_eval (t := w.map SingleKeyCausalLattice.versioned)
      (by rw [History.leaves_map]; exact List.mem_map_of_mem ((hw m).mpr hm))
    rw [← hmap] at hle
    exact hle.trans_eq hclock
  obtain ⟨last, hmem, htop, hc, hv⟩ := hlast t fun _ => Iff.rfl
  obtain ⟨last', hmem', htop', hc', hv'⟩ := hlast u fun l => (hsame l).symm
  have hclock : last'.element.vector_clock.clock = last.element.vector_clock.clock :=
    le_antisymm (htop last' hmem') (htop' last hmem)
  refine ⟨last, hmem, htop, ?_⟩
  simp only [List.mem_cons, List.not_mem_nil, or_false, forall_eq_or_imp, forall_eq]
  exact ⟨⟨hc, hv⟩, hc'.trans hclock, hv'.trans (hvalue last' hmem' last hmem hclock)⟩

/-- A version by the writer `a`. -/
def sampleVersion : SingleKeyCausalLattice (SetLattice ℕ) := ⟨⟨clockOf [([97], 1)], ⟨⟨[1], by simp⟩⟩⟩⟩

/-- A version that follows it. -/
def sampleSuccessor : SingleKeyCausalLattice (SetLattice ℕ) :=
  ⟨⟨clockOf [([97], 2), ([98], 1)], ⟨⟨[2], by simp⟩⟩⟩⟩

theorem successive_versions_converge_sample :
    ∃ last ∈ [sampleVersion, sampleSuccessor],
      (∀ l ∈ [sampleVersion, sampleSuccessor],
        l.element.vector_clock.clock ≤ last.element.vector_clock.clock) ∧
      ∀ replica ∈ [merge sampleVersion sampleSuccessor, merge sampleSuccessor sampleVersion],
        replica.element.vector_clock.clock = last.element.vector_clock.clock ∧
          replica.element.value = last.element.value := by
  have hle : sampleVersion.element.vector_clock.clock ≤ sampleSuccessor.element.vector_clock.clock :=
    VectorClock.clock_le_iff.mpr (by decide)
  have hne : sampleVersion.element.vector_clock.clock ≠ sampleSuccessor.element.vector_clock.clock := by
    intro h
    exact absurd (VectorClock.beq_iff.mpr h) (by decide)
  refine successive_versions_converge (.node (.leaf sampleVersion) (.leaf sampleSuccessor))
    (.node (.leaf sampleSuccessor) (.leaf sampleVersion)) (History.sameUpdates_node_comm _ _) ?_ ?_
  · simp only [History.leaves_node, History.leaves_leaf, List.mem_append, List.mem_singleton]
    rintro l (rfl | rfl) m (rfl | rfl)
    · exact .inl le_rfl
    · exact .inl hle
    · exact .inr hle
    · exact .inl le_rfl
  · simp only [History.leaves_node, History.leaves_leaf, List.mem_append, List.mem_singleton]
    rintro l (rfl | rfl) m (rfl | rfl) h
    · rfl
    · exact absurd h hne
    · exact absurd h.symm hne
    · rfl

end SingleKey

section MultiKey

variable {T : Type}

namespace MultiKeyCausalLattice

/-- The element as a version of its dependencies and its value. -/
def versioned (l : MultiKeyCausalLattice T) : Versioned (MapLattice Bytes VectorClock × T) :=
  ⟨l.element.vector_clock, (l.element.dependencies, l.element.value)⟩

theorem versioned_merge [Mergeable T] (l r : MultiKeyCausalLattice T) :
    (merge l r).versioned = merge l.versioned r.versioned := rfl

end MultiKeyCausalLattice

/-- An entry of a map that another map lies above is covered there. -/
theorem exists_lookup_of_denote_le {a b : MapLattice Bytes VectorClock}
    (h : (denote a : Bytes → WithBot (Bytes → WithBot ℕ)) ≤ denote b) {key : Bytes} {vc : VectorClock}
    (hvc : a.element.lookup key = some vc) :
    ∃ vc', b.element.lookup key = some vc' ∧ vc.clock ≤ vc'.clock := by
  have hkey := h key
  rw [MapLattice.denote_apply, MapLattice.denote_apply, hvc] at hkey
  cases hb : b.element.lookup key with
  | none =>
    rw [hb] at hkey
    exact absurd (le_bot_iff.mp hkey) WithBot.coe_ne_bot
  | some vc' =>
    rw [hb] at hkey
    refine ⟨vc', rfl, ?_⟩
    rw [← VectorClock.denote_eq_clock, ← VectorClock.denote_eq_clock]
    exact WithBot.coe_le_coe.mp hkey

/-- A replica holds, for every version that was merged into it, the values and the dependencies of that
version or of one that follows it, and it holds no other values. -/
theorem versions_survive [DecidableEq T] (t : History (MultiKeyCausalLattice (SetLattice T)))
    (h : Dotted (t.leaves.map fun l => l.element.vector_clock)) :
    (∀ l ∈ t.leaves, ∃ m ∈ t.leaves, l.element.vector_clock.clock ≤ m.element.vector_clock.clock ∧
      (∀ x ∈ m.element.value.element, x ∈ t.eval.element.value.element) ∧
      ∀ key vc, m.element.dependencies.element.lookup key = some vc →
        ∃ vc', t.eval.element.dependencies.element.lookup key = some vc' ∧ vc.clock ≤ vc'.clock) ∧
    ∀ x ∈ t.eval.element.value.element, ∃ m ∈ t.leaves, x ∈ m.element.value.element := by
  have hmap := History.map_eval MultiKeyCausalLattice.versioned_merge t
  obtain ⟨kept, hkept⟩ := Versioned.exists_kept (t.map MultiKeyCausalLattice.versioned)
  have hsub {q} (hq : q ∈ kept) : ∃ m ∈ t.leaves, m.versioned = q := by
    simpa only [History.leaves_map, List.mem_map] using hkept.subset hq
  have hlub := hkept.isLUB
  rw [← hmap] at hlub
  constructor
  · intro l hl
    have hdots : Dotted ((t.map MultiKeyCausalLattice.versioned).leaves.map Versioned.vector_clock) := by
      rw [History.leaves_map, List.map_map]
      exact h
    obtain ⟨q, hq, hlq⟩ := hkept.covers hdots l.versioned
      (by rw [History.leaves_map]; exact List.mem_map_of_mem hl)
    obtain ⟨m, hm, rfl⟩ := hsub hq
    obtain ⟨hdeps, hvals⟩ := hlub.1 ⟨_, hq, rfl⟩
    exact ⟨m, hm, hlq, fun x hx => hvals hx, fun key vc hvc => exists_lookup_of_denote_le hdeps hvc⟩
  · intro x hx
    by_contra hnone
    -- without `x` the state would still be an upper bound
    have hupper : (denote t.eval.element.dependencies, (denote t.eval.element.value).erase x) ∈
        upperBounds {d | ∃ q ∈ kept, denote q.rest = d} := by
      rintro _ ⟨q, hq, rfl⟩
      obtain ⟨hdeps, hvals⟩ := hlub.1 ⟨q, hq, rfl⟩
      obtain ⟨m, hm, rfl⟩ := hsub hq
      refine ⟨hdeps, fun y hy => Finset.mem_erase.mpr ⟨?_, hvals hy⟩⟩
      rintro rfl
      exact hnone ⟨m, hm, hy⟩
    exact Finset.notMem_erase x _ ((hlub.2 hupper).2 hx)

/-- A version that depends on another key. -/
def sampleConcurrent : MultiKeyCausalLattice (SetLattice ℕ) :=
  ⟨⟨clockOf [([97], 1)], ⟨AList.insert [107] (clockOf [([98], 2)]) ∅⟩, ⟨⟨[1], by simp⟩⟩⟩⟩

/-- A version that is concurrent to it. -/
def sampleConcurrent' : MultiKeyCausalLattice (SetLattice ℕ) :=
  ⟨⟨clockOf [([98], 1)], ⟨∅⟩, ⟨⟨[2], by simp⟩⟩⟩⟩

/-- Each of the two versions has counted at an id that the other one does not have. -/
theorem dotted_sampleConcurrent :
    Dotted [sampleConcurrent.element.vector_clock, sampleConcurrent'.element.vector_clock] := by
  intro p hp
  simp only [List.mem_cons, List.not_mem_nil, or_false] at hp
  rcases hp with rfl | rfl
  · refine ⟨[97], fun q hq h => ?_⟩
    simp only [List.mem_cons, List.not_mem_nil, or_false] at hq
    rcases hq with rfl | rfl
    · exact le_rfl
    · exact absurd h (by decide)
  · refine ⟨[98], fun q hq h => ?_⟩
    simp only [List.mem_cons, List.not_mem_nil, or_false] at hq
    rcases hq with rfl | rfl
    · exact absurd h (by decide)
    · exact le_rfl

theorem versions_survive_sample :
    Dotted [sampleConcurrent.element.vector_clock, sampleConcurrent'.element.vector_clock] ∧
      (∀ l ∈ [sampleConcurrent, sampleConcurrent'], ∃ m ∈ [sampleConcurrent, sampleConcurrent'],
        l.element.vector_clock.clock ≤ m.element.vector_clock.clock ∧
        (∀ x ∈ m.element.value.element,
          x ∈ (merge sampleConcurrent sampleConcurrent').element.value.element) ∧
        ∀ key vc, m.element.dependencies.element.lookup key = some vc →
          ∃ vc', (merge sampleConcurrent sampleConcurrent').element.dependencies.element.lookup key = some vc' ∧
            vc.clock ≤ vc'.clock) ∧
      ∀ x ∈ (merge sampleConcurrent sampleConcurrent').element.value.element,
        ∃ m ∈ [sampleConcurrent, sampleConcurrent'], x ∈ m.element.value.element :=
  ⟨dotted_sampleConcurrent,
    versions_survive (.node (.leaf sampleConcurrent) (.leaf sampleConcurrent')) dotted_sampleConcurrent⟩

end MultiKey

end Anna
