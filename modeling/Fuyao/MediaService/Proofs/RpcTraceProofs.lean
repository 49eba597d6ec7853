import Fuyao.Concurrency.Proofs.ProgProofs
import Fuyao.Cpp.Proofs.StringsProofs
import Fuyao.MediaService.RpcTrace
import Mathlib.Data.List.Perm.Subperm
import Mathlib.Data.List.Range

/-!
# Proofs: traces are neither lost nor overlapped

The blocks of a method are a list to which `NewRpcTrace` appends (`flush_newRpcTrace`). What all methods
have handed out lies in blocks that do not overlap, so the slots are apart from each other, and since they
lie in one address space there are too few of them for the counter to overflow. The table of methods is in
order as long as an index fits an `int`; with one method more it is not.
-/

namespace MediaService

open Cpp Concurrency

/-! ## Slots in blocks -/

section Slots

variable {block m n : ℕ}

theorem mem_slots {a : ℕ} : a ∈ slots block n ↔ ∃ k < n, a = block + sizeofRpcTrace * k := by
  simp [slots, eq_comm]

theorem slots_sublist (h : m ≤ n) : (slots block m).Sublist (slots block n) :=
  (List.range_sublist.mpr h).map _

theorem slots_succ : slots block (n + 1) = slots block n ++ [block + sizeofRpcTrace * n] := by
  simp [slots, List.range_succ]

namespace TraceState

theorem Apart.symm {a b : ℕ} (h : Apart n a b) : Apart n b a := Or.symm h

theorem slots_pairwise : (slots block n).Pairwise (Apart sizeofRpcTrace) := by
  rw [slots, List.pairwise_map]
  refine List.pairwise_lt_range.imp fun {i j} hij => .inl ?_
  have := Nat.mul_le_mul_left sizeofRpcTrace (Nat.succ_le_of_lt hij)
  rw [Nat.mul_succ] at this
  omega

/-- Slots of blocks that do not overlap do not overlap either. -/
theorem apart_of_blocks {block' a b : ℕ} (h : Apart (sizeofRpcTrace * n) block block') (ha : a ∈ slots block n)
    (hb : b ∈ slots block' n) : Apart sizeofRpcTrace a b := by
  obtain ⟨i, hi, rfl⟩ := mem_slots.mp ha
  obtain ⟨j, hj, rfl⟩ := mem_slots.mp hb
  rw [Apart, sizeofRpcTrace] at *
  omega

theorem flatMap_slots_pairwise {blocks : List ℕ} (h : blocks.Pairwise (Apart (sizeofRpcTrace * n))) :
    (blocks.flatMap fun block => slots block n).Pairwise (Apart sizeofRpcTrace) := by
  refine List.pairwise_flatMap.mpr ⟨fun _ _ => slots_pairwise, h.imp fun h a ha b hb => ?_⟩
  exact apart_of_blocks h ha hb

/-- There are at most as many slots as the address space has room for. -/
theorem length_le_of_apart {as : List ℕ} (h : as.Pairwise (Apart sizeofRpcTrace))
    (hroom : ∀ a ∈ as, a + sizeofRpcTrace ≤ 2 ^ 64) : as.length ≤ 2 ^ 60 := by
  have hnodup : (as.map (· / 16)).Nodup := by
    refine List.pairwise_map.mpr (h.imp fun {a b} hab => ?_)
    rw [Apart, sizeofRpcTrace] at hab
    omega
  have hsub : as.map (· / 16) ⊆ List.range (2 ^ 60) := by
    intro q hq
    obtain ⟨a, ha, rfl⟩ := List.mem_map.mp hq
    have hend := hroom a ha
    rw [sizeofRpcTrace] at hend
    exact List.mem_range.mpr (by omega)
  simpa using (hnodup.subperm hsub).length_le

end TraceState

end Slots

/-! ## The blocks of one method -/

namespace RpcTraceBlocks

variable {b : RpcTraceBlocks} {block_size : ℕ}

/-- All blocks but the last one are written completely. -/
theorem flush_eq (b : RpcTraceBlocks) (block_size : ℕ) :
    b.flushRpcTrace block_size =
      (b.blocks.dropLast.flatMap fun block => slots block block_size) ++ slots b.back b.current := by
  obtain ⟨current, blocks, nonempty⟩ := b
  obtain ⟨init, last, rfl⟩ : ∃ init last, blocks = init ++ [last] :=
    ⟨_, _, (List.dropLast_append_getLast nonempty).symm⟩
  have hinit : ∀ p ∈ init.zipIdx, (if p.2 + 1 = (init ++ [last]).length then
      if 0 < current then slots p.1 current else [] else slots p.1 block_size) = slots p.1 block_size := by
    intro p hp
    have hlt := List.snd_lt_of_mem_zipIdx hp
    rw [List.length_append, if_neg (by simp; omega)]
  have hlast : (if 0 < current then slots last current else []) = slots last current := by
    cases current <;> simp [slots]
  have hfst : (init.zipIdx.flatMap fun p => slots p.1 block_size) =
      init.flatMap fun block => slots block block_size := by
    rw [← List.flatMap_map (f := Prod.fst) (g := fun block => slots block block_size), List.zipIdx_map_fst]
  rw [flushRpcTrace, List.zipIdx_append, List.flatMap_append, List.flatMap_congr hinit, hfst,
    List.dropLast_concat, back]
  simp [hlast]

theorem flush_construct (block block_size : ℕ) : (construct block).flushRpcTrace block_size = [] := by
  rw [flush_eq]
  rfl

theorem flatMap_blocks_eq (b : RpcTraceBlocks) (block_size : ℕ) :
    (b.blocks.flatMap fun block => slots block block_size) =
      (b.blocks.dropLast.flatMap fun block => slots block block_size) ++ slots b.back block_size := by
  conv_lhs => rw [← List.dropLast_append_getLast b.nonempty, List.flatMap_append]
  simp [back]

theorem flush_sublist (h : b.current ≤ block_size) :
    (b.flushRpcTrace block_size).Sublist (b.blocks.flatMap fun block => slots block block_size) := by
  rw [flush_eq, flatMap_blocks_eq]
  exact (List.Sublist.refl _).append (slots_sublist h)

/-- A full block and an empty one after it. -/
theorem flush_pushBlock (h : b.current = block_size) (block : ℕ) :
    (b.pushBlock block).flushRpcTrace block_size = b.flushRpcTrace block_size := by
  have hfull : b.flushRpcTrace block_size = b.blocks.flatMap fun block => slots block block_size := by
    rw [flush_eq, flatMap_blocks_eq, h]
  have hdrop : (b.pushBlock block).blocks.dropLast = b.blocks := List.dropLast_concat
  have hnone : slots (b.pushBlock block).back (b.pushBlock block).current = [] := rfl
  rw [flush_eq, hdrop, hnone, List.append_nil, hfull]

theorem flush_next (b : RpcTraceBlocks) (block_size : ℕ) :
    ({ b with current := b.current + 1 } : RpcTraceBlocks).flushRpcTrace block_size =
      b.flushRpcTrace block_size ++ [b.back + sizeofRpcTrace * b.current] := by
  rw [flush_eq, flush_eq, slots_succ, ← List.append_assoc]
  rfl

/-- `NewRpcTrace` appends one slot to what is going to be written. `added` is the block it allocates. -/
theorem newRpcTrace_spec {allocated : Option ℕ} (hpos : 0 < block_size) (hcurrent : b.current ≤ block_size)
    (hneeds : b.current = block_size → allocated ≠ none) :
    ∃ a b' added, b.newRpcTrace block_size allocated = some (a, b') ∧
      b'.flushRpcTrace block_size = b.flushRpcTrace block_size ++ [a] ∧ b'.current ≤ block_size ∧
      b'.blocks = b.blocks ++ added ∧
      (added = [] ∨ b.current = block_size ∧ ∃ block, allocated = some block ∧ added = [block]) := by
  by_cases hfull : b.current = block_size
  · obtain ⟨block, rfl⟩ := Option.ne_none_iff_exists'.mp (hneeds hfull)
    refine ⟨_, _, [block], by rw [newRpcTrace, if_pos hfull]; rfl, ?_, ?_, rfl, .inr ⟨hfull, block, rfl, rfl⟩⟩
    · rw [flush_next, flush_pushBlock hfull]
    · exact hpos
  · refine ⟨_, _, [], by rw [newRpcTrace, if_neg hfull]; rfl, flush_next b block_size, ?_, ?_, .inl rfl⟩
    · change b.current + 1 ≤ block_size
      omega
    · exact (List.append_nil _).symm

end RpcTraceBlocks

/-! ## The table of methods -/

section Table

variable {method_names : List Bytes} {method_name : Bytes} {i : ℕ}

theorem sizeOfInt_ofNat (h : i < 2 ^ 31) : sizeOfInt (Int32.ofNat i) = i := by
  have hval : (Int32.ofNat i).toInt = i := Int32.toInt_ofNat_of_lt h
  rw [sizeOfInt_of_nonneg (by omega), hval, Int.toNat_natCast]

theorem findMethod_of_not_mem (h : method_name ∉ method_names) : findMethod method_names method_name = -1 := by
  have hnone : method_names.findIdx? (· == method_name) = none := by
    rw [List.findIdx?_eq_none_iff]
    rintro x hx
    rw [beq_eq_false_iff_ne]
    rintro rfl
    exact h hx
  rw [findMethod, hnone]
  rfl

theorem findMethod_of_mem (h : method_name ∈ method_names) (hbound : method_names.length ≤ 2 ^ 31) :
    ∃ i < 2 ^ 31, method_names[i]? = some method_name ∧ findMethod method_names method_name = Int32.ofNat i ∧
      Int32.ofNat i ≠ -1 := by
  cases hfind : method_names.findIdx? (· == method_name) with
  | none =>
    have hall := List.findIdx?_eq_none_iff.mp hfind method_name h
    simp at hall
  | some i =>
    obtain ⟨hi, heq, -⟩ := List.findIdx?_eq_some_iff_getElem.mp hfind
    have hlt : i < 2 ^ 31 := Nat.lt_of_lt_of_le hi hbound
    refine ⟨i, hlt, ?_, by rw [findMethod, hfind]; rfl, fun hneg => ?_⟩
    · rw [List.getElem?_eq_getElem hi, beq_iff_eq.mp heq]
    · have hval : (Int32.ofNat i).toInt = i := Int32.toInt_ofNat_of_lt hlt
      rw [hneg] at hval
      have : (-1 : Int32).toInt = -1 := rfl
      omega

end Table

/-- Replacing an element by one with more entries adds these entries. -/
theorem flatMap_set_perm {α β : Type} {l : List α} {f : α → List β} {i : ℕ} {a a' : α} {added : List β}
    (h : l[i]? = some a) (ha : f a' = f a ++ added) :
    ((l.set i a').flatMap f).Perm (l.flatMap f ++ added) := by
  induction l generalizing i with
  | nil => simp at h
  | cons x l ih =>
    cases i with
    | zero =>
      obtain rfl : x = a := by simpa using h
      rw [List.set_cons_zero, List.flatMap_cons, List.flatMap_cons, ha, List.append_assoc, List.append_assoc]
      exact List.perm_append_comm.append_left _
    | succ i =>
      rw [List.set_cons_succ, List.flatMap_cons, List.flatMap_cons, List.append_assoc]
      exact (ih (by simpa using h)).append_left _

/-! ## Steps -/

namespace TraceState

/-- What every step keeps. -/
structure Kept (block_size : ℕ) (s : TraceState) : Prop where
  defined : s.faulted = false
  nodup : s.method_names.Nodup
  aligned : s.method_names.length = s.traces.length
  bound : s.method_names.length ≤ 2 ^ 31
  current : ∀ b ∈ s.traces, b.current ≤ block_size
  blocks : s.blocks.Pairwise (Apart (sizeofRpcTrace * block_size))
  room : ∀ block ∈ s.blocks, block + sizeofRpcTrace * block_size ≤ 2 ^ 64
  flushed : ∀ (i : ℕ) method_name (b : RpcTraceBlocks), s.method_names[i]? = some method_name →
    s.traces[i]? = some b → b.flushRpcTrace block_size = s.handedTo method_name
  named : ∀ h ∈ s.handed, h.1 ∈ s.method_names
  all : (s.handed.map Prod.snd).Perm (s.traces.flatMap fun b => b.flushRpcTrace block_size)
  live : s.guards.length + s.starting.length ≤ s.handed.length
  onfly : s.onfly_rpcs.toInt = s.guards.length + s.starting.length

section Kept

variable {block_size : ℕ} {s s' : TraceState} {method_name : Bytes} {allocated : Option ℕ}

theorem kept_initial (memory : ℕ → RpcTrace) : (initial memory).Kept block_size where
  defined := rfl
  nodup := List.nodup_nil
  aligned := rfl
  bound := Nat.zero_le _
  current := by simp [initial]
  blocks := List.Pairwise.nil
  room := by simp [initial, TraceState.blocks]
  flushed := by simp [initial]
  named := by simp [initial]
  all := List.Perm.nil
  live := Nat.le_refl _
  onfly := rfl

/-- All slots lie in the blocks. -/
theorem Kept.sublist (h : s.Kept block_size) :
    (s.traces.flatMap fun b => b.flushRpcTrace block_size).Sublist
      (s.blocks.flatMap fun block => slots block block_size) := by
  have hall := h.current
  rw [TraceState.blocks, List.flatMap_assoc]
  generalize s.traces = traces at hall
  induction traces with
  | nil => exact List.Sublist.refl _
  | cons b traces ih =>
    rw [List.flatMap_cons, List.flatMap_cons]
    exact (RpcTraceBlocks.flush_sublist (hall b (List.mem_cons_self ..))).append
      (ih fun b hb => hall b (List.mem_cons_of_mem _ hb))

theorem Kept.apart (h : s.Kept block_size) : (s.handed.map Prod.snd).Pairwise (Apart sizeofRpcTrace) :=
  (h.all.pairwise_iff Apart.symm).mpr ((flatMap_slots_pairwise h.blocks).sublist h.sublist)

theorem Kept.length_handed_le (h : s.Kept block_size) : s.handed.length ≤ 2 ^ 60 := by
  have hroom : ∀ a ∈ s.handed.map Prod.snd, a + sizeofRpcTrace ≤ 2 ^ 64 := by
    intro a ha
    obtain ⟨block, hblock, ha⟩ := List.mem_flatMap.mp (h.sublist.subset (h.all.subset ha))
    obtain ⟨k, hk, rfl⟩ := mem_slots.mp ha
    have hend := h.room block hblock
    rw [sizeofRpcTrace] at *
    omega
  simpa using length_le_of_apart h.apart hroom

theorem pairwise_append_fresh (h : s.blocks.Pairwise (Apart (sizeofRpcTrace * block_size))) {block : ℕ}
    (hblock : s.Fresh block_size block) : (s.blocks ++ [block]).Pairwise (Apart (sizeofRpcTrace * block_size)) := by
  refine List.pairwise_append.mpr ⟨h, List.pairwise_singleton .., fun b hb c hc => ?_⟩
  rw [List.mem_singleton.mp hc]
  exact hblock.2 b hb

theorem forall_mem_append_fresh (h : ∀ b ∈ s.blocks, b + sizeofRpcTrace * block_size ≤ 2 ^ 64) {block : ℕ}
    (hblock : s.Fresh block_size block) :
    ∀ b ∈ s.blocks ++ [block], b + sizeofRpcTrace * block_size ≤ 2 ^ 64 := by
  intro b hb
  rcases List.mem_append.mp hb with hb | hb
  · exact h b hb
  · rw [List.mem_singleton.mp hb]
    exact hblock.1

theorem Kept.sound (h : s.Kept block_size) : s.Sound block_size where
  defined := h.defined
  nodup := h.nodup
  aligned := h.aligned
  inside := by
    intro method_name rpc_trace hmem
    obtain ⟨i, hi, hname⟩ := List.getElem_of_mem (h.named _ hmem)
    have hb : i < s.traces.length := h.aligned ▸ hi
    have hslot : rpc_trace ∈ s.handedTo method_name :=
      List.mem_map.mpr ⟨_, List.mem_filter.mpr ⟨hmem, by simp⟩, rfl⟩
    have hname : s.method_names[i]? = some method_name := by rw [List.getElem?_eq_getElem hi, hname]
    rw [← h.flushed i method_name s.traces[i] hname (List.getElem?_eq_getElem hb)] at hslot
    obtain ⟨block, hblock, hslot⟩ := List.mem_flatMap.mp
      ((RpcTraceBlocks.flush_sublist (h.current _ (List.getElem_mem hb))).subset hslot)
    exact ⟨i, s.traces[i], hname, List.getElem?_eq_getElem hb, block, hblock, mem_slots.mp hslot⟩
  apart := h.apart
  flushed := h.flushed
  onfly := h.onfly

/-- One more slot has been handed out. -/
theorem handedTo_eq_append {a : ℕ} (h : s'.handed = s.handed ++ [(method_name, a)]) (m : Bytes) :
    s'.handedTo m = s.handedTo m ++ if method_name = m then [a] else [] := by
  by_cases hm : method_name = m <;> simp [handedTo, h, hm]

theorem handOut_eq {i : ℕ} {b b' : RpcTraceBlocks} {a : ℕ} (hi : i < 2 ^ 31) (hb : s.traces[i]? = some b)
    (hnew : b.newRpcTrace block_size allocated = some (a, b')) :
    s.handOut block_size method_name (Int32.ofNat i) allocated = { s with
      traces := s.traces.set i b'
      onfly_rpcs := s.onfly_rpcs + 1
      starting := a :: s.starting
      handed := s.handed ++ [(method_name, a)] } := by
  rw [handOut, sizeOfInt_ofNat hi]
  simp only [hb, hnew]

/-- Only the method that a slot was handed out for writes one more. -/
theorem Kept.flushed_set (h : s.Kept block_size) {i j a : ℕ} {b b' c : RpcTraceBlocks} {m : Bytes}
    (hname : s.method_names[i]? = some method_name) (hb : s.traces[i]? = some b)
    (hflush : b'.flushRpcTrace block_size = b.flushRpcTrace block_size ++ [a])
    (hhanded : s'.handed = s.handed ++ [(method_name, a)]) (hm : s.method_names[j]? = some m)
    (hc : (s.traces.set i b')[j]? = some c) : c.flushRpcTrace block_size = s'.handedTo m := by
  have hindex : i < s.traces.length := (List.getElem?_eq_some_iff.mp hb).1
  rw [handedTo_eq_append hhanded]
  by_cases hj : i = j
  · subst hj
    obtain rfl : method_name = m := Option.some.inj (hname.symm.trans hm)
    obtain rfl : b' = c := by simpa [hindex] using hc
    rw [hflush, h.flushed i method_name b hname hb, if_pos rfl]
  · -- another method, since no name is in the table twice
    have hne : method_name ≠ m := by
      rintro rfl
      exact hj ((List.getElem?_inj (h.aligned ▸ hindex) h.nodup).mp (hname.trans hm.symm))
    rw [List.getElem?_set_ne hj] at hc
    rw [if_neg hne, List.append_nil]
    exact h.flushed j m c hm hc

/-- The end of the critical section, for a method of the table. -/
theorem Kept.handOut (h : s.Kept block_size) (hpos : 0 < block_size) {i : ℕ} {b : RpcTraceBlocks}
    (hi : i < 2 ^ 31) (hname : s.method_names[i]? = some method_name) (hb : s.traces[i]? = some b)
    (hneeds : b.current = block_size → allocated ≠ none)
    (hfresh : ∀ block, b.current = block_size → allocated = some block → s.Fresh block_size block) :
    (s.handOut block_size method_name (Int32.ofNat i) allocated).Kept block_size := by
  obtain ⟨a, b', added, hnew, hflush, hcurrent, hblocks, hadded⟩ :=
    RpcTraceBlocks.newRpcTrace_spec hpos (h.current b (List.mem_of_getElem? hb)) hneeds
  have hperm : ((s.traces.set i b').flatMap RpcTraceBlocks.blocks).Perm (s.blocks ++ added) :=
    flatMap_set_perm hb hblocks
  have hapart : (s.blocks ++ added).Pairwise (Apart (sizeofRpcTrace * block_size)) ∧
      ∀ block ∈ s.blocks ++ added, block + sizeofRpcTrace * block_size ≤ 2 ^ 64 := by
    rcases hadded with rfl | ⟨hfull, block, hallocated, rfl⟩
    · rw [List.append_nil]
      exact ⟨h.blocks, h.room⟩
    · have hblock := hfresh block hfull hallocated
      exact ⟨pairwise_append_fresh h.blocks hblock, forall_mem_append_fresh h.room hblock⟩
  have hlive := h.live
  have hcount := h.length_handed_le
  have honfly := h.onfly
  rw [handOut_eq hi hb hnew]
  refine ⟨h.defined, h.nodup, ?_, h.bound, ?_, ?_, ?_, ?_, ?_, ?_, ?_, ?_⟩
  · rw [List.length_set, h.aligned]
  · intro c hc
    rcases List.mem_or_eq_of_mem_set hc with hc | rfl
    · exact h.current c hc
    · exact hcurrent
  · exact (hperm.pairwise_iff Apart.symm).mpr hapart.1
  · exact fun block hblock => hapart.2 block (hperm.subset hblock)
  · exact fun j m c hm hc => h.flushed_set hname hb hflush rfl hm hc
  · intro x hx
    rcases List.mem_append.mp hx with hx | hx
    · exact h.named x hx
    · rw [List.mem_singleton.mp hx]
      exact List.mem_of_getElem? hname
  · rw [List.map_append]
    exact (h.all.append_right _).trans (flatMap_set_perm hb hflush).symm
  · simp only [List.length_cons, List.length_append, List.length_nil]
    omega
  · rw [toInt_add_one (by omega), honfly, List.length_cons]
    push_cast
    omega

/-- A method that is entered into the table has no slots yet. -/
theorem Kept.addMethod (h : s.Kept block_size) (hname : method_name ∉ s.method_names)
    (hbound : s.method_names.length < 2 ^ 31) {block : ℕ} (hblock : s.Fresh block_size block) :
    (s.addMethod method_name block).Kept block_size := by
  have hblocks : (s.traces ++ [RpcTraceBlocks.construct block]).flatMap RpcTraceBlocks.blocks =
      s.blocks ++ [block] := by
    rw [List.flatMap_append]
    rfl
  have hnothing : s.handedTo method_name = [] := by
    rw [handedTo, List.map_eq_nil_iff, List.filter_eq_nil_iff]
    intro x hx heq
    exact hname (by simpa [← of_decide_eq_true heq] using h.named x hx)
  rw [TraceState.addMethod]
  refine ⟨h.defined, ?_, ?_, ?_, ?_, ?_, ?_, ?_, ?_, ?_, h.live, h.onfly⟩
  · exact List.nodup_append.mpr ⟨h.nodup, List.nodup_singleton _, by
      intro x hx y hy heq
      exact hname (by rwa [← List.mem_singleton.mp hy, ← heq])⟩
  · simp [h.aligned]
  · rw [List.length_append, List.length_singleton]
    omega
  · intro b hb
    rcases List.mem_append.mp hb with hb | hb
    · exact h.current b hb
    · rw [List.mem_singleton.mp hb]
      exact Nat.zero_le _
  · rw [TraceState.blocks, hblocks]
    exact pairwise_append_fresh h.blocks hblock
  · rw [TraceState.blocks, hblocks]
    exact forall_mem_append_fresh h.room hblock
  · intro i m b hm hb
    rcases Nat.lt_or_ge i s.method_names.length with hi | hi
    · rw [List.getElem?_append_left hi] at hm
      rw [List.getElem?_append_left (h.aligned ▸ hi)] at hb
      exact h.flushed i m b hm hb
    · rw [List.getElem?_append_right hi] at hm
      rw [List.getElem?_append_right (h.aligned ▸ hi)] at hb
      obtain rfl := List.mem_singleton.mp (List.mem_of_getElem? hm)
      obtain rfl := List.mem_singleton.mp (List.mem_of_getElem? hb)
      rw [RpcTraceBlocks.flush_construct]
      exact hnothing.symm
  · exact fun x hx => List.mem_append_left _ (h.named x hx)
  · rw [List.flatMap_append, List.flatMap_singleton, RpcTraceBlocks.flush_construct, List.append_nil]
    exact h.all

theorem getElem?_addMethod (haligned : s.method_names.length = s.traces.length) (block : ℕ) :
    (s.addMethod method_name block).traces[s.method_names.length]? = some (.construct block) := by
  rw [haligned]
  exact List.getElem?_concat_length

/-- The critical section, for a method that is not in the table. -/
theorem enter_of_not_mem (h : method_name ∉ s.method_names) (block : ℕ) :
    s.enter block_size method_name (some block) = (s.addMethod method_name block).handOut block_size method_name
      (Int32.ofNat s.method_names.length) (some block) := by
  rw [TraceState.enter, findMethod_of_not_mem h, if_pos rfl]

/-- The critical section. -/
theorem Kept.enter (h : s.Kept block_size) (hpos : 0 < block_size)
    (hfresh : ∀ block, allocated = some block → s.Fresh block_size block)
    (hneeds : s.NeedsBlock block_size method_name → allocated ≠ none)
    (hbound : method_name ∈ s.method_names ∨ s.method_names.length < 2 ^ 31) :
    (s.enter block_size method_name allocated).Kept block_size := by
  by_cases hmem : method_name ∈ s.method_names
  · obtain ⟨i, hi, hname, hfind, hne⟩ := findMethod_of_mem hmem h.bound
    have hindex : i < s.traces.length := h.aligned ▸ (List.getElem?_eq_some_iff.mp hname).1
    have hb := List.getElem?_eq_getElem hindex
    unfold TraceState.enter
    rw [hfind, if_neg hne]
    exact h.handOut hpos hi hname hb (fun hfull => hneeds (.inr ⟨i, _, hname, hb, hfull⟩))
      fun block _ => hfresh block
  · obtain ⟨block, rfl⟩ := Option.ne_none_iff_exists'.mp (hneeds (.inl hmem))
    have hlt := hbound.resolve_left hmem
    rw [enter_of_not_mem hmem]
    refine (h.addMethod hmem hlt (hfresh block rfl)).handOut hpos hlt ?_ (getElem?_addMethod h.aligned block) ?_ ?_
    · exact List.getElem?_concat_length
    · exact fun hfull => absurd hfull (Nat.ne_of_lt hpos)
    · exact fun _ hfull => absurd hfull (Nat.ne_of_lt hpos)

/-- `StartRpcTrace` records the id of the client. -/
theorem finish_client_id (rpc_trace : ℕ) (client_id : UInt16) (timestamp : UInt64) (made : Bool) :
    ((s.finish rpc_trace client_id timestamp made).memory rpc_trace).client_id = client_id := by
  cases made <;> simp [finish, write]

theorem Kept.write (h : s.Kept block_size) (rpc_trace : ℕ) (f : RpcTrace → RpcTrace) :
    (s.write rpc_trace f).Kept block_size :=
  ⟨h.defined, h.nodup, h.aligned, h.bound, h.current, h.blocks, h.room, h.flushed, h.named, h.all, h.live, h.onfly⟩

/-- A call that returns turns its slot into the one of a guard. -/
theorem Kept.finish (h : s.Kept block_size) {rpc_trace : ℕ} (hmem : rpc_trace ∈ s.starting) (client_id : UInt16)
    (timestamp : UInt64) : (s.finish rpc_trace client_id timestamp true).Kept block_size := by
  have hlength := List.length_erase_add_one hmem
  have hlive := h.live
  have honfly := h.onfly
  refine ⟨h.defined, h.nodup, h.aligned, h.bound, h.current, h.blocks, h.room, h.flushed, h.named, h.all, ?_, ?_⟩
  · change s.guards.length + 1 + (s.starting.erase rpc_trace).length ≤ s.handed.length
    omega
  · change s.onfly_rpcs.toInt = (s.guards.length + 1 : ℕ) + (s.starting.erase rpc_trace).length
    omega

theorem Kept.destroy (h : s.Kept block_size) {rpc_trace : ℕ} (hmem : rpc_trace ∈ s.guards) (timestamp : UInt64) :
    (s.destroy rpc_trace timestamp).Kept block_size := by
  have hlength := List.length_erase_add_one hmem
  have hlive := h.live
  have honfly := h.onfly
  refine ⟨h.defined, h.nodup, h.aligned, h.bound, h.current, h.blocks, h.room, h.flushed, h.named, h.all, ?_, ?_⟩
  · change (s.guards.erase rpc_trace).length + s.starting.length ≤ s.handed.length
    omega
  · change (s.onfly_rpcs - 1).toInt = (s.guards.erase rpc_trace).length + s.starting.length
    rw [toInt_sub_one (by omega)]
    omega

theorem Kept.step (h : s.Kept block_size) (hpos : 0 < block_size) {l : TraceLabel}
    (hallocator : s.Allocator block_size l) (hprovided : s.Provided block_size l) (hindexed : s.Indexed l)
    (hstep : s.step block_size l = some s') : s'.Kept block_size := by
  cases l with
  | enter method_name allocated =>
    rw [TraceState.step, h.defined, if_neg Bool.false_ne_true] at hstep
    obtain rfl := Option.some.inj hstep
    exact h.enter hpos (fun block hblock => by subst hblock; exact hallocator) hprovided hindexed
  | finish rpc_trace client_id timestamp made =>
    obtain ⟨hmem, hsome⟩ := Option.ite_none_left_eq_some.mp hstep
    obtain rfl := Option.some.inj hsome
    obtain rfl : made = true := hprovided
    exact h.finish (not_not.mp fun hout => hmem (.inr hout)) client_id timestamp
  | setStatus rpc_trace status =>
    obtain ⟨-, hsome⟩ := Option.ite_none_left_eq_some.mp hstep
    obtain rfl := Option.some.inj hsome
    exact h.write ..
  | destroy rpc_trace timestamp =>
    obtain ⟨hmem, hsome⟩ := Option.ite_none_left_eq_some.mp hstep
    obtain rfl := Option.some.inj hsome
    exact h.destroy (not_not.mp fun hout => hmem (.inr hout)) timestamp

end Kept

/-- For every block size, and in every state of every run in which there is memory for blocks and guards
when they are needed, and in which a name is only added to a table of fewer than 2³¹ names: traces are
neither lost nor overlapped. -/
theorem rpc_traces_sound {block_size : ℕ} (hpos : 0 < block_size) {memory : ℕ → RpcTrace} {s : TraceState}
    (h : Reach (step block_size) (fun s l => s.Allocator block_size l ∧ s.Provided block_size l ∧ s.Indexed l)
      (initial memory) s) : s.Sound block_size := by
  refine (h.invariant (J := Kept block_size) (kept_initial memory) ?_).sound
  intro s s' l hkept hadm hstep
  exact hkept.step hpos hadm.1 hadm.2.1 hadm.2.2 hstep

/-- Two calls for one method, where a block has room for one trace, and the end of the first one. -/
def sampleCalls : List TraceLabel :=
  [.enter (ascii "Read") (some 0), .finish 0 7 100 true, .enter (ascii "Read") (some 16), .destroy 0 130]

theorem rpc_traces_sound_sample :
    ∃ s, runLabels (step 1) sampleCalls (initial fun _ => ⟨0, 0, 0, 0⟩) = some s ∧ s.Sound 1 := by
  refine ⟨_, rfl, rpc_traces_sound Nat.one_pos (reach_of_runLabels sampleCalls ?_ rfl)⟩
  refine ⟨⟨⟨by decide, by simp [initial, TraceState.blocks]⟩, by simp [Provided], .inr (by decide)⟩, fun s₁ h₁ => ?_⟩
  obtain rfl := Option.some.inj h₁
  refine ⟨⟨trivial, rfl, trivial⟩, fun s₂ h₂ => ?_⟩
  obtain rfl := Option.some.inj h₂
  refine ⟨⟨⟨by decide, ?_⟩, by simp [Provided], .inl (List.mem_cons_self ..)⟩, fun s₃ h₃ => ?_⟩
  · exact List.forall_mem_singleton.mpr (.inl (by decide))
  obtain rfl := Option.some.inj h₃
  exact ⟨⟨trivial, trivial, trivial⟩, fun _ _ => trivial⟩

/-! ## Without the conditions -/

/-- The name of a method that differs from those of the methods before. -/
def nthName (k : ℕ) : Bytes := List.replicate k 65

theorem cStr_nthName (k : ℕ) : cStr (nthName k) = nthName k := by
  rw [cStr, nthName, List.takeWhile_replicate]
  simp

theorem nthName_not_mem (k : ℕ) : nthName k ∉ (List.range k).map nthName := by
  intro h
  obtain ⟨i, hi, heq⟩ := List.mem_map.mp h
  have hlength := congrArg List.length heq
  rw [nthName, nthName, List.length_replicate, List.length_replicate] at hlength
  have := List.mem_range.mp hi
  omega

/-- A new method gets its own block, and its first trace is in it. -/
theorem enter_new {s : TraceState} {method_name : Bytes} (hnew : method_name ∉ s.method_names)
    (haligned : s.method_names.length = s.traces.length) (hbound : s.method_names.length < 2 ^ 31) (block : ℕ) :
    (s.enter 1 method_name (some block)).method_names = s.method_names ++ [method_name] ∧
      (s.enter 1 method_name (some block)).blocks = s.blocks ++ [block] := by
  rw [enter_of_not_mem hnew, handOut_eq hbound (getElem?_addMethod haligned block) rfl]
  refine ⟨rfl, ?_⟩
  rw [TraceState.blocks, TraceState.addMethod, haligned, List.set_append_right _ _ (Nat.le_refl _), Nat.sub_self,
    List.flatMap_append]
  rfl

/-- A run with `k` methods, for blocks of one trace each. -/
theorem reach_methods (memory : ℕ → RpcTrace) {k : ℕ} (hk : k ≤ 2 ^ 31) :
    ∃ s, Reach (step 1) (fun s l => s.Allocator 1 l ∧ s.Provided 1 l) (initial memory) s ∧ s.Kept 1 ∧
      s.method_names = (List.range k).map nthName ∧ ∀ block ∈ s.blocks, block + sizeofRpcTrace ≤ 16 * k := by
  induction k with
  | zero => exact ⟨_, .init, kept_initial memory, rfl, by simp [initial, TraceState.blocks]⟩
  | succ k ih =>
    obtain ⟨s, hreach, hkept, hnames, hblocks⟩ := ih (by omega)
    have hlength : s.method_names.length = k := by rw [hnames, List.length_map, List.length_range]
    have hnew : nthName k ∉ s.method_names := hnames ▸ nthName_not_mem k
    have hfresh : s.Fresh 1 (16 * k) := by
      refine ⟨by rw [sizeofRpcTrace]; omega, fun block hblock => .inl ?_⟩
      have := hblocks block hblock
      omega
    have hkept' : (s.enter 1 (nthName k) (some (16 * k))).Kept 1 :=
      hkept.enter Nat.one_pos (fun block hblock => by rwa [← Option.some.inj hblock])
        (fun _ => Option.some_ne_none _) (.inr (by omega))
    obtain ⟨hnames', hblocks'⟩ := enter_new hnew hkept.aligned (by omega) (16 * k)
    refine ⟨_, .step hreach (l := .enter (nthName k) (some (16 * k))) ⟨hfresh, fun _ => Option.some_ne_none _⟩
      (by rw [step, hkept.defined, if_neg Bool.false_ne_true, cStr_nthName]), hkept', ?_, ?_⟩
    · rw [hnames', hnames, List.range_succ, List.map_append]
      rfl
    · intro block hblock
      rcases List.mem_append.mp (hblocks' ▸ hblock) with hblock | hblock
      · have := hblocks block hblock
        omega
      · rw [List.mem_singleton.mp hblock, sizeofRpcTrace]
        omega

/-- One method too many: the index is negative, and what it selects is not in the vector. -/
theorem exists_fault (memory : ℕ → RpcTrace) :
    ∃ s, Reach (step 1) (fun s l => s.Allocator 1 l ∧ s.Provided 1 l) (initial memory) s ∧ s.faulted = true := by
  obtain ⟨s, hreach, hkept, hnames, hblocks⟩ := reach_methods memory (Nat.le_refl (2 ^ 31))
  have hlength : s.method_names.length = 2 ^ 31 := by rw [hnames, List.length_map, List.length_range]
  have hnew : nthName (2 ^ 31) ∉ s.method_names := hnames ▸ nthName_not_mem _
  have hfresh : s.Fresh 1 (16 * 2 ^ 31) := by
    refine ⟨by rw [sizeofRpcTrace]; omega, fun block hblock => .inl ?_⟩
    have := hblocks block hblock
    omega
  refine ⟨_, .step hreach (l := .enter (nthName (2 ^ 31)) (some (16 * 2 ^ 31)))
    ⟨hfresh, fun _ => Option.some_ne_none _⟩
    (by rw [step, hkept.defined, if_neg Bool.false_ne_true, cStr_nthName]), ?_⟩
  have hnegative : 2 ^ 63 ≤ sizeOfInt (Int32.ofNat (2 ^ 31)) := le_sizeOfInt_of_neg (by decide)
  have houtside :
      (s.addMethod (nthName (2 ^ 31)) (16 * 2 ^ 31)).traces[sizeOfInt (Int32.ofNat (2 ^ 31))]? = none := by
    refine List.getElem?_eq_none ?_
    rw [addMethod, List.length_append, ← hkept.aligned, hlength, List.length_singleton]
    omega
  rw [enter_of_not_mem hnew, hlength, handOut]
  simp only [houtside]

/-- The table with `2 ^ 31` names, and a block that cannot be allocated. -/
theorem unmanageable_traces_unsound :
    (∃ s, Reach (step 1) (fun s l => s.Allocator 1 l ∧ s.Provided 1 l) (initial fun _ => ⟨0, 0, 0, 0⟩) s ∧
      ¬ s.Sound 1) ∧
    ∃ s, Reach (step 1) (fun s l => s.Allocator 1 l ∧ s.Indexed l) (initial fun _ => ⟨0, 0, 0, 0⟩) s ∧
      ¬ s.Sound 1 := by
  constructor
  · obtain ⟨s, hreach, hfault⟩ := exists_fault fun _ => ⟨0, 0, 0, 0⟩
    exact ⟨s, hreach, fun h => by simp [h.defined] at hfault⟩
  · exact ⟨_, .step .init (l := .enter (ascii "Read") none) ⟨trivial, .inr (by decide)⟩ rfl,
      fun h => absurd h.aligned (by decide)⟩

end TraceState

end MediaService
