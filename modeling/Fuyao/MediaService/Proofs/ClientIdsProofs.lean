import Fuyao.MediaService.ClientIds
import Fuyao.MediaService.Proofs.ClientPoolProofs
import Fuyao.MediaService.Proofs.RpcTraceProofs

/-!
# Proofs: when clients share an id

What a step does to the clients that exist is said once (`PoolState.step_live`). In every run the id of a
client is the number of ids drawn before it, taken modulo 65536 (`Dated`), so a new client shares its id
with an older one exactly if a multiple of 65536 ids was drawn between the two.
-/

namespace MediaService

open Concurrency

namespace PoolState

variable {ι Ptr : Type} {s s' : PoolState ι Ptr} {l : PoolLabel ι Ptr}

theorem DistinctIds.tracesIdentify (h : s.DistinctIds) : s.TracesIdentify := by
  intro client hclient client' hclient' t rpc_trace timestamp made heq
  rw [TraceState.finish_client_id] at heq
  exact Multiset.inj_on_of_nodup_map h client' hclient' client hclient heq.symm

/-! ## Steps -/

variable [DecidableEq ι]

/-- A thread takes the front of the deque. -/
theorem live_settle_front {client : Client Ptr} {rest : List (Client Ptr)}
    (hpool : s.clientPool.pool = client :: rest) (i : ι) :
    (s.settle i (.client client, { s.clientPool with pool := rest })).live = s.live := by
  simp [live, settle, hpool, ← Multiset.cons_coe]

theorem settle_popWake_live (i : ι) (timeUp : Bool) :
    (s.settle i (s.clientPool.popWake timeUp)).live ≤ s.live ∧
      (s.settle i (s.clientPool.popWake timeUp)).clientPool.current_client_id =
        s.clientPool.current_client_id := by
  rcases s.clientPool.popWake_cases timeUp with ⟨client, rest, hpool, hpop⟩ | hpop | hpop <;> rw [hpop]
  · exact ⟨(live_settle_front hpool i).le, rfl⟩
  · exact ⟨le_rfl, rfl⟩
  · exact ⟨le_rfl, rfl⟩

variable [DecidableEq Ptr]

/-- A held client goes back into the deque. -/
theorem live_pushBack {i : ι} {client : Client Ptr} (h : (i, client) ∈ s.held) (phase : ι → PopPhase Ptr) :
    (⟨s.clientPool.pushBack client, phase, s.held.erase (i, client)⟩ : PoolState ι Ptr).live = s.live := by
  have hheld : (↑(s.held.map Prod.snd) : Multiset (Client Ptr)) =
      client ::ₘ ↑((s.held.erase (i, client)).map Prod.snd) :=
    Multiset.coe_eq_coe.mpr ((List.perm_cons_erase h).map Prod.snd)
  have hpool : (↑(s.clientPool.pool ++ [client]) : Multiset (Client Ptr)) = client ::ₘ ↑s.clientPool.pool :=
    Multiset.coe_eq_coe.mpr (List.perm_append_singleton client _)
  unfold live ClientPool.pushBack
  rw [hheld, hpool, Multiset.cons_add, Multiset.add_cons]

theorem live_remove {i : ι} {client : Client Ptr} :
    ({ s with clientPool := s.clientPool.remove, held := s.held.erase (i, client) } : PoolState ι Ptr).live ≤
      s.live := by
  have hheld : ((s.held.erase (i, client)).map Prod.snd).Sublist (s.held.map Prod.snd) :=
    List.erase_sublist.map _
  exact add_le_add_right (Multiset.coe_le.mpr hheld.subperm) _

/-- What a step does to the clients that exist: one is created and gets the id the counter is at, an id is
drawn in vain, or no id is drawn and no client is created. -/
theorem step_live (hconn : s.HoldsConnecting) (hst : s.step l = some s') :
    (∃ i ptr, l = .pop i (some ptr) ∧ s.Grows ∧ s'.live = ⟨ptr, s.clientPool.current_client_id⟩ ::ₘ s.live ∧
      s'.clientPool.current_client_id = s.clientPool.current_client_id + 1) ∨
    (∃ i, l = .pop i none ∧ s.Grows ∧ s'.live = s.live ∧
      s'.clientPool.current_client_id = s.clientPool.current_client_id + 1) ∨
    ((∀ i created, l = .pop i created → ¬ s.Grows) ∧ s'.live ≤ s.live ∧
      s'.clientPool.current_client_id = s.clientPool.current_client_id) := by
  cases transition_of_step hst with
  | @pop i created hi =>
    rcases s.clientPool.popBegin_cases created with
      ⟨client, rest, hpool, hpop⟩ | ⟨ptr, rfl, hpool, hlt, hpop⟩ | ⟨rfl, hpool, hlt, hpop⟩ | ⟨hfull, hpop⟩ <;>
      rw [hpop]
    · refine .inr (.inr ⟨fun _ _ _ hgrows => ?_, (live_settle_front hpool i).le, rfl⟩)
      cases hpool.symm.trans hgrows.1
    · refine .inl ⟨i, ptr, rfl, ⟨hpool, hlt⟩, ?_, rfl⟩
      simp [live, settle, ← Multiset.cons_coe]
    · exact .inr (.inl ⟨i, rfl, ⟨hpool, hlt⟩, rfl, rfl⟩)
    · exact .inr (.inr ⟨fun _ _ _ hgrows => Int.not_lt.mpr hfull hgrows.2, le_rfl, rfl⟩)
  | wake hi => exact .inr (.inr ⟨by rintro _ _ ⟨⟩, settle_popWake_live _ false⟩)
  | timeout hi => exact .inr (.inr ⟨by rintro _ _ ⟨⟩, settle_popWake_live _ true⟩)
  | connected hi => exact .inr (.inr ⟨by rintro _ _ ⟨⟩, le_rfl, rfl⟩)
  | thrown hi => exact .inr (.inr ⟨by rintro _ _ ⟨⟩, (live_pushBack (hconn _ _ hi) _).le, rfl⟩)
  | push hi hmem => exact .inr (.inr ⟨by rintro _ _ ⟨⟩, (live_pushBack hmem s.phase).le, rfl⟩)
  | remove hi hmem => exact .inr (.inr ⟨by rintro _ _ ⟨⟩, live_remove, rfl⟩)

end PoolState

/-! ## Ids and births -/

open PoolState

namespace Births

variable {ι Ptr : Type} [DecidableEq Ptr] {s : PoolState ι Ptr} {l : PoolLabel ι Ptr}

theorem record_eq_self (h : ∀ i created, l = .pop i created → ¬ s.Grows) (b : Births Ptr) :
    b.record s l = b := by
  cases l with
  | pop i created => cases created <;> exact if_neg (h i _ rfl)
  | wake i | timeout i | connect i throws | push i client | remove i client => rfl

theorem drawn_le_record (b : Births Ptr) : b.drawn ≤ (b.record s l).drawn := by
  by_cases hnone : ∀ i created, l = .pop i created → ¬ s.Grows
  · rw [record_eq_self hnone]
  · simp only [not_forall, not_not] at hnone
    obtain ⟨i, created, rfl, hgrows⟩ := hnone
    cases created <;> simp [record, hgrows]

omit [DecidableEq Ptr] in
theorem not_spaced_cases {b : Births Ptr} (h : ¬ b.Spaced s l) :
    ∃ i ptr, l = .pop i (some ptr) ∧ s.Grows ∧ ∃ client ∈ s.live, 2 ^ 16 ∣ b.age client.ptr := by
  cases l with
  | pop i created =>
    cases created with
    | some ptr =>
      simp only [Spaced, Classical.not_imp, not_forall, not_not] at h
      obtain ⟨hgrows, client, hclient, hage⟩ := h
      exact ⟨i, ptr, rfl, hgrows, client, hclient, hage⟩
    | none => exact absurd trivial h
  | wake i | timeout i | connect i throws | push i client | remove i client => exact absurd trivial h

end Births

/-- The counter is the number of ids drawn so far and the id of a client the number of those drawn before
it, as far as 16 bits show them. -/
structure Dated {ι Ptr : Type} (x : PoolState ι Ptr × Births Ptr) : Prop where
  connecting : x.1.HoldsConnecting
  counter : x.1.clientPool.current_client_id = UInt16.ofNat x.2.drawn
  past : ∀ client ∈ x.1.live, x.2.born client.ptr < x.2.drawn
  id : ∀ client ∈ x.1.live, client.client_id = UInt16.ofNat (x.2.born client.ptr)

namespace Dated

variable {ι Ptr : Type} {x x' : PoolState ι Ptr × Births Ptr} {l : PoolLabel ι Ptr}

/-- The counter is at the id of a client that exists if it has come round since the client was created. -/
theorem client_id_eq_iff (h : Dated x) {client : Client Ptr} (hclient : client ∈ x.1.live) :
    client.client_id = x.1.clientPool.current_client_id ↔ 2 ^ 16 ∣ x.2.age client.ptr := by
  rw [h.id client hclient, h.counter]
  exact Cpp.uint16_ofNat_eq_iff (Nat.le_of_lt (h.past client hclient))

variable [DecidableEq ι] [DecidableEq Ptr]

theorem step (h : Dated x) (ha : x.1.Allocates l)
    (hst : recording PoolState.step Births.record x l = some x') : Dated x' := by
  obtain ⟨s, b⟩ := x
  obtain ⟨s', b'⟩ := x'
  obtain ⟨hst, rfl⟩ := recording_cases hst
  have hconn' : s'.HoldsConnecting := h.connecting.step hst
  have hnext : s.clientPool.current_client_id + 1 = UInt16.ofNat (b.drawn + 1) := by
    rw [h.counter, UInt16.ofNat_add]
    rfl
  rcases step_live h.connecting hst with
    ⟨i, ptr, rfl, hgrows, hlive, hcounter⟩ | ⟨i, rfl, hgrows, hlive, hcounter⟩ | ⟨hnone, hlive, hcounter⟩
  · have hrecord : b.record s (.pop i (some ptr)) = ⟨b.drawn + 1, Function.update b.born ptr b.drawn⟩ :=
      if_pos hgrows
    -- the record of the others stands, since the new client has an address of its own
    have hother : ∀ client ∈ s.live, Function.update b.born ptr b.drawn client.ptr = b.born client.ptr := by
      intro client hclient
      refine Function.update_of_ne ?_ ..
      rintro rfl
      refine ha ?_
      rcases Multiset.mem_add.mp hclient with hidle | hheld
      · exact List.mem_append_left _ (List.mem_map_of_mem hidle)
      · obtain ⟨h', hh', rfl⟩ := List.mem_map.mp hheld
        exact List.mem_append_right _ (List.mem_map_of_mem hh')
    rw [hrecord]
    refine ⟨hconn', hcounter.trans hnext, ?_, ?_⟩
    · intro client hclient
      rw [hlive, Multiset.mem_cons] at hclient
      rcases hclient with rfl | hclient
      · simp
      · have := h.past client hclient
        simp only [hother client hclient] at this ⊢
        omega
    · intro client hclient
      rw [hlive, Multiset.mem_cons] at hclient
      rcases hclient with rfl | hclient
      · simpa using h.counter
      · simpa [hother client hclient] using h.id client hclient
  · have hrecord : b.record s (.pop i none) = { b with drawn := b.drawn + 1 } := if_pos hgrows
    rw [hrecord]
    refine ⟨hconn', hcounter.trans hnext, fun client hclient => ?_, fun client hclient => ?_⟩
    · exact Nat.lt_succ_of_lt (h.past client (hlive ▸ hclient))
    · exact h.id client (hlive ▸ hclient)
  · rw [Births.record_eq_self hnone]
    refine ⟨hconn', hcounter.trans h.counter, fun client hclient => ?_, fun client hclient => ?_⟩
    · exact h.past client (Multiset.mem_of_le hlive hclient)
    · exact h.id client (Multiset.mem_of_le hlive hclient)

/-- Distinct ids stay distinct as long as the counter does not come round to one of them. -/
theorem distinctIds_step (h : Dated x) (hids : x.1.DistinctIds) (hspaced : x.2.Spaced x.1 l)
    (hst : recording PoolState.step Births.record x l = some x') : x'.1.DistinctIds := by
  rcases step_live h.connecting (recording_cases hst).1 with
    ⟨i, ptr, rfl, hgrows, hlive, -⟩ | ⟨i, rfl, -, hlive, -⟩ | ⟨-, hlive, -⟩
  · unfold DistinctIds
    rw [hlive, Multiset.map_cons, Multiset.nodup_cons]
    refine ⟨fun hmem => ?_, hids⟩
    obtain ⟨client, hclient, heq⟩ := Multiset.mem_map.mp hmem
    exact hspaced hgrows client hclient ((h.client_id_eq_iff hclient).mp heq)
  · unfold DistinctIds
    rwa [hlive]
  · exact Multiset.nodup_of_le (Multiset.map_le_map hlive) hids

/-- If the counter has come round to the id of a client that exists, the new client gets the same id. -/
theorem not_distinctIds_step (h : Dated x) (hspaced : ¬ x.2.Spaced x.1 l) {s' : PoolState ι Ptr}
    (hst : x.1.step l = some s') : ¬ s'.DistinctIds := by
  obtain ⟨i, ptr, rfl, hgrows, client, hclient, hage⟩ := Births.not_spaced_cases hspaced
  rcases step_live h.connecting hst with ⟨_, _, heq, -, hlive, -⟩ | ⟨_, heq, -⟩ | ⟨hnone, -⟩
  · unfold DistinctIds
    rw [hlive, Multiset.map_cons, Multiset.nodup_cons]
    rintro ⟨hnew, -⟩
    exact hnew (Multiset.mem_map.mpr ⟨client, hclient, (h.client_id_eq_iff hclient).mpr hage⟩)
  · cases heq
  · exact absurd hgrows (hnone i (some ptr) rfl)

end Dated

/-! ## Runs -/

section Runs

variable {ι Ptr : Type} {min_pool_size max_pool_size : Int} {addr : ℕ → Ptr}

theorem PoolState.live_initial : (initial min_pool_size max_pool_size addr : PoolState ι Ptr).live =
    ↑((List.range min_pool_size.toNat).map fun i => (⟨addr i, UInt16.ofNat i⟩ : Client Ptr)) := by
  rw [live, initial, ClientPool.construct_eq]
  simp

/-- The constructor runs out of ids if it is to create more than 65536 clients. -/
theorem PoolState.initial_distinctIds_iff :
    (initial min_pool_size max_pool_size addr : PoolState ι Ptr).DistinctIds ↔ min_pool_size ≤ 2 ^ 16 := by
  rw [DistinctIds, live_initial, Multiset.map_coe, Multiset.coe_nodup, List.map_map,
    List.nodup_map_iff_inj_on List.nodup_range]
  simp only [List.mem_range, Function.comp_apply]
  constructor
  · intro h
    by_contra hlt
    have := h 0 (by omega) (2 ^ 16) (by omega) rfl
    omega
  · intro hle i hi j hj hij
    have := congrArg UInt16.toNat hij
    rw [UInt16.toNat_ofNat', UInt16.toNat_ofNat'] at this
    omega

variable [DecidableEq Ptr]

theorem Dated.initial (haddr : Set.InjOn addr (Set.Iio min_pool_size.toNat)) :
    Dated ((.initial min_pool_size max_pool_size addr, .initial min_pool_size addr) :
      PoolState ι Ptr × Births Ptr) := by
  have hborn : ∀ client ∈ (PoolState.initial min_pool_size max_pool_size addr : PoolState ι Ptr).live,
      (Births.initial min_pool_size addr).born client.ptr < min_pool_size.toNat ∧
      client.client_id = UInt16.ofNat ((Births.initial min_pool_size addr).born client.ptr) := by
    intro client hclient
    rw [live_initial] at hclient
    obtain ⟨i, hi, rfl⟩ := List.mem_map.mp hclient
    have hlt := List.mem_range.mp hi
    have hidx : (Births.initial min_pool_size addr).born (addr i) = i := by
      have := (ClientPool.nodup_addr haddr).idxOf_getElem i (by simpa using hlt)
      simpa [Births.initial] using this
    rw [hidx]
    exact ⟨hlt, rfl⟩
  refine ⟨?_, ?_, fun client hclient => (hborn client hclient).1,
    fun client hclient => (hborn client hclient).2⟩
  · intro i client hi
    cases hi
  · show (ClientPool.construct min_pool_size max_pool_size addr).current_client_id = _
    rw [ClientPool.construct_eq]
    rfl

variable [DecidableEq ι]

theorem Dated.of_recorded (haddr : Set.InjOn addr (Set.Iio min_pool_size.toNat))
    {x : PoolState ι Ptr × Births Ptr}
    (hx : Births.Recorded min_pool_size max_pool_size addr (fun x l => x.1.Allocates l) x) : Dated x :=
  hx.invariant (.initial haddr) fun _ _ _ h ha hst => h.step ha hst

/-- As long as no more ids are drawn than there are, nothing else is needed. -/
theorem distinctIds_of_drawn_le (haddr : Set.InjOn addr (Set.Iio min_pool_size.toNat))
    {s : PoolState ι Ptr} {b : Births Ptr}
    (hx : Births.Recorded min_pool_size max_pool_size addr (fun x l => x.1.Allocates l) (s, b))
    (hdrawn : b.drawn ≤ 2 ^ 16) : s.DistinctIds := by
  have hinv : Dated (s, b) ∧ (b.drawn ≤ 2 ^ 16 → s.DistinctIds) := by
    refine hx.invariant (J := fun x => Dated x ∧ (x.2.drawn ≤ 2 ^ 16 → x.1.DistinctIds)) ?_ ?_
    · exact ⟨.initial haddr, fun hle => initial_distinctIds_iff.mpr (Int.toNat_le.mp hle)⟩
    · rintro x x' l ⟨hdated, hids⟩ ha hst
      refine ⟨hdated.step ha hst, fun hle => ?_⟩
      have hrecord := (recording_cases hst).2
      have hmono : x.2.drawn ≤ x'.2.drawn := hrecord ▸ x.2.drawn_le_record
      refine hdated.distinctIds_step (hids (hmono.trans hle)) ?_ hst
      by_contra hspaced
      obtain ⟨i, ptr, rfl, hgrows, client, hclient, hage⟩ := Births.not_spaced_cases hspaced
      have hpast := hdated.past client hclient
      have hnext : x'.2.drawn = x.2.drawn + 1 := by
        rw [hrecord]
        simp [Births.record, hgrows]
      have hround : 2 ^ 16 ≤ x.2.drawn - x.2.born client.ptr := Nat.le_of_dvd (by omega) hage
      omega
  exact hinv.2 hdrawn

/-- For every minimal and maximal size of the pool, any number of threads and every interleaving of `Pop`,
`Push` and `Remove`: if the constructor creates at most 65536 clients and no client is created a multiple of
65536 draws after one that still exists, then no two clients that exist have the same id, and the id in a
trace is that of one client. With a larger minimal size the constructor hands out an id twice, and a client
that is created a multiple of 65536 draws after one that exists gets its id. The record of the draws
restricts no run. -/
theorem live_ids_distinct (haddr : Set.InjOn addr (Set.Iio min_pool_size.toNat)) :
    (min_pool_size ≤ 2 ^ 16 → ∀ (s : PoolState ι Ptr) b,
      Births.Recorded min_pool_size max_pool_size addr
        (fun x l => x.1.Allocates l ∧ x.2.Spaced x.1 l) (s, b) →
      s.DistinctIds ∧ s.TracesIdentify) ∧
    (2 ^ 16 < min_pool_size → ¬ (initial min_pool_size max_pool_size addr : PoolState ι Ptr).DistinctIds) ∧
    (∀ (s : PoolState ι Ptr) b l s',
      Births.Recorded min_pool_size max_pool_size addr (fun x l => x.1.Allocates l) (s, b) →
      s.step l = some s' → ¬ b.Spaced s l → ¬ s'.DistinctIds) ∧
    ∀ s : PoolState ι Ptr, Reach PoolState.step Allocates (initial min_pool_size max_pool_size addr) s ↔
      ∃ b, Births.Recorded min_pool_size max_pool_size addr (fun x l => x.1.Allocates l) (s, b) := by
  refine ⟨fun hmin s b hreach => ?_, fun hmin hids => ?_, fun s b l s' hreach hst hspaced => ?_, fun s => ?_⟩
  · obtain ⟨-, hids⟩ : Dated (s, b) ∧ s.DistinctIds := by
      refine hreach.invariant (J := fun x => Dated x ∧ x.1.DistinctIds)
        ⟨.initial haddr, initial_distinctIds_iff.mpr hmin⟩ ?_
      rintro x x' l ⟨hdated, hids⟩ ⟨ha, hspaced⟩ hst
      exact ⟨hdated.step ha hst, hdated.distinctIds_step hids hspaced hst⟩
    exact ⟨hids, hids.tracesIdentify⟩
  · exact absurd (initial_distinctIds_iff.mp hids) (Int.not_le.mpr hmin)
  · exact (Dated.of_recorded haddr hreach).not_distinctIds_step hspaced hst
  · exact reach_recording_iff (Births.initial min_pool_size addr)

end Runs

/-- Two threads at a pool of at most two clients: an id is drawn in vain, another client is created, and the
first one is removed and replaced by one with the same address. -/
def sampleIdsRun : List (PoolLabel (Fin 2) ℕ) :=
  [.pop 0 none, .connect 0 false, .pop 1 none, .pop 1 (some 20), .connect 1 false, .remove 0 ⟨10, 0⟩,
    .pop 0 (some 10)]

theorem live_ids_distinct_sample :
    ∃ (s : PoolState (Fin 2) ℕ) (b : Births ℕ),
      Births.Recorded 1 2 (fun i => 10 + i) (fun x l => x.1.Allocates l ∧ x.2.Spaced x.1 l) (s, b) ∧
      s.held = [(0, ⟨10, 3⟩), (1, ⟨20, 2⟩)] ∧ b.drawn = 4 ∧ s.DistinctIds := by
  obtain ⟨s, b, hs, hheld, hdrawn⟩ :
      ∃ (s : PoolState (Fin 2) ℕ) (b : Births ℕ),
        Births.Recorded 1 2 (fun i => 10 + i) (fun x l => x.1.Allocates l ∧ x.2.Spaced x.1 l) (s, b) ∧
        s.held = [(0, ⟨10, 3⟩), (1, ⟨20, 2⟩)] ∧ b.drawn = 4 :=
    ⟨_, _, reach_of_runLabels sampleIdsRun (by decide) rfl, rfl, rfl⟩
  exact ⟨s, b, hs, hheld, hdrawn,
    ((live_ids_distinct fun i _ j _ hij => by simpa using hij).1 (by decide) s b hs).1⟩

/-! ## The counter comes round -/

/-- Thread 0 has kept the first client of the pool, and thread 1 has created and removed `k` others. -/
def afterRounds (k : ℕ) : PoolState (Fin 2) ℕ :=
  ⟨⟨[], 2, 1, UInt16.ofNat (k + 1)⟩, fun _ => .outside, [(0, ⟨10, 0⟩)]⟩

theorem run_first :
    runLabels PoolState.step [.pop 0 none, .connect 0 false] (initial 1 2 fun i => 10 + i) =
      some (afterRounds 0) := by
  simp [runLabels, PoolState.step, initial, ClientPool.construct_eq, ClientPool.popBegin, settle, afterRounds]

theorem run_round (k : ℕ) :
    runLabels PoolState.step [.pop 1 (some 20), .connect 1 false, .remove 1 ⟨20, UInt16.ofNat (k + 1)⟩]
      (afterRounds k) = some (afterRounds (k + 1)) := by
  simp [runLabels, PoolState.step, ClientPool.popBegin, ClientPool.newClient, ClientPool.remove, settle,
    afterRounds]

/-- The address of the removed client is free again. -/
theorem allocates_afterRounds (k : ℕ) : (afterRounds k).Allocates (.pop 1 (some 20)) := by
  simp [Allocates, afterRounds]

theorem reach_afterRounds (k : ℕ) :
    Reach PoolState.step Allocates (initial 1 2 fun i => 10 + i) (afterRounds k) := by
  induction k with
  | zero => exact reach_of_runLabels _ (by simp [AdmissibleRun, Allocates]) run_first
  | succ k ih =>
    refine ih.trans (reach_of_runLabels _ ?_ (run_round k))
    exact ⟨allocates_afterRounds k, fun _ _ => ⟨trivial, fun _ _ => ⟨trivial, fun _ _ => trivial⟩⟩⟩

/-- A pool of at most two clients: thread 0 keeps the first one while thread 1 creates and removes 65535
others, and the next client that thread 1 creates has the id of the first one. -/
theorem live_ids_collide :
    ∃ s, Reach PoolState.step Allocates (initial 1 2 fun i => 10 + i : PoolState (Fin 2) ℕ) s ∧
      s.held = [(1, ⟨20, 0⟩), (0, ⟨10, 0⟩)] ∧ s.clientPool.max_pool_size = 2 ∧ ¬ s.DistinctIds := by
  obtain ⟨s, hs, hheld, hmax⟩ :
      ∃ s, Reach PoolState.step Allocates (initial 1 2 fun i => 10 + i : PoolState (Fin 2) ℕ) s ∧
        s.held = [(1, ⟨20, 0⟩), (0, ⟨10, 0⟩)] ∧ s.clientPool.max_pool_size = 2 :=
    ⟨_, .step (reach_afterRounds 65535) (allocates_afterRounds 65535) rfl, rfl, rfl⟩
  refine ⟨s, hs, hheld, hmax, ?_⟩
  simp [DistinctIds, live, hheld, List.nodup_append]

end MediaService
