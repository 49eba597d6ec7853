import Fuyao.Concurrency.Proofs.ProgProofs
import Fuyao.Custody.Proofs.CustodyProofs
import Fuyao.MediaService.ClientPool
import Mathlib.Data.Fintype.Basic
import Mathlib.Order.Interval.Set.Defs

/-!
# Proofs: the client pool conserves its clients

What enables a step and what it does is read off the code once (`PoolState.transition_of_step`). Every
step is a move of the abstract custody, and `_curr_pool_size` follows the moves (`PoolState.step_move`). That
no client is at two places and that the count is right are then the invariant rule of the custody. A run in
which nothing accesses the deque during an unlocked `push_back` is a run of `PoolState`
(`UnlockedPool.reach_state`).
-/

namespace MediaService

open Concurrency Custody

/-! ## The methods -/

namespace ClientPool

variable {Ptr : Type}

/-- The first critical section of `Pop` takes a client, or finds none and then creates one, fails to create
one, or waits because the pool is full. -/
theorem popBegin_cases (p : ClientPool Ptr) (created : Option Ptr) :
    (∃ client rest, p.pool = client :: rest ∧
      p.popBegin created = (.client client, { p with pool := rest })) ∨
    (∃ ptr, created = some ptr ∧ p.pool = [] ∧ p.curr_pool_size < p.max_pool_size ∧
      p.popBegin created = (.client ⟨ptr, p.current_client_id⟩,
        { p with curr_pool_size := p.curr_pool_size + 1, current_client_id := p.current_client_id + 1 })) ∨
    (created = none ∧ p.pool = [] ∧ p.curr_pool_size < p.max_pool_size ∧
      p.popBegin created = (.nullptr, { p with current_client_id := p.current_client_id + 1 })) ∨
    (p.max_pool_size ≤ p.curr_pool_size ∧ p.popBegin created = (.wait, p)) := by
  unfold popBegin
  split
  next client rest hpool => exact .inl ⟨client, rest, hpool, rfl⟩
  next hpool =>
    split
    next hlt =>
      cases created with
      | some ptr => exact .inr (.inl ⟨ptr, rfl, hpool, hlt, rfl⟩)
      | none => exact .inr (.inr (.inl ⟨rfl, hpool, hlt, rfl⟩))
    next hge => exact .inr (.inr (.inr ⟨Int.not_lt.mp hge, rfl⟩))

/-- A thread that is woken or whose time is up takes a client, gives up, or waits on. -/
theorem popWake_cases (p : ClientPool Ptr) (timeUp : Bool) :
    (∃ client rest, p.pool = client :: rest ∧
      p.popWake timeUp = (.client client, { p with pool := rest })) ∨
    p.popWake timeUp = (.nullptr, p) ∨ p.popWake timeUp = (.wait, p) := by
  unfold popWake
  split
  next client rest hpool => exact .inl ⟨client, rest, hpool, rfl⟩
  · cases timeUp with
    | true => exact .inr (.inl rfl)
    | false => exact .inr (.inr rfl)

/-- Waking changes no size, and who gives up has found the deque empty. -/
theorem popWake_spec (p : ClientPool Ptr) (timeUp : Bool) :
    (p.popWake timeUp).2.max_pool_size = p.max_pool_size ∧
      (p.popWake timeUp).2.curr_pool_size = p.curr_pool_size ∧
      ((p.popWake timeUp).1 = .nullptr → p.pool = []) := by
  unfold popWake
  split
  next client rest hpool => exact ⟨rfl, rfl, by rintro ⟨⟩⟩
  next hpool => cases timeUp <;> exact ⟨rfl, rfl, fun _ => hpool⟩

/-- The loop of the constructor, after `n` rounds. -/
theorem foldl_emplaceNew (addr : ℕ → Ptr) (n : ℕ) (p : ClientPool Ptr) :
    (List.range n).foldl (fun p i => p.emplaceNew (addr i)) p =
      { p with
        pool := p.pool ++ (List.range n).map fun i => ⟨addr i, p.current_client_id + UInt16.ofNat i⟩
        current_client_id := p.current_client_id + UInt16.ofNat n } := by
  induction n with
  | zero => simp
  | succ n ih =>
    rw [List.range_succ, List.foldl_append, ih]
    simp [emplaceNew, newClient, pushBack, UInt16.ofNat_add, UInt16.add_assoc]

theorem construct_eq (min_pool_size max_pool_size : Int) (addr : ℕ → Ptr) :
    construct min_pool_size max_pool_size addr =
      ⟨(List.range min_pool_size.toNat).map fun i => ⟨addr i, UInt16.ofNat i⟩, max_pool_size, min_pool_size,
        UInt16.ofNat min_pool_size.toNat⟩ := by
  rw [construct, foldl_emplaceNew]
  simp

/-- The clients that the constructor creates have addresses of their own. -/
theorem nodup_addr {n : ℕ} {addr : ℕ → Ptr} (haddr : Set.InjOn addr (Set.Iio n)) :
    ((List.range n).map addr).Nodup := by
  refine List.Nodup.map_on (fun i hi j hj hij => ?_) List.nodup_range
  exact haddr (List.mem_range.mp hi) (List.mem_range.mp hj) hij

end ClientPool

namespace PoolState

variable {ι Ptr : Type}

/-! ## The abstract view -/

section Custody

variable {pool : List (Client Ptr)} {held : List (ι × Client Ptr)} {i : ι} {client : Client Ptr}

theorem custodyOf_cons_pool :
    custodyOf (client :: pool) held = (none, client.ptr) ::ₘ custodyOf pool held := by
  simp [custodyOf, ← Multiset.cons_coe]

theorem custodyOf_append_pool :
    custodyOf (pool ++ [client]) held = (none, client.ptr) ::ₘ custodyOf pool held := by
  rw [← custodyOf_cons_pool]
  unfold custodyOf
  congr 1
  exact Multiset.coe_eq_coe.mpr (List.Perm.map _ (List.perm_append_singleton client pool))

theorem custodyOf_cons_held :
    custodyOf pool ((i, client) :: held) = (some i, client.ptr) ::ₘ custodyOf pool held := by
  simp [custodyOf, ← Multiset.cons_coe]

theorem custodyOf_erase_held [DecidableEq ι] [DecidableEq Ptr] (h : (i, client) ∈ held) :
    custodyOf pool held = (some i, client.ptr) ::ₘ custodyOf pool (held.erase (i, client)) := by
  rw [← custodyOf_cons_held]
  unfold custodyOf
  congr 1
  exact Multiset.coe_eq_coe.mpr (List.Perm.map _ (List.perm_cons_erase h))

theorem map_snd_custodyOf :
    (custodyOf pool held).map Prod.snd = ↑(pool.map Client.ptr ++ held.map fun h => h.2.ptr) := by
  simp [custodyOf, Function.comp_def]

theorem card_custodyOf : (custodyOf pool held).card = pool.length + held.length := by
  simp [custodyOf]

end Custody

/-! ## Steps -/

/-- The transitions of the pool, with what enables each of them. -/
inductive Transition [DecidableEq ι] [DecidableEq Ptr] (s : PoolState ι Ptr) :
    PoolLabel ι Ptr → PoolState ι Ptr → Prop where
  | pop {i : ι} {created : Option Ptr} (hi : s.phase i = .outside) :
    Transition s (.pop i created) (s.settle i (s.clientPool.popBegin created))
  | wake {i : ι} (hi : s.phase i = .waiting) :
    Transition s (.wake i) (s.settle i (s.clientPool.popWake false))
  | timeout {i : ι} (hi : s.phase i = .waiting) :
    Transition s (.timeout i) (s.settle i (s.clientPool.popWake true))
  | connected {i : ι} {client : Client Ptr} (hi : s.phase i = .connecting client) :
    Transition s (.connect i false) { s with phase := Function.update s.phase i .outside }
  | thrown {i : ι} {client : Client Ptr} (hi : s.phase i = .connecting client) :
    Transition s (.connect i true)
      ⟨s.clientPool.pushBack client, Function.update s.phase i .outside, s.held.erase (i, client)⟩
  | push {i : ι} {client : Client Ptr} (hi : s.phase i = .outside) (hmem : (i, client) ∈ s.held) :
    Transition s (.push i client)
      { s with clientPool := s.clientPool.push client, held := s.held.erase (i, client) }
  | remove {i : ι} {client : Client Ptr} (hi : s.phase i = .outside) (hmem : (i, client) ∈ s.held) :
    Transition s (.remove i client)
      { s with clientPool := s.clientPool.remove, held := s.held.erase (i, client) }

variable {s s' : PoolState ι Ptr} {l : PoolLabel ι Ptr}

theorem transition_of_step [DecidableEq ι] [DecidableEq Ptr] (hst : s.step l = some s') :
    s.Transition l s' := by
  cases l with
  | pop i created =>
    obtain ⟨hi, heq⟩ := Option.ite_none_right_eq_some.mp hst
    cases heq
    exact .pop hi
  | wake i =>
    obtain ⟨hi, heq⟩ := Option.ite_none_right_eq_some.mp hst
    cases heq
    exact .wake hi
  | timeout i =>
    obtain ⟨hi, heq⟩ := Option.ite_none_right_eq_some.mp hst
    cases heq
    exact .timeout hi
  | connect i throws =>
    simp only [step] at hst
    split at hst
    next client hi =>
      cases throws with
      | true =>
        cases hst
        exact .thrown hi
      | false =>
        cases hst
        exact .connected hi
    · cases hst
  | push i client =>
    obtain ⟨⟨hi, hmem⟩, heq⟩ := Option.ite_none_right_eq_some.mp hst
    cases heq
    exact .push hi hmem
  | remove i client =>
    obtain ⟨⟨hi, hmem⟩, heq⟩ := Option.ite_none_right_eq_some.mp hst
    cases heq
    exact .remove hi hmem

/-- A step that leaves the deque, the sizes and the held clients as they are. -/
theorem Moves.of_eq (hpool : s'.clientPool.pool = s.clientPool.pool)
    (hcurr : s'.clientPool.curr_pool_size = s.clientPool.curr_pool_size)
    (hmax : s'.clientPool.max_pool_size = s.clientPool.max_pool_size) (hheld : s'.held = s.held) :
    Moves s s' 0 := by
  refine ⟨?_, by simpa using hcurr, fun h => absurd h (by simp), hmax⟩
  have hcustody : s'.custody = s.custody := by simp only [custody, hpool, hheld]
  rw [hcustody]
  exact .stay _

variable [DecidableEq ι]

/-- A thread takes the front of the deque. -/
theorem settle_front {client : Client Ptr} {rest : List (Client Ptr)}
    (hpool : s.clientPool.pool = client :: rest) (i : ι) :
    Moves s (s.settle i (.client client, { s.clientPool with pool := rest })) 0 := by
  refine ⟨?_, (Int.add_zero _).symm, fun h => absurd h (by simp), rfl⟩
  have hs : s.custody = (none, client.ptr) ::ₘ custodyOf rest s.held := by
    rw [custody, hpool, custodyOf_cons_pool]
  have hs' : (s.settle i (.client client, { s.clientPool with pool := rest })).custody =
      (some i, client.ptr) ::ₘ custodyOf rest s.held := custodyOf_cons_held
  rw [hs, hs']
  exact .pass _ _ _ _

theorem settle_popBegin_moves {i : ι} {created : Option Ptr} (ha : s.Allocates (.pop i created)) :
    ∃ d, Moves s (s.settle i (s.clientPool.popBegin created)) d := by
  rcases s.clientPool.popBegin_cases created with
    ⟨client, rest, hpool, hpop⟩ | ⟨ptr, rfl, -, hlt, hpop⟩ | ⟨-, -, -, hpop⟩ | ⟨-, hpop⟩ <;> rw [hpop]
  · exact ⟨0, settle_front hpool i⟩
  · have hfresh : ptr ∉ s.custody.map Prod.snd := by
      rw [custody, map_snd_custodyOf]
      exact ha
    refine ⟨1, ?_, rfl, fun _ => hlt, rfl⟩
    have hs' : (s.settle i (.client ⟨ptr, s.clientPool.current_client_id⟩,
        { s.clientPool with
          curr_pool_size := s.clientPool.curr_pool_size + 1
          current_client_id := s.clientPool.current_client_id + 1 })).custody =
        (some i, ptr) ::ₘ s.custody := custodyOf_cons_held
    rw [hs']
    exact .create _ _ hfresh
  · exact ⟨0, .of_eq rfl rfl rfl rfl⟩
  · exact ⟨0, .of_eq rfl rfl rfl rfl⟩

theorem settle_popWake_moves (i : ι) (timeUp : Bool) :
    ∃ d, Moves s (s.settle i (s.clientPool.popWake timeUp)) d := by
  rcases s.clientPool.popWake_cases timeUp with ⟨client, rest, hpool, hpop⟩ | hpop | hpop <;> rw [hpop]
  · exact ⟨0, settle_front hpool i⟩
  · exact ⟨0, .of_eq rfl rfl rfl rfl⟩
  · exact ⟨0, .of_eq rfl rfl rfl rfl⟩

variable [DecidableEq Ptr]

/-- A held client goes back into the deque, by `Push` or because `Connect` has thrown. -/
theorem pushBack_moves {i : ι} {client : Client Ptr} (h : (i, client) ∈ s.held)
    (phase : ι → PopPhase Ptr) :
    Moves s ⟨s.clientPool.pushBack client, phase, s.held.erase (i, client)⟩ 0 := by
  refine ⟨?_, (Int.add_zero _).symm, fun h => absurd h (by simp), rfl⟩
  have hs : s.custody = (some i, client.ptr) ::ₘ custodyOf s.clientPool.pool (s.held.erase (i, client)) :=
    custodyOf_erase_held h
  have hs' : (⟨s.clientPool.pushBack client, phase, s.held.erase (i, client)⟩ : PoolState ι Ptr).custody =
      (none, client.ptr) ::ₘ custodyOf s.clientPool.pool (s.held.erase (i, client)) :=
    custodyOf_append_pool
  rw [hs, hs']
  exact .pass _ _ _ _

theorem remove_moves {i : ι} {client : Client Ptr} (h : (i, client) ∈ s.held) :
    Moves s { s with clientPool := s.clientPool.remove, held := s.held.erase (i, client) } (-1) := by
  refine ⟨?_, rfl, fun h => absurd h (by simp), rfl⟩
  have hs : s.custody = (some i, client.ptr) ::ₘ custodyOf s.clientPool.pool (s.held.erase (i, client)) :=
    custodyOf_erase_held h
  rw [hs]
  exact .destroy _ _ _

/-- The pool refines the abstract custody: every step is one of its moves. -/
theorem step_move (hconn : s.HoldsConnecting) (ha : s.Allocates l) (hst : s.step l = some s') :
    ∃ d, Moves s s' d := by
  cases transition_of_step hst with
  | pop hi => exact settle_popBegin_moves ha
  | wake hi => exact settle_popWake_moves _ false
  | timeout hi => exact settle_popWake_moves _ true
  | connected hi => exact ⟨0, .of_eq rfl rfl rfl rfl⟩
  | thrown hi => exact ⟨0, pushBack_moves (hconn _ _ hi) _⟩
  | push hi hmem => exact ⟨0, pushBack_moves hmem s.phase⟩
  | remove hi hmem => exact ⟨-1, remove_moves hmem⟩

omit [DecidableEq Ptr] in
theorem HoldsConnecting.settle (h : s.HoldsConnecting) (i : ι)
    (x : ClientPool.PopResult Ptr × ClientPool Ptr) : (s.settle i x).HoldsConnecting := by
  obtain ⟨_ | _ | _, p⟩ := x
  case client client =>
    intro j client' hj
    by_cases hji : j = i
    · obtain rfl : client = client' := by simpa [PoolState.settle, hji] using hj
      simp [PoolState.settle, hji]
    · exact List.mem_cons_of_mem _ (h j client' (by simpa [PoolState.settle, hji] using hj))
  all_goals
    intro j client' hj
    by_cases hji : j = i
    · simp [PoolState.settle, hji] at hj
    · exact h j client' (by simpa [PoolState.settle, hji] using hj)

/-- A thread that is not connecting any more gives up a client. -/
theorem HoldsConnecting.erase (h : s.HoldsConnecting) {i : ι} (client : Client Ptr)
    {phase : ι → PopPhase Ptr} (hi : phase i = .outside) (hothers : ∀ j, j ≠ i → phase j = s.phase j)
    (p : ClientPool Ptr) : HoldsConnecting ⟨p, phase, s.held.erase (i, client)⟩ := by
  intro j client' hj
  have hji : j ≠ i := by
    rintro rfl
    cases hi.symm.trans hj
  have hheld : (j, client') ∈ s.held := h j client' ((hothers j hji).symm.trans hj)
  exact (List.mem_erase_of_ne (by simp [hji])).mpr hheld

theorem HoldsConnecting.step (h : s.HoldsConnecting) (hst : s.step l = some s') :
    s'.HoldsConnecting := by
  cases transition_of_step hst with
  | pop hi | wake hi | timeout hi => exact h.settle _ _
  | @connected i client hi =>
    intro j client' hj
    by_cases hji : j = i
    · simp [hji] at hj
    · exact h j client' (by simpa [hji] using hj)
  | thrown hi => exact h.erase _ (Function.update_self ..) (fun j hj => Function.update_of_ne hj ..) _
  | push hi hmem | remove hi hmem => exact h.erase _ hi (fun _ _ => rfl) _

/-! ## Runs -/

omit [DecidableEq ι] [DecidableEq Ptr] in
/-- A pool that has just been constructed holds its `min_pool_size` clients. -/
theorem initial_balanced {min_pool_size : Int} (hmin : 0 ≤ min_pool_size) (max_pool_size : Int)
    {addr : ℕ → Ptr} (haddr : Set.InjOn addr (Set.Iio min_pool_size.toNat)) :
    Balanced (initial min_pool_size max_pool_size addr : PoolState ι Ptr).custody min_pool_size := by
  have hsnd : (initial min_pool_size max_pool_size addr : PoolState ι Ptr).custody.map Prod.snd =
      ↑((List.range min_pool_size.toNat).map addr) := by
    rw [custody, map_snd_custodyOf, initial, ClientPool.construct_eq]
    simp [Function.comp_def]
  constructor
  · rw [hsnd, Multiset.coe_nodup]
    exact ClientPool.nodup_addr haddr
  · have hcard := congrArg Multiset.card hsnd
    rw [Multiset.card_map, Multiset.coe_card, List.length_map, List.length_range] at hcard
    rw [hcard]
    exact Int.toNat_of_nonneg hmin

/-- What holds in every reachable state. -/
structure Inv (min_pool_size max_pool_size : Int) (s : PoolState ι Ptr) : Prop where
  connecting : s.HoldsConnecting
  balanced : Balanced s.custody s.clientPool.curr_pool_size
  bound : s.clientPool.curr_pool_size ≤ max min_pool_size max_pool_size
  size : s.clientPool.max_pool_size = max_pool_size

theorem Inv.step {min_pool_size max_pool_size : Int} (h : Inv min_pool_size max_pool_size s)
    (ha : s.Allocates l) (hst : s.step l = some s') : Inv min_pool_size max_pool_size s' := by
  obtain ⟨d, hmoves⟩ := step_move h.connecting ha hst
  refine ⟨h.connecting.step hst, ?_, ?_, hmoves.size.trans h.size⟩
  · rw [hmoves.curr]
    exact hmoves.move.balanced h.balanced
  · have hbound := h.bound
    have hcurr := hmoves.curr
    have hone := hmoves.move.le_one
    rcases le_or_gt d 0 with hd | hd
    · omega
    · have hlt := hmoves.grows hd
      rw [h.size] at hlt
      omega

theorem inv_of_reachable {min_pool_size max_pool_size : Int} (hmin : 0 ≤ min_pool_size)
    {addr : ℕ → Ptr} (haddr : Set.InjOn addr (Set.Iio min_pool_size.toNat))
    (hs : Reach PoolState.step Allocates (initial min_pool_size max_pool_size addr) s) :
    Inv min_pool_size max_pool_size s := by
  refine hs.invariant ?_ fun s s' l h ha hst => h.step ha hst
  have hsize : (ClientPool.construct min_pool_size max_pool_size addr).max_pool_size = max_pool_size := by
    rw [ClientPool.construct_eq]
  refine ⟨fun i client hi => ?_, initial_balanced hmin max_pool_size haddr, le_max_left _ _, hsize⟩
  cases hi

omit [DecidableEq ι] [DecidableEq Ptr] in
theorem Inv.conserved {min_pool_size max_pool_size : Int} (h : Inv min_pool_size max_pool_size s) :
    s.Conserved min_pool_size max_pool_size := by
  have hnodup := h.balanced.nodup
  rw [custody, map_snd_custodyOf, Multiset.coe_nodup, List.nodup_append'] at hnodup
  obtain ⟨hidle, hheld, hdisj⟩ := hnodup
  refine ⟨hidle, hheld, ?_, ?_, h.bound⟩
  · intro client hclient h' hh' heq
    refine hdisj (List.mem_map_of_mem hclient) ?_
    rw [heq]
    exact List.mem_map_of_mem hh'
  · rw [← h.balanced.card, custody, card_custodyOf, Int.natCast_add]

omit [DecidableEq ι] [DecidableEq Ptr] in
/-- With a negative minimal size the count is wrong from the start. -/
theorem not_conserved_initial {min_pool_size : Int} (hmin : min_pool_size < 0) (max_pool_size : Int)
    (addr : ℕ → Ptr) : ¬ (initial min_pool_size max_pool_size addr : PoolState ι Ptr).Conserved
      min_pool_size max_pool_size := by
  intro h
  have hcount := h.count
  simp only [initial, ClientPool.construct_eq, List.length_map, List.length_range, List.length_nil] at hcount
  omega

/-! ## A `Pop` whose time is up -/

/-- A thread waits only while the pool has reached its maximal size. -/
def WaitsAtCapacity (s : PoolState ι Ptr) : Prop :=
  ∀ i, s.phase i = .waiting → s.clientPool.max_pool_size ≤ s.clientPool.curr_pool_size

omit [DecidableEq Ptr] in
/-- Who comes out of a critical section of `Pop` with `wait` has to find the pool full. -/
theorem WaitsAtCapacity.settle (h : s.WaitsAtCapacity) (i : ι)
    {r : ClientPool.PopResult Ptr × ClientPool Ptr}
    (hmax : r.2.max_pool_size = s.clientPool.max_pool_size)
    (hcurr : s.clientPool.curr_pool_size ≤ r.2.curr_pool_size)
    (hwait : r.1 = .wait → r.2.max_pool_size ≤ r.2.curr_pool_size) : (s.settle i r).WaitsAtCapacity := by
  have hothers : ∀ j, s.phase j = .waiting → r.2.max_pool_size ≤ r.2.curr_pool_size := by
    intro j hj
    have := h j hj
    omega
  obtain ⟨res, p⟩ := r
  intro j hj
  by_cases hji : j = i
  · subst hji
    cases res <;> simp [PoolState.settle] at hj ⊢
    exact hwait rfl
  · cases res <;> simp [PoolState.settle, Function.update_of_ne hji] at hj ⊢ <;> exact hothers j hj

omit [DecidableEq ι] [DecidableEq Ptr] in
/-- What is not `Pop` keeps the threads that wait, and only `Remove` makes the pool smaller. -/
theorem WaitsAtCapacity.mono (h : s.WaitsAtCapacity)
    (hphase : ∀ i, s'.phase i = .waiting → s.phase i = .waiting)
    (hsize : (∃ i, s.phase i = .waiting) → s.clientPool.max_pool_size ≤ s.clientPool.curr_pool_size →
      s'.clientPool.max_pool_size ≤ s'.clientPool.curr_pool_size) : s'.WaitsAtCapacity := by
  intro i hi
  exact hsize ⟨i, hphase i hi⟩ (h i (hphase i hi))

theorem WaitsAtCapacity.step (h : s.WaitsAtCapacity) (ha : s.RemovesUnawaited l)
    (hst : s.step l = some s') : s'.WaitsAtCapacity := by
  have hleaves : ∀ i j, Function.update s.phase i .outside j = .waiting → s.phase j = .waiting := by
    intro i j hj
    by_cases hji : j = i
    · simp [hji] at hj
    · simpa [hji] using hj
  have hwakes : ∀ i timeUp, s.phase i = .waiting →
      (s.settle i (s.clientPool.popWake timeUp)).WaitsAtCapacity := by
    intro i timeUp hi
    obtain ⟨hmax, hcurr, -⟩ := s.clientPool.popWake_spec timeUp
    refine h.settle i hmax hcurr.ge fun _ => ?_
    rw [hmax, hcurr]
    exact h i hi
  cases transition_of_step hst with
  | @pop i created hi =>
    rcases s.clientPool.popBegin_cases created with
      ⟨client, rest, -, heq⟩ | ⟨ptr, -, -, -, heq⟩ | ⟨-, -, -, heq⟩ | ⟨hfull, heq⟩ <;> rw [heq]
    · exact h.settle i rfl (Int.le_refl _) (by rintro ⟨⟩)
    · exact h.settle i rfl (Int.le_add_one (Int.le_refl _)) (by rintro ⟨⟩)
    · exact h.settle i rfl (Int.le_refl _) (by rintro ⟨⟩)
    · exact h.settle i rfl (Int.le_refl _) fun _ => hfull
  | wake hi => exact hwakes _ false hi
  | timeout hi => exact hwakes _ true hi
  | connected hi => exact h.mono (hleaves _) fun _ hle => hle
  | thrown hi => exact h.mono (hleaves _) fun _ hle => hle
  | push hi hmem => exact h.mono (fun _ hi => hi) fun _ hle => hle
  | remove hi hmem =>
    refine h.mono (fun _ hi => hi) fun hwaits _ => ?_
    have hlt := ha hwaits
    exact Int.le_sub_one_of_lt hlt

/-- For every size of the pool, any number of threads and every interleaving in which capacity below the
maximum is freed only while nobody waits: a `Pop` whose wait times out finds the deque empty and the
pool at its maximal size. Where `Remove` frees capacity while a thread waits at an empty deque, that
thread's time may be up at once, and it gives up at a pool that could still grow. -/
theorem timeout_exhausted {min_pool_size max_pool_size : Int} {addr : ℕ → Ptr} :
    (∀ s, Reach PoolState.step RemovesUnawaited (initial min_pool_size max_pool_size addr) s →
      ∀ i : ι, s.TimesOut i →
        s.clientPool.pool = [] ∧ s.clientPool.curr_pool_size ≥ s.clientPool.max_pool_size) ∧
    ∀ (s s' : PoolState ι Ptr) i client, ¬ s.RemovesUnawaited (.remove i client) →
      s.clientPool.pool = [] → s.step (.remove i client) = some s' →
      ∃ j, s'.TimesOut j ∧ s'.clientPool.curr_pool_size < s'.clientPool.max_pool_size := by
  constructor
  · intro s hs i hi
    have hcap : s.WaitsAtCapacity := by
      refine hs.invariant ?_ fun s s' l h ha hst => h.step ha hst
      intro j hj
      cases hj
    exact ⟨(s.clientPool.popWake_spec true).2.2 hi.2, hcap i hi.1⟩
  · intro s s' i client ha hpool hst
    simp only [RemovesUnawaited, Classical.not_imp, Int.not_lt] at ha
    obtain ⟨⟨j, hj⟩, hfull⟩ := ha
    cases transition_of_step hst with
    | remove hi hmem =>
      refine ⟨j, ⟨hj, ?_⟩, Int.sub_one_lt_of_le hfull⟩
      simp [ClientPool.popWake, ClientPool.remove, hpool]

/-- A client is removed while nobody waits and its place is taken again; then a third caller waits. -/
def sampleTimeoutRun : List (PoolLabel (Fin 3) ℕ) :=
  [.pop 0 none, .connect 0 false, .pop 1 (some 20), .connect 1 false, .remove 0 ⟨10, 0⟩,
    .pop 0 (some 10), .connect 0 false, .pop 2 none, .wake 2]

theorem timeout_exhausted_sample :
    ∃ s, Reach PoolState.step RemovesUnawaited (initial 1 2 fun i => 10 + i : PoolState (Fin 3) ℕ) s ∧
      s.TimesOut 2 ∧ s.clientPool.pool = [] ∧
      s.clientPool.curr_pool_size ≥ s.clientPool.max_pool_size := by
  obtain ⟨s, hs, hout⟩ :
      ∃ s, Reach PoolState.step RemovesUnawaited
        (initial 1 2 fun i => 10 + i : PoolState (Fin 3) ℕ) s ∧ s.TimesOut 2 :=
    ⟨_, reach_of_runLabels sampleTimeoutRun (by decide) rfl, rfl, rfl⟩
  exact ⟨s, hs, hout, timeout_exhausted.1 s hs 2 hout⟩

/-- A pool of at most one client: thread 0 holds it, thread 1 waits, thread 0 removes the client, and
the time of thread 1 is up although the pool could create a new client for it. -/
theorem timeout_with_capacity :
    ∃ s, Reach PoolState.step Allocates (initial 1 1 fun i => 10 + i : PoolState (Fin 2) ℕ) s ∧
      s.TimesOut 1 ∧ s.clientPool.pool = [] ∧ s.clientPool.curr_pool_size = 0 ∧
      s.clientPool.max_pool_size = 1 :=
  ⟨_, reach_of_runLabels [.pop 0 none, .connect 0 false, .pop 1 none, .remove 0 ⟨10, 0⟩] (by decide) rfl,
    ⟨rfl, rfl⟩, rfl, rfl, rfl⟩

end PoolState

/-! ## The `push_back` of the catch block -/

namespace UnlockedPool

variable {ι Ptr : Type} [DecidableEq ι] [DecidableEq Ptr] {s s' : UnlockedPool ι Ptr}

/-- The transitions of the pool without the lock, with what enables each of them. -/
inductive Transition (s : UnlockedPool ι Ptr) : UnlockedLabel ι Ptr → UnlockedPool ι Ptr → Prop where
  | begin {i : ι} (hi : s.finish i = none) :
    Transition s (.atomic (.connect i true)) { s with
      finish := Function.update s.finish i (some (s.start + s.state.clientPool.pool.length)) }
  | atomic {l : PoolLabel ι Ptr} {state : PoolState ι Ptr} (hl : ∀ i, l ≠ .connect i true)
      (hst : s.state.step l = some state) :
    Transition s (.atomic l) { s with
      state
      start := if l.takes && !s.state.clientPool.pool.isEmpty then s.start + 1 else s.start }
  | store {i : ι} {client : Client Ptr} {finish : ℕ} (hi : s.state.phase i = .connecting client)
      (hfinish : s.finish i = some finish) :
    Transition s (.store i) { s with
      state := ⟨{ s.state.clientPool with pool := storeAt s.state.clientPool.pool s.start finish client },
        Function.update s.state.phase i .outside, s.state.held.erase (i, client)⟩
      finish := Function.update s.finish i none }

theorem transition_of_atomic {l : PoolLabel ι Ptr} (hl : ∀ i, l ≠ .connect i true)
    (h : (if s.finish l.thread = none then
      (s.state.step l).map fun state => ({ s with
        state
        start := if l.takes && !s.state.clientPool.pool.isEmpty then s.start + 1 else s.start } :
          UnlockedPool ι Ptr)
      else none) = some s') : s.Transition (.atomic l) s' := by
  obtain ⟨-, hmap⟩ := Option.ite_none_right_eq_some.mp h
  obtain ⟨state, hst, rfl⟩ := Option.map_eq_some_iff.mp hmap
  exact .atomic hl hst

theorem transition_of_step {l : UnlockedLabel ι Ptr} (hst : s.step l = some s') : s.Transition l s' := by
  cases l with
  | atomic l =>
    cases l with
    | connect i throws =>
      cases throws with
      | true =>
        simp only [step] at hst
        split at hst
        next client hi hfinish =>
          cases hst
          exact .begin hfinish
        · cases hst
      | false => exact transition_of_atomic (by simp) hst
    | _ => exact transition_of_atomic (by simp) hst
  | store i =>
    simp only [step] at hst
    split at hst
    next client finish hi hfinish =>
      cases hst
      exact .store hi hfinish
    · cases hst

/-- A `push_back` that has read the end of the deque has read the end as it is now, and it is the only one. -/
structure Undisturbed (s : UnlockedPool ι Ptr) : Prop where
  finish : ∀ i n, s.finish i = some n → n = s.start + s.state.clientPool.pool.length
  alone : ∀ i j, s.finish i ≠ none → s.finish j ≠ none → i = j

omit [DecidableEq ι] [DecidableEq Ptr] in
theorem Undisturbed.of_none (h : ∀ i, s.finish i = none) : s.Undisturbed :=
  ⟨fun i n hi => (by rw [h i] at hi; cases hi), fun i _ hi => absurd (h i) hi⟩

omit [DecidableEq Ptr] in
/-- A `push_back` begins when no other one is under way. -/
theorem Undisturbed.of_begin (h : ∀ i, s.finish i = none) {i : ι} :
    Undisturbed { s with
      finish := Function.update s.finish i (some (s.start + s.state.clientPool.pool.length)) } := by
  have hsome : ∀ {j n}, Function.update s.finish i (some (s.start + s.state.clientPool.pool.length)) j =
      some n → j = i ∧ n = s.start + s.state.clientPool.pool.length := by
    intro j n hj
    by_cases hji : j = i
    · subst hji
      exact ⟨rfl, by simpa using hj.symm⟩
    · rw [Function.update_of_ne hji, h j] at hj
      cases hj
  refine ⟨fun j n hj => (hsome hj).2, fun j k hj hk => ?_⟩
  obtain ⟨n, hj⟩ := Option.ne_none_iff_exists'.mp hj
  obtain ⟨m, hk⟩ := Option.ne_none_iff_exists'.mp hk
  exact (hsome hj).1.trans (hsome hk).1.symm

omit [DecidableEq ι] [DecidableEq Ptr] in
/-- What is stored at the end of the deque is appended to it. -/
theorem storeAt_end (pool : List (Client Ptr)) (start : ℕ) (client : Client Ptr) :
    storeAt pool start (start + pool.length) client = pool ++ [client] := by
  simp [storeAt]

/-- A step that does not access the deque leaves it as it is. -/
theorem pool_of_not_accesses {t t' : PoolState ι Ptr} {l : PoolLabel ι Ptr} (hl : l.accesses = false)
    (hst : t.step l = some t') : t'.clientPool.pool = t.clientPool.pool ∧ l.takes = false := by
  cases PoolState.transition_of_step hst with
  | connected hi => exact ⟨rfl, rfl⟩
  | remove hi hmem => exact ⟨rfl, rfl⟩
  | _ => cases hl

/-- As long as the accesses do not overlap, every step is one of `PoolState` or changes nothing there. -/
theorem step_refines {l : UnlockedLabel ι Ptr} (h : s.Undisturbed) (ha : s.Allocates l)
    (he : s.Exclusive l) (hst : s.step l = some s') :
    (s'.state = s.state ∨ ∃ l', s.state.Allocates l' ∧ s.state.step l' = some s'.state) ∧
      s'.Undisturbed := by
  cases transition_of_step hst with
  | begin hi => exact ⟨.inl rfl, .of_begin (he rfl)⟩
  | @atomic l state hl hst' =>
    refine ⟨.inr ⟨l, ha, hst'⟩, ?_⟩
    cases haccess : l.accesses with
    | true => exact .of_none (he haccess)
    | false =>
      obtain ⟨hpool, htakes⟩ := pool_of_not_accesses haccess hst'
      refine ⟨fun i n hi => ?_, h.alone⟩
      simpa [hpool, htakes] using h.finish i n hi
  | @store i client finish hi hfinish =>
    have hpool : storeAt s.state.clientPool.pool s.start finish client =
        s.state.clientPool.pool ++ [client] := by
      rw [h.finish i finish hfinish, storeAt_end]
    refine ⟨.inr ⟨.connect i true, trivial, ?_⟩, .of_none fun j => ?_⟩
    · simp [PoolState.step, hi, ClientPool.pushBack, hpool]
    · by_cases hji : j = i
      · simp [hji]
      · simp only [Function.update_of_ne hji]
        exact not_not.mp fun hj => hji (h.alone j i hj (by simp [hfinish]))

/-- Runs without overlapping accesses are runs of `PoolState`. -/
theorem reach_state {s₀ : UnlockedPool ι Ptr} (h₀ : ∀ i, s₀.finish i = none)
    (hs : Reach step (fun s l => s.Allocates l ∧ s.Exclusive l) s₀ s) :
    Reach PoolState.step PoolState.Allocates s₀.state s.state ∧ s.Undisturbed := by
  refine hs.invariant (J := fun s => Reach PoolState.step PoolState.Allocates s₀.state s.state ∧
    s.Undisturbed) ⟨.init, .of_none h₀⟩ ?_
  rintro s s' l ⟨hreach, hund⟩ ⟨ha, he⟩ hst
  obtain ⟨hstate | ⟨l', ha', hst'⟩, hund'⟩ := step_refines hund ha he hst
  · exact ⟨hstate ▸ hreach, hund'⟩
  · exact ⟨.step hreach ha' hst', hund'⟩

/-- For every maximal size, any number of threads and every interleaving of `Pop`, `Push` and `Remove` in
which `_pool` is not accessed while the `push_back` of a catch block is under way, whatever the minimal size
is as long as it is not negative: in every state the deque holds no client twice, no client is held twice (by
one caller or by two), none is both idle and held, the pool's size is the number of clients that are idle or
held, and it never exceeds the larger of the two sizes. With a negative minimal size this is not so. -/
theorem clients_conserved_iff {min_pool_size max_pool_size : Int} {addr : ℕ → Ptr}
    (haddr : Set.InjOn addr (Set.Iio min_pool_size.toNat)) :
    (∀ s : UnlockedPool ι Ptr, Reach step (fun s l => s.Allocates l ∧ s.Exclusive l)
        (initial min_pool_size max_pool_size addr) s →
      s.state.Conserved min_pool_size max_pool_size) ↔ 0 ≤ min_pool_size := by
  constructor
  · intro h
    by_contra hmin
    exact PoolState.not_conserved_initial (Int.not_le.mp hmin) max_pool_size addr (h _ .init)
  · intro hmin s hs
    exact (PoolState.inv_of_reachable hmin haddr (reach_state (fun _ => rfl) hs).1).conserved

/-- Three threads at a pool of at most two clients, one of which exists from the start. A third caller
waits, is woken in vain and gives up; one client is removed and another one comes back since it cannot be
connected. -/
def samplePoolRun : List (UnlockedLabel (Fin 3) ℕ) :=
  [.atomic (.pop 0 none), .atomic (.connect 0 false), .atomic (.pop 1 (some 20)),
    .atomic (.connect 1 false), .atomic (.pop 2 none), .atomic (.wake 2), .atomic (.timeout 2),
    .atomic (.push 1 ⟨20, 1⟩), .atomic (.pop 2 none), .atomic (.connect 2 true),
    .atomic (.remove 0 ⟨10, 0⟩), .store 2, .atomic (.pop 0 none), .atomic (.pop 1 (some 10))]

theorem clients_conserved_iff_sample :
    ∃ s, Reach step (fun s l => s.Allocates l ∧ s.Exclusive l)
        (initial 1 2 fun i => 10 + i : UnlockedPool (Fin 3) ℕ) s ∧
      s.state.held = [(1, ⟨10, 2⟩), (0, ⟨20, 1⟩)] ∧ s.state.clientPool.curr_pool_size = 2 ∧
      s.state.Conserved 1 2 := by
  obtain ⟨s, hs, hheld, hcurr⟩ :
      ∃ s, Reach step (fun s l => s.Allocates l ∧ s.Exclusive l)
          (initial 1 2 fun i => 10 + i : UnlockedPool (Fin 3) ℕ) s ∧
        s.state.held = [(1, ⟨10, 2⟩), (0, ⟨20, 1⟩)] ∧ s.state.clientPool.curr_pool_size = 2 :=
    ⟨_, reach_of_runLabels samplePoolRun (by decide) rfl, rfl, rfl⟩
  exact ⟨s, hs, hheld, hcurr,
    (clients_conserved_iff fun i _ j _ hij => by simpa using hij).mpr (by decide) s hs⟩

/-- Two clients cannot be connected, and both calls of `push_back` read the same end of the deque: one client is
overwritten. Nobody has it, and the pool counts it for ever. -/
theorem overlapping_pushes_lose_client :
    ∃ s, Reach step Allocates (initial 1 128 fun i => 10 + i : UnlockedPool (Fin 2) ℕ) s ∧
      s.state.clientPool.pool = [⟨21, 1⟩] ∧ s.state.held = [] ∧ s.state.clientPool.curr_pool_size = 2 ∧
      ¬ s.state.Conserved 1 128 := by
  refine ⟨_, reach_of_runLabels [.atomic (.pop 0 none), .atomic (.pop 1 (some 21)),
    .atomic (.connect 0 true), .atomic (.connect 1 true), .store 0, .store 1] (by decide) rfl, rfl, rfl,
    rfl, fun h => ?_⟩
  exact absurd h.count (by decide)

end UnlockedPool

end MediaService
