import Fuyao.Concurrency.Prog
import Fuyao.Custody.Custody
import Mathlib.Data.Fintype.Defs
import Mathlib.Data.List.Nodup

/-!
# `ClientPool`

The pool of clients, for any number of threads that share it. Every critical section is one step; `Pop`
consists of several of them. It takes an idle client, or creates one, or waits on the condition
variable and looks again when it is woken or when its time is up; then, without the lock, it connects
the client. A client is identified by its address, and an address may be used again after the client
that had it is gone.

`PoolState` takes every access to the deque as one step. `UnlockedPool` does so only where the code holds the
lock: the `push_back` of the catch block of `Pop` is in no critical section, and other threads go on while
it is under way.

`PoolState.custody` is the abstract view: who has which client.
-/

namespace MediaService

/-- A client: its address and the id it was created with. -/
structure Client (Ptr : Type) where
  ptr : Ptr
  client_id : UInt16
  deriving DecidableEq

/-- The fields of `ClientPool` that its methods work on; the front of the deque is the head of the
list. -/
structure ClientPool (Ptr : Type) where
  pool : List (Client Ptr)
  max_pool_size : Int
  curr_pool_size : Int
  current_client_id : UInt16

namespace ClientPool

variable {Ptr : Type} (p : ClientPool Ptr)

/-- `new TClient(…, _current_client_id.fetch_add(1))` at the address `ptr`. -/
def newClient (ptr : Ptr) : Client Ptr × ClientPool Ptr :=
  (⟨ptr, p.current_client_id⟩, { p with current_client_id := p.current_client_id + 1 })

/-- `_pool.push_back(client)`. -/
def pushBack (client : Client Ptr) : ClientPool Ptr := { p with pool := p.pool ++ [client] }

/-- One round of the loop of the constructor. -/
def emplaceNew (ptr : Ptr) : ClientPool Ptr :=
  let (client, p) := p.newClient ptr
  p.pushBack client

/-- The constructor; its `i`-th client has the address `addr i`. -/
def construct (min_pool_size max_pool_size : Int) (addr : ℕ → Ptr) : ClientPool Ptr :=
  { (List.range min_pool_size.toNat).foldl (fun p i => p.emplaceNew (addr i))
      (⟨[], max_pool_size, 0, 0⟩ : ClientPool Ptr) with
    curr_pool_size := min_pool_size }

/-- How a critical section of `Pop` ends. -/
inductive PopResult (Ptr : Type) where
  /-- `Pop` has a client and goes on to connect it. -/
  | client (client : Client Ptr)
  | wait
  | nullptr

/-- The first critical section of `Pop`. `created` is what `new TClient` yields if it comes to that:
the address of the client, or nothing if the constructor throws. -/
def popBegin (created : Option Ptr) : PopResult Ptr × ClientPool Ptr :=
  match p.pool with
  | client :: rest => (.client client, { p with pool := rest })
  | [] =>
    if p.curr_pool_size < p.max_pool_size then
      match created with
      | some ptr =>
        let (client, p) := p.newClient ptr
        (.client client, { p with curr_pool_size := p.curr_pool_size + 1 })
      -- the id has been drawn when the constructor throws
      | none => (.nullptr, { p with current_client_id := p.current_client_id + 1 })
    else (.wait, p)

/-- `wait_until` evaluates its predicate, after a notification or a spurious wakeup, or because the
time is up. An empty deque sends a thread that has time left back to waiting, without a look at the
pool's size. -/
def popWake (timeUp : Bool) : PopResult Ptr × ClientPool Ptr :=
  match p.pool with
  | client :: rest => (.client client, { p with pool := rest })
  | [] => if timeUp then (.nullptr, p) else (.wait, p)

/-- `Push`; `KeepAlive` does nothing. -/
def push (client : Client Ptr) : ClientPool Ptr := p.pushBack client

/-- `Remove`. -/
def remove : ClientPool Ptr := { p with curr_pool_size := p.curr_pool_size - 1 }

end ClientPool

/-- Where a thread is with respect to `Pop`. -/
inductive PopPhase (Ptr : Type) where
  | outside
  /-- In `Pop`, waiting on the condition variable. -/
  | waiting
  /-- In `Pop`, in the unlocked call of `Connect`. -/
  | connecting (client : Client Ptr)
  deriving DecidableEq

/-- The pool and the threads that use it. -/
structure PoolState (ι Ptr : Type) where
  clientPool : ClientPool Ptr
  phase : ι → PopPhase Ptr
  /-- The clients that threads have obtained, those they are connecting included. -/
  held : List (ι × Client Ptr)

/-- The steps of the threads. -/
inductive PoolLabel (ι Ptr : Type) where
  | pop (i : ι) (created : Option Ptr)
  | wake (i : ι)
  | timeout (i : ι)
  /-- `Connect` returns, or it throws and the client goes back into the deque. -/
  | connect (i : ι) (throws : Bool)
  /-- A thread calls `Push` with a client it holds. -/
  | push (i : ι) (client : Client Ptr)
  /-- A thread calls `Remove` with a client it holds. -/
  | remove (i : ι) (client : Client Ptr)

namespace PoolState

variable {ι Ptr : Type}

/-- The pool as its constructor leaves it; no thread is in a call. -/
def initial (min_pool_size max_pool_size : Int) (addr : ℕ → Ptr) : PoolState ι Ptr :=
  ⟨.construct min_pool_size max_pool_size addr, fun _ => .outside, []⟩

/-- Who has which client, for a deque and the clients that are held; `none` stands for the deque. -/
def custodyOf (pool : List (Client Ptr)) (held : List (ι × Client Ptr)) : Multiset (Option ι × Ptr) :=
  ↑(pool.map fun client => ((none : Option ι), client.ptr)) + ↑(held.map fun h => (some h.1, h.2.ptr))

/-- Who has which client: a thread, or nobody if it is in the deque. -/
def custody (s : PoolState ι Ptr) : Multiset (Option ι × Ptr) := custodyOf s.clientPool.pool s.held

/-- A new client gets an address that no client of the pool has. -/
def Allocates (s : PoolState ι Ptr) : PoolLabel ι Ptr → Prop
  | .pop _ (some ptr) => ptr ∉ s.clientPool.pool.map Client.ptr ++ s.held.map fun h => h.2.ptr
  | _ => True

/-- `Remove` frees capacity below the maximum only while nobody waits: it notifies no one, and a waiting
`Pop` does not look at the pool's size again. -/
def RemovesUnawaited (s : PoolState ι Ptr) : PoolLabel ι Ptr → Prop
  | .remove _ _ =>
    (∃ i, s.phase i = .waiting) → s.clientPool.max_pool_size < s.clientPool.curr_pool_size
  | _ => True

/-- If the time of thread `i` is up now, its `Pop` returns `nullptr`. -/
def TimesOut (s : PoolState ι Ptr) (i : ι) : Prop :=
  s.phase i = .waiting ∧ (s.clientPool.popWake true).1 = .nullptr

/-- A client that a thread is connecting is one it holds. -/
def HoldsConnecting (s : PoolState ι Ptr) : Prop :=
  ∀ i client, s.phase i = .connecting client → (i, client) ∈ s.held

/-- The step moves clients as the abstract custody allows. The counter follows, and it grows only
below the maximum. -/
structure Moves (s s' : PoolState ι Ptr) (d : ℤ) : Prop where
  move : Custody.Move s.custody s'.custody d
  curr : s'.clientPool.curr_pool_size = s.clientPool.curr_pool_size + d
  grows : 0 < d → s.clientPool.curr_pool_size < s.clientPool.max_pool_size
  size : s'.clientPool.max_pool_size = s.clientPool.max_pool_size

/-- No client is at two places, the counter counts them, and it is within its bounds. -/
structure Conserved (min_pool_size max_pool_size : Int) (s : PoolState ι Ptr) : Prop where
  idle : (s.clientPool.pool.map Client.ptr).Nodup
  held : (s.held.map fun h => h.2.ptr).Nodup
  disjoint : ∀ client ∈ s.clientPool.pool, ∀ h ∈ s.held, client.ptr ≠ h.2.ptr
  count : (s.clientPool.pool.length + s.held.length : Int) = s.clientPool.curr_pool_size
  bound : s.clientPool.curr_pool_size ≤ max min_pool_size max_pool_size

variable [DecidableEq ι]

/-- Thread `i` after a critical section of `Pop`. -/
def settle (s : PoolState ι Ptr) (i : ι) : ClientPool.PopResult Ptr × ClientPool Ptr → PoolState ι Ptr
  | (.client client, p) => ⟨p, Function.update s.phase i (.connecting client), (i, client) :: s.held⟩
  | (.wait, p) => ⟨p, Function.update s.phase i .waiting, s.held⟩
  | (.nullptr, p) => ⟨p, Function.update s.phase i .outside, s.held⟩

variable [DecidableEq Ptr]

instance (s : PoolState ι Ptr) : (l : PoolLabel ι Ptr) → Decidable (s.Allocates l)
  | .pop _ (some _) => inferInstanceAs (Decidable (_ ∉ _))
  | .pop _ none | .wake _ | .timeout _ | .connect _ _ | .push _ _ | .remove _ _ => isTrue trivial

instance [Fintype ι] (s : PoolState ι Ptr) : (l : PoolLabel ι Ptr) → Decidable (s.RemovesUnawaited l)
  | .remove _ _ => inferInstanceAs (Decidable (_ → _))
  | .pop _ _ | .wake _ | .timeout _ | .connect _ _ | .push _ _ => isTrue trivial

/-- One step of a thread. -/
def step (s : PoolState ι Ptr) : PoolLabel ι Ptr → Option (PoolState ι Ptr)
  | .pop i created =>
    if s.phase i = .outside then some (s.settle i (s.clientPool.popBegin created)) else none
  | .wake i => if s.phase i = .waiting then some (s.settle i (s.clientPool.popWake false)) else none
  | .timeout i => if s.phase i = .waiting then some (s.settle i (s.clientPool.popWake true)) else none
  | .connect i throws =>
    match s.phase i with
    | .connecting client =>
      if throws then
        -- `push_back` without the lock
        some ⟨s.clientPool.pushBack client, Function.update s.phase i .outside, s.held.erase (i, client)⟩
      else some { s with phase := Function.update s.phase i .outside }
    | _ => none
  | .push i client =>
    if s.phase i = .outside ∧ (i, client) ∈ s.held then
      some { s with clientPool := s.clientPool.push client, held := s.held.erase (i, client) }
    else none
  | .remove i client =>
    if s.phase i = .outside ∧ (i, client) ∈ s.held then
      some { s with clientPool := s.clientPool.remove, held := s.held.erase (i, client) }
    else none

end PoolState

/-! ## The `push_back` of the catch block -/

namespace PoolLabel

variable {ι Ptr : Type}

/-- The thread that moves. -/
def thread : PoolLabel ι Ptr → ι
  | .pop i _ | .wake i | .timeout i | .connect i _ | .push i _ | .remove i _ => i

/-- The step may take the front of the deque. -/
def takes : PoolLabel ι Ptr → Bool
  | .pop _ _ | .wake _ | .timeout _ => true
  | _ => false

/-- The step reads or writes `_pool`. -/
def accesses : PoolLabel ι Ptr → Bool
  | .connect _ throws => throws
  | .remove _ _ => false
  | _ => true

end PoolLabel

/-- The pool, with the calls of `push_back` that are under way without the lock. -/
structure UnlockedPool (ι Ptr : Type) where
  state : PoolState ι Ptr
  /-- The index of the front of the deque: how many clients have been taken from it. -/
  start : ℕ
  /-- The index of the end of the deque, as the `push_back` of a thread has read it. -/
  finish : ι → Option ℕ

/-- The steps of the threads, where the `push_back` without a lock takes two. -/
inductive UnlockedLabel (ι Ptr : Type) where
  /-- A step of `PoolState`; a `Connect` that throws only begins its `push_back`. -/
  | atomic (l : PoolLabel ι Ptr)
  /-- The `push_back` of a thread stores the client where it found the end, and moves the end. -/
  | store (i : ι)

namespace UnlockedPool

variable {ι Ptr : Type}

/-- The pool as its constructor leaves it. -/
def initial (min_pool_size max_pool_size : Int) (addr : ℕ → Ptr) : UnlockedPool ι Ptr :=
  ⟨.initial min_pool_size max_pool_size addr, 0, fun _ => none⟩

/-- What a deque whose front has the index `start` holds when a client is stored at the index `finish` and
the end is moved behind it. -/
def storeAt (pool : List (Client Ptr)) (start finish : ℕ) (client : Client Ptr) : List (Client Ptr) :=
  if start ≤ finish then pool.take (finish - start) ++ [client] else []

/-- A new client has an address that is not in use. -/
def Allocates (s : UnlockedPool ι Ptr) : UnlockedLabel ι Ptr → Prop
  | .atomic l => s.state.Allocates l
  | .store _ => True

/-- `_pool` is not accessed while a `push_back` without the lock is under way. -/
def Exclusive (s : UnlockedPool ι Ptr) : UnlockedLabel ι Ptr → Prop
  | .atomic l => l.accesses = true → ∀ i, s.finish i = none
  | .store _ => True

variable [DecidableEq ι] [DecidableEq Ptr]

instance (s : UnlockedPool ι Ptr) : (l : UnlockedLabel ι Ptr) → Decidable (s.Allocates l)
  | .atomic l => inferInstanceAs (Decidable (s.state.Allocates l))
  | .store _ => isTrue trivial

instance [Fintype ι] (s : UnlockedPool ι Ptr) : (l : UnlockedLabel ι Ptr) → Decidable (s.Exclusive l)
  | .atomic _ => inferInstanceAs (Decidable (_ → _))
  | .store _ => isTrue trivial

/-- One step of a thread. -/
def step (s : UnlockedPool ι Ptr) : UnlockedLabel ι Ptr → Option (UnlockedPool ι Ptr)
  | .atomic (.connect i true) =>
    match s.state.phase i, s.finish i with
    | .connecting _, none =>
      some { s with
        finish := Function.update s.finish i (some (s.start + s.state.clientPool.pool.length)) }
    | _, _ => none
  | .atomic l =>
    if s.finish l.thread = none then
      (s.state.step l).map fun state =>
        { s with
          state
          start := if l.takes && !s.state.clientPool.pool.isEmpty then s.start + 1 else s.start }
    else none
  | .store i =>
    match s.state.phase i, s.finish i with
    | .connecting client, some finish =>
      let pool := storeAt s.state.clientPool.pool s.start finish client
      some { s with
        state := ⟨{ s.state.clientPool with pool }, Function.update s.state.phase i .outside,
          s.state.held.erase (i, client)⟩
        finish := Function.update s.finish i none }
    | _, _ => none

end UnlockedPool

end MediaService
