import Fuyao.MediaService.ClientPool
import Fuyao.MediaService.RpcTrace

/-!
# Client ids

A client gets its id from `_current_client_id`, a counter of 16 bits that comes round to zero and is never
compared with the ids in use. Whether two clients share an id is then a question of how many ids were
drawn between them, which the pool does not know: `Births` records it beside the pool.
-/

namespace MediaService

namespace PoolState

variable {ι Ptr : Type} (s : PoolState ι Ptr)

/-- The clients that exist: the idle ones and those that threads have obtained. -/
def live : Multiset (Client Ptr) := ↑s.clientPool.pool + ↑(s.held.map Prod.snd)

/-- No two clients that exist have the same id. -/
def DistinctIds : Prop := (s.live.map Client.client_id).Nodup

/-- The id that `StartRpcTrace` records for a client is the id of no other client that exists. -/
def TracesIdentify : Prop :=
  ∀ client ∈ s.live, ∀ client' ∈ s.live, ∀ (t : TraceState) rpc_trace timestamp made,
    ((t.finish rpc_trace client.client_id timestamp made).memory rpc_trace).client_id = client'.client_id →
      client' = client

/-- A `Pop` that comes now draws an id for a new client. -/
def Grows : Prop := s.clientPool.pool = [] ∧ s.clientPool.curr_pool_size < s.clientPool.max_pool_size

instance [DecidableEq Ptr] : Decidable s.Grows := inferInstanceAs (Decidable (_ ∧ _))

end PoolState

/-- When the clients were created. -/
structure Births (Ptr : Type) where
  /-- The number of ids drawn so far, those of clients whose constructor has thrown included. -/
  drawn : ℕ
  /-- How many ids had been drawn before that of the last client created at this address. -/
  born : Ptr → ℕ

namespace Births

variable {ι Ptr : Type}

/-- The number of ids drawn since the client at this address was created, its own included. -/
def age (b : Births Ptr) (ptr : Ptr) : ℕ := b.drawn - b.born ptr

/-- When a client is created, no client that exists was created a multiple of 65536 draws ago. -/
def Spaced (b : Births Ptr) (s : PoolState ι Ptr) : PoolLabel ι Ptr → Prop
  | .pop _ (some _) => s.Grows → ∀ client ∈ s.live, ¬ 2 ^ 16 ∣ b.age client.ptr
  | _ => True

variable [DecidableEq Ptr]

instance (b : Births Ptr) (s : PoolState ι Ptr) : (l : PoolLabel ι Ptr) → Decidable (b.Spaced s l)
  | .pop _ (some _) => inferInstanceAs (Decidable (_ → _))
  | .pop _ none | .wake _ | .timeout _ | .connect _ _ | .push _ _ | .remove _ _ => isTrue trivial

/-- After the constructor of the pool, whose `i`-th client has the address `addr i`. -/
def initial (min_pool_size : Int) (addr : ℕ → Ptr) : Births Ptr :=
  ⟨min_pool_size.toNat, fun ptr => ((List.range min_pool_size.toNat).map addr).idxOf ptr⟩

/-- The record after a step that is taken in the state `s`. -/
def record (s : PoolState ι Ptr) : PoolLabel ι Ptr → Births Ptr → Births Ptr
  | .pop _ (some ptr), b => if s.Grows then ⟨b.drawn + 1, Function.update b.born ptr b.drawn⟩ else b
  | .pop _ none, b => if s.Grows then { b with drawn := b.drawn + 1 } else b
  | _, b => b

/-- What the runs of a new pool reach, with the record of the draws; `adm` says which steps are taken. -/
def Recorded [DecidableEq ι] (min_pool_size max_pool_size : Int) (addr : ℕ → Ptr)
    (adm : PoolState ι Ptr × Births Ptr → PoolLabel ι Ptr → Prop) : PoolState ι Ptr × Births Ptr → Prop :=
  Concurrency.Reach (Concurrency.recording PoolState.step record) adm
    (.initial min_pool_size max_pool_size addr, initial min_pool_size addr)

end Births

end MediaService
