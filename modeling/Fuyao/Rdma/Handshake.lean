import Fuyao.Concurrency.Prog
import Fuyao.Concurrency.Stream
import Fuyao.Cpp.Strings

/-!
# The handshake of the RDMA benchmark

Each client thread creates a queue pair, connects to the server over TCP, sends the `RDMAInfo` of its
queue pair, reads that of the server and builds its channel with it. The server handles one connection
after the other: it reads the client's info, creates a queue pair, sends its own info back and builds
the channel; the peer's info, its own info and its queue pair are globals.

The threads, the server and the network take their steps in any order. A step ends where another party
could see its effect. A socket object closes its descriptor when `worker_fn` returns, which a thread does
only after the barrier, when all threads of its process have built their channels.
-/

namespace Rdma

open Cpp Concurrency

/-- `RDMAInfo` as a struct that is copied byte by byte. -/
structure Layout (Info : Type) where
  /-- `sizeof(RDMAInfo)`. -/
  size : ℕ
  bytes : Info → Bytes
  /-- `*(RDMAInfo *) recv_buf`. -/
  ofBytes : Bytes → Info
  /-- The member `qp_info.qp_num`. -/
  qpNum : Info → ℕ
  length_bytes : ∀ x, (bytes x).length = size
  ofBytes_bytes : ∀ x, ofBytes (bytes x) = x

/-- Where a client thread is in `worker_fn`. -/
inductive Client (Info : Type) where
  | starting
  /-- It has a queue pair and calls `conn`. -/
  | connecting (qp : ℕ)
  /-- `conn` has returned; `connected` says whether the descriptor is one. -/
  | preparing (qp : ℕ) (connected : Bool)
  | sending (connected : Bool) (self : Info)
  | reading (connected : Bool) (self : Info)
  /-- It is about to call `build_rdma_channel`. -/
  | building (self peer : Info)
  /-- It has called `build_rdma_channel`. -/
  | built (self peer : Info)
  deriving DecidableEq

namespace Client

variable {Info : Type}

/-- The info that the thread has sent. -/
def sent : Client Info → Option Info
  | reading _ self | building self _ | built self _ => some self
  | _ => none

/-- The info of the thread and that of its peer, once it has reached `build_rdma_channel`. -/
def pair : Client Info → Option (Info × Info)
  | building self peer | built self peer => some (self, peer)
  | _ => none

/-- The thread has not called `connect` yet. -/
def Unconnected : Client Info → Prop
  | starting | connecting _ => True
  | _ => False

end Client

/-- Where the server is in `exchange_rdma_info_and_build_conn`; a descriptor is the client thread at its
other end. -/
inductive Server (ι : Type) where
  | accepting
  /-- `waiting_request` has returned a descriptor, or -1. -/
  | reading (fd : Option ι)
  /-- The peer's info has been copied. -/
  | preparing (fd : ι)
  | sending (fd : ι)
  | closing (fd : ι)
  | building (fd : ι)
  | exited
  deriving DecidableEq

/-- The connection that the server handles. -/
def Server.fd {ι : Type} : Server ι → Option ι
  | reading fd => fd
  | preparing fd | sending fd | closing fd | building fd => some fd
  | _ => none

/-- The server with its globals, the client threads, and the connections between them. -/
structure State (ι P Info : Type) where
  server : Server ι
  qp_ : Option ℕ
  self_rdma_info_ : Option Info
  peer_rdma_info_ : Option Info
  /-- The infos of the queue pairs that the server has created. -/
  created : List Info
  /-- The calls of `build_rdma_channel` on the server: the queue pair and the peer's info. -/
  builds : List (ℕ × Info)
  /-- The connections that the server has not accepted yet. -/
  backlog : List ι
  client : ι → Client Info
  /-- The client processes that have called `exit`. -/
  exited : P → Bool
  toServer : ι → Stream UInt8
  toClient : ι → Stream UInt8

/-- The server waits for the first connection, and no thread has done anything. -/
def State.initial {ι P Info : Type} : State ι P Info :=
  ⟨.accepting, none, none, none, [], [], [], fun _ => .starting, fun _ => false, fun _ => .empty,
    fun _ => .empty⟩

/-- The steps. A length of 0 stands for a call that fails or finds the end of the stream. -/
inductive Label (ι Info : Type) where
  | createQueuePair (i : ι) (qp : ℕ)
  | connect (i : ι) (connected : Bool)
  | prepare (i : ι) (self : Info)
  | send (i : ι) (n : ℕ)
  | read (i : ι) (n : ℕ)
  | build (i : ι)
  | accept (fd : Option ι)
  | serverRead (n : ℕ)
  | serverPrepare (self : Info)
  | serverSend (n : ℕ)
  | serverClose
  | serverBuild
  | deliverToServer (i : ι) (n : ℕ)
  | deliverToClient (i : ι) (n : ℕ)

section Steps

variable {ι P Info : Type} [DecidableEq ι] [DecidableEq P]

namespace State

/-- A client thread moves on. -/
def setClient (s : State ι P Info) (i : ι) (x : Client Info) : State ι P Info :=
  { s with client := Function.update s.client i x }

variable (layout : Layout Info) (process : ι → P)

/-- A step of client thread `i`. -/
def clientStep (s : State ι P Info) (i : ι) : Client Info → Label ι Info → Option (State ι P Info)
  | .starting, .createQueuePair _ qp => some (s.setClient i (.connecting qp))
  | .connecting qp, .connect _ connected =>
    some ({ s with backlog := if connected then s.backlog ++ [i] else s.backlog }.setClient i
      (.preparing qp connected))
  | .preparing qp connected, .prepare _ self =>
    -- `GetQueuePairInfo` reports the number of the queue pair
    if layout.qpNum self = qp then some (s.setClient i (.sending connected self)) else none
  | .sending connected self, .send _ n =>
    -- the result of `send` is not looked at
    some ({ s with
        toServer := if connected
          then Function.update s.toServer i ((s.toServer i).send ((layout.bytes self).take n))
          else s.toServer }.setClient i (.reading connected self))
  | .reading connected self, .read _ n =>
    if n = 0 then some { s with exited := Function.update s.exited (process i) true }
    else if connected ∧ n ≤ 1024 then
      ((s.toClient i).read n).map fun x =>
        let s' := { s with toClient := Function.update s.toClient i x.2 }
        if n = layout.size then s'.setClient i (.building self (layout.ofBytes x.1))
        else { s' with exited := Function.update s.exited (process i) true }
    else none
  | .building self peer, .build _ => some (s.setClient i (.built self peer))
  | _, _ => none

/-- A step of the server. -/
def serverStep (s : State ι P Info) : Server ι → Label ι Info → Option (State ι P Info)
  | .accepting, .accept fd =>
    match fd with
    | none => some { s with server := .reading none }
    | some i =>
      if i ∈ s.backlog then some { s with server := .reading (some i), backlog := s.backlog.erase i }
      else none
  | .reading fd, .serverRead n =>
    if n = 0 then some { s with server := .exited }
    else
      match fd with
      | none => none
      | some i =>
        if n ≤ 1024 then
          ((s.toServer i).read n).map fun x =>
            let s' := { s with toServer := Function.update s.toServer i x.2 }
            if n = layout.size then
              { s' with server := .preparing i, peer_rdma_info_ := some (layout.ofBytes x.1) }
            else { s' with server := .exited }
        else none
  | .preparing i, .serverPrepare self =>
    -- `CreateQueuePair` gives a number that it has not given before
    if layout.qpNum self ∉ s.created.map layout.qpNum then
      some { s with server := .sending i, qp_ := some (layout.qpNum self),
                    self_rdma_info_ := some self, created := s.created ++ [self] }
    else none
  | .sending i, .serverSend n =>
    s.self_rdma_info_.map fun self =>
      { s with server := .closing i,
               toClient := Function.update s.toClient i
                 ((s.toClient i).send ((layout.bytes self).take n)) }
  | .closing i, .serverClose => some { s with server := .building i }
  | .building _, .serverBuild =>
    match s.qp_, s.peer_rdma_info_ with
    | some qp, some peer => some { s with server := .accepting, builds := s.builds ++ [(qp, peer)] }
    | _, _ => none
  | _, _ => none

/-- One step of a client thread, of the server or of the network. -/
def step (s : State ι P Info) : Label ι Info → Option (State ι P Info)
  | .deliverToServer i n =>
    some { s with toServer := Function.update s.toServer i ((s.toServer i).deliver n) }
  | .deliverToClient i n =>
    some { s with toClient := Function.update s.toClient i ((s.toClient i).deliver n) }
  | l@(.createQueuePair i _) | l@(.connect i _) | l@(.prepare i _) | l@(.send i _) | l@(.read i _)
  | l@(.build i) => if s.exited (process i) then none else s.clientStep layout process i (s.client i) l
  | l => s.serverStep layout s.server l

end State

/-- The states that some interleaving of the steps leads to. -/
def Reachable (layout : Layout Info) (process : ι → P) (s : State ι P Info) : Prop :=
  Reach (State.step layout process) (fun _ _ => True) .initial s

end Steps

end Rdma
