import Fuyao.Cpp.Containers
import Fuyao.Cpp.Strings
import Fuyao.Ledger.Ledger

/-!
# The client of the key-value store

The client sends the requests of its user to the workers that are responsible for the keys. It asks the
routing tier for the addresses of the workers and keeps them in a cache; a request for a key without
an address is queued until one comes. A worker that is not responsible any more answers with `WRONG_THREAD`, and
the request is sent again. All functions return at once: `receive_async` takes at most one message from
each of the two sockets, and gives up the requests that have waited too long.

A function that reaches a point where the standard leaves the behaviour open has no result here.
-/

namespace Anna

open Cpp

/-! ## Messages -/

/-- The kinds of data requests. -/
inductive RequestType where
  | unspecified
  | get
  | put
  /-- A number that has no name. -/
  | other (n : Int32)
  deriving DecidableEq

/-- The kinds of lattices that a payload can be. -/
inductive LatticeType where
  | none
  | lww
  | set
  | singleCausal
  | multiCausal
  | orderedSet
  | priority
  deriving DecidableEq

/-- The errors that a response or one of its tuples can carry. -/
inductive AnnaError where
  | noError
  | keyDne
  | wrongThread
  | timeout
  | lattice
  | noServers
  /-- A number that has no name. -/
  | other (n : Int32)
  deriving DecidableEq

/-- A key with its payload, in a request or in a response. -/
structure KeyTuple where
  key : Bytes
  lattice_type : LatticeType := .none
  error : AnnaError := .noError
  payload : Bytes := []
  address_cache_size : UInt32 := 0
  invalidate : Bool := false
  deriving DecidableEq

/-- A request of the client has one tuple. -/
structure KeyRequest where
  type : RequestType
  tuple : KeyTuple
  response_address : Bytes
  request_id : Bytes
  deriving DecidableEq

/-- `set_address_cache_size` on the tuple of a request. -/
def KeyRequest.setAddressCacheSize (request : KeyRequest) (size : UInt32) : KeyRequest :=
  { request with tuple := { request.tuple with address_cache_size := size } }

/-- The answer of a worker thread to a data request. -/
structure KeyResponse where
  type : RequestType
  tuples : List KeyTuple
  response_id : Bytes
  error : AnnaError
  deriving DecidableEq

/-- A query to a routing thread for the addresses of keys. -/
structure KeyAddressRequest where
  response_address : Bytes
  keys : List Bytes
  request_id : Bytes

/-- The worker threads that have a key, as a routing thread reports them. -/
structure KeyAddress where
  key : Bytes
  ips : List Bytes

/-- The fields that the client reads. -/
structure KeyAddressResponse where
  addresses : List KeyAddress
  error : AnnaError

/-- What the client sends. -/
inductive Message where
  | data (request : KeyRequest)
  | query (request : KeyAddressRequest)

/-! ## Addresses -/

/-- `UserThread` and `UserRoutingThread`. -/
structure ThreadAddress where
  ip_ : Bytes
  tid_ : UInt32

/-- The address of a thread to connect to, at the ports from `base` on. -/
def ThreadAddress.connectAddress (t : ThreadAddress) (base : UInt32) : Bytes :=
  ascii "tcp://" ++ t.ip_ ++ ascii ":" ++ numeral 10 (t.tid_ + base).toNat

/-- `kUserResponsePort`. -/
def ThreadAddress.responseConnectAddress (t : ThreadAddress) : Bytes := t.connectAddress 6800

/-- `kUserKeyAddressPort`. -/
def ThreadAddress.keyAddressConnectAddress (t : ThreadAddress) : Bytes := t.connectAddress 6850

/-- `kKeyAddressPort` of a routing thread. -/
def ThreadAddress.routingConnectAddress (t : ThreadAddress) : Bytes := t.connectAddress 6450

/-- `split`: the pieces that `getline` gives, without an empty one at the end. -/
def split (s : Bytes) (delim : UInt8) : List Bytes :=
  let pieces := s.splitOn delim
  if pieces.getLast? = some [] then pieces.dropLast else pieces

/-! ## The state of the client -/

/-- What a client is constructed with, and what it finds around it. -/
structure Setting where
  routing_threads_ : List ThreadAddress
  /-- There is someone to ask for addresses. -/
  routing_ne_nil : routing_threads_ ≠ []
  ut_ : ThreadAddress
  timeout_ : UInt32
  /-- What each reading of the clock shows. -/
  clock : ℕ → ℤ
  /-- The number and the next seed. -/
  rand_r : UInt32 → ℕ × UInt32

/-- A request that has been sent: when, to whom, and the request itself. -/
structure PendingRequest where
  tp_ : ℤ
  worker_addr_ : Bytes
  request_ : KeyRequest

/-- The members of the client, with what it has sent and how often it has read the clock. -/
structure KvsClient where
  rid_ : UInt32 := 0
  seed_ : UInt32
  key_address_cache_ : UnorderedMap Bytes (UnorderedSet Bytes) := ∅
  /-- The requests for a key whose address is not known. -/
  pending_request_map_ : UnorderedMap Bytes (ℤ × List KeyRequest) := ∅
  pending_get_response_map_ : UnorderedMap Bytes PendingRequest := ∅
  /-- By key and by request id. -/
  pending_put_response_map_ : UnorderedMap Bytes (UnorderedMap Bytes PendingRequest) := ∅
  /-- How often the clock has been read. -/
  readings : ℕ := 0
  /-- What has been sent, and where to. -/
  outbox : List (Bytes × Message) := []

namespace KvsClient

variable (cfg : Setting)

/-- `system_clock::now()`. -/
def now (c : KvsClient) : ℤ × KvsClient := (cfg.clock c.readings, { c with readings := c.readings + 1 })

/-- `send_request`: the message goes out to the address. -/
def send (c : KvsClient) (address : Bytes) (message : Message) : KvsClient :=
  { c with outbox := c.outbox ++ [(address, message)] }

/-- The number of the next request. -/
def nextRid (c : KvsClient) : UInt32 := if (c.rid_ + 1) % 10000 = 0 then 0 else c.rid_ + 1

/-- The request id with a number. -/
def requestId (rid : UInt32) : Bytes :=
  cfg.ut_.ip_ ++ ascii ":" ++ numeral 10 cfg.ut_.tid_.toNat ++ ascii "_" ++ numeral 10 rid.toNat

/-- `get_request_id`: a fresh id, made of the address, the thread and the counter. -/
def getRequestId (c : KvsClient) : Bytes × KvsClient :=
  (requestId cfg c.nextRid, { c with rid_ := c.nextRid + 1 })

/-- `get_routing_thread`: a routing thread at random. -/
def getRoutingThread (c : KvsClient) : Bytes × KvsClient :=
  let (r, seed) := cfg.rand_r c.seed_
  let threads := cfg.routing_threads_.map ThreadAddress.routingConnectAddress
  (threads.getD (r % threads.length) [], { c with seed_ := seed })

/-- `query_routing_async`: a routing thread is asked for the addresses of a key. -/
def queryRoutingAsync (c : KvsClient) (key : Bytes) : KvsClient :=
  let (request_id, c) := c.getRequestId cfg
  let (rt_thread, c) := c.getRoutingThread cfg
  c.send rt_thread (.query ⟨cfg.ut_.keyAddressConnectAddress, [key], request_id⟩)

/-- The addresses that the cache has for a key. -/
def cached (c : KvsClient) (key : Bytes) : UnorderedSet Bytes := (c.key_address_cache_.lookup key).getD ∅

/-- `get_all_worker_threads`: the cached addresses of a key. A key without any is asked for, unless a request
for it is waiting already. -/
def getAllWorkerThreads (c : KvsClient) (key : Bytes) : UnorderedSet Bytes × KvsClient :=
  if (c.cached key).elems.isEmpty then
    (∅, if (c.pending_request_map_.lookup key).isNone then c.queryRoutingAsync cfg key else c)
  else (c.cached key, c)

/-- The empty address if there is none. -/
def getWorkerThread (c : KvsClient) (key : Bytes) : Bytes × KvsClient :=
  let (local_cache, c) := c.getAllWorkerThreads cfg key
  if local_cache.elems.isEmpty then ([], c)
  else
    let (r, seed) := cfg.rand_r c.seed_
    (local_cache.elems.getD (r % local_cache.elems.length) [], { c with seed_ := seed })

/-- The request waits for an address. -/
def enqueue (c : KvsClient) (request : KeyRequest) : KvsClient :=
  let key := request.tuple.key
  match c.pending_request_map_.lookup key with
  | none =>
    let (tp, c) := c.now cfg
    { c with pending_request_map_ := c.pending_request_map_.insert key (tp, [request]) }
  | some (tp, requests) =>
    { c with pending_request_map_ := c.pending_request_map_.insert key (tp, requests ++ [request]) }

/-- The puts for a key that wait for a response. -/
def pendingPuts (c : KvsClient) (key : Bytes) : UnorderedMap Bytes PendingRequest :=
  (c.pending_put_response_map_.lookup key).getD ∅

/-- The request has been sent to a worker and waits for the response. -/
def await (c : KvsClient) (request : KeyRequest) (worker : Bytes) : KvsClient :=
  let key := request.tuple.key
  if request.type = .get then
    match c.pending_get_response_map_.lookup key with
    | none =>
      let (tp, c) := c.now cfg
      { c with pending_get_response_map_ := c.pending_get_response_map_.insert key ⟨tp, worker, request⟩ }
    | some p =>
      { c with
        pending_get_response_map_ :=
          c.pending_get_response_map_.insert key { p with worker_addr_ := worker } }
  else
    match (c.pendingPuts key).lookup request.request_id with
    | none =>
      let (tp, c) := c.now cfg
      { c with
        pending_put_response_map_ := c.pending_put_response_map_.insert key
          ((c.pendingPuts key).insert request.request_id ⟨tp, worker, request⟩) }
    | some p =>
      { c with
        pending_put_response_map_ := c.pending_put_response_map_.insert key
          ((c.pendingPuts key).insert request.request_id { p with worker_addr_ := worker }) }

/-- `try_request`: the request is sent to a worker thread, or it waits for an address. -/
def tryRequest (c : KvsClient) (request : KeyRequest) : KvsClient :=
  let key := request.tuple.key
  let (worker, c) := c.getWorkerThread cfg key
  if worker.isEmpty then c.enqueue cfg request
  else
    let request := request.setAddressCacheSize (UInt32.ofNat (c.cached key).elems.length)
    (c.send worker (.data request)).await cfg request worker

/-! ## The calls of the user -/

/-- `prepare_data_request`: a request with a fresh id that asks for an answer to this client. -/
def prepareDataRequest (c : KvsClient) (type : RequestType) (tuple : KeyTuple) : KeyRequest × KvsClient :=
  let (request_id, c) := c.getRequestId cfg
  (⟨type, tuple, cfg.ut_.responseConnectAddress, request_id⟩, c)

/-- The request id and the client afterwards. -/
def putAsync (c : KvsClient) (key payload : Bytes) (lattice_type : LatticeType) : Bytes × KvsClient :=
  let (request, c) := c.prepareDataRequest cfg .put { key, lattice_type, payload }
  (request.request_id, c.tryRequest cfg request)

/-- `get_async`: nothing is sent while a get of the key waits for its response. -/
def getAsync (c : KvsClient) (key : Bytes) : KvsClient :=
  if (c.pending_get_response_map_.lookup key).isNone then
    let (request, c) := c.prepareDataRequest cfg .get { key }
    c.tryRequest cfg request
  else c

/-! ## Messages that arrive -/

/-- `invalidate_cache_for_key`. -/
def invalidateCacheForKey (c : KvsClient) (key : Bytes) : KvsClient :=
  { c with key_address_cache_ := c.key_address_cache_.erase key }

/-- Whether the request has to be sent again. -/
def checkTuple (c : KvsClient) (tuple : KeyTuple) : Bool × KvsClient :=
  if tuple.error = .wrongThread then (true, c.invalidateCacheForKey tuple.key)
  else if tuple.invalidate then (false, c.invalidateCacheForKey tuple.key)
  else (false, c)

/-- The loop over the requests for a key. A request that is queued again goes into the vector that the
loop runs over. -/
def tryAll (key : Bytes) : KvsClient → List KeyRequest → Option KvsClient
  | c, [] => some c
  | c, request :: requests =>
    let c' := c.tryRequest cfg request
    if ((c'.pending_request_map_.lookup key).map fun e => e.2.length) =
        (c.pending_request_map_.lookup key).map fun e => e.2.length then
      tryAll key c' requests
    else none

/-- `key_address_cache_[key].insert(ip)`. -/
def cacheAddress (c : KvsClient) (key ip : Bytes) : KvsClient :=
  { c with key_address_cache_ := c.key_address_cache_.insert key ((c.cached key).insert ip) }

/-- A message from the routing tier. -/
def receiveAddress (c : KvsClient) (response : KeyAddressResponse) : Option KvsClient :=
  match response.addresses with
  | [] => none
  | address :: _ =>
    match c.pending_request_map_.lookup address.key with
    | none => some c
    | some (_, requests) =>
      if response.error = .noServers then
        let (tp, c) := c.now cfg
        some (queryRoutingAsync cfg
          { c with pending_request_map_ := c.pending_request_map_.insert address.key (tp, requests) }
          address.key)
      else
        let c := address.ips.foldl (cacheAddress · address.key ·) c
        (c.tryAll cfg address.key requests).map fun c =>
          { c with pending_request_map_ := c.pending_request_map_.erase address.key }

/-- `pending_put_response_map_[key].erase(id)`. -/
def erasePut (c : KvsClient) (key id : Bytes) : KvsClient :=
  { c with
    pending_put_response_map_ := c.pending_put_response_map_.insert key ((c.pendingPuts key).erase id) }

/-- A message from a worker: the responses for the user, and the client afterwards. -/
def receiveResponse (c : KvsClient) (response : KeyResponse) : Option (List KeyResponse × KvsClient) :=
  match response.tuples with
  | [] => none
  | tuple :: _ =>
    if response.type = .get then
      match c.pending_get_response_map_.lookup tuple.key with
      | none => some ([], c)
      | some p =>
        let (again, c) := c.checkTuple tuple
        if again then
          let (tp, c) := c.now cfg
          some ([], tryRequest cfg
            { c with
              pending_get_response_map_ :=
                c.pending_get_response_map_.insert tuple.key { p with tp_ := tp } } p.request_)
        else
          some ([response],
            { c with pending_get_response_map_ := c.pending_get_response_map_.erase tuple.key })
    else
      match (c.pendingPuts tuple.key).lookup response.response_id with
      | none => some ([], c)
      | some p =>
        let (again, c) := c.checkTuple tuple
        if again then
          let (tp, c) := c.now cfg
          some ([], tryRequest cfg
            { c with
              pending_put_response_map_ := c.pending_put_response_map_.insert tuple.key
                ((c.pendingPuts tuple.key).insert response.response_id { p with tp_ := tp }) } p.request_)
        else
          let c := c.erasePut tuple.key response.response_id
          some ([response],
            if (c.pendingPuts tuple.key).entries.isEmpty then
              { c with pending_put_response_map_ := c.pending_put_response_map_.erase tuple.key }
            else c)

/-! ## Requests that have waited too long -/

/-- `generate_bad_response`: the response to a request that has timed out. -/
def generateBadResponse (req : KeyRequest) : KeyResponse :=
  ⟨req.type,
    [if req.type = .put then
      { key := req.tuple.key, lattice_type := req.tuple.lattice_type, payload := req.tuple.payload }
    else { key := req.tuple.key }],
    req.request_id, .timeout⟩

/-- The second piece of an address tells the node. Addresses without one are read past their end. -/
def invalidateCacheForWorker (c : KvsClient) (worker : Bytes) : Option KvsClient :=
  match (split worker 58)[1]? with
  | none => none
  | some signature =>
    if c.key_address_cache_.entries.all fun e => e.2.elems.all fun address =>
        2 ≤ (split address 58).length then
      let remove_set := (c.key_address_cache_.entries.filter fun e => e.2.elems.any fun address =>
        (split address 58)[1]? = some signature).map Sigma.fst
      some { c with key_address_cache_ := remove_set.foldl (fun m key => m.erase key) c.key_address_cache_ }
    else none

/-- A loop over pending requests: those that are too old, with what is done for each of them. The clock is
read anew for each one. -/
def collect {α : Type} (tp : α → ℤ) (drop : KvsClient → α → Option KvsClient) :
    KvsClient → List α → Option (List α × KvsClient)
  | c, [] => some ([], c)
  | c, x :: xs => do
    let (now, c) := c.now cfg
    if millisecondsBetween (tp x) now > cfg.timeout_.toNat then
      let c ← drop c x
      let (late, c) ← collect tp drop c xs
      return (x :: late, c)
    else collect tp drop c xs

/-- The requests without an address. -/
def collectRequests (c : KvsClient) : Option (List KeyResponse × KvsClient) := do
  let (late, c) ← c.collect cfg (fun e => e.2.1) (fun c _ => some c) c.pending_request_map_.entries
  return (late.flatMap fun e => e.2.2.map generateBadResponse,
    { c with
      pending_request_map_ := late.foldl (fun m e => m.erase e.1) c.pending_request_map_ })

/-- The gets that have waited too long, which are answered and forgotten. -/
def collectGets (c : KvsClient) : Option (List KeyResponse × KvsClient) := do
  let (late, c) ← c.collect cfg (fun e => e.2.tp_) (fun c e => c.invalidateCacheForWorker e.2.worker_addr_)
    c.pending_get_response_map_.entries
  return (late.map fun e => generateBadResponse e.2.request_,
    { c with
      pending_get_response_map_ := late.foldl (fun m e => m.erase e.1) c.pending_get_response_map_ })

/-- The puts that wait for a response, one after another, with their keys. -/
def allPuts (c : KvsClient) : List (Bytes × (_ : Bytes) × PendingRequest) :=
  c.pending_put_response_map_.entries.flatMap fun e => e.2.entries.map fun p => (e.1, p)

/-- The puts that have waited too long, which are answered and forgotten. -/
def collectPuts (c : KvsClient) : Option (List KeyResponse × KvsClient) := do
  let (late, c) ← c.collect cfg (fun p => p.2.2.tp_)
    (fun c p => c.invalidateCacheForWorker p.2.2.worker_addr_) c.allPuts
  return (late.map fun p => generateBadResponse p.2.2.request_,
    late.foldl (fun c p => c.erasePut p.1 p.2.1) c)

/-- `receive_async`: an address response and a data response, if there are any, and then all requests that
have waited too long. -/
def receiveAsync (c : KvsClient) (address : Option KeyAddressResponse) (response : Option KeyResponse) :
    Option (List KeyResponse × KvsClient) := do
  let c ← address.elim (some c) (c.receiveAddress cfg)
  let (result, c) ← response.elim (some ([], c)) (c.receiveResponse cfg)
  let (requests, c) ← c.collectRequests cfg
  let (gets, c) ← c.collectGets cfg
  let (puts, c) ← c.collectPuts cfg
  return (result ++ requests ++ gets ++ puts, c)

end KvsClient

/-! ## Runs -/

/-- What a request is known by: gets by their keys, puts by their ids too. -/
inductive Ticket where
  | get (key : Bytes)
  | put (key id : Bytes)
  deriving DecidableEq

/-- The request ids of the puts among requests. -/
def putIds (ts : List Ticket) : List Bytes :=
  ts.filterMap fun
    | .get _ => none
    | .put _ id => some id

/-- What a request is for. -/
def KeyRequest.ticket (r : KeyRequest) : Ticket :=
  if r.type = .get then .get r.tuple.key else .put r.tuple.key r.request_id

/-- What a response is the answer to; a response without tuples answers nothing. -/
def KeyResponse.ticket (r : KeyResponse) : Option Ticket :=
  r.tuples.head?.map fun tuple => if r.type = .get then .get tuple.key else .put tuple.key r.response_id

/-- The requests that are answered by responses. -/
def tickets (rs : List KeyResponse) : List Ticket := rs.filterMap KeyResponse.ticket

/-- A call of the user, with the messages that `receive_async` finds. -/
inductive Event where
  | put (key payload : Bytes) (lattice_type : LatticeType)
  | get (key : Bytes)
  | receive (address : Option KeyAddressResponse) (response : Option KeyResponse)

/-- The requests that were made and the responses that were handed to the user. -/
structure Outcome where
  issued : List Ticket
  responses : List KeyResponse

/-- One outcome after the other. -/
def Outcome.append (o o' : Outcome) : Outcome := ⟨o.issued ++ o'.issued, o.responses ++ o'.responses⟩

namespace KvsClient

variable (cfg : Setting)

/-- A call of the client: what it issues and what it returns. -/
def step (c : KvsClient) : Event → Option (Outcome × KvsClient)
  | .put key payload lattice_type =>
    let (id, c) := c.putAsync cfg key payload lattice_type
    some (⟨[.put key id], []⟩, c)
  | .get key =>
    some (⟨if (c.pending_get_response_map_.lookup key).isNone then [.get key] else [], []⟩,
      c.getAsync cfg key)
  | .receive address response =>
    (c.receiveAsync cfg address response).map fun r => (⟨[], r.1⟩, r.2)

/-- A sequence of calls. -/
def run : KvsClient → List Event → Option (Outcome × KvsClient)
  | c, [] => some (⟨[], []⟩, c)
  | c, e :: es => do
    let (o, c) ← c.step cfg e
    let (os, c) ← run c es
    return (o.append os, c)

/-- The requests that wait for an address. -/
def queued (c : KvsClient) : Multiset Ticket :=
  c.pending_request_map_.total fun _ e => (e.2.map KeyRequest.ticket : List Ticket)

/-- The requests that wait for a response. -/
def sent (c : KvsClient) : Multiset Ticket :=
  (c.pending_get_response_map_.total fun key _ => {.get key}) +
    c.pending_put_response_map_.total fun key puts => puts.total fun id _ => {.put key id}

/-- The ledger of the client, after requests have been issued and answered. -/
def book (c : KvsClient) (issued answered : Multiset Ticket) : Ledger.Book Ticket :=
  ⟨issued, c.queued, c.sent, answered⟩

end KvsClient

/-- An address that a request can be sent to, and that names a node. -/
def GoodAddress (address : Bytes) : Prop := address ≠ [] ∧ 2 ≤ (split address 58).length

/-- The messages have the parts that the client reads without looking whether they are there, and an
answer of the routing tier has good addresses unless there are no servers. -/
def Event.WellFormed : Event → Prop
  | put .. => True
  | get _ => True
  | receive address response =>
    (∀ r ∈ address, ∃ first others, r.addresses = first :: others ∧
      (r.error = .noServers ∨ first.ips ≠ [] ∧ ∀ ip ∈ first.ips, GoodAddress ip)) ∧
    ∀ r ∈ response, r.tuples ≠ []

/-- A worker says that it is not responsible for the key. -/
def Event.WrongThread : Event → Prop
  | put .. => False
  | get _ => False
  | receive _ response => ∃ r ∈ response, ∃ tuple ∈ r.tuples.head?, tuple.error = .wrongThread

end Anna
