import Fuyao.Anna.KvsClient
import Fuyao.Cpp.Proofs.ContainersProofs
import Fuyao.Ledger.Proofs.LedgerProofs

/-!
# Proofs: the calls of a client

What each function does to the maps of the client, and which entries this is in the ledger of the
requests (`KvsClient.putAsync_spec`, `KvsClient.getAsync_spec`, `KvsClient.receiveAsync_spec`).
-/

namespace Anna

open Cpp Ledger

namespace KvsClient

variable (cfg : Setting) {c : KvsClient}

/-! ## The maps of the client -/

/-- The maps, without the numbers and the outbox. -/
structure Maps where
  cache : UnorderedMap Bytes (UnorderedSet Bytes)
  requests : UnorderedMap Bytes (ℤ × List KeyRequest)
  gets : UnorderedMap Bytes PendingRequest
  puts : UnorderedMap Bytes (UnorderedMap Bytes PendingRequest)

/-- The maps of a client. -/
def maps (c : KvsClient) : Maps :=
  ⟨c.key_address_cache_, c.pending_request_map_, c.pending_get_response_map_, c.pending_put_response_map_⟩

namespace Maps

/-- The addresses that are cached for a key. -/
def cached (m : Maps) (key : Bytes) : UnorderedSet Bytes := (m.cache.lookup key).getD ∅

/-- The puts of a key that wait for a response. -/
def pendingPuts (m : Maps) (key : Bytes) : UnorderedMap Bytes PendingRequest :=
  (m.puts.lookup key).getD ∅

/-- Requests are filed under their keys and ids, and addresses are good. -/
structure Wf (m : Maps) : Prop where
  requests : ∀ key e, m.requests.lookup key = some e → ∀ r ∈ e.2, r.tuple.key = key
  gets : ∀ key p, m.gets.lookup key = some p → p.request_.ticket = .get key ∧ GoodAddress p.worker_addr_
  puts : ∀ key id p, (m.pendingPuts key).lookup id = some p →
    p.request_.ticket = .put key id ∧ GoodAddress p.worker_addr_
  cache : ∀ key, ∀ a ∈ m.cached key, GoodAddress a

/-- There is nothing in the maps `m'` that is not in `m`. -/
structure Within (m' m : Maps) : Prop where
  requests : ∀ key e, m'.requests.lookup key = some e → m.requests.lookup key = some e
  gets : ∀ key p, m'.gets.lookup key = some p → m.gets.lookup key = some p
  puts : ∀ key id p, (m'.pendingPuts key).lookup id = some p → (m.pendingPuts key).lookup id = some p
  cache : ∀ key, ∀ a ∈ m'.cached key, a ∈ m.cached key

theorem Within.refl (m : Maps) : m.Within m :=
  ⟨fun _ _ h => h, fun _ _ h => h, fun _ _ _ h => h, fun _ _ h => h⟩

theorem Within.trans {m m' m'' : Maps} (h : m''.Within m') (h' : m'.Within m) : m''.Within m where
  requests key e he := h'.requests key e (h.requests key e he)
  gets key p hp := h'.gets key p (h.gets key p hp)
  puts key id p hp := h'.puts key id p (h.puts key id p hp)
  cache key a ha := h'.cache key a (h.cache key a ha)

theorem Wf.within {m m' : Maps} (hm : m.Wf) (h : m'.Within m) : m'.Wf where
  requests key e he := hm.requests key e (h.requests key e he)
  gets key p hp := hm.gets key p (h.gets key p hp)
  puts key id p hp := hm.puts key id p (h.puts key id p hp)
  cache key a ha := hm.cache key a (h.cache key a ha)

/-- The tickets of the requests that wait for an address. -/
def queued (m : Maps) : Multiset Ticket :=
  m.requests.total fun _ e => (e.2.map KeyRequest.ticket : List Ticket)

/-- The tickets of the requests that wait for a response. -/
def sent (m : Maps) : Multiset Ticket :=
  (m.gets.total fun key _ => {.get key}) + m.puts.total fun key puts => puts.total fun id _ => {.put key id}

/-- The requests that are queued under a key. -/
def waiting (m : Maps) (key : Bytes) : List KeyRequest := (m.requests.lookup key).elim [] Prod.snd

/-! ### Changes of the maps -/

/-- A request begins to wait for an address. -/
def enqueue (m : Maps) (tp : ℤ) (r : KeyRequest) : Maps :=
  { m with requests := m.requests.insert r.tuple.key (tp, m.waiting r.tuple.key ++ [r]) }

/-- A get begins to wait for its response. -/
def awaitGet (m : Maps) (key : Bytes) (p : PendingRequest) : Maps :=
  { m with gets := m.gets.insert key p }

/-- A put begins to wait for its response. -/
def awaitPut (m : Maps) (key id : Bytes) (p : PendingRequest) : Maps :=
  { m with puts := m.puts.insert key ((m.pendingPuts key).insert id p) }

theorem queued_enqueue (m : Maps) (tp : ℤ) (r : KeyRequest) :
    (m.enqueue tp r).queued = r.ticket ::ₘ m.queued := by
  have hperm : (((m.waiting r.tuple.key ++ [r]).map KeyRequest.ticket : List Ticket) : Multiset Ticket) =
      r.ticket ::ₘ ((m.waiting r.tuple.key).map KeyRequest.ticket : List Ticket) := by
    rw [List.map_append, Multiset.cons_coe]
    exact Multiset.coe_eq_coe.mpr (List.perm_append_singleton _ _)
  unfold queued enqueue
  rw [UnorderedMap.total_insert, hperm, Multiset.cons_add]
  cases h : m.requests.lookup r.tuple.key with
  | none =>
    rw [UnorderedMap.erase_of_lookup_eq_none h, waiting, h]
    exact congrArg _ (zero_add _)
  | some e =>
    rw [UnorderedMap.total_of_lookup _ h, waiting, h]
    rfl

theorem Wf.enqueue {m : Maps} (hm : m.Wf) (tp : ℤ) (r : KeyRequest) : (m.enqueue tp r).Wf := by
  refine ⟨fun key e he r' hr' => ?_, hm.gets, hm.puts, hm.cache⟩
  by_cases hkey : key = r.tuple.key
  · subst hkey
    have he' := (AList.lookup_insert (s := m.requests)).symm.trans he
    cases he'
    rcases List.mem_append.mp hr' with hr' | hr'
    · cases h : m.requests.lookup r.tuple.key with
      | none =>
        rw [waiting, h] at hr'
        exact absurd hr' List.not_mem_nil
      | some e =>
        rw [waiting, h] at hr'
        exact hm.requests _ e h r' hr'
    · rw [List.mem_singleton.mp hr']
  · exact hm.requests key e ((AList.lookup_insert_ne (s := m.requests) hkey).symm.trans he) r' hr'

theorem sent_awaitGet {m : Maps} {key : Bytes} (h : m.gets.lookup key = none) (p : PendingRequest) :
    (m.awaitGet key p).sent = .get key ::ₘ m.sent := by
  unfold sent awaitGet
  rw [UnorderedMap.total_insert, UnorderedMap.erase_of_lookup_eq_none h, Multiset.singleton_add,
    Multiset.cons_add]

theorem sent_awaitGet_of_some {m : Maps} {key : Bytes} {p' : PendingRequest}
    (h : m.gets.lookup key = some p') (p : PendingRequest) : (m.awaitGet key p).sent = m.sent := by
  unfold sent awaitGet
  rw [UnorderedMap.total_insert, UnorderedMap.total_of_lookup _ h]

theorem get_mem_sent {m : Maps} {key : Bytes} {p : PendingRequest} (h : m.gets.lookup key = some p) :
    .get key ∈ m.sent :=
  Multiset.mem_add.mpr (.inl ((UnorderedMap.mem_total _).mpr ⟨key, p, h, Multiset.mem_singleton_self _⟩))

theorem Wf.awaitGet {m : Maps} (hm : m.Wf) {key : Bytes} {p : PendingRequest}
    (hp : p.request_.ticket = .get key ∧ GoodAddress p.worker_addr_) : (m.awaitGet key p).Wf := by
  refine ⟨hm.requests, fun key' p' hp' => ?_, hm.puts, hm.cache⟩
  by_cases hkey : key' = key
  · subst hkey
    have heq := (AList.lookup_insert (s := m.gets)).symm.trans hp'
    cases heq
    exact hp
  · exact hm.gets key' p' ((AList.lookup_insert_ne (s := m.gets) hkey).symm.trans hp')

theorem pendingPuts_insert (m : Maps) (key : Bytes) (t : UnorderedMap Bytes PendingRequest) (key' : Bytes) :
    pendingPuts { m with puts := m.puts.insert key t } key' = if key' = key then t else m.pendingPuts key' := by
  unfold pendingPuts
  by_cases hkey : key' = key
  · subst hkey
    rw [AList.lookup_insert, if_pos rfl]
    rfl
  · rw [AList.lookup_insert_ne hkey, if_neg hkey]

/-- The puts of a key and those of the other keys. -/
theorem total_puts (m : Maps) (key : Bytes) :
    (m.puts.total fun key puts => puts.total fun id _ => ({.put key id} : Multiset Ticket)) =
      ((m.pendingPuts key).total fun id _ => {.put key id}) +
        UnorderedMap.total (fun key puts => puts.total fun id _ => {.put key id}) (m.puts.erase key) :=
  UnorderedMap.total_eq_getD _ rfl

theorem sent_awaitPut {m : Maps} {key id : Bytes} (h : (m.pendingPuts key).lookup id = none)
    (p : PendingRequest) : (m.awaitPut key id p).sent = .put key id ::ₘ m.sent := by
  unfold sent awaitPut
  rw [total_puts m key, UnorderedMap.total_insert, UnorderedMap.total_insert,
    UnorderedMap.erase_of_lookup_eq_none h, Multiset.singleton_add, Multiset.cons_add, Multiset.add_cons]

theorem sent_awaitPut_of_some {m : Maps} {key id : Bytes} {p' : PendingRequest}
    (h : (m.pendingPuts key).lookup id = some p') (p : PendingRequest) :
    (m.awaitPut key id p).sent = m.sent := by
  unfold sent awaitPut
  rw [total_puts m key, UnorderedMap.total_insert, UnorderedMap.total_insert,
    UnorderedMap.total_of_lookup _ h]

theorem put_mem_sent {m : Maps} {key id : Bytes} {p : PendingRequest}
    (h : (m.pendingPuts key).lookup id = some p) : .put key id ∈ m.sent := by
  refine Multiset.mem_add.mpr (.inr ?_)
  rw [total_puts m key]
  refine Multiset.mem_add.mpr (.inl ?_)
  exact (UnorderedMap.mem_total _).mpr ⟨id, p, h, Multiset.mem_singleton_self _⟩

theorem Wf.awaitPut {m : Maps} (hm : m.Wf) {key id : Bytes} {p : PendingRequest}
    (hp : p.request_.ticket = .put key id ∧ GoodAddress p.worker_addr_) : (m.awaitPut key id p).Wf := by
  refine ⟨hm.requests, hm.gets, fun key' id' p' hp' => ?_, hm.cache⟩
  rw [Maps.awaitPut, pendingPuts_insert] at hp'
  by_cases hkey : key' = key
  · subst hkey
    rw [if_pos rfl] at hp'
    by_cases hid : id' = id
    · subst hid
      rw [AList.lookup_insert] at hp'
      cases hp'
      exact hp
    · rw [AList.lookup_insert_ne hid] at hp'
      exact hm.puts key' id' p' hp'
  · rw [if_neg hkey] at hp'
    exact hm.puts key' id' p' hp'

theorem Within.eraseRequests (m : Maps) (key : Bytes) :
    Within { m with requests := m.requests.erase key } m := by
  refine ⟨fun key' e he => ?_, fun _ _ h => h, fun _ _ _ h => h, fun _ _ h => h⟩
  by_cases hkey : key' = key
  · subst hkey
    exact absurd ((AList.lookup_erase key' m.requests).symm.trans he) (Option.some_ne_none e).symm
  · exact (AList.lookup_erase_ne (s := m.requests) hkey).symm.trans he

/-- The time of a queue is set anew. -/
theorem setTime_spec {m : Maps} (hm : m.Wf) {key : Bytes} {tp : ℤ} {requests : List KeyRequest}
    (h : m.requests.lookup key = some (tp, requests)) (tp' : ℤ) :
    Wf { m with requests := m.requests.insert key (tp', requests) } ∧
      queued { m with requests := m.requests.insert key (tp', requests) } = m.queued := by
  constructor
  · refine ⟨fun key' e he => ?_, hm.gets, hm.puts, hm.cache⟩
    by_cases hkey : key' = key
    · subst hkey
      cases (AList.lookup_insert (s := m.requests)).symm.trans he
      exact hm.requests key' (tp, requests) h
    · exact hm.requests key' e ((AList.lookup_insert_ne (s := m.requests) hkey).symm.trans he)
  · rw [queued, queued, UnorderedMap.total_insert, UnorderedMap.total_of_lookup _ h]

/-- A get waits no longer. -/
def eraseGet (m : Maps) (key : Bytes) : Maps := { m with gets := m.gets.erase key }

/-- A put waits no longer. -/
def erasePut (m : Maps) (key id : Bytes) : Maps :=
  { m with puts := m.puts.insert key ((m.pendingPuts key).erase id) }

theorem sent_eraseGet {m : Maps} {key : Bytes} {p : PendingRequest} (h : m.gets.lookup key = some p) :
    m.sent = .get key ::ₘ (m.eraseGet key).sent := by
  unfold sent eraseGet
  rw [UnorderedMap.total_of_lookup _ h, Multiset.singleton_add, Multiset.cons_add]

theorem Within.eraseGet (m : Maps) (key : Bytes) : (m.eraseGet key).Within m := by
  refine ⟨fun _ _ h => h, fun key' p hp => ?_, fun _ _ _ h => h, fun _ _ h => h⟩
  by_cases hkey : key' = key
  · subst hkey
    exact absurd ((AList.lookup_erase key' m.gets).symm.trans hp) (Option.some_ne_none p).symm
  · exact (AList.lookup_erase_ne (s := m.gets) hkey).symm.trans hp

theorem sent_erasePut {m : Maps} {key id : Bytes} {p : PendingRequest}
    (h : (m.pendingPuts key).lookup id = some p) : m.sent = .put key id ::ₘ (m.erasePut key id).sent := by
  unfold sent erasePut
  rw [total_puts m key, UnorderedMap.total_insert, UnorderedMap.total_of_lookup _ h,
    Multiset.singleton_add, Multiset.cons_add, Multiset.add_cons]

theorem Within.erasePut (m : Maps) (key id : Bytes) : (m.erasePut key id).Within m := by
  refine ⟨fun _ _ h => h, fun _ _ h => h, fun key' id' p hp => ?_, fun _ _ h => h⟩
  rw [Maps.erasePut, pendingPuts_insert] at hp
  by_cases hkey : key' = key
  · subst hkey
    rw [if_pos rfl] at hp
    by_cases hid : id' = id
    · subst hid
      rw [AList.lookup_erase] at hp
      exact absurd hp (Option.some_ne_none p).symm
    · rwa [AList.lookup_erase_ne hid] at hp
  · rwa [if_neg hkey] at hp

/-- A key without puts can be left out. -/
theorem sent_dropPuts {m : Maps} {key : Bytes} (h : (m.pendingPuts key).entries = []) :
    Maps.sent { m with puts := m.puts.erase key } = m.sent := by
  have hempty : m.pendingPuts key = ∅ := AList.ext h
  unfold sent
  rw [total_puts m key, hempty, UnorderedMap.total_empty, zero_add]

theorem Within.dropPuts (m : Maps) (key : Bytes) : Within { m with puts := m.puts.erase key } m := by
  refine ⟨fun _ _ h => h, fun _ _ h => h, fun key' id p hp => ?_, fun _ _ h => h⟩
  unfold pendingPuts at hp ⊢
  by_cases hkey : key' = key
  · subst hkey
    rw [AList.lookup_erase] at hp
    exact absurd hp (Option.some_ne_none p).symm
  · rwa [AList.lookup_erase_ne hkey] at hp

end Maps

/-! ## Sending a request -/

theorem maps_getAllWorkerThreads (key : Bytes) : (c.getAllWorkerThreads cfg key).2.maps = c.maps := by
  unfold getAllWorkerThreads
  split
  · dsimp only
    split <;> rfl
  · rfl

theorem maps_getWorkerThread (key : Bytes) : (c.getWorkerThread cfg key).2.maps = c.maps := by
  have h := maps_getAllWorkerThreads cfg (c := c) key
  unfold getWorkerThread
  dsimp only
  split
  · exact h
  · exact h

theorem getAllWorkerThreads_eq_cached (key : Bytes) :
    (c.getAllWorkerThreads cfg key).1.elems = (c.cached key).elems := by
  unfold getAllWorkerThreads
  split
  case isTrue h => exact (List.isEmpty_iff.mp h).symm
  case isFalse => rfl

theorem getWorkerThread_eq_nil {key : Bytes} (h : (c.cached key).elems = []) :
    (c.getWorkerThread cfg key).1 = [] := by
  have hall := getAllWorkerThreads_eq_cached cfg (c := c) key
  unfold getWorkerThread
  dsimp only
  rw [hall, h]
  rfl

theorem getWorkerThread_mem {key : Bytes} (h : (c.cached key).elems ≠ []) :
    (c.getWorkerThread cfg key).1 ∈ c.cached key := by
  have hall := getAllWorkerThreads_eq_cached cfg (c := c) key
  have hne : ¬ (c.cached key).elems.isEmpty = true := fun h' => h (List.isEmpty_iff.mp h')
  unfold getWorkerThread
  dsimp only
  rw [hall, if_neg hne]
  have hlt := Nat.mod_lt (cfg.rand_r (c.getAllWorkerThreads cfg key).2.seed_).1 (List.length_pos_iff.mpr h)
  change List.getD _ _ [] ∈ (c.cached key).elems
  rw [List.getD_eq_getElem?_getD, List.getElem?_eq_getElem hlt]
  exact List.getElem_mem hlt

/-- A request is queued if there is no address, and sent to one of the addresses otherwise. -/
theorem tryRequest_cases {r : KeyRequest} (hcache : ∀ a ∈ c.cached r.tuple.key, a ≠ []) :
    ((c.cached r.tuple.key).elems = [] ∧
      ∃ c₁ : KvsClient, c₁.maps = c.maps ∧ c.tryRequest cfg r = c₁.enqueue cfg r) ∨
    ((c.cached r.tuple.key).elems ≠ [] ∧
      ∃ (c₁ : KvsClient) (r₁ : KeyRequest), ∃ worker ∈ c.cached r.tuple.key,
        c₁.maps = c.maps ∧ r₁.tuple.key = r.tuple.key ∧ r₁.ticket = r.ticket ∧
        c.tryRequest cfg r = c₁.await cfg r₁ worker) := by
  have hmaps := maps_getWorkerThread cfg (c := c) r.tuple.key
  by_cases h : (c.cached r.tuple.key).elems = []
  · refine .inl ⟨h, _, hmaps, ?_⟩
    unfold tryRequest
    dsimp only
    rw [getWorkerThread_eq_nil cfg h]
    rfl
  · have hworker := getWorkerThread_mem cfg h
    have htry : ∃ size, c.tryRequest cfg r =
        await cfg ((c.getWorkerThread cfg r.tuple.key).2.send (c.getWorkerThread cfg r.tuple.key).1
          (.data (r.setAddressCacheSize size))) (r.setAddressCacheSize size)
          (c.getWorkerThread cfg r.tuple.key).1 := by
      unfold tryRequest
      dsimp only
      rw [if_neg fun hnil => hcache _ hworker (List.isEmpty_iff.mp hnil)]
      exact ⟨_, rfl⟩
    obtain ⟨size, htry⟩ := htry
    exact .inr ⟨h, (c.getWorkerThread cfg r.tuple.key).2.send (c.getWorkerThread cfg r.tuple.key).1
      (.data (r.setAddressCacheSize size)), r.setAddressCacheSize size, _, hworker, hmaps, rfl, rfl, htry⟩

theorem maps_enqueue (r : KeyRequest) : ∃ tp, (c.enqueue cfg r).maps = c.maps.enqueue tp r := by
  have hlookup : c.maps.requests.lookup r.tuple.key = c.pending_request_map_.lookup r.tuple.key := rfl
  unfold enqueue Maps.enqueue Maps.waiting
  rw [hlookup]
  dsimp only
  split
  case h_1 h => exact ⟨(c.now cfg).1, by rw [h]; rfl⟩
  case h_2 tp requests h => exact ⟨tp, by rw [h]; rfl⟩

/-- After a request has been sent, it waits for its response; it does not matter if it did already. -/
theorem await_spec (hwf : c.maps.Wf) (r : KeyRequest) {worker : Bytes} (hworker : GoodAddress worker) :
    (c.await cfg r worker).maps.Wf ∧ (c.await cfg r worker).maps.cache = c.maps.cache ∧
      (c.await cfg r worker).maps.requests = c.maps.requests ∧
      ∀ again i q a, Moves again ⟨i, r.ticket ::ₘ q, c.maps.sent, a⟩
        ⟨i, q, (c.await cfg r worker).maps.sent, a⟩ := by
  unfold await
  dsimp only
  split
  case isTrue htype =>
    have hticket : r.ticket = .get r.tuple.key := if_pos htype
    split
    case h_1 h =>
      change (c.maps.awaitGet r.tuple.key ⟨(c.now cfg).1, worker, r⟩).Wf ∧ _ ∧ _ ∧ ∀ again i q a,
        Moves again _ ⟨i, q, (c.maps.awaitGet r.tuple.key ⟨(c.now cfg).1, worker, r⟩).sent, a⟩
      refine ⟨hwf.awaitGet ⟨hticket, hworker⟩, rfl, rfl, fun again i q a => ?_⟩
      rw [Maps.sent_awaitGet h, hticket]
      exact .single (.send i q c.maps.sent a _)
    case h_2 p h =>
      change (c.maps.awaitGet r.tuple.key { p with worker_addr_ := worker }).Wf ∧ _ ∧ _ ∧ ∀ again i q a,
        Moves again _ ⟨i, q, (c.maps.awaitGet r.tuple.key { p with worker_addr_ := worker }).sent, a⟩
      refine ⟨hwf.awaitGet ⟨(hwf.gets _ p h).1, hworker⟩, rfl, rfl, fun again i q a => ?_⟩
      rw [Maps.sent_awaitGet_of_some h, hticket]
      exact .single (.resend i q c.maps.sent a (Maps.get_mem_sent h))
  case isFalse htype =>
    have hticket : r.ticket = .put r.tuple.key r.request_id := if_neg htype
    split
    case h_1 h =>
      change (c.maps.awaitPut r.tuple.key r.request_id ⟨(c.now cfg).1, worker, r⟩).Wf ∧ _ ∧ _ ∧
        ∀ again i q a, Moves again _
          ⟨i, q, (c.maps.awaitPut r.tuple.key r.request_id ⟨(c.now cfg).1, worker, r⟩).sent, a⟩
      refine ⟨hwf.awaitPut ⟨hticket, hworker⟩, rfl, rfl, fun again i q a => ?_⟩
      rw [Maps.sent_awaitPut h, hticket]
      exact .single (.send i q c.maps.sent a _)
    case h_2 p h =>
      change (c.maps.awaitPut r.tuple.key r.request_id { p with worker_addr_ := worker }).Wf ∧ _ ∧ _ ∧
        ∀ again i q a, Moves again _
          ⟨i, q, (c.maps.awaitPut r.tuple.key r.request_id { p with worker_addr_ := worker }).sent, a⟩
      refine ⟨hwf.awaitPut ⟨(hwf.puts _ _ p h).1, hworker⟩, rfl, rfl, fun again i q a => ?_⟩
      rw [Maps.sent_awaitPut_of_some h, hticket]
      exact .single (.resend i q c.maps.sent a (Maps.put_mem_sent h))

/-- A request for a key with addresses is sent. -/
theorem tryRequest_sends (hwf : c.maps.Wf) {r : KeyRequest} (h : (c.cached r.tuple.key).elems ≠ []) :
    (c.tryRequest cfg r).maps.Wf ∧ (c.tryRequest cfg r).maps.cache = c.maps.cache ∧
      (c.tryRequest cfg r).maps.requests = c.maps.requests ∧
      ∀ again i q a, Moves again ⟨i, r.ticket ::ₘ q, c.maps.sent, a⟩
        ⟨i, q, (c.tryRequest cfg r).maps.sent, a⟩ := by
  rcases tryRequest_cases cfg fun a ha => (hwf.cache _ a ha).1 with
    ⟨hnil, -⟩ | ⟨-, c₁, r₁, worker, hworker, hmaps, -, hticket, htry⟩
  · exact absurd hnil h
  · rw [htry, ← hmaps, ← hticket]
    exact await_spec cfg (hmaps ▸ hwf) r₁ (hwf.cache _ worker hworker)

/-- A request for a key without addresses is queued. -/
theorem tryRequest_queues (hwf : c.maps.Wf) {r : KeyRequest} (h : (c.cached r.tuple.key).elems = []) :
    ∃ tp, (c.tryRequest cfg r).maps = c.maps.enqueue tp r := by
  rcases tryRequest_cases cfg fun a ha => (hwf.cache _ a ha).1 with ⟨-, c₁, hmaps, htry⟩ | ⟨hne, -⟩
  · rw [htry, ← hmaps]
    exact maps_enqueue cfg r
  · exact absurd h hne

/-- A request that is made is queued or sent. -/
theorem tryRequest_spec (hwf : c.maps.Wf) (r : KeyRequest) :
    (c.tryRequest cfg r).maps.Wf ∧ ∀ again i a, Moves again ⟨i, r.ticket ::ₘ c.maps.queued, c.maps.sent, a⟩
      ⟨i, (c.tryRequest cfg r).maps.queued, (c.tryRequest cfg r).maps.sent, a⟩ := by
  by_cases h : (c.cached r.tuple.key).elems = []
  · obtain ⟨tp, htry⟩ := tryRequest_queues cfg hwf h
    rw [htry, Maps.queued_enqueue]
    exact ⟨hwf.enqueue tp r, fun again i a => .refl⟩
  · obtain ⟨hwf', -, hrequests, hmoves⟩ := tryRequest_sends cfg hwf h
    have hqueued : (c.tryRequest cfg r).maps.queued = c.maps.queued := by
      rw [Maps.queued, hrequests, Maps.queued]
    exact ⟨hwf', fun again i a => hqueued ▸ hmoves again i _ a⟩

/-! ## The calls of the user -/

theorem putAsync_spec (hwf : c.maps.Wf) (key payload : Bytes) (lattice_type : LatticeType) :
    (c.putAsync cfg key payload lattice_type).2.maps.Wf ∧
      ∀ again i a, Moves again (c.book i a) ((c.putAsync cfg key payload lattice_type).2.book
        (.put key (c.putAsync cfg key payload lattice_type).1 ::ₘ i) a) := by
  have hspec := tryRequest_spec cfg (c := (c.getRequestId cfg).2) hwf
    ⟨.put, { key, lattice_type, payload }, cfg.ut_.responseConnectAddress, (c.getRequestId cfg).1⟩
  exact ⟨hspec.1, fun again i a => .head (.issue i _ _ a _) (hspec.2 again _ a)⟩

theorem getAsync_spec (hwf : c.maps.Wf) (key : Bytes) :
    (c.getAsync cfg key).maps.Wf ∧
      (.get key ∈ (c.getAsync cfg key).queued ∨ .get key ∈ (c.getAsync cfg key).sent) ∧
      ∀ again i a, Moves again (c.book i a) ((c.getAsync cfg key).book
        ((if (c.pending_get_response_map_.lookup key).isNone then [.get key] else [] : List Ticket) + i) a) := by
  unfold getAsync
  split
  case isTrue h =>
    have hspec := tryRequest_spec cfg (c := (c.getRequestId cfg).2) hwf
      ⟨.get, { key }, cfg.ut_.responseConnectAddress, (c.getRequestId cfg).1⟩
    refine ⟨hspec.1, ?_, fun again i a => .head (.issue i _ _ a _) (hspec.2 again _ a)⟩
    rcases (hspec.2 False 0 0).kept (.inl (Multiset.mem_cons_self _ _)) with hwaits | hanswered
    · exact hwaits
    · exact absurd hanswered (lt_irrefl _)
  case isFalse h =>
    obtain ⟨p, hp⟩ := Option.ne_none_iff_exists'.mp fun hnone => h (Option.isNone_iff_eq_none.mpr hnone)
    refine ⟨hwf, .inr (Maps.get_mem_sent (m := c.maps) hp), fun again i a => ?_⟩
    rw [Multiset.coe_nil, zero_add]

/-! ## Messages that arrive -/

/-- All requests for a key with addresses are sent. -/
theorem tryAll_spec {key : Bytes} {requests : List KeyRequest} (hwf : c.maps.Wf)
    (hcached : (c.maps.cached key).elems ≠ []) (hkeys : ∀ r ∈ requests, r.tuple.key = key) :
    ∃ c', c.tryAll cfg key requests = some c' ∧ c'.maps.Wf ∧ c'.maps.requests = c.maps.requests ∧
      ∀ again i q a, Moves again
        ⟨i, ((requests.map KeyRequest.ticket : List Ticket) : Multiset Ticket) + q, c.maps.sent, a⟩
        ⟨i, q, c'.maps.sent, a⟩ := by
  induction requests generalizing c with
  | nil => exact ⟨c, rfl, hwf, rfl, fun again i q a => by rw [List.map_nil, Multiset.coe_nil, zero_add]⟩
  | cons r requests ih =>
    rw [List.forall_mem_cons] at hkeys
    have hcached' : (c.cached r.tuple.key).elems ≠ [] := hkeys.1.symm ▸ hcached
    obtain ⟨hwf', hcache, hrequests, hmoves⟩ := tryRequest_sends cfg hwf hcached'
    have hcached'' : ((c.tryRequest cfg r).maps.cached key).elems ≠ [] := by
      rw [Maps.cached, hcache]
      exact hcached
    obtain ⟨c', htry, hwf'', hrequests', hmoves'⟩ := ih hwf' hcached'' hkeys.2
    refine ⟨c', ?_, hwf'', hrequests'.trans hrequests, fun again i q a => ?_⟩
    · have hlookup : (c.tryRequest cfg r).pending_request_map_.lookup key =
          c.pending_request_map_.lookup key := congrArg (AList.lookup key) hrequests
      rw [tryAll, hlookup, if_pos rfl, htry]
    · rw [List.map_cons, ← Multiset.cons_coe, Multiset.cons_add]
      exact (hmoves again i _ a).trans (hmoves' again i q a)

theorem cached_foldl_cacheAddress (key : Bytes) (ips : List Bytes) :
    (ips.foldl (cacheAddress · key ·) c).maps.requests = c.maps.requests ∧
      (ips.foldl (cacheAddress · key ·) c).maps.gets = c.maps.gets ∧
      (ips.foldl (cacheAddress · key ·) c).maps.puts = c.maps.puts ∧
      ∀ key' a, a ∈ (ips.foldl (cacheAddress · key ·) c).maps.cached key' ↔
        a ∈ c.maps.cached key' ∨ key' = key ∧ a ∈ ips := by
  induction ips generalizing c with
  | nil => simp
  | cons ip ips ih =>
    obtain ⟨hrequests, hgets, hputs, hcached⟩ := ih (c := c.cacheAddress key ip)
    refine ⟨hrequests, hgets, hputs, fun key' a => (hcached key' a).trans ?_⟩
    have hinsert : a ∈ (c.cacheAddress key ip).maps.cached key' ↔
        a ∈ c.maps.cached key' ∨ key' = key ∧ a = ip := by
      change a ∈ (AList.lookup key' (AList.insert key _ c.key_address_cache_)).getD ∅ ↔ _
      by_cases hkey : key' = key
      · subst hkey
        rw [AList.lookup_insert, Option.getD_some, UnorderedSet.mem_insert]
        exact ⟨fun h => h.elim (fun h => .inr ⟨rfl, h⟩) .inl, fun h => h.elim .inr fun h => .inl h.2⟩
      · rw [AList.lookup_insert_ne hkey]
        exact ⟨.inl, fun h => h.elim id fun h => absurd h.1 hkey⟩
    rw [hinsert, List.mem_cons]
    tauto

theorem receiveAddress_spec (hwf : c.maps.Wf) {response : KeyAddressResponse} {first : KeyAddress}
    {others : List KeyAddress} (hfirst : response.addresses = first :: others)
    (hgood : response.error = .noServers ∨ first.ips ≠ [] ∧ ∀ ip ∈ first.ips, GoodAddress ip) :
    ∃ c', c.receiveAddress cfg response = some c' ∧ c'.maps.Wf ∧
      ∀ again i a, Moves again (c.book i a) (c'.book i a) := by
  unfold receiveAddress
  rw [hfirst]
  dsimp only
  split
  case h_1 h => exact ⟨c, rfl, hwf, fun again i a => .refl⟩
  case h_2 tp requests h =>
    split
    case isTrue =>
      obtain ⟨hwf', hqueued⟩ := Maps.setTime_spec hwf h (c.now cfg).1
      refine ⟨_, rfl, hwf', fun again i a => ?_⟩
      change Moves again ⟨i, c.maps.queued, c.maps.sent, a⟩
        ⟨i, Maps.queued { c.maps with requests := c.maps.requests.insert first.key ((c.now cfg).1, requests) },
          c.maps.sent, a⟩
      rw [hqueued]
    case isFalse herror =>
      obtain ⟨hne, hips⟩ := hgood.resolve_left herror
      obtain ⟨hrequests, hgets, hputs, hcached⟩ := cached_foldl_cacheAddress (c := c) first.key first.ips
      generalize first.ips.foldl (cacheAddress · first.key ·) c = c₁ at hrequests hgets hputs hcached
      have hwf₁ : c₁.maps.Wf := by
        refine ⟨hrequests ▸ hwf.requests, hgets ▸ hwf.gets, ?_, fun key a ha => ?_⟩
        · unfold Maps.pendingPuts
          rw [hputs]
          exact hwf.puts
        · rcases (hcached key a).mp ha with ha | ⟨-, ha⟩
          · exact hwf.cache key a ha
          · exact hips a ha
      have hcached₁ : (c₁.maps.cached first.key).elems ≠ [] := by
        obtain ⟨ip, hip⟩ := List.exists_mem_of_ne_nil _ hne
        exact List.ne_nil_of_mem ((hcached first.key ip).mpr (.inr ⟨rfl, hip⟩))
      obtain ⟨c', htry, hwf', hrequests', hmoves⟩ :=
        tryAll_spec cfg hwf₁ hcached₁ (hwf.requests first.key (tp, requests) h)
      refine ⟨_, by rw [htry, Option.map_some], hwf'.within (Maps.Within.eraseRequests c'.maps first.key),
        fun again i a => ?_⟩
      have hsent : c₁.maps.sent = c.maps.sent := by
        rw [Maps.sent, hgets, hputs, Maps.sent]
      have hqueued : c.maps.queued = ((requests.map KeyRequest.ticket : List Ticket) : Multiset Ticket) +
          Maps.queued { c'.maps with requests := c'.maps.requests.erase first.key } := by
        rw [hrequests', hrequests]
        exact UnorderedMap.total_of_lookup _ h
      change Moves again ⟨i, c.maps.queued, c.maps.sent, a⟩
        ⟨i, Maps.queued { c'.maps with requests := c'.maps.requests.erase first.key }, c'.maps.sent, a⟩
      rw [hqueued, ← hsent]
      exact hmoves again i _ a

theorem checkTuple_fst (tuple : KeyTuple) : (c.checkTuple tuple).1 = true ↔ tuple.error = .wrongThread := by
  unfold checkTuple
  split
  case isTrue h => exact iff_of_true rfl h
  case isFalse h =>
    split
    · exact iff_of_false Bool.false_ne_true h
    · exact iff_of_false Bool.false_ne_true h

/-- Only addresses are forgotten. -/
theorem checkTuple_snd (tuple : KeyTuple) : ∃ cache, (c.checkTuple tuple).2.maps = { c.maps with cache := cache } ∧
    (c.checkTuple tuple).2.maps.Within c.maps := by
  have herase : (c.invalidateCacheForKey tuple.key).maps.Within c.maps := by
    refine ⟨fun _ _ h => h, fun _ _ h => h, fun _ _ _ h => h, fun key a ha => ?_⟩
    change a ∈ (AList.lookup key (AList.erase tuple.key c.key_address_cache_)).getD ∅ at ha
    by_cases hkey : key = tuple.key
    · subst hkey
      rw [AList.lookup_erase] at ha
      exact absurd ha (UnorderedSet.notMem_empty a)
    · rwa [AList.lookup_erase_ne hkey] at ha
  unfold checkTuple
  split
  · exact ⟨_, rfl, herase⟩
  · split
    · exact ⟨_, rfl, herase⟩
    · exact ⟨_, rfl, .refl _⟩

/-- A request that has been sent is made again, by a client with the same requests. -/
theorem tryAgain_spec {c₂ : KvsClient} (hwf : c₂.maps.Wf) (hqueued : c₂.maps.queued = c.maps.queued)
    (hsent : c₂.maps.sent = c.maps.sent) {r : KeyRequest} (hr : r.ticket ∈ c.maps.sent) {again : Prop}
    (hagain : again) : (c₂.tryRequest cfg r).maps.Wf ∧
      ∀ i a, Moves again (c.book i a) ((c₂.tryRequest cfg r).book i a) := by
  obtain ⟨hwf', hmoves⟩ := tryRequest_spec cfg hwf r
  rw [hqueued, hsent] at hmoves
  exact ⟨hwf', fun i a => .head (.requeue i _ _ a hr hagain) (hmoves again i a)⟩

/-- One request that waited for a response is answered. -/
theorem moves_answer {c c' : KvsClient} {response : KeyResponse} {t : Ticket}
    (hresponse : response.ticket = some t) (hqueued : c'.maps.queued = c.maps.queued)
    (hsent : c.maps.sent = t ::ₘ c'.maps.sent) (again : Prop) (i a : Multiset Ticket) :
    Moves again (c.book i a) (c'.book i (tickets [response] + a)) := by
  rw [tickets, List.filterMap_cons_some hresponse, List.filterMap_nil, Multiset.coe_singleton,
    Multiset.singleton_add]
  change Moves again ⟨i, c.maps.queued, c.maps.sent, a⟩ ⟨i, c'.maps.queued, c'.maps.sent, t ::ₘ a⟩
  rw [hqueued, hsent]
  exact .single (.answer i _ _ a _)

theorem receiveResponse_spec (hwf : c.maps.Wf) {response : KeyResponse} {tuple : KeyTuple}
    {others : List KeyTuple} (htuple : response.tuples = tuple :: others) :
    ∃ rs c', c.receiveResponse cfg response = some (rs, c') ∧ c'.maps.Wf ∧
      ∀ i a, Moves (tuple.error = .wrongThread) (c.book i a)
        (c'.book i (tickets rs + a)) := by
  obtain ⟨cache, hmaps, hwithin⟩ := checkTuple_snd (c := c) tuple
  have hagain := checkTuple_fst (c := c) tuple
  have hwf₁ := hwf.within hwithin
  have hnone : ∃ rs c', some (([] : List KeyResponse), c) = some (rs, c') ∧ c'.maps.Wf ∧
      ∀ i a, Moves (tuple.error = .wrongThread) (c.book i a)
        (c'.book i (tickets rs + a)) :=
    ⟨[], c, rfl, hwf, fun i a => by rw [tickets, List.filterMap_nil, Multiset.coe_nil, zero_add]⟩
  unfold receiveResponse
  rw [htuple]
  dsimp only
  generalize c.checkTuple tuple = checked at hmaps hagain hwf₁
  obtain ⟨again, c₁⟩ := checked
  dsimp only at hmaps hagain hwf₁ ⊢
  have hqueued : c₁.maps.queued = c.maps.queued := by rw [hmaps]; rfl
  have hsent : c₁.maps.sent = c.maps.sent := by rw [hmaps]; rfl
  split
  case isTrue htype =>
    split
    case h_1 => exact hnone
    case h_2 p hp =>
      have hp₁ : c₁.maps.gets.lookup tuple.key = some p := by rw [hmaps]; exact hp
      obtain ⟨hticket, hworker⟩ := hwf.gets _ p hp
      cases again with
      | true =>
        refine ⟨[], _, rfl, ?_⟩
        simp only [tickets, List.filterMap_nil, Multiset.coe_nil, zero_add]
        have hwf₂ : (c₁.maps.awaitGet tuple.key { p with tp_ := (c₁.now cfg).1 }).Wf :=
          hwf₁.awaitGet ⟨hticket, hworker⟩
        refine tryAgain_spec cfg ?_ ?_ ?_ ?_ (hagain.mp rfl)
        · exact hwf₂
        · exact hqueued
        · exact (Maps.sent_awaitGet_of_some hp₁ _).trans hsent
        · rw [hticket]
          exact Maps.get_mem_sent (m := c.maps) hp
      | false =>
        have hresponse : response.ticket = some (.get tuple.key) := by
          rw [KeyResponse.ticket, htuple]
          exact congrArg some (if_pos htype)
        refine ⟨[response], _, rfl, hwf₁.within (Maps.Within.eraseGet c₁.maps tuple.key),
          moves_answer hresponse ?_ ?_ _⟩
        · exact hqueued
        · exact hsent.symm.trans (Maps.sent_eraseGet hp₁)
  case isFalse htype =>
    split
    case h_1 => exact hnone
    case h_2 p hp =>
      have hp₁ : (c₁.maps.pendingPuts tuple.key).lookup response.response_id = some p := by
        rw [hmaps]
        exact hp
      obtain ⟨hticket, hworker⟩ := hwf.puts _ _ p hp
      cases again with
      | true =>
        refine ⟨[], _, rfl, ?_⟩
        simp only [tickets, List.filterMap_nil, Multiset.coe_nil, zero_add]
        have hwf₂ : (c₁.maps.awaitPut tuple.key response.response_id { p with tp_ := (c₁.now cfg).1 }).Wf :=
          hwf₁.awaitPut ⟨hticket, hworker⟩
        refine tryAgain_spec cfg ?_ ?_ ?_ ?_ (hagain.mp rfl)
        · exact hwf₂
        · exact hqueued
        · exact (Maps.sent_awaitPut_of_some hp₁ _).trans hsent
        · rw [hticket]
          exact Maps.put_mem_sent (m := c.maps) hp
      | false =>
        have hresponse : response.ticket = some (.put tuple.key response.response_id) := by
          rw [KeyResponse.ticket, htuple]
          exact congrArg some (if_neg htype)
        have herase := Maps.Within.erasePut c₁.maps tuple.key response.response_id
        have hsent' := hsent.symm.trans (Maps.sent_erasePut hp₁)
        refine ⟨[response], _, rfl, ?_⟩
        split
        case isTrue hempty =>
          -- the map of the key's puts goes away with its last entry
          have hdrop := Maps.sent_dropPuts (m := c₁.maps.erasePut tuple.key response.response_id)
            (List.isEmpty_iff.mp hempty)
          rw [← hdrop] at hsent'
          refine ⟨hwf₁.within ((Maps.Within.dropPuts _ _).trans herase), moves_answer hresponse ?_ ?_ _⟩
          · exact hqueued
          · exact hsent'
        case isFalse =>
          refine ⟨hwf₁.within herase, moves_answer hresponse ?_ ?_ _⟩
          · exact hqueued
          · exact hsent'

/-! ## Requests that have waited too long -/

/-- A loop over pending requests gives some of them, in their order. What holds before it and is kept by what is
done for each of them holds after it. -/
theorem collect_spec {α : Type} {tp : α → ℤ} {drop : KvsClient → α → Option KvsClient} {xs : List α}
    {J : KvsClient → Prop} (hnow : ∀ c, J c → J (c.now cfg).2)
    (hdrop : ∀ c, J c → ∀ x ∈ xs, ∃ c', drop c x = some c' ∧ J c') (hc : J c) :
    ∃ late c', c.collect cfg tp drop xs = some (late, c') ∧ late.Sublist xs ∧ J c' := by
  induction xs generalizing c with
  | nil => exact ⟨[], c, rfl, .slnil, hc⟩
  | cons x xs ih =>
    have ih' {c₁ : KvsClient} (h₁ : J c₁) :=
      ih (c := c₁) (fun c hc y hy => hdrop c hc y (List.mem_cons_of_mem _ hy)) h₁
    rw [collect]
    dsimp only
    split
    · obtain ⟨c₁, hx, h₁⟩ := hdrop _ (hnow c hc) x List.mem_cons_self
      obtain ⟨late, c', hcollect, hlate, hc'⟩ := ih' h₁
      refine ⟨x :: late, c', ?_, hlate.cons_cons x, hc'⟩
      rw [hx, Option.bind_eq_bind, Option.bind_some, hcollect]
      rfl
    · obtain ⟨late, c', hcollect, hlate, hc'⟩ := ih' (hnow c hc)
      exact ⟨late, c', hcollect, hlate.cons x, hc'⟩

/-- Only addresses are forgotten. -/
structure Forgets (c' c : KvsClient) : Prop where
  requests : c'.maps.requests = c.maps.requests
  gets : c'.maps.gets = c.maps.gets
  puts : c'.maps.puts = c.maps.puts
  cache : ∀ key, ∀ a ∈ c'.maps.cached key, a ∈ c.maps.cached key

theorem Forgets.within {c c' : KvsClient} (h : c'.Forgets c) : c'.maps.Within c.maps := by
  refine ⟨fun key e he => h.requests ▸ he, fun key p hp => h.gets ▸ hp, fun key id p hp => ?_, h.cache⟩
  rw [Maps.pendingPuts, h.puts] at hp
  exact hp

theorem cached_foldl_erase {t : UnorderedMap Bytes (UnorderedSet Bytes)} {keys : List Bytes} {key a : Bytes}
    (h : a ∈ ((keys.foldl (fun m key => m.erase key) t).lookup key).getD ∅) :
    a ∈ (t.lookup key).getD ∅ := by
  induction keys generalizing t with
  | nil => exact h
  | cons k keys ih =>
    have h' := ih h
    by_cases hkey : key = k
    · subst hkey
      rw [AList.lookup_erase] at h'
      exact absurd h' (UnorderedSet.notMem_empty a)
    · rwa [AList.lookup_erase_ne hkey] at h'

theorem invalidateCacheForWorker_spec {c₀ : KvsClient} (hwf : c₀.maps.Wf) (hc : c.Forgets c₀) {worker : Bytes}
    (hworker : GoodAddress worker) : ∃ c', c.invalidateCacheForWorker worker = some c' ∧ c'.Forgets c₀ := by
  have hlt : 1 < (split worker 58).length := hworker.2
  have hall : (c.key_address_cache_.entries.all fun e => e.2.elems.all fun address =>
      2 ≤ (split address 58).length) = true := by
    rw [List.all_eq_true]
    intro e he
    rw [List.all_eq_true]
    intro address haddress
    have hcached : address ∈ c.maps.cached e.1 := by
      change address ∈ (AList.lookup e.1 c.key_address_cache_).getD ∅
      rw [AList.mem_lookup_iff.mpr he]
      exact haddress
    exact decide_eq_true (hwf.cache e.1 address (hc.cache e.1 address hcached)).2
  unfold invalidateCacheForWorker
  rw [List.getElem?_eq_getElem hlt]
  dsimp only
  rw [if_pos hall]
  exact ⟨_, rfl, hc.requests, hc.gets, hc.puts, fun key a ha => hc.cache key a (cached_foldl_erase ha)⟩

theorem ticket_generateBadResponse (r : KeyRequest) : (generateBadResponse r).ticket = some r.ticket := by
  unfold generateBadResponse KeyResponse.ticket
  by_cases hput : r.type = .put
  · rw [if_pos hput]
    rfl
  · rw [if_neg hput]
    rfl

theorem Forgets.now {c c₀ : KvsClient} (h : c.Forgets c₀) : (c.now cfg).2.Forgets c₀ :=
  ⟨h.requests, h.gets, h.puts, h.cache⟩

theorem Forgets.refl (c : KvsClient) : c.Forgets c := ⟨rfl, rfl, rfl, fun _ _ h => h⟩

/-- The tickets of the responses for requests that are given up. -/
theorem tickets_map {α : Type} (l : List α) (r : α → KeyRequest) :
    tickets (l.map fun x => generateBadResponse (r x)) = l.map fun x => (r x).ticket := by
  rw [tickets, List.filterMap_map]
  have hsome : (KeyResponse.ticket ∘ fun x => generateBadResponse (r x)) = fun x => some (r x).ticket :=
    funext fun x => ticket_generateBadResponse (r x)
  rw [hsome, ← Function.comp_def some, List.filterMap_eq_map]

theorem tickets_requests (l : List ((_ : Bytes) × ℤ × List KeyRequest)) :
    tickets (l.flatMap fun e => e.2.2.map generateBadResponse) =
      l.flatMap fun e => e.2.2.map KeyRequest.ticket := by
  rw [tickets, List.filterMap_flatMap]
  exact congrArg (List.flatMap · l) (funext fun e => tickets_map e.2.2 id)

theorem tickets_gets (hwf : c.maps.Wf) {l : List ((_ : Bytes) × PendingRequest)}
    (hl : ∀ e ∈ l, c.maps.gets.lookup e.1 = some e.2) :
    tickets (l.map fun e => generateBadResponse e.2.request_) = l.flatMap fun e => [Ticket.get e.1] := by
  rw [tickets_map, ← List.map_eq_flatMap]
  exact List.map_congr_left fun e he => (hwf.gets e.1 e.2 (hl e he)).1

theorem tickets_puts (hwf : c.maps.Wf) {l : List (Bytes × (_ : Bytes) × PendingRequest)}
    (hl : ∀ p ∈ l, (c.maps.pendingPuts p.1).lookup p.2.1 = some p.2.2) :
    tickets (l.map fun p => generateBadResponse p.2.2.request_) = l.map fun p => Ticket.put p.1 p.2.1 := by
  rw [tickets_map]
  exact List.map_congr_left fun p hp => (hwf.puts p.1 p.2.1 p.2.2 (hl p hp)).1

/-- What each loop over pending requests does to the ledger. -/
def GivesUp (c : KvsClient) (result : Option (List KeyResponse × KvsClient)) : Prop :=
  ∃ rs c', result = some (rs, c') ∧ c'.maps.Wf ∧
    ∀ again i a, Moves again (c.book i a) (c'.book i (tickets rs + a))

theorem collectRequests_spec (hwf : c.maps.Wf) : c.GivesUp (c.collectRequests cfg) := by
  have hloop : ∃ late c₁, c.collect cfg (fun e => e.2.1) (fun c _ => some c) c.pending_request_map_.entries =
      some (late, c₁) ∧ late.Sublist c.pending_request_map_.entries ∧ c₁.Forgets c :=
    collect_spec cfg (fun _ h => h.now cfg) (fun c' h _ _ => ⟨c', rfl, h⟩) (.refl c)
  obtain ⟨late, c₁, hcollect, hlate, h₁⟩ := hloop
  unfold collectRequests
  rw [hcollect]
  refine ⟨_, _, rfl, ?_, fun again i a => ?_⟩
  · refine hwf.within ⟨fun key e he => ?_, h₁.within.gets, h₁.within.puts, h₁.within.cache⟩
    exact h₁.within.requests key e (UnorderedMap.lookup_foldl_erase he)
  · have hqueued := UnorderedMap.total_foldl_erase
      (fun _ e => ((e.2.map KeyRequest.ticket : List Ticket) : Multiset Ticket))
      (List.NodupKeys.sublist hlate c.pending_request_map_.nodupKeys)
      fun e he => AList.mem_lookup_iff.mpr (hlate.subset he)
    rw [Multiset.coe_bind] at hqueued
    have hsent : c₁.maps.sent = c.maps.sent := by
      rw [Maps.sent, h₁.gets, h₁.puts, Maps.sent]
    rw [tickets_requests]
    change Moves again ⟨i, c.maps.queued, c.maps.sent, a⟩
      ⟨i, UnorderedMap.total _ (late.foldl (fun m e => m.erase e.1) c₁.maps.requests), c₁.maps.sent, _⟩
    rw [h₁.requests, hsent, Maps.queued]
    change Moves again ⟨i, UnorderedMap.total _ c.pending_request_map_, c.maps.sent, a⟩ _
    rw [hqueued]
    exact Moves.expireAll i _ _ a _

theorem collectGets_spec (hwf : c.maps.Wf) : c.GivesUp (c.collectGets cfg) := by
  have hloop : ∃ late c₁, c.collect cfg (fun e => e.2.tp_)
      (fun c e => c.invalidateCacheForWorker e.2.worker_addr_) c.pending_get_response_map_.entries =
      some (late, c₁) ∧ late.Sublist c.pending_get_response_map_.entries ∧ c₁.Forgets c := by
    refine collect_spec cfg (fun _ h => h.now cfg) (fun c' h e he => ?_) (.refl c)
    exact invalidateCacheForWorker_spec hwf h (hwf.gets e.1 e.2 (AList.mem_lookup_iff.mpr he)).2
  obtain ⟨late, c₁, hcollect, hlate, h₁⟩ := hloop
  have hlookup : ∀ e ∈ late, c.maps.gets.lookup e.1 = some e.2 :=
    fun e he => AList.mem_lookup_iff.mpr (hlate.subset he)
  unfold collectGets
  rw [hcollect]
  refine ⟨_, _, rfl, ?_, fun again i a => ?_⟩
  · refine hwf.within ⟨h₁.within.requests, fun key p hp => ?_, h₁.within.puts, h₁.within.cache⟩
    exact h₁.within.gets key p (UnorderedMap.lookup_foldl_erase hp)
  · have hgets := UnorderedMap.total_foldl_erase (fun key _ => ({.get key} : Multiset Ticket))
      (List.NodupKeys.sublist hlate c.pending_get_response_map_.nodupKeys) hlookup
    have hbind : ((late : Multiset ((_ : Bytes) × PendingRequest)).bind fun e => {Ticket.get e.1}) =
        (late.flatMap fun e => [Ticket.get e.1] : List Ticket) := Multiset.coe_bind late fun e => [Ticket.get e.1]
    have hsent : c.maps.sent = (late.flatMap fun e => [Ticket.get e.1] : List Ticket) +
        Maps.sent { c₁.maps with gets := late.foldl (fun m e => m.erase e.1) c₁.maps.gets } := by
      rw [Maps.sent, hgets, hbind, add_assoc, Maps.sent, h₁.gets, h₁.puts]
    have hqueued : c₁.maps.queued = c.maps.queued := by
      rw [Maps.queued, h₁.requests, Maps.queued]
    rw [tickets_gets hwf hlookup]
    change Moves again ⟨i, c.maps.queued, c.maps.sent, a⟩ ⟨i, c₁.maps.queued,
      Maps.sent { c₁.maps with gets := late.foldl (fun m e => m.erase e.1) c₁.maps.gets }, _⟩
    rw [hsent, hqueued]
    exact Moves.answerAll i _ _ a _

/-! ### Puts -/

theorem Maps.pendingPuts_erasePut_of_ne {m : Maps} {key id key' id' : Bytes} (h : (key', id') ≠ (key, id)) :
    ((m.erasePut key id).pendingPuts key').lookup id' = (m.pendingPuts key').lookup id' := by
  rw [Maps.erasePut, Maps.pendingPuts_insert]
  by_cases hkey : key' = key
  · subst hkey
    rw [if_pos rfl, AList.lookup_erase_ne fun hid => h (by rw [hid])]
  · rw [if_neg hkey]

theorem Maps.foldl_erasePut {l : List (Bytes × (_ : Bytes) × PendingRequest)}
    (hl : (l.map fun p => (p.1, p.2.1)).Nodup) {m : Maps}
    (h : ∀ p ∈ l, (m.pendingPuts p.1).lookup p.2.1 = some p.2.2) :
    (l.foldl (fun m p => m.erasePut p.1 p.2.1) m).Within m ∧
      (l.foldl (fun m p => m.erasePut p.1 p.2.1) m).queued = m.queued ∧
      m.sent = (l.map fun p => Ticket.put p.1 p.2.1 : List Ticket) +
        (l.foldl (fun m p => m.erasePut p.1 p.2.1) m).sent := by
  induction l generalizing m with
  | nil => exact ⟨.refl m, rfl, (zero_add _).symm⟩
  | cons p l ih =>
    rw [List.map_cons, List.nodup_cons] at hl
    have htail : ∀ p' ∈ l, ((m.erasePut p.1 p.2.1).pendingPuts p'.1).lookup p'.2.1 = some p'.2.2 := by
      intro p' hp'
      rw [Maps.pendingPuts_erasePut_of_ne fun heq => hl.1 (heq ▸ List.mem_map_of_mem hp')]
      exact h p' (List.mem_cons_of_mem _ hp')
    obtain ⟨hwithin, hqueued, hsent⟩ := ih hl.2 htail
    refine ⟨hwithin.trans (.erasePut m p.1 p.2.1), hqueued, ?_⟩
    rw [Maps.sent_erasePut (h p List.mem_cons_self), hsent, List.map_cons, ← Multiset.cons_coe,
      Multiset.cons_add]
    rfl

theorem maps_foldl_erasePut (l : List (Bytes × (_ : Bytes) × PendingRequest)) :
    (l.foldl (fun c p => c.erasePut p.1 p.2.1) c).maps = l.foldl (fun m p => m.erasePut p.1 p.2.1) c.maps :=
  (List.foldl_hom maps fun _ _ => rfl).symm

theorem lookup_of_mem_allPuts {p : Bytes × (_ : Bytes) × PendingRequest} (h : p ∈ c.allPuts) :
    (c.maps.pendingPuts p.1).lookup p.2.1 = some p.2.2 := by
  obtain ⟨e, he, hp⟩ := List.mem_flatMap.mp h
  obtain ⟨p', hp', rfl⟩ := List.mem_map.mp hp
  change AList.lookup p'.1 ((c.pending_put_response_map_.lookup e.1).getD ∅) = some p'.2
  rw [AList.mem_lookup_iff.mpr he]
  exact AList.mem_lookup_iff.mpr hp'

theorem nodup_allPuts : (c.allPuts.map fun p => (p.1, p.2.1)).Nodup := by
  rw [allPuts, List.map_flatMap, List.nodup_flatMap]
  constructor
  · intro e he
    rw [List.map_map]
    have hkeys : (e.2.entries.map Sigma.fst).Nodup := e.2.nodupKeys
    rw [← List.nodup_map_iff (f := fun id : Bytes => (e.1, id)) fun _ _ h => congrArg Prod.snd h,
      List.map_map] at hkeys
    exact hkeys
  · have hkeys : c.pending_put_response_map_.entries.Pairwise fun e e' => e.1 ≠ e'.1 :=
      List.pairwise_map.mp c.pending_put_response_map_.nodupKeys
    refine hkeys.imp fun {e e'} hne x hx hx' => hne ?_
    have hfst {e : (_ : Bytes) × UnorderedMap Bytes PendingRequest} (hx : x ∈ (e.2.entries.map fun p =>
        (e.1, p)).map fun p => (p.1, p.2.1)) : x.1 = e.1 := by
      obtain ⟨p, hp, rfl⟩ := List.mem_map.mp hx
      obtain ⟨q, hq, rfl⟩ := List.mem_map.mp hp
      rfl
    exact (hfst hx).symm.trans (hfst hx')

theorem collectPuts_spec (hwf : c.maps.Wf) : c.GivesUp (c.collectPuts cfg) := by
  have hloop : ∃ late c₁, c.collect cfg (fun p => p.2.2.tp_)
      (fun c p => c.invalidateCacheForWorker p.2.2.worker_addr_) c.allPuts =
      some (late, c₁) ∧ late.Sublist c.allPuts ∧ c₁.Forgets c := by
    refine collect_spec cfg (fun _ h => h.now cfg) (fun c' h p hp => ?_) (.refl c)
    exact invalidateCacheForWorker_spec hwf h (hwf.puts p.1 p.2.1 p.2.2 (lookup_of_mem_allPuts hp)).2
  obtain ⟨late, c₁, hcollect, hlate, h₁⟩ := hloop
  have hlookup : ∀ p ∈ late, (c.maps.pendingPuts p.1).lookup p.2.1 = some p.2.2 :=
    fun p hp => lookup_of_mem_allPuts (hlate.subset hp)
  have hlookup₁ : ∀ p ∈ late, (c₁.maps.pendingPuts p.1).lookup p.2.1 = some p.2.2 := by
    unfold Maps.pendingPuts
    rw [h₁.puts]
    exact hlookup
  obtain ⟨hwithin, hqueued, hsent⟩ := Maps.foldl_erasePut ((hlate.map _).nodup nodup_allPuts) hlookup₁
  rw [← maps_foldl_erasePut] at hwithin hqueued hsent
  unfold collectPuts
  rw [hcollect]
  refine ⟨_, _, rfl, hwf.within (hwithin.trans h₁.within), fun again i a => ?_⟩
  have hqueued₁ : c₁.maps.queued = c.maps.queued := by
    rw [Maps.queued, h₁.requests, Maps.queued]
  have hsent₁ : c₁.maps.sent = c.maps.sent := by
    rw [Maps.sent, h₁.gets, h₁.puts, Maps.sent]
  rw [tickets_puts hwf hlookup]
  change Moves again ⟨i, c.maps.queued, c.maps.sent, a⟩
    ⟨i, (late.foldl (fun c p => c.erasePut p.1 p.2.1) c₁).maps.queued,
      (late.foldl (fun c p => c.erasePut p.1 p.2.1) c₁).maps.sent, _⟩
  rw [hqueued, hqueued₁, ← hsent₁, hsent]
  exact Moves.answerAll i _ _ a _

/-! ## Whole calls -/

/-- The first message of each kind that a call of `receive_async` finds. -/
theorem receiveAsync_spec (hwf : c.maps.Wf) {address : Option KeyAddressResponse} {response : Option KeyResponse}
    (h : (Event.receive address response).WellFormed) :
    ∃ rs c', c.receiveAsync cfg address response = some (rs, c') ∧ c'.maps.Wf ∧
      ∀ i a, Moves (Event.receive address response).WrongThread (c.book i a)
        (c'.book i (tickets rs + a)) := by
  have haddress : ∃ c₁, address.elim (some c) (c.receiveAddress cfg) = some c₁ ∧ c₁.maps.Wf ∧
      ∀ again i a, Moves again (c.book i a) (c₁.book i a) := by
    cases address with
    | none => exact ⟨c, rfl, hwf, fun _ _ _ => .refl⟩
    | some r =>
      obtain ⟨first, others, hfirst, hgood⟩ := h.1 r rfl
      exact receiveAddress_spec cfg hwf hfirst hgood
  obtain ⟨c₁, hc₁, hwf₁, hmoves₁⟩ := haddress
  have hresponse : ∃ rs c₂, response.elim (some ([], c₁)) (c₁.receiveResponse cfg) = some (rs, c₂) ∧
      c₂.maps.Wf ∧ ∀ i a, Moves (Event.receive address response).WrongThread (c₁.book i a)
        (c₂.book i (tickets rs + a)) := by
    cases response with
    | none =>
      refine ⟨[], c₁, rfl, hwf₁, fun i a => ?_⟩
      rw [tickets, List.filterMap_nil, Multiset.coe_nil, zero_add]
    | some r =>
      obtain ⟨tuple, others, htuple⟩ := List.exists_cons_of_ne_nil (h.2 r rfl)
      obtain ⟨rs, c₂, hc₂, hwf₂, hmoves₂⟩ := receiveResponse_spec cfg hwf₁ htuple
      have hwrong : (Event.receive address (some r)).WrongThread = (tuple.error = .wrongThread) := by
        simp [Event.WrongThread, htuple]
      exact ⟨rs, c₂, hc₂, hwf₂, hwrong ▸ hmoves₂⟩
  obtain ⟨rs₂, c₂, hc₂, hwf₂, hmoves₂⟩ := hresponse
  obtain ⟨rs₃, c₃, hc₃, hwf₃, hmoves₃⟩ := collectRequests_spec cfg hwf₂
  obtain ⟨rs₄, c₄, hc₄, hwf₄, hmoves₄⟩ := collectGets_spec cfg hwf₃
  obtain ⟨rs₅, c₅, hc₅, hwf₅, hmoves₅⟩ := collectPuts_spec cfg hwf₄
  refine ⟨rs₂ ++ rs₃ ++ rs₄ ++ rs₅, c₅, ?_, hwf₅, fun i a => ?_⟩
  · rw [receiveAsync, hc₁]
    dsimp only [Option.bind_eq_bind, Option.bind_some]
    rw [hc₂]
    dsimp only [Option.bind_some]
    rw [hc₃]
    dsimp only [Option.bind_some]
    rw [hc₄]
    dsimp only [Option.bind_some]
    rw [hc₅]
    rfl
  · have hmoves := ((((hmoves₁ _ i a).trans (hmoves₂ i a)).trans (hmoves₃ _ i _)).trans (hmoves₄ _ i _)).trans
      (hmoves₅ _ i _)
    have hanswered : tickets (rs₂ ++ rs₃ ++ rs₄ ++ rs₅) + a =
        (tickets rs₅ + (tickets rs₄ + (tickets rs₃ + (tickets rs₂ + a))) : Multiset Ticket) := by
      simp only [tickets, List.filterMap_append, ← Multiset.coe_add]
      ac_rfl
    rw [hanswered]
    exact hmoves

end KvsClient

end Anna
