import Fuyao.Anna.Proofs.KvsClientProofs
import Fuyao.Cpp.Proofs.StringsProofs

/-!
# Proofs: what becomes of the requests of a client

Each call of the client is a number of entries in the ledger of its requests (`KvsClient.step_moves`), and so is
every run (`KvsClient.run_moves`): no request is lost (`requests_complete`), a get waits until it is
answered (`gets_wait`), and a put is at one place only (`puts_exact`), since no two puts have the same
id (`KvsClient.run_draws`).
-/

namespace Anna

open Cpp Ledger

namespace KvsClient

variable (cfg : Setting) {c : KvsClient}

/-! ## Runs in the ledger -/

theorem step_moves (hwf : c.maps.Wf) {e : Event} (he : e.WellFormed) :
    ∃ o c', c.step cfg e = some (o, c') ∧ c'.maps.Wf ∧
      ∀ i a, Moves e.WrongThread (c.book i a) (c'.book (o.issued + i) (tickets o.responses + a)) := by
  cases e with
  | put key payload lattice_type =>
    obtain ⟨hwf', hmoves⟩ := putAsync_spec cfg hwf key payload lattice_type
    refine ⟨⟨[.put key (c.putAsync cfg key payload lattice_type).1], []⟩,
      (c.putAsync cfg key payload lattice_type).2, rfl, hwf', fun i a => ?_⟩
    have hanswered : (tickets [] : Multiset Ticket) + a = a := zero_add a
    rw [hanswered, Multiset.coe_singleton, Multiset.singleton_add]
    exact hmoves _ i a
  | get key =>
    obtain ⟨hwf', -, hmoves⟩ := getAsync_spec cfg hwf key
    refine ⟨_, _, rfl, hwf', fun i a => ?_⟩
    have hanswered : (tickets [] : Multiset Ticket) + a = a := zero_add a
    rw [hanswered]
    exact hmoves _ i a
  | receive address response =>
    obtain ⟨rs, c', hreceive, hwf', hmoves⟩ := receiveAsync_spec cfg hwf he
    refine ⟨⟨[], rs⟩, c', by rw [step, hreceive]; rfl, hwf', fun i a => ?_⟩
    rw [Multiset.coe_nil, zero_add]
    exact hmoves i a

/-- Requests are put back into the queue only if a worker says that it is the wrong one. -/
theorem run_moves (hwf : c.maps.Wf) {es : List Event} (hes : ∀ e ∈ es, e.WellFormed) :
    ∃ o c', c.run cfg es = some (o, c') ∧ c'.maps.Wf ∧
      ∀ i a, Moves (∃ e ∈ es, e.WrongThread) (c.book i a) (c'.book (o.issued + i) (tickets o.responses + a)) := by
  induction es generalizing c with
  | nil =>
    refine ⟨⟨[], []⟩, c, rfl, hwf, fun i a => ?_⟩
    have hanswered : (tickets [] : Multiset Ticket) + a = a := zero_add a
    rw [hanswered, Multiset.coe_nil, zero_add]
  | cons e es ih =>
    rw [List.forall_mem_cons] at hes
    obtain ⟨o, c₁, hstep, hwf₁, hmoves⟩ := step_moves cfg hwf hes.1
    obtain ⟨os, c', hrun, hwf', hmoves'⟩ := ih hwf₁ hes.2
    refine ⟨o.append os, c', ?_, hwf', fun i a => ?_⟩
    · rw [run, hstep]
      dsimp only [Option.bind_eq_bind, Option.bind_some]
      rw [hrun]
      rfl
    · have hissued : ((o.append os).issued : Multiset Ticket) + i = os.issued + (o.issued + i) := by
        rw [Outcome.append, ← Multiset.coe_add]
        ac_rfl
      have hanswered : (tickets (o.append os).responses : Multiset Ticket) + a =
          tickets os.responses + (tickets o.responses + a) := by
        rw [Outcome.append, tickets, List.filterMap_append, ← Multiset.coe_add, tickets, tickets]
        ac_rfl
      have hfirst : e.WrongThread → ∃ e' ∈ e :: es, e'.WrongThread := fun h => ⟨e, List.mem_cons_self, h⟩
      have hothers : (∃ e' ∈ es, e'.WrongThread) → ∃ e' ∈ e :: es, e'.WrongThread := by
        rintro ⟨e', he', h⟩
        exact ⟨e', List.mem_cons_of_mem e he', h⟩
      rw [hissued, hanswered]
      exact ((hmoves i a).mono hfirst).trans ((hmoves' _ _).mono hothers)

theorem wf_start (seed : UInt32) : (maps { seed_ := seed }).Wf where
  requests key e he := by simp [maps] at he
  gets key p hp := by simp [maps] at hp
  puts key id p hp := by simp [maps, Maps.pendingPuts] at hp
  cache key a ha := by simp [maps, Maps.cached] at ha

theorem book_start (seed : UInt32) : book { seed_ := seed } 0 0 = ⟨0, 0, 0, 0⟩ := by
  simp [book, queued, sent]

/-! ## Request ids -/

/-- The id with the `n`-th number. Every draw adds two to `rid_`, so that it never is a multiple of 10000 after
the first of the two. -/
def drawnId (n : ℕ) : Bytes := requestId cfg (UInt32.ofNat (2 * n + 1))

/-- `n` numbers have been drawn. -/
def Drawn (n : ℕ) (c : KvsClient) : Prop := c.rid_ = UInt32.ofNat (2 * n)

/-- At most `k` numbers are drawn between two states. -/
def Draws (k : ℕ) (c c' : KvsClient) : Prop := ∀ n, Drawn n c → ∃ n', n ≤ n' ∧ n' ≤ n + k ∧ Drawn n' c'

theorem Drawn.nextRid {n : ℕ} (h : Drawn n c) : c.nextRid = UInt32.ofNat (2 * n + 1) := by
  have hsucc : c.rid_ + 1 = UInt32.ofNat (2 * n + 1) := by
    rw [h, UInt32.ofNat_add]
    rfl
  unfold KvsClient.nextRid
  rw [hsucc]
  refine if_neg fun hreset => ?_
  have hmod := congrArg UInt32.toNat hreset
  rw [UInt32.toNat_mod, UInt32.toNat_ofNat'] at hmod
  change (2 * n + 1) % 2 ^ 32 % 10000 = 0 at hmod
  omega

theorem Drawn.getRequestId {n : ℕ} (h : Drawn n c) :
    (c.getRequestId cfg).1 = drawnId cfg n ∧ Drawn (n + 1) (c.getRequestId cfg).2 := by
  have hnext : c.nextRid + 1 = UInt32.ofNat (2 * (n + 1)) := by
    rw [h.nextRid]
    exact (UInt32.ofNat_add (2 * n + 1) 1).symm
  exact ⟨congrArg (requestId cfg) h.nextRid, hnext⟩

theorem drawnId_inj {m n : ℕ} (hm : m < 2 ^ 31) (hn : n < 2 ^ 31) (h : drawnId cfg m = drawnId cfg n) : m = n := by
  have hnumeral := congrArg decimal (List.append_cancel_left h)
  rw [decimal_numeral, decimal_numeral, UInt32.toNat_ofNat', UInt32.toNat_ofNat'] at hnumeral
  omega

namespace Draws

variable {c' c'' : KvsClient} {k k' : ℕ}

theorem of_rid (h : c'.rid_ = c.rid_) : Draws 0 c c' := fun n hn => ⟨n, le_rfl, le_rfl, h.trans hn⟩

theorem trans (h : Draws k c c') (h' : Draws k' c' c'') : Draws (k + k') c c'' := by
  intro n hn
  obtain ⟨m, hnm, hmk, hm⟩ := h n hn
  obtain ⟨m', hmm', hmk', hm'⟩ := h' m hm
  exact ⟨m', hnm.trans hmm', by omega, hm'⟩

theorem mono (h : Draws k c c') (hk : k ≤ k') : Draws k' c c' := by
  intro n hn
  obtain ⟨m, hnm, hmk, hm⟩ := h n hn
  exact ⟨m, hnm, by omega, hm⟩

end Draws

theorem draws_getRequestId : Draws 1 c (c.getRequestId cfg).2 :=
  fun n hn => ⟨n + 1, Nat.le_succ n, le_rfl, (hn.getRequestId cfg).2⟩

theorem draws_getAllWorkerThreads (key : Bytes) : Draws 1 c (c.getAllWorkerThreads cfg key).2 := by
  unfold getAllWorkerThreads
  split
  · dsimp only
    split
    · exact draws_getRequestId cfg
    · exact (Draws.of_rid rfl).mono (Nat.zero_le 1)
  · exact (Draws.of_rid rfl).mono (Nat.zero_le 1)

/-- Nobody is asked for the addresses of a key that other requests wait for. -/
theorem rid_getAllWorkerThreads {key : Bytes} (h : (c.pending_request_map_.lookup key).isNone = false) :
    (c.getAllWorkerThreads cfg key).2.rid_ = c.rid_ := by
  unfold getAllWorkerThreads
  split
  · rw [h]
    rfl
  · rfl

theorem rid_tryRequest (r : KeyRequest) :
    (c.tryRequest cfg r).rid_ = (c.getAllWorkerThreads cfg r.tuple.key).2.rid_ := by
  have hworker : (c.getWorkerThread cfg r.tuple.key).2.rid_ = (c.getAllWorkerThreads cfg r.tuple.key).2.rid_ := by
    unfold getWorkerThread
    dsimp only
    split <;> rfl
  rw [← hworker]
  unfold tryRequest
  dsimp only
  split
  · unfold enqueue
    dsimp only
    split <;> rfl
  · unfold await
    dsimp only
    split
    · split <;> rfl
    · split <;> rfl

theorem draws_tryRequest (r : KeyRequest) : Draws 1 c (c.tryRequest cfg r) := by
  intro n hn
  obtain ⟨m, hnm, hm, hdrawn⟩ := draws_getAllWorkerThreads cfg r.tuple.key n hn
  exact ⟨m, hnm, hm, (rid_tryRequest cfg r).trans hdrawn⟩

theorem draws_tryAgain {c₁ : KvsClient} (hrid : c₁.rid_ = c.rid_) (r : KeyRequest) :
    Draws 1 c (c₁.tryRequest cfg r) :=
  (Draws.of_rid hrid).trans (draws_tryRequest cfg r)

theorem rid_tryAll {key : Bytes} {requests : List KeyRequest} {c' : KvsClient}
    (h : c.tryAll cfg key requests = some c') (hkeys : ∀ r ∈ requests, r.tuple.key = key)
    (hwaiting : (c.pending_request_map_.lookup key).isNone = false) : c'.rid_ = c.rid_ := by
  induction requests generalizing c with
  | nil =>
    cases h
    rfl
  | cons r requests ih =>
    rw [List.forall_mem_cons] at hkeys
    rw [tryAll] at h
    split at h
    case isTrue hlength =>
      have hwaiting' : ((c.tryRequest cfg r).pending_request_map_.lookup key).isNone = false := by
        have hnone := congrArg Option.isNone hlength
        rw [Option.isNone_map, Option.isNone_map] at hnone
        exact hnone.trans hwaiting
      rw [ih h hkeys.2 hwaiting', rid_tryRequest, rid_getAllWorkerThreads cfg (hkeys.1.symm ▸ hwaiting)]
    case isFalse => cases h

/-- Addresses go into the cache only. -/
theorem foldl_cacheAddress_eq (key : Bytes) (ips : List Bytes) (c : KvsClient) :
    ∃ cache, ips.foldl (cacheAddress · key ·) c = { c with key_address_cache_ := cache } := by
  induction ips generalizing c with
  | nil => exact ⟨c.key_address_cache_, rfl⟩
  | cons ip ips ih =>
    obtain ⟨cache, hcache⟩ := ih (c.cacheAddress key ip)
    exact ⟨cache, hcache⟩

theorem draws_receiveAddress (hwf : c.maps.Wf) {response : KeyAddressResponse} {c' : KvsClient}
    (h : c.receiveAddress cfg response = some c') : Draws 1 c c' := by
  unfold receiveAddress at h
  split at h
  · cases h
  next address _ _ =>
    split at h
    · cases h
      exact (Draws.of_rid rfl).mono (Nat.zero_le 1)
    next tp requests hrequests =>
      split at h
      · cases h
        exact draws_getRequestId cfg
      · obtain ⟨cache, hcache⟩ := foldl_cacheAddress_eq address.key address.ips c
        obtain ⟨c₁, htry, rfl⟩ := Option.map_eq_some_iff.mp h
        rw [hcache] at htry
        have hwaiting : (c.pending_request_map_.lookup address.key).isNone = false := by
          rw [hrequests]
          rfl
        have hrid := rid_tryAll cfg htry (hwf.requests _ _ hrequests) hwaiting
        exact (Draws.of_rid hrid).mono (Nat.zero_le 1)

theorem rid_checkTuple (tuple : KeyTuple) : (c.checkTuple tuple).2.rid_ = c.rid_ := by
  unfold checkTuple
  split
  · rfl
  · split <;> rfl

theorem draws_receiveResponse {response : KeyResponse} {rs : List KeyResponse} {c' : KvsClient}
    (h : c.receiveResponse cfg response = some (rs, c')) : Draws 1 c c' := by
  have hnone : Draws 1 c c := (Draws.of_rid rfl).mono (Nat.zero_le 1)
  unfold receiveResponse at h
  split at h
  · cases h
  next tuple _ _ =>
    have hrid := rid_checkTuple (c := c) tuple
    dsimp only at h
    generalize c.checkTuple tuple = checked at h hrid
    obtain ⟨again, c₁⟩ := checked
    dsimp only at h hrid
    -- the request is dropped, sent again or answered
    split at h
    · split at h
      · cases h
        exact hnone
      · split at h
        · cases h
          refine draws_tryAgain cfg ?_ _
          exact hrid
        · cases h
          exact (Draws.of_rid hrid).mono (Nat.zero_le 1)
    · split at h
      · cases h
        exact hnone
      · split at h
        · cases h
          refine draws_tryAgain cfg ?_ _
          exact hrid
        · cases h
          refine (Draws.of_rid ?_).mono (Nat.zero_le 1)
          split
          · exact hrid
          · exact hrid

/-- Nothing but the cache has changed, and the clock has gone on. -/
structure Later (c' c : KvsClient) : Prop where
  requests : c'.pending_request_map_ = c.pending_request_map_
  gets : c'.pending_get_response_map_ = c.pending_get_response_map_
  puts : c'.pending_put_response_map_ = c.pending_put_response_map_
  rid : c'.rid_ = c.rid_
  readings : c.readings ≤ c'.readings

theorem Later.refl (c : KvsClient) : c.Later c := ⟨rfl, rfl, rfl, rfl, le_rfl⟩

theorem Later.trans {c' c'' : KvsClient} (h : c''.Later c') (h' : c'.Later c) : c''.Later c where
  requests := h.requests.trans h'.requests
  gets := h.gets.trans h'.gets
  puts := h.puts.trans h'.puts
  rid := h.rid.trans h'.rid
  readings := h'.readings.trans h.readings

theorem later_now (c : KvsClient) : (c.now cfg).2.Later c := ⟨rfl, rfl, rfl, rfl, Nat.le_succ _⟩

theorem later_invalidateCacheForWorker {worker : Bytes} {c' : KvsClient}
    (h : c.invalidateCacheForWorker worker = some c') : c'.Later c := by
  unfold invalidateCacheForWorker at h
  split at h
  · cases h
  · split at h
    · cases h
      exact ⟨rfl, rfl, rfl, rfl, le_rfl⟩
    · cases h

theorem later_collect {α : Type} {tp : α → ℤ} {drop : KvsClient → α → Option KvsClient} {xs late : List α}
    {c' : KvsClient} (hdrop : ∀ c x c', drop c x = some c' → c'.Later c)
    (h : c.collect cfg tp drop xs = some (late, c')) : c'.Later c := by
  induction xs generalizing c late with
  | nil =>
    cases h
    exact .refl _
  | cons x xs ih =>
    rw [collect] at h
    dsimp only at h
    split at h
    · obtain ⟨c₁, hc₁, h⟩ := Option.bind_eq_some_iff.mp h
      obtain ⟨⟨late₁, c₂⟩, hc₂, h⟩ := Option.bind_eq_some_iff.mp h
      cases h
      exact (ih hc₂).trans ((hdrop _ x c₁ hc₁).trans (later_now cfg c))
    · exact (ih h).trans (later_now cfg c)

theorem later_some (c : KvsClient) {c' : KvsClient} (h : some c = some c') : c'.Later c :=
  Option.some.inj h ▸ .refl c

theorem rid_collectRequests {rs : List KeyResponse} {c' : KvsClient}
    (h : c.collectRequests cfg = some (rs, c')) : c'.rid_ = c.rid_ := by
  obtain ⟨⟨late, c₁⟩, hcollect, h⟩ := Option.bind_eq_some_iff.mp h
  have hlater := later_collect cfg (fun c _ _ h => later_some c h) hcollect
  cases h
  exact hlater.rid

theorem rid_collectGets {rs : List KeyResponse} {c' : KvsClient} (h : c.collectGets cfg = some (rs, c')) :
    c'.rid_ = c.rid_ := by
  obtain ⟨⟨late, c₁⟩, hcollect, h⟩ := Option.bind_eq_some_iff.mp h
  have hlater := later_collect cfg (fun _ _ _ h => later_invalidateCacheForWorker h) hcollect
  cases h
  exact hlater.rid

theorem foldl_erasePut_eq (l : List (Bytes × (_ : Bytes) × PendingRequest)) (c : KvsClient) :
    ∃ puts, l.foldl (fun c p => c.erasePut p.1 p.2.1) c = { c with pending_put_response_map_ := puts } := by
  induction l generalizing c with
  | nil => exact ⟨c.pending_put_response_map_, rfl⟩
  | cons p l ih =>
    obtain ⟨puts, hputs⟩ := ih (c.erasePut p.1 p.2.1)
    exact ⟨puts, hputs⟩

theorem rid_collectPuts {rs : List KeyResponse} {c' : KvsClient} (h : c.collectPuts cfg = some (rs, c')) :
    c'.rid_ = c.rid_ := by
  obtain ⟨⟨late, c₁⟩, hcollect, h⟩ := Option.bind_eq_some_iff.mp h
  have hlater := later_collect cfg (fun _ _ _ h => later_invalidateCacheForWorker h) hcollect
  cases h
  obtain ⟨puts, hputs⟩ := foldl_erasePut_eq late c₁
  rw [hputs]
  exact hlater.rid

theorem draws_receiveAsync (hwf : c.maps.Wf) {address : Option KeyAddressResponse} {response : Option KeyResponse}
    {rs : List KeyResponse} {c' : KvsClient} (h : c.receiveAsync cfg address response = some (rs, c')) :
    Draws 2 c c' := by
  obtain ⟨c₁, hc₁, h⟩ := Option.bind_eq_some_iff.mp h
  obtain ⟨⟨rs₂, c₂⟩, hc₂, h⟩ := Option.bind_eq_some_iff.mp h
  obtain ⟨⟨rs₃, c₃⟩, hc₃, h⟩ := Option.bind_eq_some_iff.mp h
  obtain ⟨⟨rs₄, c₄⟩, hc₄, h⟩ := Option.bind_eq_some_iff.mp h
  obtain ⟨⟨rs₅, c₅⟩, hc₅, h⟩ := Option.bind_eq_some_iff.mp h
  cases h
  have h₁ : Draws 1 c c₁ := by
    cases address with
    | none =>
      cases hc₁
      exact (Draws.of_rid rfl).mono (Nat.zero_le 1)
    | some r => exact draws_receiveAddress cfg hwf hc₁
  have h₂ : Draws 1 c₁ c₂ := by
    cases response with
    | none =>
      cases hc₂
      exact (Draws.of_rid rfl).mono (Nat.zero_le 1)
    | some r => exact draws_receiveResponse cfg hc₂
  have hrid : c'.rid_ = c₂.rid_ :=
    (rid_collectPuts cfg hc₅).trans ((rid_collectGets cfg hc₄).trans (rid_collectRequests cfg hc₃))
  exact (h₁.trans h₂).trans (.of_rid hrid)

/-- A put takes the next number, and no other request of the user gets a number as its name. -/
theorem step_draws (hwf : c.maps.Wf) {e : Event} {o : Outcome} {c' : KvsClient} (h : c.step cfg e = some (o, c'))
    {n : ℕ} (hn : Drawn n c) :
    ∃ n', n ≤ n' ∧ n' ≤ n + 2 ∧ Drawn n' c' ∧
      (putIds o.issued = [] ∨ putIds o.issued = [drawnId cfg n] ∧ n < n') := by
  cases e with
  | put key payload lattice_type =>
    cases h
    obtain ⟨hid, hn₁⟩ := hn.getRequestId cfg
    obtain ⟨m, hnm, hm, hdrawn⟩ := draws_tryRequest cfg _ (n + 1) hn₁
    exact ⟨m, by omega, by omega, hdrawn, .inr ⟨congrArg ([·]) hid, hnm⟩⟩
  | get key =>
    cases h
    have hget : Draws 2 c (c.getAsync cfg key) := by
      unfold getAsync
      split
      · exact (draws_getRequestId cfg).trans (draws_tryRequest cfg _)
      · exact (Draws.of_rid rfl).mono (Nat.zero_le 2)
    obtain ⟨m, hnm, hm, hdrawn⟩ := hget n hn
    refine ⟨m, hnm, hm, hdrawn, .inl ?_⟩
    dsimp only
    split <;> rfl
  | receive address response =>
    obtain ⟨⟨rs, c₁⟩, hreceive, h⟩ := Option.map_eq_some_iff.mp h
    cases h
    obtain ⟨m, hnm, hm, hdrawn⟩ := draws_receiveAsync cfg hwf hreceive n hn
    exact ⟨m, hnm, hm, hdrawn, .inl rfl⟩

/-- The puts of a run have different ids until the numbers wrap around. -/
theorem run_draws (hwf : c.maps.Wf) {es : List Event} (hes : ∀ e ∈ es, e.WellFormed) {o : Outcome}
    {c' : KvsClient} (h : c.run cfg es = some (o, c')) {n : ℕ} (hn : Drawn n c)
    (hlen : n + 2 * es.length < 2 ^ 31) :
    ∃ n', n ≤ n' ∧ n' ≤ n + 2 * es.length ∧ Drawn n' c' ∧
      (∀ id ∈ putIds o.issued, ∃ m, n ≤ m ∧ m < n' ∧ id = drawnId cfg m) ∧ (putIds o.issued).Nodup := by
  induction es generalizing c n o with
  | nil =>
    cases h
    exact ⟨n, le_rfl, le_rfl, hn, fun id hid => absurd hid List.not_mem_nil, List.nodup_nil⟩
  | cons e es ih =>
    rw [List.forall_mem_cons] at hes
    rw [List.length_cons] at hlen ⊢
    obtain ⟨o₁, c₁, hstep, hwf₁, -⟩ := step_moves cfg hwf hes.1
    rw [run, hstep] at h
    dsimp only [Option.bind_eq_bind, Option.bind_some] at h
    obtain ⟨⟨os, c₂⟩, hrun, h⟩ := Option.bind_eq_some_iff.mp h
    cases h
    obtain ⟨m, hnm, hm, hdrawn, hput⟩ := step_draws cfg hwf hstep hn
    obtain ⟨n', hmn', hn', hdrawn', hids, hnodup⟩ := ih hwf₁ hes.2 hrun hdrawn (by omega)
    have hlater : ∀ id ∈ putIds os.issued, ∃ k, n ≤ k ∧ k < n' ∧ id = drawnId cfg k := by
      intro id hid
      obtain ⟨k, hmk, hk, rfl⟩ := hids id hid
      exact ⟨k, hnm.trans hmk, hk, rfl⟩
    refine ⟨n', hnm.trans hmn', by omega, hdrawn', ?_⟩
    rw [Outcome.append, putIds, List.filterMap_append]
    change (∀ id ∈ putIds o₁.issued ++ putIds os.issued, _) ∧ (putIds o₁.issued ++ putIds os.issued).Nodup
    rcases hput with hnone | ⟨hone, hlt⟩
    · rw [hnone]
      exact ⟨hlater, hnodup⟩
    · rw [hone]
      refine ⟨List.forall_mem_cons.mpr ⟨⟨n, le_rfl, hlt.trans_le hmn', rfl⟩, hlater⟩, ?_⟩
      -- the number of this put is smaller than those of the later ones
      refine List.nodup_cons.mpr ⟨fun hmem => ?_, hnodup⟩
      obtain ⟨k, hmk, hk, hid⟩ := hids _ hmem
      have hnk := drawnId_inj cfg (by omega) (by omega) hid
      omega

/-- Puts with different ids are different. -/
theorem count_put_le_one {ts : List Ticket} (h : (putIds ts).Nodup) (key id : Bytes) :
    ts.count (.put key id) ≤ 1 := by
  have hle : ts.count (.put key id) ≤ (putIds ts).count id := by
    induction ts with
    | nil => exact le_rfl
    | cons t ts ih =>
      cases t with
      | get key' => simpa [putIds] using ih h
      | put key' id' =>
        have hrest := ih (List.nodup_cons.mp h).2
        change _ ≤ (id' :: putIds ts).count id
        rw [List.count_cons, List.count_cons]
        by_cases hput : (Ticket.put key' id') = .put key id
        · obtain ⟨-, rfl⟩ := Ticket.put.inj hput
          simpa [hput] using hrest
        · rw [if_neg (by simpa using hput)]
          exact hrest.trans (Nat.le_add_right _ _)
  exact hle.trans (List.nodup_iff_count_le_one.mp h id)

end KvsClient

/-- One routing thread, and a clock that goes on by one with every reading. -/
def sampleSetting : Setting where
  routing_threads_ := [⟨[49], 0⟩]
  routing_ne_nil := List.cons_ne_nil _ _
  ut_ := ⟨[50], 0⟩
  timeout_ := 1000
  clock n := n
  rand_r seed := (0, seed)

/-- A put that is queued, sent and answered, and a get and another put that are queued. -/
def sampleEvents : List Event :=
  [.put [107] [118] .lww, .receive (some ⟨[⟨[107], [[116, 58, 49]]⟩], .noError⟩) none, .get [108],
    .receive none (some ⟨.put, [{ key := [107] }], [50, 58, 48, 95, 49], .noError⟩), .put [109] [118] .lww]

theorem sampleEvents_wellFormed : ∀ e ∈ sampleEvents, e.WellFormed ∧ ¬ e.WrongThread := by
  have hgood : GoodAddress [116, 58, 49] := ⟨List.cons_ne_nil _ _, by decide⟩
  simp [sampleEvents, Event.WellFormed, Event.WrongThread, hgood]

/-- No request is lost, and no answer comes from nowhere: whatever messages arrive, in whatever order, a request
that was made is queued, or sent, or has been answered. -/
theorem requests_complete (cfg : Setting) (seed : UInt32) {es : List Event} (hes : ∀ e ∈ es, e.WellFormed) :
    ∃ o c, KvsClient.run cfg { seed_ := seed } es = some (o, c) ∧
      ∀ t, t ∈ o.issued ↔ t ∈ c.queued ∨ t ∈ c.sent ∨ t ∈ tickets o.responses := by
  obtain ⟨o, c, hrun, -, hmoves⟩ := KvsClient.run_moves cfg (KvsClient.wf_start seed) hes
  have hmoves₀ := hmoves 0 0
  rw [KvsClient.book_start, add_zero, add_zero] at hmoves₀
  refine ⟨o, c, hrun, fun t => ?_⟩
  exact hmoves₀.complete (fun t => by simp) t

theorem requests_complete_sample :
    ∃ o c, KvsClient.run sampleSetting { seed_ := 7 } sampleEvents = some (o, c) ∧
      ∀ t, t ∈ o.issued ↔ t ∈ c.queued ∨ t ∈ c.sent ∨ t ∈ tickets o.responses :=
  requests_complete sampleSetting 7 fun e he => (sampleEvents_wellFormed e he).1

/-- As long as no worker says that it is the wrong one, no request is answered more often than it was made, all
puts have different ids, and a put is at one place only: it is queued, or sent, or has been answered once. Request
ids are repeated only after 2 ^ 31 of them. -/
theorem puts_exact (cfg : Setting) (seed : UInt32) {es : List Event}
    (hes : ∀ e ∈ es, e.WellFormed ∧ ¬ e.WrongThread) (hlen : es.length < 2 ^ 30) :
    ∃ o c, KvsClient.run cfg { seed_ := seed } es = some (o, c) ∧
      c.queued + c.sent + tickets o.responses ≤ o.issued ∧ (putIds o.issued).Nodup ∧ ∀ key id,
      (c.queued + c.sent + tickets o.responses).count (.put key id) = o.issued.count (.put key id) ∧
      o.issued.count (.put key id) ≤ 1 := by
  have hwf := KvsClient.wf_start seed
  have hformed : ∀ e ∈ es, e.WellFormed := fun e he => (hes e he).1
  obtain ⟨o, c, hrun, -, hmoves⟩ := KvsClient.run_moves cfg hwf hformed
  have hright : ¬ ∃ e ∈ es, e.WrongThread := by
    rintro ⟨e, he, hwrong⟩
    exact (hes e he).2 hwrong
  have hmoves₀ := (hmoves 0 0).mono hright
  rw [KvsClient.book_start, add_zero, add_zero] at hmoves₀
  obtain ⟨n, -, -, -, -, hnodup⟩ := KvsClient.run_draws cfg hwf hformed hrun (n := 0) rfl (by omega)
  have hone := KvsClient.count_put_le_one hnodup
  refine ⟨o, c, hrun, hmoves₀.le_issued (by simp), hnodup, fun key id => ?_⟩
  have hcount : (o.issued : Multiset Ticket).count (.put key id) = o.issued.count (.put key id) :=
    Multiset.coe_count _ _
  refine ⟨?_, hone key id⟩
  rw [← hcount]
  exact hmoves₀.exact (hcount.trans_le (hone key id)) rfl

theorem puts_exact_sample :
    ∃ o c, KvsClient.run sampleSetting { seed_ := 7 } sampleEvents = some (o, c) ∧
      c.queued + c.sent + tickets o.responses ≤ o.issued ∧ (putIds o.issued).Nodup ∧ ∀ key id,
      (c.queued + c.sent + tickets o.responses).count (.put key id) = o.issued.count (.put key id) ∧
      o.issued.count (.put key id) ≤ 1 :=
  puts_exact sampleSetting 7 sampleEvents_wellFormed (by decide)

/-- After `get_async` the key is asked for until there is an answer. -/
theorem gets_wait (cfg : Setting) (seed : UInt32) {es es' : List Event} (hes : ∀ e ∈ es, e.WellFormed)
    (hes' : ∀ e ∈ es', e.WellFormed) (key : Bytes) :
    ∃ o c, KvsClient.run cfg { seed_ := seed } es = some (o, c) ∧
      ∃ o' c', (c.getAsync cfg key).run cfg es' = some (o', c') ∧
        (.get key ∈ c'.queued ∨ .get key ∈ c'.sent ∨ .get key ∈ tickets o'.responses) := by
  obtain ⟨o, c, hrun, hwf, -⟩ := KvsClient.run_moves cfg (KvsClient.wf_start seed) hes
  obtain ⟨hwf₁, hwaits, -⟩ := KvsClient.getAsync_spec cfg hwf key
  obtain ⟨o', c', hrun', -, hmoves⟩ := KvsClient.run_moves cfg hwf₁ hes'
  refine ⟨o, c, hrun, o', c', hrun', ?_⟩
  rcases (hmoves 0 0).kept hwaits with (hqueued | hsent) | hanswered
  · exact .inl hqueued
  · exact .inr (.inl hsent)
  · have hpos := Multiset.count_pos.mp (Nat.zero_lt_of_lt hanswered)
    exact .inr (.inr (by simpa [KvsClient.book] using hpos))

theorem gets_wait_sample :
    ∃ o c, KvsClient.run sampleSetting { seed_ := 7 } sampleEvents = some (o, c) ∧
      ∃ o' c', (c.getAsync sampleSetting [107]).run sampleSetting sampleEvents = some (o', c') ∧
        (.get [107] ∈ c'.queued ∨ .get [107] ∈ c'.sent ∨ .get [107] ∈ tickets o'.responses) :=
  gets_wait sampleSetting 7 (fun e he => (sampleEvents_wellFormed e he).1)
    (fun e he => (sampleEvents_wellFormed e he).1) [107]

end Anna
