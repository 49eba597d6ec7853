import Fuyao.Anna.Proofs.RequestsProofs

/-!
# Proofs: requests do not wait for ever

Every time that is kept with a request is a reading of the clock (`KvsClient.run_timed`). When all of them are
too long ago, `receive_async` answers whatever waits (`timeouts_answer`). A request that is sent again waits
twice then (`refused_puts_answered_twice`).
-/

namespace Anna

open Cpp Ledger

namespace KvsClient

variable (cfg : Setting) {c c' : KvsClient}

/-! ## Loops that give up everything -/

/-- A request of this time is given up, now or later. -/
def TooOld (c : KvsClient) (t : ℤ) : Prop :=
  ∀ k, c.readings ≤ k → cfg.timeout_.toNat < millisecondsBetween t (cfg.clock k)

theorem TooOld.mono {t : ℤ} (h : c.TooOld cfg t) (hle : c.readings ≤ c'.readings) : c'.TooOld cfg t :=
  fun k hk => h k (hle.trans hk)

theorem collect_all {α : Type} {tp : α → ℤ} {drop : KvsClient → α → Option KvsClient} {xs late : List α}
    (hdrop : ∀ c x c', drop c x = some c' → c'.Later c) (hold : ∀ x ∈ xs, c.TooOld cfg (tp x))
    (h : c.collect cfg tp drop xs = some (late, c')) : late = xs := by
  induction xs generalizing c late with
  | nil =>
    cases h
    rfl
  | cons x xs ih =>
    rw [List.forall_mem_cons] at hold
    have hlate : millisecondsBetween (tp x) (c.now cfg).1 > cfg.timeout_.toNat := hold.1 c.readings le_rfl
    rw [collect] at h
    dsimp only at h
    rw [if_pos hlate] at h
    obtain ⟨c₁, hc₁, h⟩ := Option.bind_eq_some_iff.mp h
    obtain ⟨⟨late₁, c₂⟩, hc₂, h⟩ := Option.bind_eq_some_iff.mp h
    cases h
    have hlater : c₁.Later c := (hdrop _ x c₁ hc₁).trans (later_now cfg c)
    rw [ih (fun y hy => (hold.2 y hy).mono cfg hlater.readings) hc₂]

/-- Every queued request is answered, and the other maps stay as they are. -/
theorem collectRequests_all {rs : List KeyResponse}
    (hold : ∀ key e, c.pending_request_map_.lookup key = some e → c.TooOld cfg e.1)
    (h : c.collectRequests cfg = some (rs, c')) :
    (tickets rs : Multiset Ticket) = c.queued ∧ c'.queued = 0 ∧
      c'.pending_get_response_map_ = c.pending_get_response_map_ ∧
      c'.pending_put_response_map_ = c.pending_put_response_map_ ∧ c.readings ≤ c'.readings := by
  obtain ⟨⟨late, c₁⟩, hcollect, h⟩ := Option.bind_eq_some_iff.mp h
  have hlater := later_collect cfg (fun c _ _ h => later_some c h) hcollect
  obtain rfl := collect_all cfg (fun c _ _ h => later_some c h)
    (fun e he => hold e.1 e.2 (AList.mem_lookup_iff.mpr he)) hcollect
  cases h
  refine ⟨?_, ?_, hlater.gets, hlater.puts, hlater.readings⟩
  · rw [tickets_requests, ← Multiset.coe_bind]
    rfl
  · change UnorderedMap.total _ (c.pending_request_map_.entries.foldl (fun m e => m.erase e.1)
      c₁.pending_request_map_) = 0
    rw [hlater.requests]
    exact UnorderedMap.total_foldl_erase_entries _ _

theorem collectGets_all (hwf : c.maps.Wf) {rs : List KeyResponse}
    (hold : ∀ key p, c.pending_get_response_map_.lookup key = some p → c.TooOld cfg p.tp_)
    (h : c.collectGets cfg = some (rs, c')) :
    (tickets rs : Multiset Ticket) = (c.pending_get_response_map_.total fun key _ => {.get key}) ∧
      (c'.pending_get_response_map_.total fun key _ => ({.get key} : Multiset Ticket)) = 0 ∧
      c'.pending_request_map_ = c.pending_request_map_ ∧
      c'.pending_put_response_map_ = c.pending_put_response_map_ ∧ c.readings ≤ c'.readings := by
  obtain ⟨⟨late, c₁⟩, hcollect, h⟩ := Option.bind_eq_some_iff.mp h
  have hlookup : ∀ e ∈ c.pending_get_response_map_.entries, c.maps.gets.lookup e.1 = some e.2 :=
    fun e he => AList.mem_lookup_iff.mpr he
  have hlater := later_collect cfg (fun _ _ _ h => later_invalidateCacheForWorker h) hcollect
  obtain rfl := collect_all cfg (fun _ _ _ h => later_invalidateCacheForWorker h)
    (fun e he => hold e.1 e.2 (hlookup e he)) hcollect
  cases h
  refine ⟨?_, ?_, hlater.requests, hlater.puts, hlater.readings⟩
  · rw [tickets_gets hwf hlookup, ← Multiset.coe_bind]
    rfl
  · change UnorderedMap.total _ (c.pending_get_response_map_.entries.foldl (fun m e => m.erase e.1)
      c₁.pending_get_response_map_) = 0
    rw [hlater.gets]
    exact UnorderedMap.total_foldl_erase_entries _ _

theorem collectPuts_all (hwf : c.maps.Wf) {rs : List KeyResponse}
    (hold : ∀ key id p, (c.pendingPuts key).lookup id = some p → c.TooOld cfg p.tp_)
    (hgets : (c.pending_get_response_map_.total fun key _ => ({.get key} : Multiset Ticket)) = 0)
    (h : c.collectPuts cfg = some (rs, c')) :
    (tickets rs : Multiset Ticket) = c.sent ∧ c'.sent = 0 ∧ c'.queued = c.queued := by
  obtain ⟨⟨late, c₁⟩, hcollect, h⟩ := Option.bind_eq_some_iff.mp h
  have hlater := later_collect cfg (fun _ _ _ h => later_invalidateCacheForWorker h) hcollect
  obtain rfl := collect_all cfg (fun _ _ _ h => later_invalidateCacheForWorker h)
    (fun p hp => hold p.1 p.2.1 p.2.2 (lookup_of_mem_allPuts hp)) hcollect
  have hsent : c.sent = (c.allPuts.map fun p => Ticket.put p.1 p.2.1 : List Ticket) := by
    unfold sent
    rw [hgets, zero_add, allPuts, List.map_flatMap, ← Multiset.coe_bind]
    refine congrArg _ (funext fun e => ?_)
    rw [List.map_map, List.map_eq_flatMap, ← Multiset.coe_bind]
    rfl
  have hsent₁ : c₁.maps.sent = c.sent := by
    change (c₁.pending_get_response_map_.total _) + c₁.pending_put_response_map_.total _ = _
    rw [hlater.gets, hlater.puts]
    rfl
  have hlookup : ∀ p ∈ c.allPuts, (c₁.maps.pendingPuts p.1).lookup p.2.1 = some p.2.2 := by
    intro p hp
    change ((c₁.pending_put_response_map_.lookup p.1).getD ∅).lookup p.2.1 = _
    rw [hlater.puts]
    exact lookup_of_mem_allPuts hp
  obtain ⟨-, hqueued, herased⟩ := Maps.foldl_erasePut nodup_allPuts hlookup
  rw [← maps_foldl_erasePut] at hqueued herased
  rw [hsent₁, hsent] at herased
  cases h
  refine ⟨by rw [tickets_puts hwf fun _ => lookup_of_mem_allPuts, hsent], left_eq_add.mp herased, hqueued.trans ?_⟩
  change UnorderedMap.total _ c₁.pending_request_map_ = _
  rw [hlater.requests]
  rfl

/-! ## The times that are kept -/

/-- The times that are kept with the requests all have a property. -/
structure Maps.Timed (S : ℤ → Prop) (m : Maps) : Prop where
  requests : ∀ key e, m.requests.lookup key = some e → S e.1
  gets : ∀ key p, m.gets.lookup key = some p → S p.tp_
  puts : ∀ key id p, (m.pendingPuts key).lookup id = some p → S p.tp_

namespace Maps.Timed

variable {S S' : ℤ → Prop} {m m' : Maps}

theorem mono (h : m.Timed S) (hS : ∀ t, S t → S' t) : m.Timed S' :=
  ⟨fun key e he => hS _ (h.requests key e he), fun key p hp => hS _ (h.gets key p hp),
    fun key id p hp => hS _ (h.puts key id p hp)⟩

theorem within (h : m.Timed S) (hm : m'.Within m) : m'.Timed S :=
  ⟨fun key e he => h.requests key e (hm.requests key e he), fun key p hp => h.gets key p (hm.gets key p hp),
    fun key id p hp => h.puts key id p (hm.puts key id p hp)⟩

theorem insertRequests (h : m.Timed S) (key : Bytes) {tp : ℤ} (htp : S tp) (rs : List KeyRequest) :
    Maps.Timed S { m with requests := m.requests.insert key (tp, rs) } := by
  refine ⟨fun key' e he => ?_, h.gets, h.puts⟩
  by_cases hkey : key' = key
  · subst hkey
    cases (AList.lookup_insert (s := m.requests)).symm.trans he
    exact htp
  · exact h.requests key' e ((AList.lookup_insert_ne (s := m.requests) hkey).symm.trans he)

theorem awaitGet (h : m.Timed S) (key : Bytes) {p : PendingRequest} (hp : S p.tp_) :
    (m.awaitGet key p).Timed S := by
  refine ⟨h.requests, fun key' p' hp' => ?_, h.puts⟩
  by_cases hkey : key' = key
  · subst hkey
    cases (AList.lookup_insert (s := m.gets)).symm.trans hp'
    exact hp
  · exact h.gets key' p' ((AList.lookup_insert_ne (s := m.gets) hkey).symm.trans hp')

theorem awaitPut (h : m.Timed S) (key id : Bytes) {p : PendingRequest} (hp : S p.tp_) :
    (m.awaitPut key id p).Timed S := by
  refine ⟨h.requests, h.gets, fun key' id' p' hp' => ?_⟩
  rw [Maps.awaitPut, Maps.pendingPuts_insert] at hp'
  by_cases hkey : key' = key
  · subst hkey
    rw [if_pos rfl] at hp'
    by_cases hid : id' = id
    · subst hid
      rw [AList.lookup_insert] at hp'
      cases hp'
      exact hp
    · rw [AList.lookup_insert_ne hid] at hp'
      exact h.puts key' id' p' hp'
  · rw [if_neg hkey] at hp'
    exact h.puts key' id' p' hp'

end Maps.Timed

/-- A time that the clock has shown. -/
def Read (n : ℕ) (t : ℤ) : Prop := ∃ k < n, cfg.clock k = t

theorem Read.mono {n n' : ℕ} {t : ℤ} (h : Read cfg n t) (hle : n ≤ n') : Read cfg n' t := by
  obtain ⟨k, hk, ht⟩ := h
  exact ⟨k, hk.trans_le hle, ht⟩

/-- The times that the client keeps are readings of the clock that it has made. -/
def Timed (c : KvsClient) : Prop := c.maps.Timed (Read cfg c.readings)

theorem Timed.within (h : c.Timed cfg) (hmaps : c'.maps.Within c.maps) (hle : c.readings ≤ c'.readings) :
    c'.Timed cfg :=
  (Maps.Timed.within h hmaps).mono fun _ ht => ht.mono cfg hle

theorem Timed.now (h : c.Timed cfg) : (c.now cfg).2.Timed cfg := h.within cfg (.refl _) (Nat.le_succ _)

theorem read_now : Read cfg (c.now cfg).2.readings (c.now cfg).1 := ⟨c.readings, Nat.lt_succ_self _, rfl⟩

theorem Timed.enqueue (h : c.Timed cfg) (r : KeyRequest) : (c.enqueue cfg r).Timed cfg := by
  unfold KvsClient.enqueue
  dsimp only
  split
  · exact Maps.Timed.insertRequests (h.now cfg) _ (read_now cfg) _
  next tp requests hlookup => exact Maps.Timed.insertRequests h _ (h.requests _ _ hlookup) _

theorem Timed.await (h : c.Timed cfg) (r : KeyRequest) (worker : Bytes) : (c.await cfg r worker).Timed cfg := by
  unfold KvsClient.await
  dsimp only
  split
  · split
    · exact Maps.Timed.awaitGet (h.now cfg) _ (read_now cfg)
    next p hlookup => exact Maps.Timed.awaitGet h _ (h.gets _ p hlookup)
  · split
    · exact Maps.Timed.awaitPut (h.now cfg) _ _ (read_now cfg)
    next p hlookup => exact Maps.Timed.awaitPut h _ _ (h.puts _ _ p hlookup)

theorem readings_getWorkerThread (key : Bytes) : (c.getWorkerThread cfg key).2.readings = c.readings := by
  have hall : (c.getAllWorkerThreads cfg key).2.readings = c.readings := by
    unfold getAllWorkerThreads
    split
    · dsimp only
      split <;> rfl
    · rfl
  unfold getWorkerThread
  dsimp only
  split
  · exact hall
  · exact hall

theorem Timed.tryRequest (h : c.Timed cfg) (r : KeyRequest) : (c.tryRequest cfg r).Timed cfg := by
  have hworker : (c.getWorkerThread cfg r.tuple.key).2.Timed cfg := by
    unfold Timed
    rw [maps_getWorkerThread, readings_getWorkerThread]
    exact h
  unfold KvsClient.tryRequest
  dsimp only
  split
  · exact hworker.enqueue cfg r
  · refine Timed.await cfg ?_ _ _
    exact hworker

theorem Timed.tryAll {key : Bytes} {requests : List KeyRequest} (h : c.Timed cfg)
    (htry : c.tryAll cfg key requests = some c') : c'.Timed cfg := by
  induction requests generalizing c with
  | nil =>
    cases htry
    exact h
  | cons r requests ih =>
    rw [KvsClient.tryAll] at htry
    split at htry
    · exact ih (h.tryRequest cfg r) htry
    · cases htry

theorem Timed.receiveAddress (h : c.Timed cfg) {response : KeyAddressResponse}
    (hreceive : c.receiveAddress cfg response = some c') : c'.Timed cfg := by
  unfold KvsClient.receiveAddress at hreceive
  split at hreceive
  · cases hreceive
  next address _ _ =>
    split at hreceive
    · cases hreceive
      exact h
    next tp requests hrequests =>
      split at hreceive
      · cases hreceive
        exact Maps.Timed.insertRequests (h.now cfg) _ (read_now cfg) _
      · obtain ⟨cache, hcache⟩ := foldl_cacheAddress_eq address.key address.ips c
        obtain ⟨c₁, htry, rfl⟩ := Option.map_eq_some_iff.mp hreceive
        rw [hcache] at htry
        have h₀ : Timed cfg { c with key_address_cache_ := cache } := ⟨h.requests, h.gets, h.puts⟩
        have h₁ := h₀.tryAll cfg htry
        exact h₁.within cfg (.eraseRequests c₁.maps address.key) le_rfl

theorem Timed.checkTuple (h : c.Timed cfg) (tuple : KeyTuple) : (c.checkTuple tuple).2.Timed cfg := by
  have hreadings : (c.checkTuple tuple).2.readings = c.readings := by
    unfold KvsClient.checkTuple
    split
    · rfl
    · split <;> rfl
  obtain ⟨-, -, hwithin⟩ := checkTuple_snd (c := c) tuple
  exact h.within cfg hwithin hreadings.ge

theorem Timed.receiveResponse (h : c.Timed cfg) {response : KeyResponse} {rs : List KeyResponse}
    (hreceive : c.receiveResponse cfg response = some (rs, c')) : c'.Timed cfg := by
  unfold KvsClient.receiveResponse at hreceive
  split at hreceive
  · cases hreceive
  next tuple _ _ =>
    have h₁ := h.checkTuple cfg tuple
    dsimp only at hreceive
    generalize c.checkTuple tuple = checked at hreceive h₁
    obtain ⟨again, c₁⟩ := checked
    dsimp only at hreceive h₁
    split at hreceive
    · split at hreceive
      · cases hreceive
        exact h
      · split at hreceive
        · cases hreceive
          refine Timed.tryRequest cfg ?_ _
          exact Maps.Timed.awaitGet (h₁.now cfg) _ (read_now cfg)
        · cases hreceive
          exact h₁.within cfg (.eraseGet c₁.maps tuple.key) le_rfl
    · split at hreceive
      · cases hreceive
        exact h
      · split at hreceive
        · cases hreceive
          refine Timed.tryRequest cfg ?_ _
          exact Maps.Timed.awaitPut (h₁.now cfg) _ _ (read_now cfg)
        · cases hreceive
          have h₂ : (c₁.erasePut tuple.key response.response_id).Timed cfg :=
            h₁.within cfg (.erasePut c₁.maps tuple.key response.response_id) le_rfl
          split
          · exact h₂.within cfg (.dropPuts (c₁.erasePut tuple.key response.response_id).maps tuple.key) le_rfl
          · exact h₂

theorem Timed.later (h : c.Timed cfg) (hlater : c'.Later c) : c'.Timed cfg := by
  have hmaps : c'.maps.Timed (Read cfg c.readings) := by
    refine ⟨?_, ?_, ?_⟩
    · change ∀ key e, c'.pending_request_map_.lookup key = some e → _
      rw [hlater.requests]
      exact h.requests
    · change ∀ key p, c'.pending_get_response_map_.lookup key = some p → _
      rw [hlater.gets]
      exact h.gets
    · change ∀ key id p, ((c'.pending_put_response_map_.lookup key).getD ∅).lookup id = some p → _
      rw [hlater.puts]
      exact h.puts
  exact hmaps.mono fun _ ht => ht.mono cfg hlater.readings

theorem Timed.collectRequests (h : c.Timed cfg) {rs : List KeyResponse}
    (hcollect : c.collectRequests cfg = some (rs, c')) : c'.Timed cfg := by
  obtain ⟨⟨late, c₁⟩, hloop, hcollect⟩ := Option.bind_eq_some_iff.mp hcollect
  have h₁ := h.later cfg (later_collect cfg (fun c _ _ h => later_some c h) hloop)
  cases hcollect
  exact ⟨fun key e he => h₁.requests key e (UnorderedMap.lookup_foldl_erase he), h₁.gets, h₁.puts⟩

theorem Timed.collectGets (h : c.Timed cfg) {rs : List KeyResponse}
    (hcollect : c.collectGets cfg = some (rs, c')) : c'.Timed cfg := by
  obtain ⟨⟨late, c₁⟩, hloop, hcollect⟩ := Option.bind_eq_some_iff.mp hcollect
  have h₁ := h.later cfg (later_collect cfg (fun _ _ _ h => later_invalidateCacheForWorker h) hloop)
  cases hcollect
  exact ⟨h₁.requests, fun key p hp => h₁.gets key p (UnorderedMap.lookup_foldl_erase hp), h₁.puts⟩

theorem Timed.collectPuts (h : c.Timed cfg) {rs : List KeyResponse}
    (hcollect : c.collectPuts cfg = some (rs, c')) : c'.Timed cfg := by
  obtain ⟨⟨late, c₁⟩, hloop, hcollect⟩ := Option.bind_eq_some_iff.mp hcollect
  have h₁ := h.later cfg (later_collect cfg (fun _ _ _ h => later_invalidateCacheForWorker h) hloop)
  cases hcollect
  have herase (l : List (Bytes × (_ : Bytes) × PendingRequest)) : ∀ {c : KvsClient}, c.Timed cfg →
      (l.foldl (fun c p => c.erasePut p.1 p.2.1) c).Timed cfg := by
    induction l with
    | nil => exact fun h => h
    | cons p l ih =>
      intro c h
      exact ih (c := c.erasePut p.1 p.2.1) (h.within cfg (.erasePut c.maps p.1 p.2.1) le_rfl)
  exact herase late h₁

theorem Timed.receiveAsync (h : c.Timed cfg) {address : Option KeyAddressResponse} {response : Option KeyResponse}
    {rs : List KeyResponse} (hreceive : c.receiveAsync cfg address response = some (rs, c')) : c'.Timed cfg := by
  obtain ⟨c₁, hc₁, hreceive⟩ := Option.bind_eq_some_iff.mp hreceive
  obtain ⟨⟨rs₂, c₂⟩, hc₂, hreceive⟩ := Option.bind_eq_some_iff.mp hreceive
  obtain ⟨⟨rs₃, c₃⟩, hc₃, hreceive⟩ := Option.bind_eq_some_iff.mp hreceive
  obtain ⟨⟨rs₄, c₄⟩, hc₄, hreceive⟩ := Option.bind_eq_some_iff.mp hreceive
  obtain ⟨⟨rs₅, c₅⟩, hc₅, hreceive⟩ := Option.bind_eq_some_iff.mp hreceive
  cases hreceive
  have h₁ : c₁.Timed cfg := by
    cases address with
    | none =>
      cases hc₁
      exact h
    | some r => exact h.receiveAddress cfg hc₁
  have h₂ : c₂.Timed cfg := by
    cases response with
    | none =>
      cases hc₂
      exact h₁
    | some r => exact h₁.receiveResponse cfg hc₂
  exact ((h₂.collectRequests cfg hc₃).collectGets cfg hc₄).collectPuts cfg hc₅

theorem step_timed (h : c.Timed cfg) {e : Event} {o : Outcome} (hstep : c.step cfg e = some (o, c')) :
    c'.Timed cfg := by
  cases e with
  | put key payload lattice_type =>
    cases hstep
    refine Timed.tryRequest cfg ?_ _
    exact h
  | get key =>
    cases hstep
    unfold getAsync
    split
    · refine Timed.tryRequest cfg ?_ _
      exact h
    · exact h
  | receive address response =>
    obtain ⟨⟨rs, c₁⟩, hreceive, hstep⟩ := Option.map_eq_some_iff.mp hstep
    cases hstep
    exact h.receiveAsync cfg hreceive

theorem run_timed (h : c.Timed cfg) {es : List Event} {o : Outcome} (hrun : c.run cfg es = some (o, c')) :
    c'.Timed cfg := by
  induction es generalizing c o with
  | nil =>
    cases hrun
    exact h
  | cons e es ih =>
    obtain ⟨⟨o₁, c₁⟩, hstep, hrun⟩ := Option.bind_eq_some_iff.mp hrun
    obtain ⟨⟨os, c₂⟩, hrest, hrun⟩ := Option.bind_eq_some_iff.mp hrun
    cases hrun
    exact ih (step_timed cfg h hstep) hrest

theorem timed_start (seed : UInt32) : Timed cfg { seed_ := seed } where
  requests key e he := by simp [maps] at he
  gets key p hp := by simp [maps] at hp
  puts key id p hp := by simp [maps, Maps.pendingPuts] at hp

/-- All that waits is given up once it has waited too long. -/
theorem receiveAsync_all (hwf : c.maps.Wf) (htimed : c.Timed cfg)
    (hold : ∀ j, j < c.readings → c.TooOld cfg (cfg.clock j)) :
    ∃ rs c', c.receiveAsync cfg none none = some (rs, c') ∧ c'.queued = 0 ∧ c'.sent = 0 ∧
      (tickets rs : Multiset Ticket) = c.queued + c.sent := by
  have hread {t : ℤ} (ht : Read cfg c.readings t) : c.TooOld cfg t := by
    obtain ⟨j, hj, rfl⟩ := ht
    exact hold j hj
  obtain ⟨rs₃, c₃, hc₃, hwf₃, -⟩ := collectRequests_spec cfg hwf
  obtain ⟨rs₄, c₄, hc₄, hwf₄, -⟩ := collectGets_spec cfg hwf₃
  obtain ⟨rs₅, c₅, hc₅, -, -⟩ := collectPuts_spec cfg hwf₄
  obtain ⟨htickets₃, hqueued₃, hgets₃, hputs₃, hle₃⟩ :=
    collectRequests_all cfg (fun key e he => hread (htimed.requests key e he)) hc₃
  obtain ⟨htickets₄, hgets₄, hrequests₄, hputs₄, hle₄⟩ := collectGets_all cfg hwf₃ (fun key p hp => by
    rw [hgets₃] at hp
    exact (hread (htimed.gets key p hp)).mono cfg hle₃) hc₄
  obtain ⟨htickets₅, hsent₅, hqueued₅⟩ := collectPuts_all cfg hwf₄ (fun key id p hp => by
    rw [pendingPuts, hputs₄, hputs₃] at hp
    exact (hread (htimed.puts key id p hp)).mono cfg (hle₃.trans hle₄)) hgets₄ hc₅
  refine ⟨[] ++ rs₃ ++ rs₄ ++ rs₅, c₅, ?_, ?_, hsent₅, ?_⟩
  · unfold receiveAsync
    dsimp only [Option.elim_none, Option.bind_eq_bind, Option.bind_some]
    rw [hc₃]
    dsimp only [Option.bind_some]
    rw [hc₄]
    dsimp only [Option.bind_some]
    rw [hc₅]
    rfl
  · rw [hqueued₅, queued, hrequests₄]
    exact hqueued₃
  · have hsent₄ : (c₃.pending_get_response_map_.total fun key _ => ({.get key} : Multiset Ticket)) + c₄.sent =
        c.sent := by
      rw [sent, hgets₄, zero_add, hputs₄, hputs₃, hgets₃, sent]
    rw [List.nil_append, tickets, List.filterMap_append, List.filterMap_append, ← Multiset.coe_add,
      ← Multiset.coe_add]
    change (tickets rs₃ : Multiset Ticket) + tickets rs₄ + tickets rs₅ = _
    rw [htickets₃, htickets₄, htickets₅, add_assoc, hsent₄]

/-! ## Requests that are sent again -/

/-- Nothing is given up before the clock has passed the timeout. -/
theorem collect_none {α : Type} {tp : α → ℤ} {drop : KvsClient → α → Option KvsClient} {xs late : List α}
    (hdrop : ∀ c x c', drop c x = some c' → c'.Later c) (h : c.collect cfg tp drop xs = some (late, c'))
    (hyoung : ∀ x ∈ xs, ∀ k, k < c'.readings → millisecondsBetween (tp x) (cfg.clock k) ≤ cfg.timeout_.toNat) :
    late = [] := by
  induction xs generalizing c late with
  | nil =>
    cases h
    rfl
  | cons x xs ih =>
    rw [List.forall_mem_cons] at hyoung
    have hreadings : c.readings < c'.readings := by
      rw [collect] at h
      dsimp only at h
      split at h
      · obtain ⟨c₁, hc₁, h⟩ := Option.bind_eq_some_iff.mp h
        obtain ⟨⟨late₁, c₂⟩, hc₂, h⟩ := Option.bind_eq_some_iff.mp h
        cases h
        exact (hdrop _ x c₁ hc₁).readings.trans (later_collect cfg hdrop hc₂).readings
      · exact (later_collect cfg hdrop h).readings
    have hlate : ¬ millisecondsBetween (tp x) (c.now cfg).1 > cfg.timeout_.toNat :=
      not_lt.mpr (hyoung.1 c.readings hreadings)
    rw [collect] at h
    dsimp only at h
    rw [if_neg hlate] at h
    exact ih h hyoung.2

/-- The clock has not passed the timeout. -/
def InTime (n : ℕ) : Prop :=
  ∀ j k, j < n → k < n → millisecondsBetween (cfg.clock j) (cfg.clock k) ≤ cfg.timeout_.toNat

theorem InTime.of_read {n n' : ℕ} (h : InTime cfg n') {t : ℤ} (ht : Read cfg n t) (hle : n ≤ n') :
    ∀ k, k < n' → millisecondsBetween t (cfg.clock k) ≤ cfg.timeout_.toNat := by
  obtain ⟨j, hj, rfl⟩ := ht
  exact fun k hk => h j k (hj.trans_le hle) hk

theorem InTime.mono {n n' : ℕ} (h : InTime cfg n') (hle : n ≤ n') : InTime cfg n :=
  fun j k hj hk => h j k (hj.trans_le hle) (hk.trans_le hle)

theorem collectRequests_none (htimed : c.Timed cfg) {rs : List KeyResponse}
    (h : c.collectRequests cfg = some (rs, c')) (htime : InTime cfg c'.readings) : c'.Later c := by
  obtain ⟨⟨late, c₁⟩, hcollect, h⟩ := Option.bind_eq_some_iff.mp h
  have hlater := later_collect cfg (fun c _ _ h => later_some c h) hcollect
  cases h
  obtain rfl := collect_none cfg (fun c _ _ h => later_some c h) hcollect fun e he =>
    htime.of_read cfg (htimed.requests e.1 e.2 (AList.mem_lookup_iff.mpr he)) hlater.readings
  exact hlater

theorem collectGets_none (htimed : c.Timed cfg) {rs : List KeyResponse}
    (h : c.collectGets cfg = some (rs, c')) (htime : InTime cfg c'.readings) : c'.Later c := by
  obtain ⟨⟨late, c₁⟩, hcollect, h⟩ := Option.bind_eq_some_iff.mp h
  have hlater := later_collect cfg (fun _ _ _ h => later_invalidateCacheForWorker h) hcollect
  cases h
  obtain rfl := collect_none cfg (fun _ _ _ h => later_invalidateCacheForWorker h) hcollect fun e he =>
    htime.of_read cfg (htimed.gets e.1 e.2 (AList.mem_lookup_iff.mpr he)) hlater.readings
  exact hlater

theorem collectPuts_none (htimed : c.Timed cfg) {rs : List KeyResponse}
    (h : c.collectPuts cfg = some (rs, c')) (htime : InTime cfg c'.readings) : c'.Later c := by
  obtain ⟨⟨late, c₁⟩, hcollect, h⟩ := Option.bind_eq_some_iff.mp h
  have hlater := later_collect cfg (fun _ _ _ h => later_invalidateCacheForWorker h) hcollect
  obtain ⟨puts, hputs⟩ := foldl_erasePut_eq late c₁
  cases h
  rw [hputs] at htime
  obtain rfl := collect_none cfg (fun _ _ _ h => later_invalidateCacheForWorker h) hcollect fun p hp =>
    htime.of_read cfg (htimed.puts p.1 p.2.1 p.2.2 (lookup_of_mem_allPuts hp)) hlater.readings
  exact hlater

theorem Later.queued (h : c'.Later c) : c'.queued = c.queued := by
  rw [KvsClient.queued, h.requests, KvsClient.queued]

theorem Later.sent (h : c'.Later c) : c'.sent = c.sent := by
  rw [KvsClient.sent, h.gets, h.puts, KvsClient.sent]

/-- A call that finds a response and gives up nothing. -/
theorem receiveAsync_none (htimed : c.Timed cfg) {response : KeyResponse} {rs rs₂ : List KeyResponse}
    {c₂ : KvsClient} (h : c.receiveAsync cfg none (some response) = some (rs, c'))
    (hresponse : c.receiveResponse cfg response = some (rs₂, c₂)) (htime : InTime cfg c'.readings) :
    c'.Later c₂ := by
  unfold receiveAsync at h
  dsimp only [Option.elim_none, Option.elim_some, Option.bind_eq_bind, Option.bind_some] at h
  rw [hresponse] at h
  dsimp only [Option.bind_some] at h
  obtain ⟨⟨rs₃, c₃⟩, hc₃, h⟩ := Option.bind_eq_some_iff.mp h
  obtain ⟨⟨rs₄, c₄⟩, hc₄, h⟩ := Option.bind_eq_some_iff.mp h
  obtain ⟨⟨rs₅, c₅⟩, hc₅, h⟩ := Option.bind_eq_some_iff.mp h
  cases h
  have htimed₂ := htimed.receiveResponse cfg hresponse
  have htimed₃ := htimed₂.collectRequests cfg hc₃
  have hlater₅ := collectPuts_none cfg (htimed₃.collectGets cfg hc₄) hc₅ htime
  have hlater₄ := collectGets_none cfg htimed₃ hc₄ (htime.mono cfg hlater₅.readings)
  have hlater₃ := collectRequests_none cfg htimed₂ hc₃
    (htime.mono cfg (hlater₄.readings.trans hlater₅.readings))
  exact hlater₅.trans (hlater₄.trans hlater₃)

theorem lookup_of_put_mem_sent {key id : Bytes} (h : .put key id ∈ c.sent) :
    ∃ p, (c.pendingPuts key).lookup id = some p := by
  rcases Multiset.mem_add.mp h with h | h
  · obtain ⟨key', p, -, hmem⟩ := (UnorderedMap.mem_total _).mp h
    cases Multiset.mem_singleton.mp hmem
  · obtain ⟨key', puts, hputs, hmem⟩ := (UnorderedMap.mem_total _).mp h
    obtain ⟨id', p, hp, hmem⟩ := (UnorderedMap.mem_total _).mp hmem
    cases Multiset.mem_singleton.mp hmem
    refine ⟨p, ?_⟩
    rw [pendingPuts, hputs]
    exact hp

/-- A put that a worker refuses is queued again, and goes on waiting for the worker. -/
theorem receiveResponse_refused (hwf : c.maps.Wf) {response : KeyResponse} {tuple : KeyTuple}
    {others : List KeyTuple} (htuples : response.tuples = tuple :: others) (htype : response.type ≠ .get)
    (herror : tuple.error = .wrongThread) (hput : .put tuple.key response.response_id ∈ c.sent) :
    ∃ c', c.receiveResponse cfg response = some ([], c') ∧
      .put tuple.key response.response_id ∈ c'.queued ∧ .put tuple.key response.response_id ∈ c'.sent := by
  obtain ⟨p, hp⟩ := lookup_of_put_mem_sent hput
  have hcheck : c.checkTuple tuple = (true, c.invalidateCacheForKey tuple.key) := if_pos herror
  obtain ⟨hticket, hworker⟩ := hwf.puts _ _ p hp
  have hkey : p.request_.tuple.key = tuple.key := by
    unfold KeyRequest.ticket at hticket
    split at hticket
    · cases hticket
    · exact (Ticket.put.inj hticket).1
  -- the client when the request is tried again
  let c₁ : KvsClient := ((c.invalidateCacheForKey tuple.key).now cfg).2
  let c₂ : KvsClient :=
    { c₁ with
      pending_put_response_map_ := c₁.pending_put_response_map_.insert tuple.key
        ((c₁.pendingPuts tuple.key).insert response.response_id { p with tp_ := (c.now cfg).1 }) }
  have hwf₁ : c₁.maps.Wf := by
    obtain ⟨-, -, hwithin⟩ := checkTuple_snd (c := c) tuple
    rw [hcheck] at hwithin
    exact hwf.within hwithin
  have hwf₂ : c₂.maps.Wf := hwf₁.awaitPut ⟨hticket, hworker⟩
  have hcached : (c₂.cached p.request_.tuple.key).elems = [] := by
    change ((AList.lookup p.request_.tuple.key (c.key_address_cache_.erase tuple.key)).getD ∅).elems = []
    rw [hkey, AList.lookup_erase]
    rfl
  obtain ⟨tp, htry⟩ := tryRequest_queues cfg hwf₂ hcached
  refine ⟨c₂.tryRequest cfg p.request_, ?_, ?_, ?_⟩
  · unfold receiveResponse
    rw [htuples]
    dsimp only
    rw [if_neg htype, hp, hcheck]
    rfl
  · change _ ∈ (c₂.tryRequest cfg p.request_).maps.queued
    rw [htry, Maps.queued_enqueue, hticket]
    exact Multiset.mem_cons_self _ _
  · change _ ∈ (c₂.tryRequest cfg p.request_).maps.sent
    rw [htry]
    refine Maps.put_mem_sent (m := c₂.maps) (p := { p with tp_ := (c.now cfg).1 }) ?_
    change ((c₁.maps.awaitPut tuple.key response.response_id _).pendingPuts tuple.key).lookup _ = _
    rw [Maps.awaitPut, Maps.pendingPuts_insert, if_pos rfl, AList.lookup_insert]

/-- A call that finds no message has only timeouts to report. -/
theorem error_of_receiveAsync_none {rs : List KeyResponse} (h : c.receiveAsync cfg none none = some (rs, c')) :
    ∀ r ∈ rs, r.error = .timeout := by
  unfold receiveAsync at h
  dsimp only [Option.elim_none, Option.bind_eq_bind, Option.bind_some] at h
  obtain ⟨⟨rs₃, c₃⟩, hc₃, h⟩ := Option.bind_eq_some_iff.mp h
  obtain ⟨⟨rs₄, c₄⟩, hc₄, h⟩ := Option.bind_eq_some_iff.mp h
  obtain ⟨⟨rs₅, c₅⟩, hc₅, h⟩ := Option.bind_eq_some_iff.mp h
  cases h
  obtain ⟨late₃, -, h₃⟩ := Option.bind_eq_some_iff.mp hc₃
  obtain ⟨late₄, -, h₄⟩ := Option.bind_eq_some_iff.mp hc₄
  obtain ⟨late₅, -, h₅⟩ := Option.bind_eq_some_iff.mp hc₅
  cases h₃
  cases h₄
  cases h₅
  intro r hr
  simp only [List.nil_append, List.mem_append, List.mem_flatMap, List.mem_map] at hr
  rcases hr with (⟨e, -, req, -, rfl⟩ | ⟨e, -, rfl⟩) | ⟨p, -, rfl⟩ <;> rfl

end KvsClient

/-- Nobody waits for ever: after every run, once the clock is past the timeout for every time it has shown so
far, a call of `receive_async` answers every request that waits, and nothing waits any more. A request that is
queued as well as sent is answered twice. -/
theorem timeouts_answer (cfg : Setting) (seed : UInt32) {es : List Event} (hes : ∀ e ∈ es, e.WellFormed) :
    ∃ o c, KvsClient.run cfg { seed_ := seed } es = some (o, c) ∧
      ((∀ j k, j < c.readings → c.readings ≤ k →
          cfg.timeout_.toNat < millisecondsBetween (cfg.clock j) (cfg.clock k)) →
        ∃ rs c', c.receiveAsync cfg none none = some (rs, c') ∧ c'.queued = 0 ∧ c'.sent = 0 ∧
          (tickets rs : Multiset Ticket) = c.queued + c.sent) := by
  obtain ⟨o, c, hrun, hwf, -⟩ := KvsClient.run_moves cfg (KvsClient.wf_start seed) hes
  have htimed := KvsClient.run_timed cfg (KvsClient.timed_start cfg seed) hrun
  exact ⟨o, c, hrun, fun hold => KvsClient.receiveAsync_all cfg hwf htimed fun j hj k hk => hold j k hj hk⟩

/-- A clock that passes the timeout after `n` readings. -/
def lateSetting (n : ℕ) : Setting := { sampleSetting with clock := fun k => if k < n then 0 else 2000000000 }

/-- A clock that has passed the timeout has passed it for all it has shown before. -/
theorem lateSetting_late {n j k : ℕ} (hj : j < n) (hk : n ≤ k) :
    (lateSetting n).timeout_.toNat < millisecondsBetween ((lateSetting n).clock j) ((lateSetting n).clock k) := by
  have hearly : (lateSetting n).clock j = 0 := if_pos hj
  have hlate : (lateSetting n).clock k = 2000000000 := if_neg (not_lt.mpr hk)
  rw [hearly, hlate]
  change (1000 : ℤ) < millisecondsBetween 0 2000000000
  decide

/-- A put is sent. -/
def sentEvents : List Event :=
  [.put [107] [118] .lww, .receive (some ⟨[⟨[107], [[116, 58, 49]]⟩], .noError⟩) none]

theorem sentEvents_wellFormed : ∀ e ∈ sentEvents, e.WellFormed := by
  have hgood : GoodAddress [116, 58, 49] := ⟨List.cons_ne_nil _ _, by decide⟩
  simp [sentEvents, Event.WellFormed, hgood]

theorem timeouts_answer_sample :
    ∃ o c, KvsClient.run (lateSetting 4) { seed_ := 7 } (sentEvents ++ [.get [108]]) = some (o, c) ∧
      c.queued = {.get [108]} ∧ c.sent = {.put [107] [50, 58, 48, 95, 49]} ∧
      ∃ rs c', c.receiveAsync (lateSetting 4) none none = some (rs, c') ∧ c'.queued = 0 ∧ c'.sent = 0 ∧
        (tickets rs : Multiset Ticket) = c.queued + c.sent := by
  have hes : ∀ e ∈ sentEvents ++ [.get [108]], e.WellFormed := by
    intro e he
    rcases List.mem_append.mp he with he | he
    · exact sentEvents_wellFormed e he
    · cases List.mem_singleton.mp he
      trivial
  have hwaits : ((KvsClient.run (lateSetting 4) { seed_ := 7 } (sentEvents ++ [.get [108]])).map fun r =>
      decide (r.2.readings = 4 ∧ r.2.queued = {.get [108]} ∧
        r.2.sent = {.put [107] [50, 58, 48, 95, 49]})) = some true := by decide +kernel
  obtain ⟨o, c, hrun, hall⟩ := timeouts_answer (lateSetting 4) 7 hes
  rw [hrun] at hwaits
  obtain ⟨hreadings, hqueued, hsent⟩ := of_decide_eq_true (Option.some.inj hwaits)
  rw [hreadings] at hall
  exact ⟨o, c, hrun, hqueued, hsent, hall fun j k => lateSetting_late⟩

/-- The exception to `puts_exact`: a put that waits for a worker, which then says that it is the wrong one. If the
clock passes the timeout only after that and the next call of `receive_async` finds no message, it gives the user
two answers, and all its answers are timeouts. -/
theorem refused_puts_answered_twice (cfg : Setting) (seed : UInt32) {es : List Event}
    (hes : ∀ e ∈ es, e.WellFormed) {response : KeyResponse} {tuple : KeyTuple} {others : List KeyTuple}
    (htuples : response.tuples = tuple :: others) (htype : response.type ≠ .get)
    (herror : tuple.error = .wrongThread) :
    ∃ o c, KvsClient.run cfg { seed_ := seed } es = some (o, c) ∧
      (.put tuple.key response.response_id ∈ c.sent →
        ∃ rs₁ c₁, c.receiveAsync cfg none (some response) = some (rs₁, c₁) ∧
          ((∀ j k, j < c₁.readings → k < c₁.readings →
              millisecondsBetween (cfg.clock j) (cfg.clock k) ≤ cfg.timeout_.toNat) →
            (∀ j k, j < c₁.readings → c₁.readings ≤ k →
              cfg.timeout_.toNat < millisecondsBetween (cfg.clock j) (cfg.clock k)) →
            ∃ rs c', c₁.receiveAsync cfg none none = some (rs, c') ∧ (∀ r ∈ rs, r.error = .timeout) ∧
              2 ≤ (tickets rs).count (.put tuple.key response.response_id))) := by
  obtain ⟨o, c, hrun, hwf, -⟩ := KvsClient.run_moves cfg (KvsClient.wf_start seed) hes
  have htimed := KvsClient.run_timed cfg (KvsClient.timed_start cfg seed) hrun
  refine ⟨o, c, hrun, fun hput => ?_⟩
  have hformed : (Event.receive none (some response)).WellFormed := by
    simp [Event.WellFormed, htuples]
  obtain ⟨rs₁, c₁, hreceive, hwf₁, -⟩ := KvsClient.receiveAsync_spec cfg hwf hformed
  refine ⟨rs₁, c₁, hreceive, fun htime hold => ?_⟩
  obtain ⟨c₂, hc₂, hqueued, hsent⟩ := KvsClient.receiveResponse_refused cfg hwf htuples htype herror hput
  have hlater : c₁.Later c₂ := KvsClient.receiveAsync_none cfg htimed hreceive hc₂ htime
  have htimed₁ := htimed.receiveAsync cfg hreceive
  obtain ⟨rs, c', hall, -, -, htickets⟩ :=
    KvsClient.receiveAsync_all cfg hwf₁ htimed₁ fun j hj k hk => hold j k hj hk
  refine ⟨rs, c', hall, KvsClient.error_of_receiveAsync_none cfg hall, ?_⟩
  rw [← Multiset.coe_count, htickets, hlater.queued, hlater.sent, Multiset.count_add]
  have hqueued' := Multiset.count_pos.mpr hqueued
  have hsent' := Multiset.count_pos.mpr hsent
  omega

/-- The answer of a worker thread that is not responsible for the key. -/
def refusal : KeyResponse :=
  ⟨.put, [{ key := [107], error := .wrongThread }], [50, 58, 48, 95, 49], .noError⟩

theorem refused_puts_answered_twice_sample :
    ∃ o c, KvsClient.run (lateSetting 7) { seed_ := 7 } sentEvents = some (o, c) ∧
      ∃ rs₁ c₁, c.receiveAsync (lateSetting 7) none (some refusal) = some (rs₁, c₁) ∧
        ∃ rs c', c₁.receiveAsync (lateSetting 7) none none = some (rs, c') ∧ (∀ r ∈ rs, r.error = .timeout) ∧
          2 ≤ (tickets rs).count (.put [107] [50, 58, 48, 95, 49]) := by
  have hsent : ((KvsClient.run (lateSetting 7) { seed_ := 7 } sentEvents).map fun r =>
      decide (.put [107] [50, 58, 48, 95, 49] ∈ r.2.sent)) = some true := by decide +kernel
  have hreadings : ((KvsClient.run (lateSetting 7) { seed_ := 7 } sentEvents).bind fun r =>
      (r.2.receiveAsync (lateSetting 7) none (some refusal)).map fun r => r.2.readings) = some 7 := by
    decide +kernel
  have htuples : refusal.tuples = [{ key := [107], error := .wrongThread }] := rfl
  obtain ⟨o, c, hrun, h⟩ :=
    refused_puts_answered_twice (lateSetting 7) 7 sentEvents_wellFormed htuples (by decide) rfl
  rw [hrun] at hsent hreadings
  obtain ⟨rs₁, c₁, hreceive, h⟩ := h (of_decide_eq_true (Option.some.inj hsent))
  rw [Option.bind_some, hreceive] at hreadings
  have hseven : c₁.readings = 7 := Option.some.inj hreadings
  rw [hseven] at h
  have hearly {n : ℕ} (hn : n < 7) : (lateSetting 7).clock n = 0 := if_pos hn
  refine ⟨o, c, hrun, rs₁, c₁, hreceive, h (fun j k hj hk => ?_) fun j k => lateSetting_late⟩
  rw [hearly hj, hearly hk]
  decide

end Anna
