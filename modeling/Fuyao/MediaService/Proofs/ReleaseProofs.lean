import Fuyao.MediaService.Proofs.CallersProofs
import Fuyao.MediaService.Proofs.ClientsProofs
import Fuyao.MediaService.Proofs.CountersProofs
import Fuyao.MediaService.Proofs.RatingProofs

/-!
# Proofs: handlers give back their clients

When a call has ended, every client it took from a pool has been given back, unless it found a rating
that is not an `int` or missed a counter, or, for `RatingHandler`, did not get a reply.
-/

namespace MediaService

open Cpp Concurrency

/-! ## `RatingHandler` -/

namespace Redis

variable {es : List ((o : Op) × o.Res)} {client : ℕ}

/-- `GetReply` takes and gives back no client, and yields `nullptr` if a reply does not come. -/
theorem getReply_path {out : Except Crash (Option Int)} (h : (getReply client).Path es out) :
    ∃ reply, out = .ok reply ∧ es.filterMap clientUse = [] ∧ (reply = none ↔ ∃ e ∈ es, NoReply e) := by
  obtain ⟨written, es, rfl, h⟩ := h
  cases written with
  | false =>
    obtain ⟨rfl, rfl⟩ := h
    exact ⟨none, rfl, rfl, by simp [NoReply]⟩
  | true =>
    obtain ⟨reply, es, rfl, rfl, rfl⟩ := h
    exact ⟨reply, rfl, rfl, by simp [NoReply]⟩

/-- The client is pushed if there are two replies. -/
theorem checkOk_path {incrby_reply incr_reply : Option Int} {out : Except Crash Int}
    (h : (do checkOk incrby_reply; checkOk incr_reply; ask (.push client); return 0 : RatingProg Int).Path
      es out) :
    es.filterMap clientUse =
        (if incrby_reply = none ∨ incr_reply = none then [] else [.giveBack client]) ∧
      ∀ e ∈ es, ¬ NoReply e := by
  cases incrby_reply with
  | none =>
    obtain ⟨rfl, -⟩ := h
    simp
  | some n =>
    cases incr_reply with
    | none =>
      obtain ⟨rfl, -⟩ := h
      simp
    | some m =>
      obtain ⟨_, es, rfl, rfl, -⟩ := h
      simp [clientUse, NoReply]

/-- From the two replies on: the client is given back if no reply is missing. -/
theorem getReplies_path {out : Except Crash Int}
    (h : (do
      let incrby_reply ← getReply client
      let incr_reply ← getReply client
      checkOk incrby_reply
      checkOk incr_reply
      ask (.push client)
      return 0 : RatingProg Int).Path es out) :
    givesBack (.take client :: es.filterMap clientUse) = true ↔ ∀ e ∈ es, ¬ NoReply e := by
  rcases Prog.path_bind.mp h with ⟨e, h₁, -⟩ | ⟨incrby_reply, es₁, es', rfl, h₁, h⟩
  · obtain ⟨reply, hreply, -⟩ := getReply_path h₁
    cases hreply
  rcases Prog.path_bind.mp h with ⟨e, h₂, -⟩ | ⟨incr_reply, es₂, es₃, rfl, h₂, h₃⟩
  · obtain ⟨reply, hreply, -⟩ := getReply_path h₂
    cases hreply
  obtain ⟨_, ⟨⟩, huse₁, hnone₁⟩ := getReply_path h₁
  obtain ⟨_, ⟨⟩, huse₂, hnone₂⟩ := getReply_path h₂
  obtain ⟨huse₃, hreply₃⟩ := checkOk_path h₃
  rw [List.filterMap_append, List.filterMap_append, huse₁, huse₂, huse₃, List.nil_append, List.nil_append]
  split
  next hnone =>
    refine ⟨fun hback => (by cases hback), fun hall => ?_⟩
    rcases hnone with hnone | hnone
    · obtain ⟨e, he, hno⟩ := hnone₁.mp hnone
      exact absurd hno (hall e (List.mem_append_left _ he))
    · obtain ⟨e, he, hno⟩ := hnone₂.mp hnone
      exact absurd hno (hall e (List.mem_append_right _ (List.mem_append_left _ he)))
  next hsome =>
    refine ⟨fun _ e he hno => ?_, fun _ => by simp [givesBack]⟩
    rcases List.mem_append.mp he with he | he
    · exact hsome (.inl (hnone₁.mpr ⟨e, he, hno⟩))
    rcases List.mem_append.mp he with he | he
    · exact hsome (.inr (hnone₂.mpr ⟨e, he, hno⟩))
    · exact hreply₃ e he hno

theorem uploadRating_givesBack_iff {val : MovieId} {out : Except Crash Int}
    (h : (uploadRating val).Path es out) :
    givesBack (es.filterMap clientUse) = true ↔ ∀ e ∈ es, ¬ NoReply e := by
  obtain ⟨ret, es, rfl, h⟩ := h
  change Prog.Path (if ret ≠ 0 then _ else _) es out at h
  split at h
  · obtain ⟨rfl, -⟩ := h
    exact ⟨fun _ => by simp [NoReply], fun _ => rfl⟩
  obtain ⟨popped, es, rfl, h⟩ := h
  cases popped with
  | none =>
    obtain ⟨rfl, -⟩ := h
    exact ⟨fun _ => by simp [NoReply], fun _ => rfl⟩
  | some client =>
    obtain ⟨_, _, rfl, _, es, rfl, h⟩ := h
    refine (getReplies_path h).trans ?_
    simp only [List.forall_mem_cons]
    exact ⟨fun hall => ⟨id, id, id, id, hall⟩, fun hall => hall.2.2.2.2⟩

/-- No operation of the handler waits for ever: it may succeed or fail. -/
theorem exec_isSome (o : Op) (w : Server) : ∃ ch r w', machine.exec o ch w = some (r, w') := by
  refine ⟨⟨0, none, false, 0⟩, ?_⟩
  cases o <;> exact ⟨_, _, rfl⟩

end Redis

/-! ## Runs -/

section Runs

variable {ι : Type} {calls : ι → ServiceCall}

/-- An operation of a call can always be performed. -/
theorem exec_isSome_of_asks {o : Op} (ho : (storeContract calls).asks o) (w : World) :
    ∃ ch r w', machine.exec o ch w = some (r, w') := by
  refine ⟨⟨.ok, 0⟩, ?_⟩
  cases o
  case startJob => exact ho.elim
  case futureGet => exact ho.elim
  case incr key delta =>
    cases h : w.memcached.incr key delta with
    | some x => exact ⟨some x.1, w.onMemcached x.2, by simp [machine, World.exec, World.faulty, h]⟩
    | none =>
      cases hget : w.memcached.get key with
      | none => exact ⟨some none, w, by simp [machine, World.exec, World.faulty, h, hget]⟩
      | some value => exact ⟨none, w, by simp [machine, World.exec, h, hget]⟩
  case readSucceed q f =>
    cases h : w.jobs q f with
    | finished succeed => exact ⟨succeed, w, by simp [machine, World.exec, h]⟩
    | _ => exact ⟨false, w, by simp [machine, World.exec, h]⟩
  all_goals exact ⟨_, _, rfl⟩

variable [DecidableEq ι] {adm : ServiceLabel ι → Prop} {c : ServiceConfig ι} {i : ι}

/-- A call that has not ended can go on. -/
theorem exists_step_of_reachable (hc : ReachableFrom World.empty adm (serviceCalls calls) c)
    (hout : (c.threads i).outcome = none) : ∃ ch c', c.step machine (.run i ch) = some c' := by
  have hi := ((storeContract_keptBy calls).sound (.empty calls) (run_settles calls) hc).2.2 i
  refine exists_step_of_unfinished hout fun o k hop => ?_
  rw [hop] at hi
  exact exec_isSome_of_asks hi.1 c.shared

theorem givesBack_iff_of_reachable (hc : ReachableFrom World.empty adm (serviceCalls calls) c)
    {out : Except Exn Int} (hout : (c.threads i).outcome = some out) :
    givesBack ((Config.answers i c.trace).filterMap clientUse) = true ↔
      ∀ e ∈ c.trace, e.thread = i → ¬ Stops ⟨e.op, e.res⟩ := by
  refine Iff.trans ?_ (forall_mem_answers (P := fun x => ¬ Stops x))
  rcases settles_of_reachable hc hout with hsettle | ⟨hnil, -⟩
  · exact hsettle.givesBack_iff
  · rw [hnil]
    exact ⟨fun _ => by simp, fun _ => rfl⟩

/-- A large rating that is found was uploaded. -/
theorem not_largeRating_of_reachable (hc : ReachableFrom World.empty adm (serviceCalls calls) c)
    (hfit : ∀ i val, calls i = .upload val .uploadRating → FitsInt val.rating)
    {e : ServiceEvent ι} (he : e ∈ c.trace) : ¬ LargeRating ⟨e.op, e.res⟩ := by
  have hgets := (((storeContract_keptBy calls).sound (.empty calls) (run_settles calls) hc).2.1 e he).2
  obtain ⟨j, o, r, w, w'⟩ := e
  cases o <;> try exact id
  case get key =>
    rcases r with _ | _ | value
    · exact id
    · exact id
    · rintro ⟨req_id, rating, rfl, rfl, hlarge⟩
      have hentry : Entry calls (keyComponent req_id Component.rating.op) (toStr rating.toInt) := hgets
      obtain ⟨val, i, hup, hvalue⟩ := hentry.component_value
      obtain rfl : rating = val.rating := Int64.toInt_inj.mp (toStr_injective hvalue)
      exact hlarge (hfit i val hup)

end Runs

section Release

variable {ι κ : Type} [DecidableEq ι] [DecidableEq κ] {calls : ι → ServiceCall} {c : ServiceConfig ι}
  {vals : κ → MovieId} {c' : Redis.RatingConfig κ}

/-- Whatever fails, expires or is evicted, no call waits for ever, and a call that has ended has given
back every client it took, exactly once, if and only if it has neither found a rating that is not an `int`
nor missed the counter it increments. As long as no such rating is uploaded none is found, and as long as no
counter expires or is evicted none is missed. A call of `RatingHandler::UploadRating` that has ended has
given back its client if and only if every write and every read has succeeded. -/
theorem clients_given_back_iff (hc : ReachableFrom World.empty (fun _ => True) (serviceCalls calls) c)
    (hc' : Redis.Reachable vals c') :
    (∀ i, (c.threads i).outcome = none → ∃ ch c₁, c.step machine (.run i ch) = some c₁) ∧
    (∀ i out, (c.threads i).outcome = some out →
      (givesBack ((Config.answers i c.trace).filterMap clientUse) = true ↔
        ∀ e ∈ c.trace, e.thread = i → ¬ LargeRating ⟨e.op, e.res⟩ ∧ ¬ LostCounter ⟨e.op, e.res⟩)) ∧
    ((∀ i val, calls i = .upload val .uploadRating → FitsInt val.rating) →
      ∀ e ∈ c.trace, ¬ LargeRating ⟨e.op, e.res⟩) ∧
    (ReachableFrom World.empty CountersStay (serviceCalls calls) c →
      ∀ e ∈ c.trace, ¬ LostCounter ⟨e.op, e.res⟩) ∧
    (∀ k, (c'.threads k).outcome = none → ∃ ch c₁, c'.step Redis.machine (.run k ch) = some c₁) ∧
    ∀ k out, (c'.threads k).outcome = some out →
      (givesBack ((Config.answers k c'.trace).filterMap Redis.clientUse) = true ↔
        ∀ e ∈ c'.trace, e.thread = k → ¬ Redis.NoReply ⟨e.op, e.res⟩) := by
  refine ⟨fun i => exists_step_of_reachable hc, fun i out hout => ?_,
    fun hfit e he => not_largeRating_of_reachable hc hfit he, not_lostCounter_of_reachable,
    fun k hout => ?_, fun k out hout => ?_⟩
  · simpa only [Stops, not_or] using givesBack_iff_of_reachable hc hout
  · exact exists_step_of_unfinished hout fun o _ _ => Redis.exec_isSome o c'.shared
  · refine Iff.trans ?_ (forall_mem_answers (P := fun x => ¬ Redis.NoReply x))
    exact Redis.uploadRating_givesBack_iff (path_of_reach hc' hout)

/-- The calls of stage 3 for request 7, with the given rating. -/
def sampleReview (rating : Int64) : Component → ServiceCall
  | .text => (Call.text ⟨7, ⟨ascii "fine", by decide, by decide⟩⟩).service
  | .uniqueId => (Call.uniqueId ⟨7, 3⟩).service
  | .movieId => (Call.movieId ⟨7, Redis.sampleMovieId, 0⟩).service
  | .rating => (Call.rating ⟨7, rating⟩).service

/-- The four uploads one after the other; the last one composes the review. -/
def sampleUploadRun (n : ℕ) : List (ServiceLabel Component) :=
  okRun (List.replicate 5 .text ++ List.replicate 5 .uniqueId ++ List.replicate 5 .movieId ++
    List.replicate n .rating)

theorem clients_given_back_iff_sample :
    (∃ c, ReachableFrom World.empty (fun _ => True) (serviceCalls (sampleReview 5)) c ∧
      (c.threads .rating).outcome = some (.ok 0) ∧
      givesBack ((Config.answers .rating c.trace).filterMap clientUse) = true) ∧
    ∃ c', Redis.Reachable Redis.sampleUploads c' ∧ (c'.threads true).outcome = some (.ok 0) ∧
      ∀ e ∈ c'.trace, e.thread = true → ¬ Redis.NoReply ⟨e.op, e.res⟩ := by
  have hstay : ∀ l ∈ sampleUploadRun 12, CountersStay l := by
    rintro l hl
    obtain ⟨i, -, rfl⟩ := List.mem_map.mp hl
    trivial
  obtain ⟨c, hc, hout⟩ :
      ∃ c, ReachableFrom World.empty CountersStay (serviceCalls (sampleReview 5)) c ∧
        (c.threads .rating).outcome = some (.ok 0) :=
    ⟨_, reachable_of_labels (sampleUploadRun 12) hstay rfl, rfl⟩
  have hc₁ := hc.mono fun _ _ _ => trivial
  obtain ⟨c', hc', hout', hback⟩ :
      ∃ c', Redis.Reachable Redis.sampleUploads c' ∧ (c'.threads true).outcome = some (.ok 0) ∧
        givesBack ((Config.answers true c'.trace).filterMap Redis.clientUse) = true :=
    ⟨_, reach_of_runLabels Redis.sampleRatingRun (admissibleRun_of_labels fun _ _ => trivial) rfl, rfl,
      rfl⟩
  obtain ⟨-, hiff, hsmall, hfound, -, hiff'⟩ := clients_given_back_iff hc₁ hc'
  have hfit : ∀ i val, sampleReview 5 i = .upload val .uploadRating → FitsInt val.rating := by
    intro i val hi
    cases i with
    | rating =>
      obtain ⟨rfl, -⟩ := ServiceCall.upload.inj hi
      decide
    | _ => exact absurd (ServiceCall.upload.inj hi).2 (by decide)
  exact ⟨⟨c, hc₁, hout, (hiff .rating _ hout).mpr fun e he _ => ⟨hsmall hfit e he, hfound hc e he⟩⟩,
    c', hc', hout', (hiff' true _ hout').mp hback⟩

/-- The rating 2147483648 makes the last upload end by an exception while it holds a client. A counter
that is evicted between its `Add` and its `Incr` makes an upload dereference a null pointer while it holds
one, and so does a failed read in `UploadRating`. -/
theorem clients_lost :
    (∃ c, ReachableFrom World.empty (fun _ => True) (serviceCalls (sampleReview 2147483648)) c ∧
      (c.threads .rating).outcome = some (.error .outOfRange) ∧
      (Config.answers .rating c.trace).filterMap clientUse =
        [.take .upload, .giveBack .upload, .take .composeAndUpload]) ∧
    (∃ c, ReachableFrom World.empty (fun _ => True) (serviceCalls (sampleReview 5)) c ∧
      (c.threads .text).outcome = some (.error .nullDereference) ∧
      (Config.answers .text c.trace).filterMap clientUse = [.take .upload]) ∧
    ∃ c', Redis.Reachable (fun _ : Unit => ⟨7, Redis.sampleMovieId, 5⟩) c' ∧
      (c'.threads ()).outcome = some (.error .nullDereference) ∧
      (Config.answers () c'.trace).filterMap Redis.clientUse = [.take 0] := by
  refine ⟨⟨_, reachable_of_labels (sampleUploadRun 10) (fun _ _ => trivial) rfl, rfl, rfl⟩, ?_, ?_⟩
  · exact ⟨_, reachable_of_labels
      (okRun [.text, .text, .text] ++ .env (.evict (keyCounter 7)) :: okRun [.text])
      (fun _ _ => trivial) rfl, rfl, rfl⟩
  · exact ⟨_, reach_of_runLabels
      [.run () (Redis.smooth 0), .run () (Redis.smooth 0), .run () (Redis.smooth 0),
        .run () (Redis.smooth 0), .run () (Redis.smooth 0), .run () ⟨0, none, false, 0⟩,
        .run () ⟨0, none, false, 0⟩]
      (admissibleRun_of_labels fun _ _ => trivial) rfl, rfl, rfl⟩

end Release

end MediaService
