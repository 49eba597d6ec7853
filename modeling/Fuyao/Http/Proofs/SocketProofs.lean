import Fuyao.Concurrency.Proofs.ProgProofs
import Fuyao.Cpp.Proofs.StringsProofs
import Fuyao.Http.Socket

/-!
# Proofs: when a reported send is a complete one

As long as every `send` succeeds and the count stays in range, what the socket has accepted is a
beginning of the message (`Prefixed`). After a failed `send` the loop starts again at a byte that has been
accepted, or gives up and reports success; so nothing it reports afterwards is right (`Repeats`).
-/

namespace Http

open Cpp Concurrency

/-! ## The message -/

namespace HttpRequest

variable {rq : HttpRequest}

/-- Two copies in a row overflow the array exactly if their lengths do. -/
theorem memcpyTo_twice (n : ℕ) (header body : Bytes) :
    (memcpyTo n [] header >>= fun send_buf => memcpyTo n send_buf body) =
      if header.length + body.length ≤ n then .ok (header ++ body) else .error .overflow := by
  by_cases hheader : header.length ≤ n
  · have hcopy : memcpyTo n [] header = .ok header := if_pos (by simpa using hheader)
    rw [hcopy]
    rfl
  · have hcopy : memcpyTo n [] header = .error .overflow := if_neg (by simpa using hheader)
    rw [hcopy, if_neg (by omega)]
    rfl

theorem sendBuf_of_fits (h : rq.Fits) : rq.sendBuf = .ok (rq.header ++ rq.body) := by
  cases rq with
  | text socket method url_path payload => rfl
  | block socket method url_path payload int_size =>
    rw [sendBuf, memcpyTo_twice]
    exact if_pos h

theorem sendBuf_of_not_fits (h : ¬ rq.Fits) : rq.sendBuf = .error .overflow := by
  cases rq with
  | text socket method url_path payload => exact absurd trivial h
  | block socket method url_path payload int_size =>
    rw [sendBuf, memcpyTo_twice]
    exact if_neg h

end HttpRequest

/-! ## Rounds of the loop -/

namespace SendState

variable {len : ℕ} {s s' : SendState} {nsent : Int}

/-- While the loop runs, the count is not negative. -/
theorem Sending.nonneg (h : s.Sending len) (hlen : len ≤ 2 ^ 63) : 0 ≤ s.total_nsent.toInt := by
  by_contra hneg
  have := le_sizeOfInt_of_neg (not_le.mp hneg)
  have := h.2
  omega

theorem step_cases (h : s.step len nsent = some s') :
    s.Sending len ∧ s'.offers = s.offers ++ [(s.total_nsent.toInt, s.offered len)] ∧
      s'.accepted = s.accepted ++ s.positions nsent ∧
      (checkedInt (s.total_nsent.toInt + (Int32.ofInt nsent).toInt) = .ok s'.total_nsent ∧
          s'.overflowed = s.overflowed ∨
        checkedInt (s.total_nsent.toInt + (Int32.ofInt nsent).toInt) = .error .overflow ∧
          s'.overflowed = true) := by
  unfold step at h
  split at h
  next hsending =>
    refine ⟨hsending, ?_⟩
    simp only at h
    split at h
    next total heq =>
      cases h
      exact ⟨rfl, rfl, .inl ⟨heq, rfl⟩⟩
    next e heq =>
      cases h
      refine ⟨rfl, rfl, .inr ⟨?_, rfl⟩⟩
      unfold checkedInt at heq ⊢
      split at heq
      · cases heq
      · exact if_neg ‹_›
  · cases h

/-! ## Successful sends -/

/-- The socket has accepted the first `k` bytes of the message, and they have been counted. -/
structure Prefixed (len : ℕ) (s : SendState) (k : ℕ) : Prop where
  defined : s.overflowed = false
  count : s.total_nsent.toInt = k
  bound : k ≤ len
  accepted : s.accepted = firstPositions k
  inside : ∀ o ∈ s.offers, 0 ≤ o.1 ∧ o.1 + o.2 ≤ len

theorem prefixed_initial (len : ℕ) : initial.Prefixed len 0 :=
  ⟨rfl, rfl, Nat.zero_le _, rfl, by simp [initial]⟩

theorem Prefixed.size {k : ℕ} (h : s.Prefixed len k) : sizeOfInt s.total_nsent = k := by
  rw [sizeOfInt_of_nonneg (by rw [h.count]; omega), h.count, Int.toNat_natCast]

/-- What a `send` offers lies inside the message. -/
theorem Prefixed.offer {k : ℕ} (h : s.Prefixed len k) :
    ∀ o ∈ s.offers ++ [(s.total_nsent.toInt, s.offered len)], 0 ≤ o.1 ∧ o.1 + o.2 ≤ len := by
  have hbound := h.bound
  intro o ho
  rcases List.mem_append.mp ho with ho | ho
  · exact h.inside o ho
  · rw [List.mem_singleton] at ho
    subst ho
    simp only [h.count, offered, h.size]
    omega

theorem length_firstPositions (k : ℕ) : (firstPositions k).length = k := by
  rw [firstPositions, List.length_map, List.length_range]

theorem firstPositions_append (k n : ℕ) :
    firstPositions k ++ (List.range n).map (fun i : ℕ => (k : Int) + i) = firstPositions (k + n) := by
  rw [firstPositions, firstPositions, List.range_add, List.map_append, List.map_map]
  congr 1

/-- One successful `send`. -/
theorem Prefixed.step {k : ℕ} (h : s.Prefixed len k) (hresult : s.SendResult len nsent) (hcounted : s.Counted nsent)
    (hstep : s.step len nsent = some s') : s'.Prefixed len (k + nsent.toNat) := by
  obtain ⟨hne, hrange⟩ := hcounted
  obtain ⟨hpos, hle⟩ := hresult.resolve_left hne
  have hk : s.accepted.length = k := by
    rw [h.accepted, length_firstPositions]
  rw [offered, h.size] at hle
  rw [hk] at hrange
  obtain ⟨-, hoffers, haccepted, hcount⟩ := step_cases hstep
  have hint : (Int32.ofInt nsent).toInt = nsent := Int32.toInt_ofInt_of_le (by omega) (by omega)
  have hdefined : checkedInt (s.total_nsent.toInt + (Int32.ofInt nsent).toInt) =
      .ok (Int32.ofInt (k + nsent)) := by
    rw [hint, h.count]
    exact if_pos (by omega)
  rw [hdefined] at hcount
  have hoverflow : s'.overflowed = s.overflowed ∧ s'.total_nsent = Int32.ofInt (k + nsent) := by
    rcases hcount with ⟨hok, hflag⟩ | ⟨herr, -⟩
    · exact ⟨hflag, (Except.ok.inj hok).symm⟩
    · cases herr
  refine ⟨hoverflow.1.trans h.defined, ?_, by omega, ?_, ?_⟩
  · rw [hoverflow.2, Int32.toInt_ofInt_of_le (by omega) (by omega)]
    omega
  · rw [haccepted, h.accepted, positions, h.count, firstPositions_append]
  · rw [hoffers]
    exact h.offer

theorem prefixed_of_reach
    (h : Reach (SendState.step len) (fun s nsent => s.SendResult len nsent ∧ s.Counted nsent) initial s) :
    ∃ k, s.Prefixed len k := by
  refine h.invariant (J := fun s => ∃ k, s.Prefixed len k) ⟨0, prefixed_initial len⟩ ?_
  rintro s s' nsent ⟨k, hk⟩ ⟨hresult, hcounted⟩ hstep
  exact ⟨_, hk.step hresult hcounted hstep⟩

theorem received_all (buf : Bytes) :
    (firstPositions buf.length).map (fun p => buf.getD p.toNat 0) = buf := by
  refine List.ext_getElem (by simp [firstPositions]) fun i hi hi' => ?_
  simp [firstPositions, List.getElem?_eq_getElem hi']

theorem Prefixed.sound {buf : Bytes} {k : ℕ} (h : s.Prefixed buf.length k) : s.Sound buf := by
  refine ⟨h.defined, h.inside, fun hreturned => ?_⟩
  have hlen := hreturned.2
  have hbound := h.bound
  rw [h.size] at hlen
  obtain rfl : k = buf.length := by omega
  refine ⟨h.accepted, ?_⟩
  rw [received, h.accepted, received_all]

/-! ## Failed sends -/

/-- After the first `a` bytes the socket has accepted nothing more, and the loop will start again before
their end; or it has accepted one of them again. -/
def Repeats (a : ℕ) (s : SendState) : Prop :=
  s.accepted = firstPositions a ∧ s.total_nsent.toInt < a ∨
    ∃ (p : Int) (rest : List Int), s.accepted = firstPositions a ++ p :: rest ∧ p < a

theorem Repeats.incomplete {a : ℕ} (h : s.Repeats a) (ha : a < len) :
    s.accepted ≠ firstPositions len := by
  intro heq
  rcases h with ⟨haccepted, -⟩ | ⟨p, rest, haccepted, hp⟩
  · have hlength := congrArg List.length (haccepted.symm.trans heq)
    rw [length_firstPositions, length_firstPositions] at hlength
    omega
  · have hget := congrArg (fun l : List Int => l[a]?) (haccepted.symm.trans heq)
    have hle : (firstPositions a).length ≤ a := by rw [length_firstPositions]
    rw [List.getElem?_append_right hle, length_firstPositions, Nat.sub_self, List.getElem?_cons_zero,
      firstPositions, List.getElem?_map, List.getElem?_range ha] at hget
    obtain rfl : p = a := Option.some.inj hget
    exact absurd hp (lt_irrefl _)

theorem positions_failed (s : SendState) : s.positions (-1) = [] := rfl

theorem exists_positions (s : SendState) (h : 1 ≤ nsent) :
    ∃ rest, s.positions nsent = s.total_nsent.toInt :: rest := by
  obtain ⟨n, hn⟩ : ∃ n : ℕ, nsent.toNat = n + 1 := ⟨nsent.toNat - 1, by omega⟩
  refine ⟨(List.range n).map fun i : ℕ => s.total_nsent.toInt + (i + 1 : ℕ), ?_⟩
  rw [positions, hn, List.range_succ_eq_map, List.map_cons, List.map_map]
  simp [Function.comp_def]

/-- The count after a failed `send`. -/
theorem step_failed (h : s.Sending len) (hlen : len ≤ 2 ^ 63) :
    ∃ s', s.step len (-1) = some s' ∧ s'.overflowed = false ∧ s'.accepted = s.accepted ∧
      s'.total_nsent.toInt = s.total_nsent.toInt - 1 := by
  have hnonneg := h.nonneg hlen
  have hlt := s.total_nsent.toInt_lt
  have hminus : (Int32.ofInt (-1)).toInt = -1 := rfl
  have hok : checkedInt (s.total_nsent.toInt + (Int32.ofInt (-1)).toInt) =
      .ok (Int32.ofInt (s.total_nsent.toInt + -1)) := by
    rw [hminus]
    exact if_pos (by omega)
  refine ⟨{ s with
    total_nsent := Int32.ofInt (s.total_nsent.toInt + -1)
    offers := s.offers ++ [(s.total_nsent.toInt, s.offered len)]
    accepted := s.accepted ++ s.positions (-1) }, ?_, h.1, ?_, ?_⟩
  · rw [step, if_pos h]
    simp only [hok]
  · rw [positions_failed, List.append_nil]
  · rw [Int32.toInt_ofInt_of_le (by omega) (by omega)]
    omega

theorem Repeats.step {a : ℕ} (h : s.Repeats a) (hlen : len ≤ 2 ^ 63) (hresult : s.SendResult len nsent)
    (hstep : s.step len nsent = some s') : s'.Repeats a := by
  obtain ⟨hsending, -, haccepted, hcount⟩ := step_cases hstep
  rcases h with ⟨hbefore, htotal⟩ | ⟨p, rest, hbefore, hp⟩
  · rcases hresult with rfl | ⟨hpos, -⟩
    · obtain ⟨s₁, hs₁, -, hsame, hless⟩ := step_failed hsending hlen
      cases hstep.symm.trans hs₁
      exact .inl ⟨hsame.trans hbefore, by omega⟩
    · obtain ⟨rest, hrest⟩ := exists_positions s hpos
      exact .inr ⟨_, rest, by rw [haccepted, hbefore, hrest], htotal⟩
  · refine .inr ⟨p, rest ++ s.positions nsent, ?_, hp⟩
    rw [haccepted, hbefore, List.append_assoc, List.cons_append]

/-- If every further `send` fails, the count gets below zero and the function returns 0. -/
theorem exists_returned (hlen : len ≤ 2 ^ 63) (j : ℕ) (hj : j ≤ len) (hdefined : s.overflowed = false)
    (htotal : s.total_nsent.toInt = j - 1) :
    ∃ s', Reach (SendState.step len) (SendResult len) s s' ∧ s'.Returned len := by
  induction j generalizing s with
  | zero =>
    refine ⟨s, .init, hdefined, ?_⟩
    exact hlen.trans (le_sizeOfInt_of_neg (by omega))
  | succ j ih =>
    have hsending : s.Sending len := by
      refine ⟨hdefined, ?_⟩
      rw [sizeOfInt_of_nonneg (by omega)]
      omega
    obtain ⟨s₁, hstep, hdefined₁, -, htotal₁⟩ := step_failed hsending hlen
    obtain ⟨s₂, hreach, hreturned⟩ := ih (by omega) hdefined₁ (by omega)
    exact ⟨s₂, (Reach.step .init (.inl rfl) hstep).trans hreach, hreturned⟩

end SendState

/-- For both versions and every request: if the message fits, then in every run in which all sends are
successful and can be counted nothing goes wrong, in particular a reported send is complete. If it does
not fit, the array overflows. A `send` that fails may be followed by a report of success, and no such
report is true. -/
theorem reported_send_complete (rq : HttpRequest) :
    (rq.Fits → ∃ buf, rq.sendBuf = .ok buf ∧ buf = rq.header ++ rq.body ∧
      ∀ s, Reach (SendState.step buf.length) (fun s nsent => s.SendResult buf.length nsent ∧ s.Counted nsent)
        .initial s → s.Sound buf) ∧
    (¬ rq.Fits → rq.sendBuf = .error .overflow) ∧
    (∀ buf, rq.sendBuf = .ok buf → buf.length ≤ 2 ^ 63 → ∀ s s',
      Reach (SendState.step buf.length) (fun s nsent => s.SendResult buf.length nsent ∧ s.Counted nsent)
        .initial s → s.step buf.length (-1) = some s' →
      (∃ s₁, Reach (SendState.step buf.length) (SendState.SendResult buf.length) s' s₁ ∧
        s₁.Returned buf.length) ∧
      ∀ s₁, Reach (SendState.step buf.length) (SendState.SendResult buf.length) s' s₁ →
        s₁.Returned buf.length → ¬ s₁.Sound buf) := by
  refine ⟨fun hfits => ?_, HttpRequest.sendBuf_of_not_fits, ?_⟩
  · refine ⟨_, HttpRequest.sendBuf_of_fits hfits, rfl, fun s hreach => ?_⟩
    obtain ⟨k, hk⟩ := SendState.prefixed_of_reach hreach
    exact hk.sound
  · intro buf _ hlen s s' hreach hstep
    obtain ⟨k, hk⟩ := SendState.prefixed_of_reach hreach
    obtain ⟨hsending, -⟩ := SendState.step_cases hstep
    obtain ⟨s₂, hstep₂, hdefined, hsame, htotal⟩ := SendState.step_failed hsending hlen
    cases hstep.symm.trans hstep₂
    have hcount := hk.count
    have hless : k < buf.length := by
      have := hsending.2
      rwa [hk.size] at this
    refine ⟨SendState.exists_returned hlen k hk.bound hdefined (by omega), fun s₁ hreach₁ hreturned hsound => ?_⟩
    have hrepeats : s₁.Repeats k := by
      refine hreach₁.invariant (J := fun s => s.Repeats k) (.inl ⟨hsame.trans hk.accepted, by omega⟩) ?_
      exact fun s s' nsent h hresult hstep => h.step hlen hresult hstep
    exact hrepeats.incomplete hless (hsound.complete hreturned).1

/-- A request without a payload. -/
def sampleRequest : HttpRequest := .text ⟨ascii "127.0.0.1", 8080⟩ (ascii "POST") (ascii "/f") []

theorem reported_send_complete_sample :
    ∃ buf, sampleRequest.sendBuf = .ok buf ∧ buf = sampleRequest.header ++ sampleRequest.body ∧
      ∀ s, Reach (SendState.step buf.length) (fun s nsent => s.SendResult buf.length nsent ∧ s.Counted nsent)
        .initial s → s.Sound buf :=
  (reported_send_complete sampleRequest).1 trivial

/-- A block of 1024 bytes leaves no room for the header. -/
def largeRequest : HttpRequest :=
  .block ⟨ascii "127.0.0.1", 8080⟩ (ascii "POST") (ascii "/f") (List.replicate 1024 65)
    (by rw [List.length_replicate]; norm_num)

/-- The first `send` fails: 0 is returned, and nothing has been sent. A large block overflows the array. -/
theorem failed_send_reported :
    (∃ buf s, sampleRequest.sendBuf = .ok buf ∧
      Reach (SendState.step buf.length) (SendState.SendResult buf.length) .initial s ∧
      s.Returned buf.length ∧ s.accepted = [] ∧ ¬ s.Sound buf) ∧
    largeRequest.sendBuf = .error .overflow := by
  have hlen : (sampleRequest.header ++ sampleRequest.body).length = 141 := by decide +kernel
  constructor
  · have hsending : SendState.initial.Sending (sampleRequest.header ++ sampleRequest.body).length := by
      rw [hlen]
      decide
    obtain ⟨s, hstep, hdefined, hsame, htotal⟩ := SendState.step_failed hsending (by rw [hlen]; norm_num)
    have hreturned : s.Returned (sampleRequest.header ++ sampleRequest.body).length := by
      have hneg : s.total_nsent.toInt < 0 := by
        rw [htotal]
        decide
      have := le_sizeOfInt_of_neg hneg
      exact ⟨hdefined, by rw [hlen]; omega⟩
    refine ⟨_, s, rfl, .step .init (.inl rfl) hstep, hreturned, hsame, fun hsound => ?_⟩
    have hall := congrArg List.length (hsame.symm.trans (hsound.complete hreturned).1)
    rw [SendState.length_firstPositions, hlen] at hall
    exact absurd hall (by decide)
  · have hheader : 0 < largeRequest.header.length := by decide +kernel
    have hbody : largeRequest.body.length = 1024 := List.length_replicate
    refine HttpRequest.sendBuf_of_not_fits fun hfits => ?_
    have hfits : largeRequest.header.length + largeRequest.body.length ≤ 1024 := hfits
    omega

end Http
