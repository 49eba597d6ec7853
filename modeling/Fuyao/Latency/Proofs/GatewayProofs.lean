import Fuyao.Cpp.Proofs.StringsProofs
import Fuyao.Faas.Proofs.FaasProofs
import Fuyao.Latency.Gateway
import Fuyao.Utils.Proofs.PayloadSizeProofs

/-!
# Proofs: which payloads the transports carry

`fn_b`, `fn_d` and `fn_f` hand on what was asked for. `fn_a` ends its payload at the index of the
request's own length, so it sends as many bytes as the request has characters, or writes outside its
buffer.
-/

namespace Latency

open Cpp Concurrency Utils Http

/-! ## Invocations -/

theorem measure_uses (text memory : Bytes) :
    (measure text (some memory)).Uses (HandsOn memory.length) fun _ => True := by
  refine ⟨trivial, fun _ => ⟨List.length_replicate, fun ret => ⟨trivial, fun output => ?_⟩⟩⟩
  change (Prog.ofExcept (stol output) >>= fun end_time => if ret ≠ 0 then _ else _).Uses _ _
  refine Prog.uses_ofExcept_bind fun _ _ => ?_
  exact Faas.report_uses (fun _ => trivial) ret _ 60 _

theorem measureRoundTrip_uses (text memory : Bytes) :
    (measureRoundTrip text (some memory)).Uses (HandsOn memory.length) fun _ => True :=
  ⟨trivial, fun _ => ⟨List.length_replicate, fun ret => ⟨trivial, fun _ =>
    Faas.report_uses (fun _ => trivial) ret _ 60 _⟩⟩⟩

/-- A function that allocates what was asked for and hands on all of it. -/
theorem carriedBy_of_uses {input : Bytes} {size : Int64} {k : Option Bytes → Faas.Body Func Int32}
    (hsize : parsePayloadSize input = .ok size)
    (hk : ∀ memory, (k (some memory)).Uses (HandsOn memory.length) fun _ => True) :
    CarriedBy size.toUInt64.toNat (do
      let will_generate_payload_size ← Prog.ofExcept (parsePayloadSize input)
      if will_generate_payload_size = -1 then
        return -1
      let generate_payload ← Faas.ask (.alloc will_generate_payload_size.toUInt64.toNat)
      k generate_payload) := by
  intro es out hpath hallocated
  rw [hsize, Prog.ofExcept_ok, Prog.ret_bind] at hpath
  split at hpath
  · obtain ⟨rfl, -⟩ := hpath
    simp
  · obtain ⟨memory, es, rfl, hpath⟩ := hpath
    obtain ⟨s, rfl, hlength⟩ := hallocated _ (List.mem_cons_self ..)
    have huses := ((hk s).path hpath).1
    rw [hlength] at huses
    exact List.forall_mem_cons.mpr ⟨trivial, huses⟩

/-! ## The request to the gateway -/

/-- With the NUL inside the filled part, or right after it, that is where the string ends. -/
theorem requestPayload_inside {memory : Bytes} {size i : ℕ} (hmemory : memory.length = size + 1) (hi : i ≤ size) :
    ∃ buf, requestPayload memory size i = .ok buf ∧ cStr buf = List.replicate i 1 := by
  have hlength : (List.replicate size (1 : UInt8) ++ memory.drop size).length = size + 1 := by
    rw [List.length_append, List.length_replicate, List.length_drop]
    omega
  have htake : (List.replicate size (1 : UInt8) ++ memory.drop size).take i = List.replicate i 1 := by
    rw [List.take_append_of_le_length (by rw [List.length_replicate]; exact hi), List.take_replicate,
      min_eq_left hi]
  refine ⟨_, if_pos (by omega), ?_⟩
  rw [List.set_eq_take_append_cons_drop, if_pos (by omega), htake, cStr]
  rw [List.takeWhile_append_of_pos (by simp), List.takeWhile_cons_of_neg (by simp), List.append_nil]

/-- The operation has nothing to do with the payload. -/
def GatewayOp.isQuiet : GatewayOp → Bool
  | .clock | .getenv _ | .conn _ | .recvResponse _ | .append _ => true
  | .alloc _ | .newArray _ | .memset _ | .writeNul _ | .issueHttpRequest _ => false

theorem sendsOn_of_isQuiet {n : ℕ} {o : GatewayOp} (h : o.isQuiet) : SendsOn n o := by
  cases o <;> trivial

theorem allocated_of_isQuiet {e : (o : GatewayOp) × o.Res} (h : e.1.isQuiet) : GatewayAllocated e := by
  obtain ⟨o, r⟩ := e
  cases o <;> trivial

section Uses

variable {S : GatewayOp → Prop} (g : Gateway)

theorem gatewayResponse_uses (hS : ∀ o, o.isQuiet → S o) (start_time : Int64) :
    (gatewayResponse g start_time).Uses S fun _ => True := by
  refine ⟨hS _ rfl, fun response => ?_⟩
  cases response with
  | none => trivial
  | some response =>
    change Prog.Uses _ _ (if 1024 < response.length then _ else _)
    split
    · trivial
    · refine Prog.uses_ofExcept_bind fun payload _ => ?_
      refine ⟨hS _ rfl, fun end_time => ?_⟩
      change (Prog.ofExcept (checkedLong _) >>= _).Uses _ _
      refine Prog.uses_ofExcept_bind fun elapsed _ => ?_
      refine Prog.uses_ofExcept_bind fun output _ => ?_
      exact ⟨hS _ rfl, fun _ => trivial⟩

/-- The only operation of this part that concerns the payload is the request. -/
theorem gatewayCall_uses (hS : ∀ o, o.isQuiet → S o) {request_payload : Bytes}
    (hrequest : ∀ socket method path, S (.issueHttpRequest (.text socket method path request_payload))) :
    (gatewayCall g request_payload).Uses S fun _ => True := by
  refine ⟨hS _ rfl, fun start_time => ⟨hS _ rfl, fun addr => ⟨hS _ rfl, fun port => ?_⟩⟩⟩
  change (Prog.ofExcept (stoi _) >>= _).Uses _ _
  refine Prog.uses_ofExcept_bind fun port _ => ?_
  refine ⟨hS _ rfl, fun connected => ?_⟩
  cases connected with
  | false => trivial
  | true => exact ⟨hrequest _ _ _, fun _ => gatewayResponse_uses g hS start_time⟩

end Uses

/-- There is a path on which the request is sent. -/
theorem exists_gatewayCall_path (g : Gateway) (request_payload : Bytes) :
    ∃ es out, (gatewayCall g request_payload).Path es out ∧
      ∃ socket method path,
        (⟨.issueHttpRequest (.text socket method path request_payload), ()⟩ : (o : GatewayOp) × o.Res) ∈ es := by
  have hres : ∀ o : GatewayOp, Nonempty o.Res := by
    intro o
    cases o
    exacts [⟨none⟩, ⟨[]⟩, ⟨()⟩, ⟨()⟩, ⟨0⟩, ⟨none⟩, ⟨true⟩, ⟨()⟩, ⟨none⟩, ⟨()⟩]
  -- the default port can be read, and there is a connection
  obtain ⟨es, out, hpath⟩ := Prog.exists_path hres (gatewayResponse g 0)
  refine ⟨[⟨.clock, 0⟩, ⟨.getenv (ascii "LUMINE_GATEWAY_ADDR"), none⟩,
    ⟨.getenv (ascii "LUMINE_GATEWAY_PORT"), none⟩, ⟨.conn ⟨ascii "192.168.1.198", 8084⟩, true⟩] ++
    ⟨.issueHttpRequest (.text ⟨ascii "192.168.1.198", 8084⟩ (ascii "POST") (ascii "/function/exp01Fne")
      request_payload), ()⟩ :: es, out, ?_, _, _, _, List.mem_append_right _ (List.mem_cons_self ..)⟩
  exact ⟨0, _, rfl, none, _, rfl, none, _, rfl, true, _, rfl, (), _, rfl, hpath⟩

/-! ## All transports -/

/-- An accepted size is not negative. -/
theorem size_nonneg {input : Bytes} {size : Int64} (hsize : parsePayloadSize input = .ok size) (hne : size ≠ -1) :
    0 ≤ size.toInt := by
  obtain ⟨rest, -, -, hfits, rfl⟩ := accepted_cases hsize hne
  have hpos := factor_pos (runUnit (sizeRun input))
  rw [toInt_size hfits]
  positivity

section FnA

variable {g : Gateway} {input : Bytes} {size : Int64} {es : List ((o : GatewayOp) × o.Res)}
  {out : Except Exn Int32}

theorem toNat_size (h : 0 ≤ size.toInt) : size.toUInt64.toNat = size.toInt.toNat :=
  toNat_toUInt64 (by simpa [Int64.le_iff_toInt_le] using h)

/-- The size with the byte for the NUL, unless it is too large for a `long`. -/
theorem checkedLong_succ (h : 0 ≤ size.toInt) (hmax : size.toInt ≠ 2 ^ 63 - 1) :
    ∃ length, checkedLong (size.toInt + 1) = .ok length ∧ length.toUInt64.toNat = size.toInt.toNat + 1 := by
  have hlt := size.toInt_lt
  have hval : (Int64.ofInt (size.toInt + 1)).toInt = size.toInt + 1 :=
    Int64.toInt_ofInt_of_le (by omega) (by omega)
  refine ⟨_, if_pos (by omega), ?_⟩
  rw [toNat_size (by omega), hval]
  omega

/-- Nothing is allocated once the buffer is filled. -/
theorem sent_allocated {x : Except Exn Bytes} (h : (Prog.ofExcept x >>= gatewayCall g).Path es out) :
    ∀ e ∈ es, GatewayAllocated e := by
  have huses : (Prog.ofExcept x >>= gatewayCall g).Uses (fun o => ∀ r, GatewayAllocated ⟨o, r⟩) fun _ => True := by
    refine Prog.uses_ofExcept_bind fun request_payload _ => ?_
    exact gatewayCall_uses g (fun o ho r => allocated_of_isQuiet ho) fun _ _ _ _ => trivial
  exact fun e he => (huses.path h).1 e he e.2

/-- The buffer that `fn_a` fills and where it does. -/
theorem fnA_path_iff (hsize : parsePayloadSize input = .ok size) (hne : size ≠ -1)
    (hmax : size.toInt ≠ 2 ^ 63 - 1) :
    (fnA g input).Path es out ∧ (∀ e ∈ es, GatewayAllocated e) ↔
      ∃ s memory rest, es = ⟨.alloc (size.toInt.toNat + 1), some s⟩ ::
          ⟨.newArray (size.toInt.toNat + 1), memory⟩ :: ⟨.memset size.toInt.toNat, ()⟩ ::
          ⟨.writeNul input.length, ()⟩ :: rest ∧
        s.length = size.toInt.toNat + 1 ∧ memory.length = size.toInt.toNat + 1 ∧
        (Prog.ofExcept (requestPayload memory size.toInt.toNat input.length) >>= gatewayCall g).Path rest out := by
  have hnonneg := size_nonneg hsize hne
  obtain ⟨length, hlength, hlength_val⟩ := checkedLong_succ hnonneg hmax
  rw [fnA, hsize, Prog.ofExcept_ok, Prog.ret_bind, if_neg hne, hlength, Prog.ofExcept_ok, Prog.ret_bind]
  rw [toNat_size hnonneg, hlength_val]
  constructor
  · rintro ⟨⟨allocated, es, rfl, hpath⟩, hallocated⟩
    obtain ⟨s, rfl, hs⟩ := hallocated _ (List.mem_cons_self ..)
    obtain ⟨memory, es, rfl, _, es, rfl, _, es, rfl, hpath⟩ := hpath
    have hmemory := hallocated ⟨.newArray _, memory⟩ (by simp)
    exact ⟨s, memory, es, rfl, hs, hmemory, hpath⟩
  · rintro ⟨s, memory, rest, rfl, hs, hmemory, hpath⟩
    refine ⟨⟨some s, _, rfl, memory, _, rfl, (), _, rfl, (), _, rfl, hpath⟩, ?_⟩
    simp only [List.forall_mem_cons]
    exact ⟨⟨s, rfl, hs⟩, hmemory, trivial, trivial, sent_allocated hpath⟩

/-- If `fn_a` sends what was asked for then the request has that many characters. -/
theorem length_of_sendsOn (hsize : parsePayloadSize input = .ok size) (hne : size ≠ -1)
    (hmax : size.toInt ≠ 2 ^ 63 - 1)
    (h : ∀ es out, (fnA g input).Path es out → (∀ e ∈ es, GatewayAllocated e) →
      ∀ e ∈ es, SendsOn size.toInt.toNat e.1) : input.length = size.toInt.toNat := by
  have hzeros : (List.replicate (size.toInt.toNat + 1) (0 : UInt8)).length = size.toInt.toNat + 1 :=
    List.length_replicate
  have hsends : ∀ rest out, (Prog.ofExcept (requestPayload (List.replicate (size.toInt.toNat + 1) 0)
      size.toInt.toNat input.length) >>= gatewayCall g).Path rest out →
      input.length < size.toInt.toNat + 1 ∧ ∀ e ∈ rest, SendsOn size.toInt.toNat e.1 := by
    intro rest out hpath
    obtain ⟨hpath, hallocated⟩ :=
      (fnA_path_iff hsize hne hmax).mpr ⟨_, _, rest, rfl, hzeros, hzeros, hpath⟩
    have hall := h _ _ hpath hallocated
    simp only [List.forall_mem_cons] at hall
    exact ⟨hall.2.2.2.1, hall.2.2.2.2⟩
  -- the NUL is written outside the buffer, or it ends the payload
  rcases Nat.lt_or_ge size.toInt.toNat input.length with houtside | hinside
  · have hfault : requestPayload (List.replicate (size.toInt.toNat + 1) 0) size.toInt.toNat input.length =
        .error .overflow := if_neg (by omega)
    have hwritten := (hsends [] (.error .overflow) (by rw [hfault]; exact ⟨rfl, rfl⟩)).1
    omega
  · obtain ⟨buf, hbuf, hstring⟩ := requestPayload_inside hzeros hinside
    obtain ⟨rest, out, hpath, socket, method, path, hmem⟩ := exists_gatewayCall_path g buf
    have hsent := (hsends rest out (by rw [hbuf]; exact hpath)).2 _ hmem
    have hbody : (cStr buf).length = size.toInt.toNat := hsent.1
    rwa [hstring, List.length_replicate] at hbody

theorem sendsOn_of_length (hsize : parsePayloadSize input = .ok size) (hne : size ≠ -1)
    (hmax : size.toInt ≠ 2 ^ 63 - 1) (hlength : input.length = size.toInt.toNat)
    (hpath : (fnA g input).Path es out) (hallocated : ∀ e ∈ es, GatewayAllocated e) :
    ∀ e ∈ es, SendsOn size.toInt.toNat e.1 := by
  obtain ⟨s, memory, rest, rfl, hs, hmemory, hrest⟩ := (fnA_path_iff hsize hne hmax).mp ⟨hpath, hallocated⟩
  obtain ⟨buf, hbuf, hstring⟩ := requestPayload_inside hmemory hlength.le
  rw [hbuf] at hrest
  have hbody : (cStr buf).length = size.toInt.toNat := by rw [hstring, List.length_replicate, hlength]
  have huses := gatewayCall_uses g (fun o ho => sendsOn_of_isQuiet (n := size.toInt.toNat) ho)
    fun socket method path => (⟨hbody, by rw [HttpRequest.contentLength, hbody]⟩ :
      SendsOn _ (.issueHttpRequest (.text socket method path buf)))
  simp only [List.forall_mem_cons]
  exact ⟨trivial, trivial, Nat.le_succ _, by rw [SendsOn]; omega, (huses.path hrest).1⟩

/-- For the largest `long` there is no room for the NUL, and `fn_a` ends before it asks for memory. -/
theorem eq_nil_of_size_max (hsize : parsePayloadSize input = .ok size) (hne : size ≠ -1)
    (hmax : size.toInt = 2 ^ 63 - 1) (hpath : (fnA g input).Path es out) : es = [] := by
  have hoverflow : checkedLong (size.toInt + 1) = .error .overflow := if_neg (by omega)
  rw [fnA, hsize, Prog.ofExcept_ok, Prog.ret_bind, if_neg hne, hoverflow] at hpath
  exact hpath.1

theorem fnA_sendsOn_iff (hsize : parsePayloadSize input = .ok size) (hne : size ≠ -1) :
    (∀ es out, (fnA g input).Path es out → (∀ e ∈ es, GatewayAllocated e) →
      ∀ e ∈ es, SendsOn size.toInt.toNat e.1) ↔
      input.length = size.toInt ∨ size.toInt = 2 ^ 63 - 1 := by
  have hnonneg := size_nonneg hsize hne
  rcases eq_or_ne size.toInt (2 ^ 63 - 1) with hmax | hmax
  · refine ⟨fun _ => .inr hmax, fun _ es out hpath _ => ?_⟩
    rw [eq_nil_of_size_max hsize hne hmax hpath]
    simp
  · constructor
    · intro h
      have hlength := length_of_sendsOn hsize hne hmax h
      exact .inl (by omega)
    · intro h es out hpath hallocated
      have hlength := h.resolve_right hmax
      exact sendsOn_of_length hsize hne hmax (by omega) hpath hallocated

end FnA

/-- For every request with an accepted size: all transports carry that many bytes if and only if the
request has that many characters itself, or the size is the largest `long`. -/
theorem transports_agree_iff (g : Gateway) {input : Bytes} {size : Int64}
    (hsize : parsePayloadSize input = .ok size) (hne : size ≠ -1) :
    CarriesSize g input size.toInt.toNat ↔ input.length = size.toInt ∨ size.toInt = 2 ^ 63 - 1 := by
  have hval := toNat_size (size_nonneg hsize hne)
  constructor
  · exact fun h => (fnA_sendsOn_iff hsize hne).mp h.gateway
  · intro h
    refine ⟨(fnA_sendsOn_iff hsize hne).mpr h, ?_, ?_, ?_⟩
    · rw [← hval]
      exact carriedBy_of_uses hsize fun memory => measure_uses _ memory
    · rw [← hval]
      exact carriedBy_of_uses hsize fun memory => measureRoundTrip_uses _ memory
    · rw [← hval]
      exact carriedBy_of_uses hsize fun memory => measureRoundTrip_uses _ memory

/-- A parser that finds nothing. -/
def sampleGateway : Gateway := ⟨fun data => ⟨[], Int32.ofNat data.length⟩, some []⟩

/-- Four characters ask for four bytes. -/
theorem transports_agree_iff_sample : CarriesSize sampleGateway (ascii "04B ") 4 :=
  (transports_agree_iff sampleGateway (rfl : parsePayloadSize (ascii "04B ") = .ok 4) (by decide)).mpr
    (.inl (by decide))

/-- The request `16B` makes `fn_a` send three bytes. -/
theorem gateway_payload_differs :
    parsePayloadSize (ascii "16B") = .ok 16 ∧ ¬ CarriesSize sampleGateway (ascii "16B") 16 := by
  refine ⟨rfl, fun h => ?_⟩
  have hlength := (fnA_sendsOn_iff (rfl : parsePayloadSize (ascii "16B") = .ok 16) (by decide)).mp h.gateway
  revert hlength
  decide

end Latency
