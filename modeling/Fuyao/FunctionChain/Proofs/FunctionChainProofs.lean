import Fuyao.Cpp.Proofs.StringsProofs
import Fuyao.Faas.Proofs.FaasProofs
import Fuyao.FunctionChain.FunctionChain

/-!
# Proofs: the function chain runs as long as requested

`call_backend` follows the chain by induction on the remaining length: each execution adds itself to the
log, passes the rest of the payload on unchanged and hands back what the last one has printed.
-/

namespace FunctionChain

open Cpp Concurrency Faas Utils

/-! ## The chain -/

/-- The inputs of the executions of a chain with `m` executions left. -/
def chainInputs (block : Bytes) : ℕ → List Bytes
  | 0 => []
  | m + 1 => storeInt (Int32.ofNat (m + 1)) block :: chainInputs block m

theorem toInt_ofNat_of_le {m : ℕ} (h : m ≤ 128) : (Int32.ofNat m).toInt = m :=
  Int32.toInt_ofNat_of_lt (by omega)

theorem ofNat_succ_sub_one (m : ℕ) : Int32.ofNat (m + 1) - 1 = Int32.ofNat m := by
  rw [Int32.ofNat_add]
  exact Int32.add_sub_cancel ..

theorem chainInputs_succ (block : Bytes) (m : ℕ) :
    chainInputs block (m + 1) = storeInt (Int32.ofNat (m + 1)) block :: chainInputs block m := rfl

theorem length_chainInputs (block : Bytes) (m : ℕ) : (chainInputs block m).length = m := by
  induction m with
  | zero => rfl
  | succ m ih => simp [chainInputs, ih]

/-- The `k`-th execution receives the length that is left, and the rest of the payload. -/
theorem chainInputs_getElem? {block input : Bytes} (hblock : 4 ≤ block.length) {m k : ℕ} (hm : m ≤ 128)
    (h : (chainInputs block m)[k]? = some input) :
    (loadInt input).toInt = m - k ∧ input.length = block.length ∧ input.drop 4 = block.drop 4 := by
  induction m generalizing k with
  | zero => simp [chainInputs] at h
  | succ m ih =>
    cases k with
    | zero =>
      obtain rfl : storeInt (Int32.ofNat (m + 1)) block = input := by simpa [chainInputs] using h
      rw [loadInt_storeInt, toInt_ofNat_of_le hm]
      exact ⟨by simp, length_storeInt _ hblock, drop_storeInt _ _⟩
    | succ k =>
      obtain ⟨hload, hrest⟩ := ih (by omega) (by simpa [chainInputs] using h)
      refine ⟨?_, hrest⟩
      rw [hload]
      omega

section Backend

variable {host : Host Func} {invoked : Func → Bytes → Site Func → Option (Response Func)} {block : Bytes}
  {fr : Frame} {s : Site Func}

/-- A backend whose length is out of bounds invokes nothing and prints nothing. -/
theorem interp_backend_bad (hblock : 4 ≤ block.length) {n : Int32} (hn : n < 1 ∨ 128 < n) :
    interp host invoked (exp06Backend (storeInt n block)) fr s = some ⟨.ok (-1), fr, s⟩ := by
  have hlen : ¬ (storeInt n block).length < 4 := by
    rw [length_storeInt n hblock]
    omega
  simp [exp06Backend, hlen, loadInt_storeInt, hn]

/-- The last backend of a chain prints the time. -/
theorem interp_backend_last (hblock : 4 ≤ block.length) :
    interp host invoked (exp06Backend (storeInt 1 block)) fr s =
      some ⟨.ok 0, { fr with appended := fr.appended ++ toStr (host.clock s.ticks).toInt },
        { s with ticks := s.ticks + 1 }⟩ := by
  have hlen : ¬ (storeInt 1 block).length < 4 := by
    rw [length_storeInt 1 hblock]
    omega
  simp only [exp06Backend, hlen, loadInt_storeInt]
  rfl

/-- Any other backend invokes the next one and prints what that has printed. -/
theorem interp_backend_next (hblock : 4 ≤ block.length) {m : ℕ} (hm : m < 127) {out : Bytes}
    {s' : Site Func}
    (hnext : invoked .exp06Backend (storeInt (Int32.ofNat (m + 1)) block) s = some ⟨0, out, s'⟩) :
    interp host invoked (exp06Backend (storeInt (Int32.ofNat (m + 1 + 1)) block)) .empty s =
      some ⟨.ok 0, ⟨[out], out⟩, s'⟩ := by
  have hlen : ¬ (storeInt (Int32.ofNat (m + 1 + 1)) block).length < 4 := by
    rw [length_storeInt _ hblock]
    omega
  have hval : (Int32.ofNat (m + 1 + 1)).toInt = ((m + 1 + 1 : ℕ) : Int) := toInt_ofNat_of_le (by omega)
  have hrange : ¬ (Int32.ofNat (m + 1 + 1) < 1 ∨ 128 < Int32.ofNat (m + 1 + 1)) := by
    have h1 : (1 : Int32).toInt = 1 := rfl
    have h128 : (128 : Int32).toInt = 128 := rfl
    rw [Int32.lt_iff_toInt_lt, Int32.lt_iff_toInt_lt, hval, h1, h128]
    omega
  have hone : Int32.ofNat (m + 1 + 1) ≠ 1 := by
    intro h
    rw [h] at hval
    have h1 : (1 : Int32).toInt = 1 := rfl
    omega
  simp only [exp06Backend, loadInt_storeInt, if_neg hlen, if_neg hrange, if_neg hone]
  change ((invoked _ _ s).bind fun r => _) = _
  rw [loadInt_storeInt, ofNat_succ_sub_one, storeInt_storeInt, hnext]
  rfl

end Backend

/-- A chain with `m + 1` executions left: each of them is executed once, in turn, and all return 0 with
the output of the last one. -/
theorem call_backend (host : Host Func) {block : Bytes} (hblock : 4 ≤ block.length) {m : ℕ} (hm : m < 128)
    {fuel : ℕ} (hfuel : m < fuel) (s : Site Func) :
    call host body fuel .exp06Backend (storeInt (Int32.ofNat (m + 1)) block) s =
      some ⟨0, toStr (host.clock s.ticks).toInt, s.ticks + 1,
        s.log ++ (chainInputs block (m + 1)).map (.start .exp06Backend) ++
          List.replicate (m + 1) (.finish .exp06Backend 0 (toStr (host.clock s.ticks).toInt))⟩ := by
  induction m generalizing fuel s with
  | zero =>
    obtain ⟨fuel, rfl⟩ : ∃ k, fuel = k + 1 := ⟨fuel - 1, by omega⟩
    have hone : Int32.ofNat (0 + 1) = 1 := rfl
    have hlast : interp host (call host body fuel) (body .exp06Backend (storeInt 1 block)) .empty
        (s.note (.start .exp06Backend (storeInt 1 block))) = _ := interp_backend_last hblock
    have hcall := call_of_interp hlast
    simp only [returnCode, Frame.empty, Site.note, List.nil_append] at hcall
    rw [hone, hcall]
    simp [chainInputs, hone]
  | succ m ih =>
    obtain ⟨fuel, rfl⟩ : ∃ k, fuel = k + 1 := ⟨fuel - 1, by omega⟩
    have hrest := ih (by omega) (by omega : m < fuel)
      (s.note (.start .exp06Backend (storeInt (Int32.ofNat (m + 1 + 1)) block)))
    have hnext : interp host (call host body fuel)
        (body .exp06Backend (storeInt (Int32.ofNat (m + 1 + 1)) block)) .empty
        (s.note (.start .exp06Backend (storeInt (Int32.ofNat (m + 1 + 1)) block))) = _ :=
      interp_backend_next hblock (by omega) hrest
    have hcall := call_of_interp hnext
    simp only [returnCode, Site.note] at hcall
    rw [hcall, chainInputs_succ block (m + 1), List.replicate_succ' (n := m + 1)]
    simp only [List.append_assoc, List.cons_append, List.nil_append, List.map_cons]

/-! ## The request -/

theorem parseRequest_eq {num rest : Bytes} {n : Int32} {size : Int64} (hspace : 32 ∉ num)
    (hn : stoi num = .ok n) (hsize : parsePayloadSize rest = .ok size) (hpos : 0 ≤ size) :
    parseRequest (num ++ 32 :: rest) = .ok (some (n, size)) := by
  have hne : num ≠ [] := by
    rintro rfl
    cases hn
  have hall : ∀ b ∈ num, (b != 32) = true := by
    intro b hb
    simp only [bne_iff_ne]
    rintro rfl
    exact hspace hb
  have hneg : size ≠ -1 := by
    rintro rfl
    exact absurd hpos (by decide)
  simp [parseRequest, List.takeWhile_append_of_pos hall, List.dropWhile_append_of_pos hall, hne, hn, hsize,
    hneg, bind, Except.bind]

theorem reservedSize_eq {size : Int64} (h : 0 ≤ size) : reservedSize size = max size.toInt.toNat 4 := by
  have hfour : (4 : UInt64).toNat = 4 := rfl
  have hlt : size.toUInt64 < 4 ↔ size.toInt.toNat < 4 := by
    rw [UInt64.lt_iff_toNat_lt, toNat_toUInt64 h, hfour]
  simp only [reservedSize, hlt, toNat_toUInt64 h]
  split <;> omega

/-! ## The report -/

theorem length_report (chain_length : Int32) (elapsed : Int64) :
    (report chain_length elapsed).length =
      42 + (toStr chain_length.toInt).length + (toStr elapsed.toInt).length := by
  have htext : (ascii "invoke a function chain of length ").length = 34 ∧
      (ascii " takes ").length = 7 ∧ (ascii "\n").length = 1 := by decide
  obtain ⟨h₁, h₂, h₃⟩ := htext
  simp only [report, List.length_append]
  omega

/-- A time that fits can be computed. -/
theorem ElapsedFits.checkedLong {n : Int32} {start_time end_time : Int64}
    (h : ElapsedFits n start_time end_time) :
    Cpp.checkedLong (end_time.toInt - start_time.toInt) =
      .ok (Int64.ofInt (end_time.toInt - start_time.toInt)) := by
  unfold ElapsedFits at h
  have hlt := natAbs_lt_of_length_toStr (k := 17) (Nat.le_of_add_left_le h)
  rw [Cpp.checkedLong, if_pos (by omega)]

section Frontend

variable {host : Host Func} {block : Bytes} {size : Int64} {n : Int32}
  {invoked : Func → Bytes → Site Func → Option (Response Func)}

/-- The frontend up to the point where the backend has returned. -/
theorem interp_runChain (hsize : host.alloc (reservedSize size) = some block) {r : Response Func}
    (hcall : invoked .exp06Backend (storeInt n block) ⟨1, []⟩ = some r) :
    interp host invoked (runChain n size) .empty .initial =
      interp host invoked (reportChain n (host.clock 0) r.code) ⟨[r.output], []⟩ r.site := by
  rw [runChain, ask_bind, interp_alloc, hsize]
  change ((invoked .exp06Backend (storeInt n block) ⟨1, []⟩).bind fun r => _) = _
  rw [hcall]
  rfl

/-- A backend that has printed nothing makes the frontend fail. -/
theorem interp_reportChain_bad {start_time : Int64} {s : Site Func} :
    interp host invoked (reportChain n start_time (-1)) ⟨[[]], []⟩ s =
      some ⟨.ok (-1), ⟨[[]], []⟩, s⟩ := rfl

variable (host invoked) in
/-- The backend has printed the time: the frontend prints the difference, if it fits. -/
theorem interp_reportChain_good (n : Int32) (start_time end_time : Int64) (s : Site Func) :
    ∃ outcome fr, interp host invoked (reportChain n start_time 0) ⟨[toStr end_time.toInt], []⟩ s =
        some ⟨outcome, fr, s⟩ ∧ (outcome = .ok 0 ↔ ElapsedFits n start_time end_time) := by
  have hout : [toStr end_time.toInt].getD 0 [] = toStr end_time.toInt := rfl
  rw [reportChain, ask_bind, interp_output, hout, stol_toStr]
  simp only [ne_eq, not_true_eq_false, if_false]
  cases hdiff : checkedLong (end_time.toInt - start_time.toInt) with
  | error e =>
    refine ⟨.error e, _, rfl, fun h => (by cases h), fun hfits => ?_⟩
    rw [hfits.checkedLong] at hdiff
    cases hdiff
  | ok elapsed =>
    have helapsed : elapsed.toInt = end_time.toInt - start_time.toInt := by
      rw [checkedLong] at hdiff
      split at hdiff
      next hrange =>
        obtain rfl := Except.ok.inj hdiff
        exact Int64.toInt_ofInt_of_le (by omega) (by omega)
      · cases hdiff
    have hfits : (report n elapsed).length < 60 ↔ ElapsedFits n start_time end_time := by
      rw [length_report, helapsed, ElapsedFits]
      omega
    rw [Prog.ofExcept_ok, Prog.ret_bind, sprintf]
    split
    next hlt => exact ⟨.ok 0, _, rfl, fun _ => hfits.mp hlt, fun _ => rfl⟩
    next hge => exact ⟨.error .overflow, _, rfl, fun h => (by cases h), fun h => absurd (hfits.mpr h) hge⟩

end Frontend

/-- For every request whose first word is read as `n` and whose rest is read as a size, with the memory
for the payload allocated and whatever it contains: if `n` is between 1 and 128, there are `n`
executions of the backend, each with the remaining length in front of the same payload, all of which
return 0 with the output of the last one, a number, and the frontend returns 0 exactly if the time between
its reading of the clock and that of the last backend fits its report; otherwise one backend is executed,
and it invokes nothing. -/
theorem chain_runs_as_requested (host : Host Func) {num rest block : Bytes} {n : Int32} {size : Int64}
    (hspace : 32 ∉ num) (hn : stoi num = .ok n) (hsize : parsePayloadSize rest = .ok size)
    (hpos : 0 ≤ size) (halloc : host.alloc (max size.toInt.toNat 4) = some block) {fuel : ℕ}
    (hfuel : 128 ≤ fuel) :
    ∃ e, interp host (call host body fuel) (exp06Frontend (num ++ 32 :: rest)) .empty .initial = some e ∧
      (1 ≤ n ∧ n ≤ 128 → ∃ (inputs : List Bytes) (out : Bytes),
        e.site.log = inputs.map (.start .exp06Backend) ++
          List.replicate n.toInt.toNat (.finish .exp06Backend 0 out) ∧
        inputs.length = n.toInt.toNat ∧
        (∀ (k : ℕ) input, inputs[k]? = some input → (loadInt input).toInt = n.toInt - k ∧
          input.length = max size.toInt.toNat 4 ∧ input.drop 4 = block.drop 4) ∧
        (∃ end_time, stol out = .ok end_time) ∧
        (e.outcome = .ok 0 ↔ ElapsedFits n (host.clock 0) (host.clock 1))) ∧
      (n < 1 ∨ 128 < n → ∃ input, loadInt input = n ∧
        e.site.log = [.start .exp06Backend input, .finish .exp06Backend (-1) []]) := by
  rw [← reservedSize_eq hpos] at halloc
  have hlen : block.length = max size.toInt.toNat 4 := by
    rw [host.length_alloc _ _ halloc, reservedSize_eq hpos]
  have hblock : 4 ≤ block.length := by omega
  have hfront : exp06Frontend (num ++ 32 :: rest) = runChain n size := by
    rw [exp06Frontend, parseRequest_eq hspace hn hsize hpos]
    rfl
  have hone : (1 : Int32).toInt = 1 := rfl
  have hmax : (128 : Int32).toInt = 128 := rfl
  rw [hfront]
  by_cases hrange : 1 ≤ n ∧ n ≤ 128
  · have hlo := Int32.le_iff_toInt_le.mp hrange.1
    have hhi := Int32.le_iff_toInt_le.mp hrange.2
    obtain ⟨m, hm⟩ : ∃ m : ℕ, n.toInt = (m + 1 : ℕ) := ⟨n.toInt.toNat - 1, by omega⟩
    obtain rfl : n = Int32.ofNat (m + 1) := by
      rw [← Int32.toInt_inj, hm, toInt_ofNat_of_le (by omega)]
    have hcall := call_backend host hblock (by omega : m < 128) (by omega : m < fuel) ⟨1, []⟩
    obtain ⟨outcome, fr, hinterp, houtcome⟩ := interp_reportChain_good host
      (call host body fuel) (Int32.ofNat (m + 1)) (host.clock 0) (host.clock 1)
      ⟨2, (chainInputs block (m + 1)).map (.start .exp06Backend) ++
        List.replicate (m + 1) (.finish .exp06Backend 0 (toStr (host.clock 1).toInt))⟩
    refine ⟨_, (interp_runChain halloc hcall).trans hinterp, fun _ => ?_, fun hbad => ?_⟩
    · refine ⟨chainInputs block (m + 1), toStr (host.clock 1).toInt, ?_, ?_, ?_, ?_, houtcome⟩
      · rw [hm, Int.toNat_natCast]
      · rw [hm, Int.toNat_natCast, length_chainInputs]
      · intro k input hk
        rw [hm, ← hlen]
        exact chainInputs_getElem? hblock (by omega) hk
      · exact ⟨_, stol_toStr _⟩
    · rw [Int32.lt_iff_toInt_lt, Int32.lt_iff_toInt_lt] at hbad
      omega
  · have hbad : n < 1 ∨ 128 < n := by
      rw [Int32.le_iff_toInt_le, Int32.le_iff_toInt_le] at hrange
      rw [Int32.lt_iff_toInt_lt, Int32.lt_iff_toInt_lt]
      omega
    obtain ⟨fuel, rfl⟩ : ∃ k, fuel = k + 1 := ⟨fuel - 1, by omega⟩
    have hbody : interp host (call host body fuel) (body .exp06Backend (storeInt n block)) .empty
        (Site.note ⟨1, []⟩ (.start .exp06Backend (storeInt n block))) = _ := interp_backend_bad hblock hbad
    refine ⟨_, (interp_runChain halloc (call_of_interp hbody)).trans interp_reportChain_bad,
      fun h => absurd h hrange, fun _ => ⟨storeInt n block, loadInt_storeInt _ _, rfl⟩⟩

/-- Two readings of the clock, and memory full of ones. -/
def sampleHost (start_time end_time : Int64) : Host Func where
  clock i := if i = 0 then start_time else end_time
  alloc size := some (List.replicate size 1)
  allocFor _ _ := none
  length_alloc := by
    rintro n _ ⟨⟩
    exact List.length_replicate

/-- The host of a chain that takes a millisecond. -/
def steadyHost : Host Func := sampleHost 1700000000000000 1700000000001000

theorem chain_runs_as_requested_sample :
    ∃ e, interp steadyHost (call steadyHost body 128) (exp06Frontend (ascii "4 16B")) .empty .initial =
        some e ∧
      e.outcome = .ok 0 ∧ e.site.log.length = 8 := by
  obtain ⟨e, he, hgood, -⟩ := chain_runs_as_requested steadyHost (by decide : 32 ∉ ascii "4")
    (rfl : stoi (ascii "4") = .ok 4) (rfl : parsePayloadSize (ascii "16B") = .ok 16) (by decide)
    (rfl : steadyHost.alloc 16 = _) (Nat.le_refl 128)
  obtain ⟨inputs, out, hlog, hlength, -, -, houtcome⟩ := hgood (by decide)
  refine ⟨e, he, houtcome.mpr (by unfold ElapsedFits; decide), ?_⟩
  rw [hlog, List.length_append, List.length_map, hlength]
  simp
  rfl

/-- A host whose clock starts in 1970 and is set to the present while a chain runs. -/
def adjustedHost : Host Func := sampleHost 1000000 1700000000000000

/-- The backends return 0 and their output is a number, and the report of the frontend has 60 characters and
a NUL. -/
theorem report_overruns :
    ∃ e, interp adjustedHost (call adjustedHost body 128) (exp06Frontend (ascii "10 16B")) .empty .initial =
        some e ∧
      e.site.log[10]? = some (.finish .exp06Backend 0 (ascii "1700000000000000")) ∧
      e.outcome = .error .overflow :=
  ⟨_, rfl, rfl, rfl⟩

end FunctionChain
