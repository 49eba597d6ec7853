import Fuyao.FanOut.Phases
import Fuyao.Concurrency.Proofs.ThreadPoolProofs
import Fuyao.Cpp.Proofs.StringsProofs

/-!
# Proofs: a call follows its phases

`Phase.resume_step` is the simulation: the operation a call performs next is that of its phase, and what
is left afterwards is the program of the next phase. The workers' function is treated by its paths.
-/

namespace FanOut

open Cpp Concurrency

namespace Phase

variable {req_id : Int64} {n start_time : ℕ}

/-! ## What is left between two phases -/

theorem resume_free (freed rest : List Task) (code : Int32) :
    (free freed rest code).resume req_id n start_time =
      releaseJobs (rest.map Task.job) >>= fun _ => pure code := by
  cases rest <;> rfl

theorem resume_check (passed rest : List Task) :
    (check passed rest).resume req_id n start_time =
      allSucceed (rest.map Task.job) >>= close req_id start_time ((passed ++ rest).map Task.job) := by
  cases rest with
  | nil => rw [List.append_nil]; rfl
  | cons t rest => rfl

theorem resume_wait (got rest : List Task) :
    (wait got rest).resume req_id n start_time =
      join req_id start_time ((got ++ rest).map Task.job, rest.map Task.future) := by
  cases rest with
  | nil =>
    rw [wait, resume_check, List.append_nil]
    rfl
  | cons t rest => rfl

theorem resume_round (ts : List Task) :
    (round n ts).resume req_id n start_time =
      enqueueJobs (n - ts.length) ts.length (ts.map Task.job) (ts.map Task.future) >>=
        join req_id start_time := by
  simp only [round]
  split
  next h =>
    rw [resume_wait, Nat.sub_eq_zero_of_le h]
    rfl
  next h =>
    split
    next hmax =>
      obtain ⟨m, hm⟩ : ∃ m, n - ts.length = m + 1 := ⟨n - ts.length - 1, by omega⟩
      rw [hm, enqueueJobs, if_pos hmax]
      rfl
    · rfl

theorem fits_free {freed rest : List Task} {code : Int32} (h : (freed ++ rest).length = n) :
    (free freed rest code).Fits n := by
  cases rest <;> simpa [free, Fits, tasks] using h

theorem fits_check {passed rest : List Task} (h : (passed ++ rest).length = n) :
    (check passed rest).Fits n := by
  cases rest <;> simpa [check, Fits, tasks] using h

theorem fits_wait {got rest : List Task} (h : (got ++ rest).length = n) : (wait got rest).Fits n := by
  cases rest with
  | nil => exact fits_check (by simpa using h)
  | cons t rest => exact h

theorem fits_round {ts : List Task} (h : ts.length ≤ n) : (round n ts).Fits n := by
  simp only [round]
  split
  next hn => exact fits_wait (le_antisymm h hn)
  next hn =>
    split
    next hmax => exact ⟨by omega, hmax⟩
    next hmax => exact ⟨by omega, hmax⟩

/-! ## The simulation -/

/-- An answer with which the call goes on: the pool has not been stopped, and no task has thrown. -/
def Regular : ((o : PoolOp ℕ Op) × o.Res Op.Res Exn Int32) → Prop
  | ⟨.enqueue _, none⟩ | ⟨.get _, .error _⟩ => False
  | _ => True

theorem resume_step {ph : Phase} (hfits : ph.Fits n) {o : PoolOp ℕ Op}
    {k : o.Res Op.Res Exn Int32 → Call Int32} (h : ph.resume req_id n start_time = .op o k)
    {r : o.Res Op.Res Exn Int32} (hr : Regular ⟨o, r⟩) :
    ∃ ph' start_time', ph.Step n ⟨o, r⟩ ph' ∧ ph'.Fits n ∧
      k r = ph'.resume req_id n start_time' := by
  cases ph with
  | starting =>
    cases h
    exact ⟨_, r, .start r, fits_round (Nat.zero_le _), by rw [resume_round]; rfl⟩
  | making ts =>
    obtain ⟨m, hm⟩ : ∃ m, n - ts.length = m + 1 := ⟨n - ts.length - 1, by have := hfits.1; omega⟩
    rw [resume, hm, enqueueJobs, if_neg hfits.2] at h
    cases h
    refine ⟨_, start_time, .make ts r, hfits, ?_⟩
    rw [resume, hm]
    exact Prog.bind_assoc (enqueue (ts.map Task.job ++ [r]) r)
      (fun result => enqueueJobs m (ts.length + 1) (ts.map Task.job ++ [r])
        (ts.map Task.future ++ [result])) (join req_id start_time)
  | enqueuing ts job =>
    cases h
    cases r with
    | none => exact hr.elim
    | some future =>
      refine ⟨_, start_time, .enqueue ts job future, fits_round (by rw [List.length_append]; exact hfits.1), ?_⟩
      rw [resume_round]
      simp only [List.length_append, List.length_singleton, List.map_append, List.map_cons, List.map_nil,
        ← Nat.sub_sub]
      rfl
  | waiting got t rest =>
    cases h
    cases r with
    | error e => exact hr.elim
    | ok code =>
      have hlen : ((got ++ [t]) ++ rest).length = n := by simpa [Fits, tasks] using hfits
      refine ⟨_, start_time, .get got t rest code, fits_wait hlen, ?_⟩
      rw [resume_wait, List.append_assoc]
      rfl
  | checking passed t rest =>
    cases h
    cases r with
    | true =>
      have hlen : ((passed ++ [t]) ++ rest).length = n := by simpa [Fits, tasks] using hfits
      refine ⟨_, start_time, .pass passed t rest, fits_check hlen, ?_⟩
      rw [resume_check, List.append_assoc]
      rfl
    | false =>
      refine ⟨_, start_time, .fail passed t rest, fits_free hfits, ?_⟩
      rw [resume_free]
      rfl
  | stamping ts =>
    cases h
    exact ⟨_, start_time, .stamp ts r _, hfits, rfl⟩
  | printing ts text =>
    cases h
    exact ⟨_, start_time, .print ts text, hfits, rfl⟩
  | appending ts =>
    cases h
    exact ⟨_, start_time, .append ts, fits_free hfits, by rw [resume_free]; rfl⟩
  | releasing freed t rest code =>
    cases h
    have hlen : ((freed ++ [t]) ++ rest).length = n := by simpa [Fits, tasks] using hfits
    exact ⟨_, start_time, .release freed t rest code, fits_free hlen, by rw [resume_free]; rfl⟩
  | ended ts code => cases h
  | aborted ts => cases h
  | rejected => cases h

theorem runs_initial {Doc : Type} (json : JsonLib Doc) (input : Bytes) :
    ∃ ph : Phase, (ph = .starting ∨ ph = .rejected) ∧ Runs json input ph (faasFuncCall json input) := by
  rcases hreq : parseRequest json input with e | _ | ⟨req_id, fanout_num⟩
  · exact ⟨.rejected, .inr rfl, by simp only [Runs, faasFuncCall, hreq]; exact ⟨trivial, rfl⟩⟩
  · exact ⟨.rejected, .inr rfl, by simp only [Runs, faasFuncCall, hreq]; exact ⟨trivial, rfl⟩⟩
  · refine ⟨.starting, .inl rfl, ?_⟩
    simp only [Runs, faasFuncCall, hreq]
    exact ⟨trivial, 0, rfl⟩

/-- The step of a call, with what is left of its program. -/
theorem Runs.step {Doc : Type} {json : JsonLib Doc} {input : Bytes} {ph : Phase} {o : PoolOp ℕ Op}
    {k : o.Res Op.Res Exn Int32 → Call Int32} (h : Runs json input ph (.op o k))
    {r : o.Res Op.Res Exn Int32} (hr : Regular ⟨o, r⟩) :
    ∃ n ph', ph.Step n ⟨o, r⟩ ph' ∧ Runs json input ph' (k r) := by
  simp only [Runs] at h ⊢
  split at h
  · cases h.2
  · cases h.2
  next req_id fanout_num _ =>
    obtain ⟨hfits, start_time, heq⟩ := h
    obtain ⟨ph', start_time', hstep, hfits', hk⟩ := resume_step hfits heq.symm hr
    exact ⟨_, ph', hstep, hfits', start_time', hk⟩

end Phase

/-! ## The workers' function -/

section Invoke

variable {var : Option Bytes} {job : ℕ} {es : List ((o : Op) × o.Res)}

/-- An execution of `invoke` from start to end. -/
theorem path_invoke {out : Except Exn Int32} (h : (invoke var job).Path es out) :
    out = .ok 0 ∧ ∃ func_name ret, es = [⟨.funcName job, func_name⟩,
      ⟨.invoke func_name (ascii "2") (chooseMessagePassingMethod var), ret⟩,
      ⟨.setSucceed job (ret ≠ -1), ()⟩] := by
  obtain ⟨func_name, _, rfl, ret, _, rfl, _, _, rfl, rfl, rfl⟩ := h
  exact ⟨rfl, func_name, ret, rfl⟩

/-- How far an execution of `invoke` can be when another operation follows. -/
theorem after_invoke {o : Op} {k : o.Res → Prog Op Op.Res Exn Int32}
    (h : (invoke var job).After es (.op o k)) :
    (es = [] ∧ o = .funcName job) ∨
      (∃ func_name, es = [⟨.funcName job, func_name⟩] ∧
        o = .invoke func_name (ascii "2") (chooseMessagePassingMethod var)) ∨
      ∃ func_name ret, es = [⟨.funcName job, func_name⟩,
        ⟨.invoke func_name (ascii "2") (chooseMessagePassingMethod var), ret⟩] ∧
        o = .setSucceed job (ret ≠ -1) := by
  rcases Prog.After.op_cases h with ⟨rfl, heq⟩ | ⟨func_name, es₁, rfl, h₁⟩
  · cases heq
    exact .inl ⟨rfl, rfl⟩
  rcases Prog.After.op_cases h₁ with ⟨rfl, heq⟩ | ⟨ret, es₂, rfl, h₂⟩
  · cases heq
    exact .inr (.inl ⟨func_name, rfl, rfl⟩)
  rcases Prog.After.op_cases h₂ with ⟨rfl, heq⟩ | ⟨_, es₃, rfl, h₃⟩
  · cases heq
    exact .inr (.inr ⟨func_name, ret, rfl, rfl⟩)
  · cases (Prog.After.ret_cases h₃).2

theorem invoke_within : (invoke var job).Within (fun _ => 1) (fun _ => True) 3 :=
  ⟨2, le_rfl, fun _ => ⟨1, le_rfl, fun _ => ⟨0, le_rfl, fun _ => trivial⟩⟩⟩

end Invoke

/-! ## What a call may cost -/

section Cost

/-- What the operations of a call cost, where a task takes three operations. -/
abbrev callCost : PoolOp ℕ Op → ℕ := PoolOp.cost 3

theorem releaseJobs_within (jobs : List ℕ) :
    (releaseJobs jobs).Within callCost (fun _ => True) jobs.length := by
  induction jobs with
  | nil => trivial
  | cons job jobs ih => exact ⟨jobs.length, by simp [callCost, PoolOp.cost, Nat.add_comm], fun _ => ih⟩

theorem getResults_within (results : List ℕ) :
    (getResults results).Within callCost (fun _ => True) results.length := by
  induction results with
  | nil => trivial
  | cons result results ih =>
    refine ⟨results.length, by simp [callCost, PoolOp.cost, Nat.add_comm], fun out => ?_⟩
    cases out with
    | error e => trivial
    | ok code => exact ih

theorem allSucceed_within (jobs : List ℕ) :
    (allSucceed jobs).Within callCost (fun _ => True) jobs.length := by
  induction jobs with
  | nil => trivial
  | cons job jobs ih =>
    refine ⟨jobs.length, by simp [callCost, PoolOp.cost, Nat.add_comm], fun b => ?_⟩
    cases b with
    | false => trivial
    | true => exact ih

theorem enqueue_within (jobs : List ℕ) (job : ℕ) :
    (enqueue jobs job).Within callCost (fun _ => True) (6 + jobs.length) := by
  refine ⟨jobs.length, le_rfl, fun r => ?_⟩
  cases r with
  | none =>
    change (releaseJobs jobs >>= fun _ => Prog.raise Exn.runtimeError).Within _ _ _
    refine Prog.Within.bind (m := 0) (releaseJobs_within jobs) ?_
    intro _ _
    trivial
  | some result => trivial

theorem enqueueJobs_within (n i : ℕ) (jobs results : List ℕ) :
    (enqueueJobs n i jobs results).Within callCost
      (fun x => x.1.length ≤ jobs.length + n ∧ x.2.length ≤ results.length + n)
      (n * (n + jobs.length + 8)) := by
  induction n generalizing i jobs results with
  | zero => exact ⟨le_rfl, le_rfl⟩
  | succ n ih =>
    rw [enqueueJobs]
    split
    · trivial
    · refine ⟨6 + (jobs.length + 1) + n * (n + (jobs.length + 1) + 8), ?_, fun job => ?_⟩
      · simp only [callCost, PoolOp.cost, Nat.succ_mul, Nat.mul_add]
        omega
      · have henq := enqueue_within (jobs ++ [job]) job
        rw [List.length_append, List.length_singleton] at henq
        refine henq.bind fun result _ => ?_
        have hrest := ih (i + 1) (jobs ++ [job]) (results ++ [result])
        simp only [List.length_append, List.length_singleton] at hrest
        exact hrest.imp fun x hx => ⟨by omega, by omega⟩

theorem conclude_within (req_id : Int64) (start_time : ℕ) (jobs : List ℕ) :
    (conclude req_id start_time jobs).Within callCost (fun _ => True)
      (jobs.length + (jobs.length + 3)) := by
  refine (allSucceed_within jobs).bind fun b _ => ?_
  have hrel : ∀ code : Int32, (do releaseJobs jobs; return code : Call Int32).Within callCost
      (fun _ => True) jobs.length := by
    intro code
    refine Prog.Within.bind (m := 0) (releaseJobs_within jobs) ?_
    intro _ _
    trivial
  cases b with
  | false => exact (hrel (-1)).mono (Nat.le_add_right ..)
  | true =>
    refine ⟨jobs.length + 2, by simp only [callCost, PoolOp.cost]; omega, fun _ => ?_⟩
    refine ⟨jobs.length + 1, by simp only [callCost, PoolOp.cost]; omega, fun _ => ?_⟩
    exact ⟨jobs.length, by simp only [callCost, PoolOp.cost]; omega, fun _ => hrel 0⟩

/-- A call cannot go on for ever, whatever its input. -/
theorem faasFuncCall_within {Doc : Type} (json : JsonLib Doc) (input : Bytes) :
    ∃ m, (faasFuncCall json input).Within callCost (fun _ => True) m := by
  rcases hreq : parseRequest json input with e | _ | ⟨req_id, fanout_num⟩
  · exact ⟨0, by simp only [faasFuncCall, hreq]; trivial⟩
  · exact ⟨0, by simp only [faasFuncCall, hreq]; trivial⟩
  · set n := fanout_num.toInt.toNat with hn
    refine ⟨1 + (n * (n + 0 + 8) + (n + (n + (n + 3)))), ?_⟩
    simp only [faasFuncCall, hreq]
    refine ⟨_, le_rfl, fun start_time => ?_⟩
    refine (enqueueJobs_within n 0 [] []).bind fun x hx => ?_
    simp only [List.length_nil, Nat.zero_add] at hx
    refine Prog.Within.bind ((getResults_within x.2).mono hx.2) fun _ _ => ?_
    exact (conclude_within req_id start_time x.1).mono (by have := hx.1; omega)

end Cost

theorem auditName_injective {i j : ℕ} (h : auditName i = auditName j) : i = j := by
  have := toStr_injective (List.append_cancel_left h)
  omega

end FanOut
