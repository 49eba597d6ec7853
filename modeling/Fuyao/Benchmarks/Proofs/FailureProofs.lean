import Fuyao.Faas.Proofs.FaasProofs
import Fuyao.Finra.MarginBalance
import Fuyao.FunctionChain.FunctionChain
import Fuyao.Latency.Latency

/-!
# Proofs: what the benchmark functions do with failed invocations

`exp06Frontend`, `fn_b` and `fn_c` look at the output of their invocation before they look at its return
code; `exp05MarginBalance` looks at the outputs of its invocations in any case and prints a verdict. So
each of them treats failures properly on exactly those paths on which there are none.
-/

namespace Benchmarks

open Cpp Concurrency Faas Utils

/-! ## One invocation -/

section Latency

open Latency

variable {es : List ((o : Op Func) × o.Res)} {out : Except Exn Int32}

theorem measure_path {text : Bytes} {allocated : Option Bytes} (h : (measure text allocated).Path es out) :
    es = [] ∨ ∃ t payload code b rest, es = [⟨.clock, t⟩, ⟨.invoke .exp01Fne payload, code⟩] ++
      ⟨.output 0, b⟩ :: rest ∧ ∀ e ∈ rest, e.1.Quiet := by
  cases allocated with
  | none => exact .inl h.1
  | some generate_payload =>
    obtain ⟨t, _, rfl, code, _, rfl, b, rest, rfl, h⟩ := h
    refine .inr ⟨t, _, code, b, rest, rfl, ?_⟩
    refine (Prog.Uses.path (S := Op.Quiet) (Q := fun _ => True) ?_ h).1
    change (Prog.ofExcept (stol b) >>= fun end_time => if code ≠ 0 then _ else _).Uses _ _
    refine Prog.uses_ofExcept_bind fun end_time _ => ?_
    exact report_uses (fun _ => ⟨rfl, rfl⟩) code _ 60 _

/-- What `fn_b` and `fn_c` have in common: a quiet allocation `o`, and then the measurement. -/
theorem measured_contained_iff {text : Bytes} {o : Op Func} (ho : o.Quiet) {r : o.Res}
    {allocated : Option Bytes} (h : (measure text allocated).Path es out) :
    FailuresContained (⟨o, r⟩ :: es) out ↔ ∀ c ∈ codes (⟨o, r⟩ :: es), c = 0 := by
  rcases measure_path h with rfl | ⟨t, payload, code, b, rest, rfl, hrest⟩
  · have hquiet : ∀ e ∈ [(⟨o, r⟩ : (o : Op Func) × o.Res)], e.1.Quiet := by simpa using ho
    simp [failuresContained_of_quiet hquiet, codes_eq_nil fun e he => (hquiet e he).1]
  · have hcode : codes [(⟨o, r⟩ : (o : Op Func) × o.Res)] = [] := codes_eq_nil (by simpa using ho.1)
    have hmade : ∀ e ∈ [(⟨o, r⟩ : (o : Op Func) × o.Res), ⟨.clock, t⟩, ⟨.invoke .exp01Fne payload, code⟩],
        e.1.isOutput = false := by
      simpa [Op.isOutput] using ho.2
    refine failuresContained_eager hmade (?_ : _ = [code]) hrest
    rw [← List.singleton_append, codes_append, hcode]
    rfl

/-- A request that is rejected invokes nothing. -/
theorem parsed_contained_iff {input : Bytes} {k : Int64 → Body Func Int32}
    (hk : ∀ size es, (k size).Path es out → (FailuresContained es out ↔ ∀ c ∈ codes es, c = 0))
    (h : (Prog.ofExcept (parsePayloadSize input) >>= fun size => if size = -1 then return -1 else k size).Path
      es out) : FailuresContained es out ↔ ∀ c ∈ codes es, c = 0 := by
  rcases Prog.path_bind.mp h with ⟨e, hparse, -⟩ | ⟨size, es₁, es₂, rfl, hparse, hrun⟩
  · obtain ⟨rfl, -⟩ := Prog.path_ofExcept.mp hparse
    exact failuresContained_nil
  · obtain ⟨rfl, -⟩ := Prog.path_ofExcept.mp hparse
    rw [List.nil_append]
    split at hrun
    · obtain ⟨rfl, -⟩ := hrun
      exact failuresContained_nil
    · exact hk size es₂ hrun

theorem fnB_contained_iff {input : Bytes} (h : (fnB input).Path es out) :
    FailuresContained es out ↔ ∀ c ∈ codes es, c = 0 := by
  refine parsed_contained_iff (fun size es hrun => ?_) h
  obtain ⟨allocated, es', rfl, hrun⟩ := hrun
  exact measured_contained_iff ⟨rfl, rfl⟩ hrun

theorem fnC_contained_iff {input : Bytes} (h : (fnC input).Path es out) :
    FailuresContained es out ↔ ∀ c ∈ codes es, c = 0 := by
  refine parsed_contained_iff (fun size es hrun => ?_) h
  obtain ⟨allocated, es', rfl, hrun⟩ := hrun
  exact measured_contained_iff ⟨rfl, rfl⟩ hrun

end Latency

section FunctionChain

open FunctionChain

variable {es : List ((o : Op Func) × o.Res)} {out : Except Exn Int32}

theorem reportChain_path {n ret : Int32} {t : Int64} (h : (reportChain n t ret).Path es out) :
    ∃ b rest, es = ⟨.output 0, b⟩ :: rest ∧ ∀ e ∈ rest, e.1.Quiet := by
  obtain ⟨b, rest, rfl, h⟩ := h
  refine ⟨b, rest, rfl, ?_⟩
  refine (Prog.Uses.path (S := Op.Quiet) (Q := fun _ => True) ?_ h).1
  cases hb : stol b with
  | error e =>
    simp only [Prog.bind, hb]
    trivial
  | ok end_time =>
    simp only [Prog.bind, hb]
    exact report_uses (fun _ => ⟨rfl, rfl⟩) ret _ 60 _

theorem runChain_contained_iff {n : Int32} {size : Int64} (h : (runChain n size).Path es out) :
    FailuresContained es out ↔ ∀ c ∈ codes es, c = 0 := by
  obtain ⟨allocated, es', rfl, h⟩ := h
  cases allocated with
  | none =>
    obtain ⟨rfl, -⟩ := h
    have hquiet : ∀ e ∈ [(⟨.alloc (reservedSize size), none⟩ : (o : Op Func) × o.Res)], e.1.Quiet := by
      simp [Op.Quiet, Op.isInvoke, Op.isOutput]
    simp [failuresContained_of_quiet hquiet, codes_eq_nil fun e he => (hquiet e he).1]
  | some block =>
    obtain ⟨t, _, rfl, code, es', rfl, h⟩ := h
    obtain ⟨b, rest, rfl, hrest⟩ := reportChain_path h
    have hmade : ∀ e ∈ [(⟨.alloc (reservedSize size), some block⟩ : (o : Op Func) × o.Res), ⟨.clock, t⟩,
        ⟨.invoke .exp06Backend (storeInt n block), code⟩], e.1.isOutput = false := by
      simp [Op.isOutput]
    exact failuresContained_eager hmade (rfl : _ = [code]) hrest

theorem exp06Frontend_contained_iff {input : Bytes} (h : (exp06Frontend input).Path es out) :
    FailuresContained es out ↔ ∀ c ∈ codes es, c = 0 := by
  rcases Prog.path_bind.mp h with ⟨e, hparse, -⟩ | ⟨request, es₁, es₂, rfl, hparse, hrun⟩
  · obtain ⟨rfl, -⟩ := Prog.path_ofExcept.mp hparse
    exact failuresContained_nil
  · obtain ⟨rfl, -⟩ := Prog.path_ofExcept.mp hparse
    rw [List.nil_append]
    cases request with
    | none =>
      obtain ⟨rfl, -⟩ := hrun
      exact failuresContained_nil
    | some request => exact runChain_contained_iff hrun

end FunctionChain

/-! ## Five invocations -/

section Finra

open Finra

variable {D : Type} {lib : JsonLib} {arith : Arith D} {files : Files D}
  {es : List ((o : Op Func) × o.Res)} {out : Except Exn Int32}

/-- An operation of `exp05MarginBalance` after its invocations. -/
def afterwards (o : Op Func) : Prop := o.isInvoke = false ∧ ∀ k, o = .output k → k < 5

theorem uses_verdict (s : Bytes) (ret : Int32) :
    (do ask (.append s); return ret : Body Func Int32).Uses afterwards fun _ => True :=
  ⟨⟨rfl, by rintro k ⟨⟩⟩, fun _ => trivial⟩

theorem readValid_uses {k : ℕ} (hk : k < 5) : (readValid lib k).Uses afterwards fun _ => True := by
  refine ⟨⟨rfl, by rintro k' ⟨⟩; exact hk⟩, fun b => ?_⟩
  change (Prog.ofExcept (lib.parse b) >>= fun document => _).Uses _ _
  refine Prog.uses_ofExcept_bind fun document _ => ?_
  refine Prog.uses_ofExcept_bind fun valid _ => ?_
  exact Prog.uses_ofExcept fun _ _ => trivial

theorem checkMargin_uses (ret : Int32) :
    (checkMargin lib arith files ret).Uses afterwards fun _ => True := by
  refine ⟨⟨rfl, by rintro k' ⟨⟩; decide⟩, fun b => ?_⟩
  change (Prog.ofExcept (lib.parse b) >>= fun market_data_json => _).Uses _ _
  refine Prog.uses_ofExcept_bind fun market _ => ?_
  refine Prog.uses_ofExcept_bind fun balance _ => ?_
  refine Prog.uses_ofExcept_bind fun trades _ => ?_
  refine Prog.uses_ofExcept_bind fun value _ => ?_
  split <;> exact uses_verdict _ _

theorem checkMargin_reports (ret : Int32) : Reports (checkMargin lib arith files ret) := by
  refine Reports.bind fun b => Reports.bind fun market => Reports.bind fun balance =>
    Reports.bind fun trades => Reports.bind fun value => ?_
  split <;> exact Reports.append _ _

theorem evaluateMargin_uses (ret : Int32) :
    (evaluateMargin lib arith files ret).Uses afterwards fun _ => True := by
  refine Prog.Uses.bind (readValid_uses (by decide)) fun valid_last_px _ => ?_
  refine Prog.Uses.bind (readValid_uses (by decide)) fun valid_side _ => ?_
  refine Prog.Uses.bind (readValid_uses (by decide)) fun valid_volume _ => ?_
  refine Prog.Uses.bind (readValid_uses (by decide)) fun valid_trade_date _ => ?_
  split
  · exact uses_verdict _ _
  · exact checkMargin_uses ret

theorem evaluateMargin_reports (ret : Int32) : Reports (evaluateMargin lib arith files ret) := by
  refine Reports.bind fun valid_last_px => Reports.bind fun valid_side => Reports.bind fun valid_volume =>
    Reports.bind fun valid_trade_date => ?_
  split
  · exact Reports.append _ _
  · exact checkMargin_reports ret

theorem exp05MarginBalance_contained_iff {input : Bytes}
    (h : (exp05MarginBalance lib arith files input).Path es out) :
    FailuresContained es out ↔ ∀ c ∈ codes es, c = 0 := by
  obtain ⟨c₁, _, rfl, c₂, _, rfl, c₃, _, rfl, c₄, _, rfl, c₅, rest, rfl, h⟩ := h
  have huses := ((evaluateMargin_uses _).path h).1
  have hmade : ∀ e ∈ [(⟨.invoke .exp05LastPx input, c₁⟩ : (o : Op Func) × o.Res),
      ⟨.invoke .exp05Side input, c₂⟩, ⟨.invoke .exp05Volume input, c₃⟩,
      ⟨.invoke .exp05TradeDate input, c₄⟩, ⟨.invoke .exp05MarketData input, c₅⟩],
      e.1.isOutput = false := by
    simp [Op.isOutput]
  refine failuresContained_late hmade (fun e he => (huses e he).1) ?_ ?_
  · intro k b hmem
    exact (huses _ hmem).2 k rfl
  · rintro code rfl
    exact evaluateMargin_reports _ rest code h

end Finra

/-- For every request and whatever their invocations return and leave as output: each of the four
functions keeps its hands off the output of failed invocations, and reports the failure, on exactly
those paths on which no invocation fails. -/
theorem failures_contained_iff {D : Type} (lib : Finra.JsonLib) (arith : Finra.Arith D)
    (files : Finra.Files D) (input : Bytes) (out : Except Exn Int32) :
    (∀ es, (FunctionChain.exp06Frontend input).Path es out →
      (FailuresContained es out ↔ ∀ c ∈ codes es, c = 0)) ∧
    (∀ es, (Latency.fnB input).Path es out → (FailuresContained es out ↔ ∀ c ∈ codes es, c = 0)) ∧
    (∀ es, (Latency.fnC input).Path es out → (FailuresContained es out ↔ ∀ c ∈ codes es, c = 0)) ∧
    (∀ es, (Finra.exp05MarginBalance lib arith files input).Path es out →
      (FailuresContained es out ↔ ∀ c ∈ codes es, c = 0)) :=
  ⟨fun _ => exp06Frontend_contained_iff, fun _ => fnB_contained_iff, fun _ => fnC_contained_iff,
    fun _ => exp05MarginBalance_contained_iff⟩

/-- A JSON library that takes every text for the report of a validator that has rejected something. -/
def sampleLib : Finra.JsonLib := ⟨fun _ => .ok (Finra.validDocument false), fun _ => []⟩

/-- An arithmetic that forgets all values and finds every balance too low. -/
def sampleArith : Finra.Arith Unit :=
  ⟨(), fun _ => (), fun _ _ => (), fun _ _ => (), fun _ => (), fun _ _ => false⟩

/-- An empty portfolio. -/
def sampleFiles : Finra.Files Unit := ⟨.ok (), .ok []⟩

/-- The operations of `fn_b` up to its look at the output, for a return code and an output. -/
def samplePath (code : Int32) (output : Bytes) : List ((o : Op Latency.Func) × o.Res) :=
  [⟨.alloc 16, some (List.replicate 16 0)⟩, ⟨.clock, 1000⟩,
    ⟨.invoke .exp01Fne (List.replicate 16 1), code⟩, ⟨.output 0, output⟩]

theorem failures_contained_iff_sample :
    ∃ es, (Latency.fnB (ascii "16B")).Path es (.ok 0) ∧ FailuresContained es (.ok 0) := by
  have hpath : (Latency.fnB (ascii "16B")).Path (samplePath 0 (ascii "1250") ++
      [⟨.append (ascii "Via IPC: interaction latency : 250\n"), ()⟩]) (.ok 0) :=
    ⟨_, _, rfl, _, _, rfl, _, _, rfl, _, _, rfl, _, _, rfl, rfl, rfl⟩
  refine ⟨_, hpath, ?_⟩
  refine ((failures_contained_iff sampleLib sampleArith sampleFiles (ascii "16B") (.ok 0)).2.1 _
    hpath).mpr fun c hc => ?_
  exact List.mem_singleton.mp hc

/-- A failed invocation that leaves no number ends `fn_b` by an exception; one that leaves a number has
its output read by `exp06Frontend`; and `exp05MarginBalance` prints a verdict although a validator has
failed. -/
theorem failed_output_used :
    ((Latency.fnB (ascii "16B")).Path (samplePath (-1) []) (.error .invalidArgument) ∧
      ¬ FailuresContained (samplePath (-1) []) (.error .invalidArgument)) ∧
    (∃ es, (FunctionChain.exp06Frontend (ascii "1 16B")).Path es (.ok (-1)) ∧ codes es = [-1] ∧
      ¬ FailuresContained es (.ok (-1))) ∧
    ∃ es, (Finra.exp05MarginBalance sampleLib sampleArith sampleFiles []).Path es (.ok 1) ∧
      codes es = [-1, 0, 0, 0, 0] ∧ ¬ FailuresContained es (.ok 1) := by
  have hfnB : (Latency.fnB (ascii "16B")).Path (samplePath (-1) []) (.error .invalidArgument) :=
    ⟨_, _, rfl, _, _, rfl, _, _, rfl, _, _, rfl, rfl, rfl⟩
  have hchain : (FunctionChain.exp06Frontend (ascii "1 16B")).Path
      [⟨.alloc 16, some (List.replicate 16 0)⟩, ⟨.clock, 1000⟩,
        ⟨.invoke .exp06Backend (storeInt 1 (List.replicate 16 0)), -1⟩, ⟨.output 0, ascii "7"⟩]
      (.ok (-1)) :=
    ⟨_, _, rfl, _, _, rfl, _, _, rfl, _, _, rfl, rfl, rfl⟩
  have hmargin : (Finra.exp05MarginBalance sampleLib sampleArith sampleFiles []).Path
      [⟨.invoke .exp05LastPx [], -1⟩, ⟨.invoke .exp05Side [], 0⟩, ⟨.invoke .exp05Volume [], 0⟩,
        ⟨.invoke .exp05TradeDate [], 0⟩, ⟨.invoke .exp05MarketData [], 0⟩, ⟨.output 0, []⟩,
        ⟨.output 1, []⟩, ⟨.output 2, []⟩, ⟨.output 3, []⟩, ⟨.append (ascii "not valid\n"), ()⟩]
      (.ok 1) :=
    ⟨_, _, rfl, _, _, rfl, _, _, rfl, _, _, rfl, _, _, rfl, _, _, rfl, _, _, rfl, _, _, rfl, _, _, rfl,
      _, _, rfl, rfl, rfl⟩
  have hfailed : (-1 : Int32) ≠ 0 := by decide
  refine ⟨⟨hfnB, ?_⟩, ⟨_, hchain, rfl, ?_⟩, _, hmargin, rfl, ?_⟩
  · rw [fnB_contained_iff hfnB]
    exact fun h => hfailed (h (-1) (List.mem_cons_self ..))
  · rw [exp06Frontend_contained_iff hchain]
    exact fun h => hfailed (h (-1) (List.mem_cons_self ..))
  · rw [exp05MarginBalance_contained_iff hmargin]
    exact fun h => hfailed (h (-1) (List.mem_cons_self ..))

end Benchmarks
