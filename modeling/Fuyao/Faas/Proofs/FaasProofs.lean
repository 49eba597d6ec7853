import Fuyao.Concurrency.Proofs.ProgProofs
import Fuyao.Faas.Faas

/-!
# Proofs: rules for the runtime, and for paths of functions
-/

namespace Faas

open Cpp Concurrency

variable {Func : Type}

/-! ## The runtime -/

section Runtime

variable {α : Type} {host : Host Func} {invoked : Func → Bytes → Site Func → Option (Response Func)}
  {fr : Frame} {s : Site Func}

@[simp] theorem ask_bind (o : Op Func) (k : o.Res → Body Func α) : (ask o >>= k) = .op o k := rfl

@[simp] theorem interp_ret (code : Int32) :
    interp host invoked (.ret code) fr s = some ⟨.ok code, fr, s⟩ := rfl

@[simp] theorem interp_raise (e : Exn) :
    interp host invoked (.raise e) fr s = some ⟨.error e, fr, s⟩ := rfl

@[simp] theorem interp_invoke (f : Func) (payload : Bytes)
    (k : (Op.invoke f payload).Res → Body Func Int32) :
    interp host invoked (.op (.invoke f payload) k) fr s = (invoked f payload s).bind fun r =>
      interp host invoked (k r.code) { fr with outputs := fr.outputs ++ [r.output] } r.site := rfl

@[simp] theorem interp_output (i : ℕ) (k : (Op.output i : Op Func).Res → Body Func Int32) :
    interp host invoked (.op (.output i) k) fr s =
      interp host invoked (k (fr.outputs.getD i [])) fr s := rfl

@[simp] theorem interp_append (out : Bytes) (k : (Op.append out : Op Func).Res → Body Func Int32) :
    interp host invoked (.op (.append out) k) fr s =
      interp host invoked (k ()) { fr with appended := fr.appended ++ out } s := rfl

@[simp] theorem interp_clock (k : (Op.clock : Op Func).Res → Body Func Int32) :
    interp host invoked (.op .clock k) fr s =
      interp host invoked (k (host.clock s.ticks)) fr { s with ticks := s.ticks + 1 } := rfl

@[simp] theorem interp_alloc (size : ℕ) (k : (Op.alloc size : Op Func).Res → Body Func Int32) :
    interp host invoked (.op (.alloc size) k) fr s =
      interp host invoked (k (host.alloc size)) fr s := rfl

/-- An invocation that returns. -/
theorem interp_of_invoked {f : Func} {payload : Bytes} {r : Response Func} (h : invoked f payload s = some r)
    (k : (Op.invoke f payload).Res → Body Func Int32) :
    interp host invoked (ask (.invoke f payload) >>= k) fr s =
      interp host invoked (k r.code) { fr with outputs := fr.outputs ++ [r.output] } r.site := by
  rw [ask_bind, interp_invoke, h]
  rfl

/-- A function whose body ends returns its code and its output, and its execution is in the log. -/
theorem call_of_interp {body : Func → Bytes → Body Func Int32} {fuel : ℕ} {f : Func} {input : Bytes}
    {e : Ending Func}
    (h : interp host (call host body fuel) (body f input) .empty (s.note (.start f input)) = some e) :
    call host body (fuel + 1) f input s =
      some ⟨returnCode e.outcome, e.frame.appended,
        e.site.note (.finish f (returnCode e.outcome) e.frame.appended)⟩ := by
  rw [call, h]
  rfl

end Runtime

/-! ## Paths -/

section Paths

variable {es made rest : List ((o : Op Func) × o.Res)} {out : Except Exn Int32}

theorem codes_append (es es' : List ((o : Op Func) × o.Res)) : codes (es ++ es') = codes es ++ codes es' :=
  List.filterMap_append ..

theorem codes_eq_nil (h : ∀ e ∈ es, e.1.isInvoke = false) : codes es = [] := by
  refine List.filterMap_eq_nil_iff.mpr fun e he => ?_
  obtain ⟨o, r⟩ := e
  have ho := h _ he
  cases o with
  | invoke f payload => cases ho
  | _ => rfl

/-- When all invocations come before all looks at an output, a path is fine if every output that is
looked at is the output of a successful invocation. -/
theorem readsDefined_iff (hmade : ∀ e ∈ made, e.1.isOutput = false)
    (hrest : ∀ e ∈ rest, e.1.isInvoke = false) :
    ReadsDefined (made ++ rest) ↔
      ∀ k b, (⟨.output k, b⟩ : (o : Op Func) × o.Res) ∈ rest → (codes made)[k]? = some 0 := by
  constructor
  · intro h k b hmem
    obtain ⟨r₁, r₂, hr⟩ := List.append_of_mem hmem
    have hr₁ : codes r₁ = [] := codes_eq_nil fun e he => hrest e (by simp [hr, he])
    have hread := h (made ++ r₁) k b r₂ (by rw [hr, List.append_assoc])
    rwa [codes_append, hr₁, List.append_nil] at hread
  · intro h before k b after heq
    rcases List.append_eq_append_iff.mp heq with ⟨r₁, rfl, hr⟩ | ⟨m₁, hm, hr⟩
    · have hr₁ : codes r₁ = [] := codes_eq_nil fun e he => hrest e (by simp [hr, he])
      rw [codes_append, hr₁, List.append_nil]
      exact h k b (by simp [hr])
    · cases m₁ with
      | nil =>
        rw [List.append_nil] at hm
        rw [List.nil_append] at hr
        rw [← hm]
        exact h k b (hr ▸ List.mem_cons_self)
      | cons e m₁ =>
        obtain ⟨rfl, -⟩ := List.cons.inj hr
        exact absurd (hmade ⟨.output k, b⟩ (by simp [hm])) (by simp [Op.isOutput])

/-- As long as nothing has been invoked, nothing can have gone wrong. -/
theorem failuresContained_of_quiet (h : ∀ e ∈ es, e.1.Quiet) : FailuresContained es out := by
  have hcodes : codes es = [] := codes_eq_nil fun e he => (h e he).1
  constructor
  · intro before k b rest heq
    exact absurd (h ⟨.output k, b⟩ (by simp [heq])).2 (by simp [Op.isOutput])
  · rintro ⟨code, hcode, -⟩
    simp [hcodes] at hcode

theorem failuresContained_nil :
    FailuresContained ([] : List ((o : Op Func) × o.Res)) out ↔
      ∀ c ∈ codes ([] : List ((o : Op Func) × o.Res)), c = 0 := by
  simp [failuresContained_of_quiet, codes]

/-- A function that invokes once and looks at the output whatever the return code is treats a failure
properly if there is none. -/
theorem failuresContained_eager {code : Int32} {b : Bytes} (hmade : ∀ e ∈ made, e.1.isOutput = false)
    (hcodes : codes made = [code]) (hrest : ∀ e ∈ rest, e.1.Quiet) :
    FailuresContained (made ++ ⟨.output 0, b⟩ :: rest) out ↔
      ∀ c ∈ codes (made ++ ⟨.output 0, b⟩ :: rest), c = 0 := by
  have hrest' : ∀ e ∈ (⟨.output 0, b⟩ :: rest : List ((o : Op Func) × o.Res)), e.1.isInvoke = false := by
    refine List.forall_mem_cons.mpr ⟨rfl, fun e he => (hrest e he).1⟩
  have hall : codes (made ++ ⟨.output 0, b⟩ :: rest) = [code] := by
    rw [codes_append, hcodes, codes_eq_nil hrest', List.append_nil]
  rw [FailuresContained, readsDefined_iff hmade hrest', hall, hcodes]
  constructor
  · rintro ⟨hread, -⟩
    simpa using hread 0 b (by simp)
  · intro hzero
    obtain rfl : code = 0 := by simpa using hzero
    constructor
    · intro k b' hmem
      rcases List.mem_cons.mp hmem with heq | hmem
      · obtain rfl : k = 0 := by simpa using congrArg Sigma.fst heq
        rfl
      · exact absurd (hrest _ hmem).2 (by simp [Op.isOutput])
    · rintro ⟨c, hc, hne⟩
      exact absurd (by simpa using hc) hne

/-- A function that makes all its invocations first, and that appends something whenever it returns,
treats failures properly if there are none. -/
theorem failuresContained_late (hmade : ∀ e ∈ made, e.1.isOutput = false)
    (hrest : ∀ e ∈ rest, e.1.isInvoke = false)
    (hreads : ∀ k b, (⟨.output k, b⟩ : (o : Op Func) × o.Res) ∈ rest → k < (codes made).length)
    (happends : ∀ code, out = .ok code → ∃ e ∈ rest, e.1.isAppend = true) :
    FailuresContained (made ++ rest) out ↔ ∀ c ∈ codes (made ++ rest), c = 0 := by
  have hall : codes (made ++ rest) = codes made := by
    rw [codes_append, codes_eq_nil hrest, List.append_nil]
  rw [FailuresContained, readsDefined_iff hmade hrest, hall]
  constructor
  · rintro ⟨-, hfail⟩ c hc
    by_contra hne
    obtain ⟨⟨code, hout, -⟩, hsilent⟩ := hfail ⟨c, hc, hne⟩
    obtain ⟨e, he, happend⟩ := happends code hout
    rw [hsilent e (List.mem_append_right _ he)] at happend
    cases happend
  · intro hzero
    constructor
    · intro k b hmem
      have hk := hreads k b hmem
      rw [List.getElem?_eq_getElem hk, hzero _ (List.getElem_mem hk)]
    · rintro ⟨c, hc, hne⟩
      exact absurd (hzero c hc) hne

/-- What the benchmarks do after an invocation: they give up, or append a text about the elapsed time. -/
theorem report_uses {S : Op Func → Prop} (happend : ∀ s, S (.append s)) (ret : Int32) (elapsed : Except Exn Int64)
    (n : ℕ) (text : Int64 → Bytes) :
    Prog.Uses S (fun _ => True) (if ret ≠ 0 then return -1 else do
      let elapsed ← Prog.ofExcept elapsed
      let output ← Prog.ofExcept (sprintf n (text elapsed))
      ask (.append output)
      return 0 : Body Func Int32) := by
  split
  · trivial
  · refine Prog.uses_ofExcept_bind fun elapsed _ => ?_
    refine Prog.uses_ofExcept_bind fun output _ => ?_
    exact ⟨happend output, fun _ => trivial⟩

/-- A body that appends something before it returns. -/
def Reports (p : Body Func Int32) : Prop :=
  ∀ es code, p.Path es (.ok code) → ∃ e ∈ es, e.1.isAppend = true

theorem Reports.append (s : Bytes) (k : Unit → Body Func Int32) : Reports (ask (.append s) >>= k) := by
  rintro es code ⟨r, es', rfl, -⟩
  exact ⟨⟨.append s, r⟩, List.mem_cons_self, rfl⟩

theorem Reports.bind {α : Type} {p : Body Func α} {f : α → Body Func Int32} (h : ∀ a, Reports (f a)) :
    Reports (p >>= f) := by
  intro es code hpath
  rcases Prog.path_bind.mp hpath with ⟨e, -, hout⟩ | ⟨a, es₁, es₂, rfl, -, hf⟩
  · cases hout
  · obtain ⟨e, he, happend⟩ := h a es₂ code hf
    exact ⟨e, List.mem_append_right _ he, happend⟩

end Paths

end Faas
