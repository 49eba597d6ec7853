import Fuyao.MediaService.Clients
import Fuyao.MediaService.Proofs.PipelineProofs
import Fuyao.MediaService.Proofs.ProvenanceProofs

/-!
# Proofs: counters that stay are found

`Upload` adds the counter of its request before it increments it, and no operation removes a key. So an
`Incr` misses its counter only after the counter has expired or been evicted.
-/

namespace MediaService

open Cpp Concurrency

variable {ι : Type} {i : ι} {T T' : List (ServiceEvent ι)}

theorem CountersInv.snoc {w w' : World} (h : CountersInv w T) {o : Op} {ch : Choice} {r : o.Res}
    (hex : World.exec o ch w = some (r, w')) (hr : ¬ LostCounter ⟨o, r⟩) :
    CountersInv w' (T ++ [⟨i, o, r, w, w'⟩]) := by
  refine ⟨fun e he req_id hadds => ?_, fun e he => ?_⟩
  · rcases List.mem_append.mp he with he | he
    · exact World.exec_get_ne_none hex (h.held e he req_id hadds)
    · obtain rfl := List.mem_singleton.mp he
      cases o <;> try exact absurd hadds id
      case add key value exptime _ =>
        cases r with
        | none => exact absurd hadds id
        | some stored =>
          obtain rfl : key = keyCounter req_id := hadds
          exact World.exec_add_ne_none hex
  · rcases List.mem_append.mp he with he | he
    · exact h.found e he
    · obtain rfl := List.mem_singleton.mp he
      exact hr

theorem keeps_of_notIncr {o : Op} (ho : NotIncr o) : (counters (ι := ι)).Keeps i o :=
  fun _ _ _ r _ hinv hex => hinv.snoc hex (ho r)

theorem notIncr_of_isLocal {o : Op} (ho : o.isLocal = true) : NotIncr o := by
  cases o <;> first | exact fun _ => id | cases ho

/-- An `Incr` of a counter that the thread has seen added. -/
theorem performs_incr_counter {req_id : Int64} {K : Option (Option UInt64) → Unit → List (ServiceEvent ι) → Prop}
    (hadded : ∃ e ∈ T, Adds (keyCounter req_id) ⟨e.op, e.res⟩) (hnone : ∀ T', K none () T')
    (hsome : ∀ n T', K (some (some n)) () T') :
    (counters (ι := ι)).Performs i (.incr (keyCounter req_id) 1) () T K := by
  intro c a ch r w' hT hinv _ _ _ hex _
  obtain ⟨e, he, hadds⟩ := hadded
  have hheld := hinv.held e (hT.subset he) req_id hadds
  have hr : ¬ LostCounter ⟨.incr (keyCounter req_id) 1, r⟩ := by
    rcases r with _ | _ | n
    · exact id
    · exact fun _ => hheld (World.exec_incr_null hex)
    · exact id
  refine ⟨(), hinv.snoc hex hr, fun _ _ => rfl, ?_⟩
  rcases r with _ | _ | n
  · exact hnone _
  · exact absurd trivial hr
  · exact hsome n _

theorem wp_of_notIncr {β : Type} {p : Service β} {Q : β → Prop} (hp : p.Uses NotIncr Q) :
    (counters (ι := ι)).wp i p (fun _ _ _ => True) () T :=
  Logic.wp_mono (Logic.wp_of_uses hp fun _ => keeps_of_notIncr) fun _ _ _ _ _ => trivial

theorem finishUpload_notIncr (req_id : Int64) (n : UInt64) :
    (finishUpload .anyRuntime req_id n).Uses NotIncr fun _ => True :=
  finishUpload_uses (fun _ => notIncr_of_isLocal) (fun _ _ => id) (fun _ _ => uses_ask fun _ => id) n

theorem countUpload_counters {req_id : Int64} (success : Option Bool)
    (hadded : ∃ e ∈ T, Adds (keyCounter req_id) ⟨e.op, e.res⟩) :
    (counters (ι := ι)).wp i (countUpload .anyRuntime req_id success) (fun _ _ _ => True) () T := by
  have hfail : ∀ T', (counters (ι := ι)).wp i (ask (.push .upload) >>= fun _ => (return -1 : Service Int))
      (fun _ _ _ => True) () T' :=
    fun T' => wp_ask ((keeps_of_notIncr fun _ => id).performs fun _ _ _ => trivial)
  rcases success with _ | _ | _
  · exact hfail T
  · refine wp_ask ((keeps_of_notIncr fun _ => id).performs ?_)
    rintro (_ | _ | value) T' -
    · exact hfail T'
    · exact hfail T'
    · exact Logic.wp_ofExcept (fun n _ => wp_of_notIncr (finishUpload_notIncr req_id n)) fun _ _ => trivial
  · refine wp_ask (performs_incr_counter hadded hfail fun n T' => ?_)
    exact wp_of_notIncr (finishUpload_notIncr req_id n)

theorem upload_counters (val : Review) (op : UploadOp) :
    (counters (ι := ι)).wp i (upload .anyRuntime val op) (fun _ _ _ => True) () T := by
  unfold upload
  refine wp_ask ((keeps_of_notIncr fun _ => id).performs ?_)
  rintro (_ | _) T₁ -
  · trivial
  refine wp_ask ((keeps_of_notIncr fun _ => id).performs_of_good ?_)
  rintro c ch (_ | stored) w' - - hT
  · exact wp_ask ((keeps_of_notIncr fun _ => id).performs fun _ _ _ => trivial)
  -- from here on the thread knows that the counter was added
  have hadded : ∃ e ∈ c.trace ++ [⟨i, .add (keyCounter val.req_id) (ascii "0") mmcExpTime, some stored,
      c.shared, w'⟩], Adds (keyCounter val.req_id) ⟨e.op, e.res⟩ :=
    ⟨_, List.mem_append_right _ (List.mem_singleton_self _), rfl⟩
  simp only
  cases componentValue val op with
  | none => exact countUpload_counters (some stored) hadded
  | some value =>
    refine wp_ask ((keeps_of_notIncr fun _ => id).performs fun success T₃ hT₃ => ?_)
    obtain ⟨e, he, hadds⟩ := hadded
    exact countUpload_counters success ⟨e, hT₃.subset he, hadds⟩

theorem registerMovieId1_uses {U : Op → Prop} (hlocal : ∀ o, o.isLocal = true → U o)
    (hins : ∀ doc, U (.insertMovie doc)) (input_json : Json) :
    (registerMovieId1 input_json).Uses U fun _ => True := by
  unfold registerMovieId1
  split
  · refine Prog.uses_ofExcept_bind fun n _ => Prog.uses_ofExcept_bind fun s _ => ?_
    refine Prog.uses_ofExcept_bind fun s' _ => Prog.uses_ofExcept_bind fun t _ => ?_
    exact Prog.uses_ofExcept_bind fun t' _ => registerMovieId_uses hlocal (hins _)
  · trivial

/-- Every call but `Upload` increments nothing. -/
theorem run_counters (call : ServiceCall) :
    (counters (ι := ι)).wp i call.run (fun _ _ _ => True) () T := by
  have hlocal : ∀ o : Op, o.isLocal = true → NotIncr o := fun _ => notIncr_of_isLocal
  have hcall : ∀ call : Call, (FaasWorker.anyRuntime.invoke_func_fn_ call.invocation).Uses NotIncr
      fun _ => True := fun _ => uses_ask fun _ => id
  cases call with
  | uploadText1 input_json => exact wp_of_notIncr (uploadText1_uses fun call _ => hcall call)
  | uploadUniqueId1 input_json =>
    exact wp_of_notIncr (uploadUniqueId1_uses hlocal fun call _ => hcall call)
  | uploadMovieId1 input_json =>
    exact wp_of_notIncr (uploadMovieId1_uses hlocal (fun _ _ _ => id) (fun _ _ _ _ => id) fun call _ => hcall call)
  | registerMovieId1 input_json =>
    exact wp_of_notIncr (registerMovieId1_uses hlocal (fun _ _ => id) input_json)
  | uploadMovieId val =>
    exact wp_of_notIncr (uploadMovieId_uses hlocal (fun _ => id) (fun _ _ => id)
      (fun _ => uses_ask fun _ => id) (uses_ask fun _ => id))
  | upload val op => exact upload_counters val op
  | composeAndUpload req_id =>
    exact wp_of_notIncr (composeAndUpload_uses hlocal (fun _ _ => id) fun _ _ => uses_ask fun _ => id)
  | storeReview review => exact wp_of_notIncr (storeReview_uses hlocal fun _ => id)

/-- While the counters stay, every `Incr` finds its counter. -/
theorem not_lostCounter_of_reachable [DecidableEq ι] {calls : ι → ServiceCall} {c : ServiceConfig ι}
    (hc : ReachableFrom World.empty CountersStay (serviceCalls calls) c) :
    ∀ e ∈ c.trace, ¬ LostCounter ⟨e.op, e.res⟩ := by
  have hinit : (counters (ι := ι)).inv World.empty [] () := ⟨by simp, by simp⟩
  have henv : ∀ (c : ServiceConfig ι) a e w', counters.inv c.shared c.trace a →
      CountersStay (.env e : ServiceLabel ι) → World.env e c.shared = some w' →
      ∃ a', counters.inv w' c.trace a' ∧ ∀ j, counters.view j a' = (counters (ι := ι)).view j a := by
    intro c a e w' hinv hstay he
    refine ⟨(), ⟨fun ev hev req_id hadds => ?_, hinv.found⟩, fun _ => rfl⟩
    refine World.env_get_ne_none he ⟨?_, ?_⟩ (hinv.held ev hev req_id hadds)
    · rintro rfl
      exact hstay req_id rfl
    · rintro rfl
      exact hstay req_id rfl
  obtain ⟨_, hinv, -⟩ := Logic.sound (P := counters) () hinit (fun i => run_counters (calls i)) henv hc
    fun _ _ => trivial
  exact hinv.found

end MediaService
