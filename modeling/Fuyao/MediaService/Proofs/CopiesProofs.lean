import Fuyao.MediaService.Proofs.ClientsProofs

/-!
# Proofs: the copies of strings

No function looks at the length of a string before it copies it. What is stored was copied into an array
of the right size before, so every later copy fits; only the first copy of a request may overflow.
-/

namespace MediaService

open Cpp Concurrency

theorem Call.fillIn_eq (call : Call) : call.fillIn = .ok call.review := by
  cases call with
  | text val => simp only [fillIn, strcpy_bytes, Except.map, review]
  | uniqueId val => rfl
  | movieId val => simp only [fillIn, strcpy_bytes, Except.map, review]
  | rating val => rfl

theorem fitsArray_string {n : ℕ} {s : Bytes} :
    FitsArray n (some (.string s)) ↔ (cStr s).length < n := by
  refine ⟨fun h => h s rfl, fun h t ht => ?_⟩
  obtain rfl : s = t := by simpa using ht
  exact h

theorem strcpy_of_not_fits {n : ℕ} {s : Bytes} (h : ¬ FitsArray n (some (.string s))) :
    strcpy n s = .error .overflow :=
  dif_neg fun hlt => h (fitsArray_string.mpr hlt)

theorem strcpy_of_fits {n : ℕ} {s : Bytes} (h : FitsArray n (some (.string s))) :
    ∃ t, strcpy n s = .ok t :=
  ⟨_, dif_pos (fitsArray_string.mp h)⟩

/-- An accepted call whose strings do not fit overflows before it does anything else. -/
theorem ServiceCall.run_of_not_fits {call : ServiceCall} (hacc : call.Accepted) (hfit : ¬ call.Fits) :
    call.run = .raise .overflow := by
  cases call with
  | uploadText1 input_json =>
    obtain ⟨⟨v, n, hreq, hn⟩, s, htext⟩ := hacc
    rw [Fits, htext] at hfit
    rw [run, MediaService.uploadText1, hreq, htext]
    simp only [hn, JsonValue.getString, strcpy_of_not_fits hfit, Prog.ofExcept_ok, Prog.ret_bind,
      Prog.ofExcept_error, Prog.raise_bind]
  | uploadMovieId1 input_json =>
    obtain ⟨⟨v, n, hreq, hn⟩, ⟨s, htitle⟩, v', m, hrating, hm⟩ := hacc
    rw [Fits, htitle] at hfit
    rw [run, MediaService.uploadMovieId1, hreq, htitle, hrating]
    simp only [hn, hm, JsonValue.getString, strcpy_of_not_fits hfit, Prog.ofExcept_ok, Prog.ret_bind,
      Prog.ofExcept_error, Prog.raise_bind]
  | registerMovieId1 input_json =>
    obtain ⟨⟨v, n, hreq, hn⟩, ⟨s, htitle⟩, t, hid⟩ := hacc
    rw [Fits, htitle, hid] at hfit
    rw [run, MediaService.registerMovieId1, hreq, htitle, hid]
    simp only [hn, JsonValue.getString, Prog.ofExcept_ok, Prog.ret_bind]
    by_cases hs : FitsArray 128 (some (.string s))
    · obtain ⟨title, htitle⟩ := strcpy_of_fits hs
      have ht : ¬ FitsArray 128 (some (.string t)) := fun ht => hfit ⟨hs, ht⟩
      simp only [htitle, strcpy_of_not_fits ht, Prog.ofExcept_ok, Prog.ret_bind, Prog.ofExcept_error,
        Prog.raise_bind]
    · simp only [strcpy_of_not_fits hs, Prog.ofExcept_error, Prog.raise_bind]
  | uploadUniqueId1 input_json => exact absurd trivial hfit
  | uploadMovieId val => exact absurd trivial hfit
  | upload val op => exact absurd trivial hfit
  | composeAndUpload req_id => exact absurd trivial hfit
  | storeReview review => exact absurd trivial hfit

variable {ι : Type} {calls : ι → ServiceCall}

theorem outcome_of_not_fits {i : ι} (hacc : (calls i).Accepted) (hfit : ¬ (calls i).Fits) :
    ((Config.initial World.empty (serviceCalls calls)).threads i).outcome =
      some (.error .overflow) := by
  change (calls i).run.outcome = _
  rw [ServiceCall.run_of_not_fits hacc hfit]
  rfl

variable [DecidableEq ι]

/-- Calls are accepted when their fields are there and of the right type. Then no `strcpy` of any call
overflows in any run, whatever fails, expires or is evicted, exactly if the strings of every request fit
the arrays they are first copied to; the copies that `UploadText` and `UploadMovieId` make of their
arguments fit anyway. -/
theorem string_copies_fit_iff (hacc : ∀ i, (calls i).Accepted) :
    ((∀ c, ReachableFrom World.empty (fun _ => True) (serviceCalls calls) c →
        ∀ i, (c.threads i).outcome ≠ some (.error .overflow)) ↔ ∀ i, (calls i).Fits) ∧
      ∀ call : Call, call.fillIn = .ok call.review := by
  refine ⟨⟨fun hrun i => ?_, fun hfit c hc i hout => ?_⟩, Call.fillIn_eq⟩
  · by_contra hfit
    exact hrun _ .init i (outcome_of_not_fits (hacc i) hfit)
  · rcases settles_of_reachable hc hout with hsettle | ⟨-, hstop⟩
    · exact hsettle.ne_overflow rfl
    · exact hstop ⟨hacc i, hfit i⟩

/-- A movie is registered and reviewed. -/
def sampleRequests : Option Bool → ServiceCall
  | none => .registerMovieId1
      ⟨some (.integer 7), some (.string (ascii "Up")), some (.string (ascii "m7")), none, none⟩
  | some false => .uploadMovieId1
      ⟨some (.integer 7), some (.string (ascii "Up")), none, none, some (.integer 5)⟩
  | some true => .uploadText1 ⟨some (.integer 7), none, none, some (.string (ascii "good")), none⟩

theorem string_copies_fit_iff_sample :
    (∀ i, (sampleRequests i).Accepted) ∧
      ∀ c, ReachableFrom World.empty (fun _ => True) (serviceCalls sampleRequests) c →
        ∀ i, (c.threads i).outcome ≠ some (.error .overflow) := by
  have hacc : ∀ i, (sampleRequests i).Accepted := by
    rintro (_ | _ | _)
    · exact ⟨⟨_, _, rfl, rfl⟩, ⟨_, rfl⟩, _, rfl⟩
    · exact ⟨⟨_, _, rfl, rfl⟩, ⟨_, rfl⟩, _, _, rfl, rfl⟩
    · exact ⟨⟨_, _, rfl, rfl⟩, _, rfl⟩
  have hfit : ∀ i, (sampleRequests i).Fits := by
    rintro (_ | _ | _)
    · exact ⟨fitsArray_string.mpr (by decide), fitsArray_string.mpr (by decide)⟩
    · exact fitsArray_string.mpr (by decide)
    · exact fitsArray_string.mpr (by decide)
  exact ⟨hacc, (string_copies_fit_iff hacc).1.mpr hfit⟩

/-- The request with a text of `n` letters. -/
def textOfLength (n : ℕ) : ServiceCall :=
  .uploadText1 ⟨some (.integer 7), none, none, some (.string (List.replicate n 97)), none⟩

theorem textOfLength_fits (n : ℕ) : (textOfLength n).Fits ↔ n < 512 := by
  refine fitsArray_string.trans ?_
  rw [cStr, List.takeWhile_replicate, if_pos (by decide), List.length_replicate]

/-- A text of 512 letters is accepted by `UploadText1` and written past the end of its array. -/
theorem long_text_overflows :
    (textOfLength 512).Accepted ∧
      ∃ c, ReachableFrom World.empty Reliable (serviceCalls fun _ : Unit => textOfLength 512) c ∧
        (c.threads ()).outcome = some (.error .overflow) := by
  have hacc : (textOfLength 512).Accepted := ⟨⟨_, _, rfl, rfl⟩, _, rfl⟩
  have hfit : ¬ (textOfLength 512).Fits := by
    rw [textOfLength_fits]
    exact Nat.lt_irrefl 512
  exact ⟨hacc, _, .init, outcome_of_not_fits (i := ()) hacc hfit⟩

end MediaService
