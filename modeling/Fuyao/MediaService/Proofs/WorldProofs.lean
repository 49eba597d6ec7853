import Fuyao.Concurrency.Proofs.ProgProofs
import Fuyao.Cpp.Proofs.StringsProofs
import Fuyao.MediaService.World

/-!
# Proofs: what one operation can do

For each operation the answers it may give and the worlds it may lead to, and the frame: an operation
changes no memcached key but its own, and each collection is changed by one operation only.
-/

namespace MediaService

open Cpp Concurrency

/-! ## Memcached -/

namespace Memcached

variable {m : Memcached} {key key' value : Bytes} {exptime : Nat}

theorem get_eq_none : m.get key = none ↔ m.items key = none := by
  simp [get]

@[simp] theorem get_set_self : (m.set key value exptime).get key = some value := by
  simp [get, set]

theorem get_set_of_ne (h : key' ≠ key) : (m.set key value exptime).get key' = m.get key' := by
  simp [get, set, Function.update_of_ne h]

@[simp] theorem get_delete_self : (m.delete key).get key = none := by
  simp [get, delete]

theorem get_delete_of_ne (h : key' ≠ key) : (m.delete key).get key' = m.get key' := by
  simp [get, delete, Function.update_of_ne h]

theorem add_of_get_none (h : m.get key = none) :
    m.add key value exptime = (true, m.set key value exptime) := by
  simp [add, get_eq_none.mp h]

theorem add_of_get_some {v : Bytes} (h : m.get key = some v) :
    m.add key value exptime = (false, m) := by
  obtain ⟨item, hitem, -⟩ := Option.map_eq_some_iff.mp h
  simp [add, hitem]

theorem get_add_of_ne (h : key' ≠ key) : (m.add key value exptime).2.get key' = m.get key' := by
  cases hk : m.get key with
  | none => rw [add_of_get_none hk]; exact get_set_of_ne h
  | some v => rw [add_of_get_some hk]

theorem counterValue_toStr {n : Nat} (h : n < 2 ^ 64) :
    counterValue (toStr n) = some (UInt64.ofNat n) := by
  have hstr : toStr n = numeral 10 n := by simp [toStr]
  have hval := (numeral_digits (by norm_num : 1 < 10) (by norm_num) n).2
  have hdigits : (numeral 10 n).all (fun b => 48 ≤ b && b ≤ 57) = true := by
    refine List.all_eq_true.mpr fun b hb => ?_
    simpa using mem_numeral hb
  rw [hstr, counterValue, if_pos ⟨numeral_ne_nil 10 n, hdigits, by rw [hval]; exact h⟩, hval]

theorem incr_of_get {n : Nat} (h : m.get key = some (toStr n)) (hn : n + 1 < 2 ^ 64) :
    ∃ m', m.incr key 1 = some (UInt64.ofNat (n + 1), m') ∧ m'.get key = some (toStr (n + 1)) ∧
      ∀ key', key' ≠ key → m'.get key' = m.get key' := by
  obtain ⟨item, hitem, hvalue⟩ := Option.map_eq_some_iff.mp h
  have hadd : UInt64.ofNat n + 1 = UInt64.ofNat (n + 1) := by
    rw [UInt64.ofNat_add]; rfl
  have hnat : (UInt64.ofNat (n + 1)).toNat = n + 1 := UInt64.toNat_ofNat_of_lt' hn
  simp only [incr, hitem, hvalue, counterValue_toStr (Nat.lt_of_succ_lt hn), hadd, hnat]
  refine ⟨_, rfl, by simp [get], fun key' hk => ?_⟩
  simp [get, Function.update_of_ne hk]

theorem get_incr_of_ne {delta n : UInt64} {m' : Memcached} (h : m.incr key delta = some (n, m'))
    (hk : key' ≠ key) : m'.get key' = m.get key' := by
  unfold incr at h
  split at h
  · cases h
  · split at h
    · cases h
    · obtain ⟨-, rfl⟩ := Prod.mk.inj (Option.some.inj h)
      simp [get, Function.update_of_ne hk]

theorem get_incr_self {delta n : UInt64} {m' : Memcached} (h : m.incr key delta = some (n, m')) :
    m'.get key = some (toStr n.toNat) := by
  unfold incr at h
  split at h
  · cases h
  · split at h
    · cases h
    · obtain ⟨rfl, rfl⟩ := Prod.mk.inj (Option.some.inj h)
      simp [get]

end Memcached

/-! ## Operations -/

theorem Op.key_eq_none_of_isLocal {o : Op} (h : o.isLocal = true) : o.key = none := by
  cases o <;> first | rfl | cases h

theorem Op.key_eq_none_of_job {o : Op} {x : Nat × Downstream} (h : o.job = some x) :
    o.key = none := by
  cases o <;> first | rfl | cases h

namespace World

variable {w w' : World} {ch : Choice}

@[simp] theorem onMemcached_memcached (m : Memcached) : (w.onMemcached m).memcached = m := rfl

@[simp] theorem onMemcached_movies (m : Memcached) : (w.onMemcached m).movies = w.movies := rfl

@[simp] theorem onMemcached_reviews (m : Memcached) : (w.onMemcached m).reviews = w.reviews := rfl

@[simp] theorem onMemcached_jobs (m : Memcached) : (w.onMemcached m).jobs = w.jobs := rfl

theorem faulty_cases {ρ : Type} {r bad x : ρ} {w₁ : World} {fault : Fault}
    (h : w.faulty fault r bad w₁ = some (x, w')) :
    fault = .ok ∧ x = r ∧ w' = w₁ ∨ fault = .failed ∧ x = bad ∧ w' = w ∨
      fault = .unreported ∧ x = bad ∧ w' = w₁ := by
  cases fault <;> simp_all [faulty]

/-- An operation that only looks leaves the world as it is and answers truly unless it fails. -/
theorem faulty_self {ρ : Type} {r bad x : ρ} {fault : Fault}
    (h : w.faulty fault r bad w = some (x, w')) :
    w' = w ∧ (fault = .ok ∧ x = r ∨ fault ≠ .ok ∧ x = bad) := by
  obtain ⟨hf, rfl, rfl⟩ | ⟨hf, rfl, rfl⟩ | ⟨hf, rfl, rfl⟩ := faulty_cases h <;> simp [hf]

/-- The world after an operation that takes effect. -/
def effect (w : World) : Op → World
  | .set key value exptime => w.onMemcached (w.memcached.set key value exptime)
  | .add key value exptime => w.onMemcached (w.memcached.add key value exptime).2
  | .incr key delta => ((w.memcached.incr key delta).map fun r => w.onMemcached r.2).getD w
  | .insertMovie doc => { w with movies := w.movies ++ [doc] }
  | .insertReview doc => { w with reviews := w.reviews ++ [doc] }
  | .enqueue q f => w.setJob q f .queued
  | .startJob q f => w.setJob q f .running
  | .finishJob q f succeed => w.setJob q f (.finished succeed)
  | _ => w

/-- An operation takes effect or changes nothing. -/
theorem exec_effect {o : Op} {r : o.Res} (h : exec o ch w = some (r, w')) :
    w' = w ∨ w' = w.effect o := by
  cases o <;> simp only [exec] at h
  case get | pop | mongoPop | getCollection | findMovie => exact .inl (faulty_self h).1
  case set | add | insertMovie | insertReview =>
    obtain ⟨-, -, rfl⟩ | ⟨-, -, rfl⟩ | ⟨-, -, rfl⟩ := faulty_cases h
    exacts [.inr rfl, .inl rfl, .inr rfl]
  case incr key delta =>
    split at h
    next x hx =>
      obtain ⟨-, -, rfl⟩ | ⟨-, -, rfl⟩ | ⟨-, -, rfl⟩ := faulty_cases h
      exacts [.inr (by simp [effect, hx]), .inl rfl, .inr (by simp [effect, hx])]
    · split at h
      · exact .inl (faulty_self h).1
      · exact .inl (Prod.mk.inj (Option.some.inj h)).2.symm
  case push | mongoPush | clock | rand | invoke =>
    exact .inl (Prod.mk.inj (Option.some.inj h)).2.symm
  case enqueue | finishJob => exact .inr (Prod.mk.inj (Option.some.inj h)).2.symm
  case startJob =>
    split at h
    · exact .inr (Prod.mk.inj (Option.some.inj h)).2.symm
    · cases h
  case futureGet =>
    split at h
    · exact .inl (Prod.mk.inj (Option.some.inj h)).2.symm
    · cases h
  case readSucceed => split at h <;> exact .inl (Prod.mk.inj (Option.some.inj h)).2.symm

/-- An operation changes no key but its own. -/
theorem exec_get_of_ne {o : Op} {r : o.Res} (h : exec o ch w = some (r, w')) {key : Bytes}
    (hkey : o.key ≠ some key) : w'.memcached.get key = w.memcached.get key := by
  obtain rfl | rfl := exec_effect h
  · rfl
  cases o
  case set => exact Memcached.get_set_of_ne fun e => hkey (by rw [e]; rfl)
  case add => exact Memcached.get_add_of_ne fun e => hkey (by rw [e]; rfl)
  case incr key' delta =>
    simp only [effect]
    cases hx : w.memcached.incr key' delta with
    | none => rfl
    | some x => exact Memcached.get_incr_of_ne hx fun e => hkey (by rw [e]; rfl)
  all_goals rfl

/-- No operation removes a key. -/
theorem exec_get_ne_none {o : Op} {r : o.Res} (h : exec o ch w = some (r, w')) {key : Bytes}
    (hget : w.memcached.get key ≠ none) : w'.memcached.get key ≠ none := by
  by_cases hkey : o.key = some key
  swap
  · rwa [exec_get_of_ne h hkey]
  obtain rfl | rfl := exec_effect h
  · exact hget
  cases o
  case set key' value exptime =>
    obtain rfl := Option.some.inj hkey
    simp [effect]
  case add key' value exptime =>
    obtain rfl := Option.some.inj hkey
    obtain ⟨cur, hcur⟩ := Option.ne_none_iff_exists'.mp hget
    simp [effect, Memcached.add_of_get_some hcur, hcur]
  case incr key' delta =>
    obtain rfl := Option.some.inj hkey
    cases hincr : w.memcached.incr key' delta with
    | none => simpa [effect, hincr] using hget
    | some x => simp [effect, hincr, Memcached.get_incr_self hincr]
  all_goals exact hget

theorem exec_movies {o : Op} {r : o.Res} (h : exec o ch w = some (r, w'))
    (ho : ∀ doc, o ≠ .insertMovie doc) : w'.movies = w.movies := by
  obtain rfl | rfl := exec_effect h
  · rfl
  cases o
  case insertMovie doc => exact absurd rfl (ho doc)
  case incr key delta => cases hx : w.memcached.incr key delta <;> simp [effect, hx]
  all_goals rfl

theorem exec_movies_cases {o : Op} {r : o.Res} (h : exec o ch w = some (r, w')) {doc : Movie}
    (hdoc : doc ∈ w'.movies) : doc ∈ w.movies ∨ o = .insertMovie doc := by
  by_cases ho : ∃ doc', o = .insertMovie doc'
  · obtain ⟨doc', rfl⟩ := ho
    obtain rfl | rfl := exec_effect h
    · exact .inl hdoc
    · rcases List.mem_append.mp hdoc with hdoc | hdoc
      · exact .inl hdoc
      · obtain rfl := List.mem_singleton.mp hdoc
        exact .inr rfl
  · rw [exec_movies h fun doc' h' => ho ⟨doc', h'⟩] at hdoc
    exact .inl hdoc

theorem exec_movies_subset {o : Op} {r : o.Res} (h : exec o ch w = some (r, w')) {doc : Movie}
    (hdoc : doc ∈ w.movies) : doc ∈ w'.movies := by
  by_cases ho : ∃ doc', o = .insertMovie doc'
  · obtain ⟨doc', rfl⟩ := ho
    obtain rfl | rfl := exec_effect h
    · exact hdoc
    · exact List.mem_append_left _ hdoc
  · rwa [exec_movies h fun doc' h' => ho ⟨doc', h'⟩]

theorem exec_reviews {o : Op} {r : o.Res} (h : exec o ch w = some (r, w'))
    (ho : ∀ doc, o ≠ .insertReview doc) : w'.reviews = w.reviews := by
  obtain rfl | rfl := exec_effect h
  · rfl
  cases o
  case insertReview doc => exact absurd rfl (ho doc)
  case incr key delta => cases hx : w.memcached.incr key delta <;> simp [effect, hx]
  all_goals rfl

theorem setJob_jobs (q q' : Nat) (f f' : Downstream) (s : JobState) :
    (w.setJob q f s).jobs q' f' = if q' = q ∧ f' = f then s else w.jobs q' f' := by
  unfold setJob
  by_cases hq : q' = q
  · subst hq
    by_cases hf : f' = f <;> simp [hf]
  · simp [hq]

theorem exec_finished {o : Op} {r : o.Res} (h : exec o ch w = some (r, w')) {q : Nat} {f : Downstream}
    {succeed : Bool} (hjob : w'.jobs q f = .finished succeed) :
    w.jobs q f = .finished succeed ∨ o = .finishJob q f succeed := by
  obtain rfl | rfl := exec_effect h
  · exact .inl hjob
  cases o
  case incr key delta =>
    cases hx : w.memcached.incr key delta with
    | none => exact .inl (by simpa [effect, hx] using hjob)
    | some x => exact .inl (by simpa [effect, hx] using hjob)
  case enqueue q' f' =>
    rw [effect, setJob_jobs] at hjob
    split at hjob
    · cases hjob
    · exact .inl hjob
  case startJob q' f' =>
    rw [effect, setJob_jobs] at hjob
    split at hjob
    · cases hjob
    · exact .inl hjob
  case finishJob q' f' succeed' =>
    rw [effect, setJob_jobs] at hjob
    split at hjob
    next hqf =>
      obtain ⟨rfl, rfl⟩ := hqf
      obtain rfl := JobState.finished.inj hjob
      exact .inr rfl
    · exact .inl hjob
  all_goals exact .inl hjob

theorem env_eq_onMemcached {e : Env} (h : env e w = some w') : ∃ m, w' = w.onMemcached m := by
  cases e with
  | tick => exact ⟨_, (Option.some.inj h).symm⟩
  | expire key =>
    simp only [env] at h
    split at h
    · exact ⟨_, (Option.some.inj h).symm⟩
    · cases h
  | evict key => exact ⟨_, (Option.some.inj h).symm⟩

theorem env_jobs {e : Env} (h : env e w = some w') : w'.jobs = w.jobs := by
  obtain ⟨m, rfl⟩ := env_eq_onMemcached h
  rfl

theorem env_movies {e : Env} (h : env e w = some w') : w'.movies = w.movies := by
  obtain ⟨m, rfl⟩ := env_eq_onMemcached h
  rfl

/-- A key that is there after the surroundings have acted was there before. -/
theorem env_get {e : Env} (h : env e w = some w') {key value : Bytes}
    (hget : w'.memcached.get key = some value) : w.memcached.get key = some value := by
  have hdelete : ∀ key', (w.memcached.delete key').get key = some value →
      w.memcached.get key = some value := by
    intro key' hdel
    by_cases hk : key = key'
    · rw [hk, Memcached.get_delete_self] at hdel
      cases hdel
    · rwa [Memcached.get_delete_of_ne hk] at hdel
  cases e with
  | tick =>
    obtain rfl := Option.some.inj h
    exact hget
  | expire key' =>
    simp only [env] at h
    split at h
    · obtain rfl := Option.some.inj h
      exact hdelete key' hget
    · cases h
  | evict key' =>
    obtain rfl := Option.some.inj h
    exact hdelete key' hget

/-! ## The answers -/

theorem exec_pop {hd : Handler} {r : Bool} (h : exec (.pop hd) ch w = some (r, w')) :
    w' = w ∧ (r = false → ch.fault ≠ .ok) := by
  obtain ⟨hw, ⟨hf, rfl⟩ | ⟨hf, rfl⟩⟩ := faulty_self h <;> simp [hw, hf]

theorem exec_get {key : Bytes} {r : Option (Option Bytes)}
    (h : exec (.get key) ch w = some (r, w')) :
    w' = w ∧ (r = some (w.memcached.get key) ∨ r = none ∧ ch.fault ≠ .ok) := by
  obtain ⟨hw, ⟨hf, rfl⟩ | ⟨hf, rfl⟩⟩ := faulty_self h <;> simp [hw, hf]

/-- A key that is absent is added, unless the operation fails. -/
theorem exec_add_of_none {key value : Bytes} {exptime : Nat} {r : Option Bool}
    (hk : w.memcached.get key = none) (h : exec (.add key value exptime) ch w = some (r, w')) :
    (r = none ∧ ch.fault = .failed ∧ w' = w) ∨
      ((r = some true ∨ r = none ∧ ch.fault = .unreported) ∧
        w' = w.onMemcached (w.memcached.set key value exptime)) := by
  simp only [exec, Memcached.add_of_get_none hk] at h
  obtain ⟨hf, rfl, rfl⟩ | ⟨hf, rfl, rfl⟩ | ⟨hf, rfl, rfl⟩ := faulty_cases h <;> simp [hf]

theorem exec_add_of_some {key value v : Bytes} {exptime : Nat} {r : Option Bool}
    (hk : w.memcached.get key = some v) (h : exec (.add key value exptime) ch w = some (r, w')) :
    w' = w ∧ (r = some false ∨ r = none ∧ ch.fault ≠ .ok) := by
  simp only [exec, Memcached.add_of_get_some hk] at h
  obtain ⟨hf, rfl, rfl⟩ | ⟨hf, rfl, rfl⟩ | ⟨hf, rfl, rfl⟩ := faulty_cases h <;>
    simp [hf, onMemcached]

/-- An `Add` that is answered has stored the key or found it. -/
theorem exec_add_ne_none {key value : Bytes} {exptime : Nat} {stored : Bool}
    (h : exec (.add key value exptime) ch w = some (some stored, w')) : w'.memcached.get key ≠ none := by
  cases hcur : w.memcached.get key with
  | some cur => exact exec_get_ne_none h (by simp [hcur])
  | none =>
    rcases exec_add_of_none hcur h with ⟨hr, -⟩ | ⟨-, rfl⟩
    · cases hr
    · simp

theorem exec_findMovie {title : Bytes} {r : Option Movie}
    (h : exec (.findMovie title) ch w = some (r, w')) :
    w' = w ∧ ∀ doc, r = some doc → doc ∈ w.movies ∧ doc.title = title := by
  obtain ⟨hw, ⟨-, rfl⟩ | ⟨-, rfl⟩⟩ := faulty_self h
  · refine ⟨hw, fun doc hdoc => ⟨List.mem_of_find?_eq_some hdoc, ?_⟩⟩
    simpa using List.find?_some hdoc
  · refine ⟨hw, fun doc hdoc => ?_⟩
    cases hdoc

theorem exec_readSucceed {q : Nat} {f : Downstream}
    (h : exec (.readSucceed q f) ch w = some (true, w')) : w.jobs q f = .finished true := by
  simp only [exec] at h
  split at h
  next succeed hjob =>
    obtain ⟨rfl, -⟩ := Prod.mk.inj (Option.some.inj h)
    exact hjob
  · cases (Prod.mk.inj (Option.some.inj h)).1

theorem exec_insertReview {doc : Review} (h : exec (.insertReview doc) ch w = some (true, w')) :
    w'.reviews = w.reviews ++ [doc] := by
  obtain ⟨-, -, rfl⟩ | ⟨-, hr, -⟩ | ⟨-, hr, -⟩ := faulty_cases h
  · rfl
  · cases hr
  · cases hr

/-- A counter that holds `n` is incremented, unless the operation fails. -/
theorem exec_incr_of_get {key : Bytes} {n : Nat} {r : Option (Option UInt64)}
    (hk : w.memcached.get key = some (toStr n)) (hn : n + 1 < 2 ^ 64)
    (h : exec (.incr key 1) ch w = some (r, w')) :
    (r = none ∧ ch.fault = .failed ∧ w' = w) ∨
      ((r = some (some (UInt64.ofNat (n + 1))) ∨ r = none ∧ ch.fault = .unreported) ∧
        w'.memcached.get key = some (toStr (n + 1)) ∧
        (∀ key', key' ≠ key → w'.memcached.get key' = w.memcached.get key')) := by
  obtain ⟨m', hm', hget, hne⟩ := Memcached.incr_of_get hk hn
  simp only [exec, hm'] at h
  obtain ⟨hf, rfl, rfl⟩ | ⟨hf, rfl, rfl⟩ | ⟨hf, rfl, rfl⟩ := faulty_cases h
  · exact .inr ⟨.inl rfl, hget, hne⟩
  · exact .inl ⟨rfl, hf, rfl⟩
  · exact .inr ⟨.inr ⟨rfl, hf⟩, hget, hne⟩

/-- The result of an `Incr` is a null pointer only if the key is not there. -/
theorem exec_incr_null {key : Bytes} {delta : UInt64}
    (h : exec (.incr key delta) ch w = some (some none, w')) : w.memcached.get key = none := by
  simp only [exec] at h
  split at h
  · obtain ⟨-, hr, -⟩ | ⟨-, hr, -⟩ | ⟨-, hr, -⟩ := faulty_cases h <;> cases hr
  · split at h
    next hget => exact hget
    · cases (Prod.mk.inj (Option.some.inj h)).1

/-- What the surroundings remove is the key they name. -/
theorem env_get_ne_none {e : Env} (h : env e w = some w') {key : Bytes}
    (he : e ≠ .expire key ∧ e ≠ .evict key) (hget : w.memcached.get key ≠ none) :
    w'.memcached.get key ≠ none := by
  have hdelete : ∀ key', key' ≠ key → (w.memcached.delete key').get key ≠ none := fun key' hne => by
    rwa [Memcached.get_delete_of_ne hne.symm]
  cases e with
  | tick =>
    obtain rfl := Option.some.inj h
    exact hget
  | expire key' =>
    simp only [env] at h
    split at h
    · obtain rfl := Option.some.inj h
      exact hdelete key' fun heq => he.1 (by rw [heq])
    · cases h
  | evict key' =>
    obtain rfl := Option.some.inj h
    exact hdelete key' fun heq => he.2 (by rw [heq])

end World

end MediaService
