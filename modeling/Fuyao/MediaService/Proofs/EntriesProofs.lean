import Fuyao.Concurrency.Proofs.ContractProofs
import Fuyao.MediaService.Entries
import Fuyao.MediaService.Proofs.FootprintProofs

/-!
# Proofs: what stands under a key

The keys of counters, of components and of titles never coincide, so the key says what an entry is. The
stores keep the contract: whatever fails, expires or is evicted, they give back what was put in.
-/

namespace MediaService

open Cpp Concurrency

variable {ι : Type} {calls : ι → ServiceCall}

/-! ## The entries of a key -/

theorem Entry.counter_value {req_id : Int64} {value : Bytes} (h : Entry calls (keyCounter req_id) value) :
    ∃ n : UInt64, value = toStr n.toNat := by
  generalize hkey : keyCounter req_id = key at h
  cases h with
  | counter _ n => exact ⟨n, rfl⟩
  | component h => exact absurd hkey (keyCounter_ne_keyComponent _ _ _)
  | title title h =>
    exact absurd (hkey ▸ IsComposeKey.counter) (not_isComposeKey_keyTitle req_id title)

theorem Entry.component_value {req_id : Int64} {comp : Component} {value : Bytes}
    (h : Entry calls (keyComponent req_id comp.op) value) :
    ∃ val i, (calls i).Uploads comp val ∧ value = comp.encode val := by
  generalize hkey : keyComponent req_id comp.op = key at h
  cases h with
  | counter _ n => exact absurd hkey.symm (keyCounter_ne_keyComponent _ _ _)
  | @component comp' val i h =>
    obtain rfl := Component.op_injective (keyComponent_inj hkey).2
    exact ⟨val, i, h, rfl⟩
  | title title h =>
    exact absurd (hkey ▸ IsComposeKey.component comp.op) (not_isComposeKey_keyTitle req_id title)

theorem Entry.title_value {title : CString 128} {value : Bytes} (h : Entry calls (keyTitle title) value) :
    IsMovieId value := by
  generalize hkey : keyTitle title = key at h
  cases h with
  | counter req_id n =>
    exact absurd (hkey ▸ IsComposeKey.counter) (not_isComposeKey_keyTitle req_id title)
  | @component comp val i h =>
    exact absurd (hkey ▸ IsComposeKey.component comp.op) (not_isComposeKey_keyTitle val.req_id title)
  | title _ h => exact h

/-! ## The stores keep the contract -/

theorem Stored.empty (calls : ι → ServiceCall) : Stored calls World.empty :=
  ⟨fun _ _ h => (by cases h), fun _ h => by cases h⟩

/-- What stands under a key after an operation that is part of the contract. -/
theorem Stored.entries_exec {w w' : World} (hw : Stored calls w) {o : Op}
    (ho : (storeContract calls).asks o) {ch : Choice} {r : o.Res} (h : w.exec o ch = some (r, w'))
    {key value : Bytes} (hget : w'.memcached.get key = some value) : Entry calls key value := by
  by_cases hkey : o.key = some key
  swap
  · rw [World.exec_get_of_ne h hkey] at hget
    exact hw.entries key value hget
  obtain rfl | rfl := World.exec_effect h
  · exact hw.entries key value hget
  cases o
  case get => exact hw.entries key value hget
  case set key' value' exptime =>
    obtain rfl := Option.some.inj hkey
    obtain rfl : value' = value := by simpa [World.effect] using hget
    exact ho
  case add key' value' exptime =>
    obtain rfl := Option.some.inj hkey
    cases hcur : w.memcached.get key' with
    | none =>
      obtain rfl : value' = value := by simpa [World.effect, Memcached.add_of_get_none hcur] using hget
      exact ho
    | some cur =>
      obtain rfl : cur = value := by
        simpa [World.effect, Memcached.add_of_get_some hcur, hcur] using hget
      exact hw.entries key' cur hcur
  case incr key' delta =>
    obtain rfl := Option.some.inj hkey
    obtain ⟨req_id, rfl⟩ := ho
    cases hincr : w.memcached.incr (keyCounter req_id) delta with
    | none =>
      simp only [World.effect, hincr] at hget
      exact hw.entries _ value hget
    | some x =>
      simp only [World.effect, hincr] at hget
      obtain rfl := Option.some.inj (hget.symm.trans (Memcached.get_incr_self hincr))
      exact .counter req_id x.1
  all_goals cases hkey

theorem storeContract_keptBy (calls : ι → ServiceCall) :
    (storeContract calls).KeptBy machine (Stored calls) where
  exec := by
    intro o ch w w' r ho hw h
    refine ⟨?_, fun key value => hw.entries_exec ho h, fun doc hdoc => ?_⟩
    · cases o <;> try trivial
      case get key =>
        rcases (World.exec_get h).2 with rfl | ⟨rfl, -⟩
        · cases hget : w.memcached.get key with
          | none => trivial
          | some value => exact hw.entries key value hget
        · trivial
      case findMovie title =>
        cases r with
        | none => trivial
        | some doc => exact hw.ids doc ((World.exec_findMovie h).2 doc rfl).1
    · rcases World.exec_movies_cases h hdoc with hdoc | rfl
      · exact hw.ids doc hdoc
      · exact ho
  env := by
    intro e w w' hw h
    refine ⟨fun key value hget => hw.entries key value (World.env_get h hget), fun doc hdoc => ?_⟩
    exact hw.ids doc (World.env_movies h ▸ hdoc)

end MediaService
