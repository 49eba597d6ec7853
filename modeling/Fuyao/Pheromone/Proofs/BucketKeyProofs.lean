import Fuyao.Pheromone.BucketKey

/-!
# Proofs: reading the name of an object back

The bucket is read back if it has no delimiter in it, and the key and the session if the session is as
long as the platform's sessions.
-/

namespace Pheromone

open Cpp

theorem shmKeyName_eq (bk : BucketKey) : bk.shmKeyName = bk.bucket_ ++ 124 :: (bk.key_ ++ bk.session_) := by
  rw [BucketKey.shmKeyName, getLocalObjectName, getKeySessionName, List.append_assoc]
  rfl

/-- The first delimiter is in the bucket or right behind it. -/
theorem exists_idxOf?_delimiter (bucket rest : Bytes) :
    ∃ i ≤ bucket.length, (bucket ++ 124 :: rest).idxOf? 124 = some i ∧
      (i = bucket.length ↔ 124 ∉ bucket) := by
  induction bucket with
  | nil => exact ⟨0, Nat.le_refl _, by simp [List.idxOf?_cons], by simp⟩
  | cons b bucket ih =>
    obtain ⟨i, hi, hidx, hiff⟩ := ih
    by_cases hb : b = 124
    · exact ⟨0, Nat.zero_le _, by simp [List.idxOf?_cons, hb], by simp [hb]⟩
    · refine ⟨i + 1, Nat.succ_le_succ hi, by simp [List.idxOf?_cons, hb, hidx], ?_⟩
      simp [hiff, Ne.symm hb]

/-- The key and the session are told apart if the session is as long as it has to be, or if there is
nothing to tell apart. -/
theorem ofSessionKey_eq_iff (bucket key session : Bytes) :
    BucketKey.ofSessionKey bucket (key ++ session) = ⟨bucket, key, session⟩ ↔
      session.length = 16 ∧ key ≠ [] ∨ key = [] ∧ session = [] := by
  unfold BucketKey.ofSessionKey
  dsimp only
  split
  case isTrue hlong =>
    rw [List.length_append] at hlong
    simp only [BucketKey.mk.injEq, true_and, List.length_append]
    constructor
    · rintro ⟨hkey, -⟩
      have hlen := congrArg List.length hkey
      rw [List.length_take, List.length_append] at hlen
      refine .inl ⟨by omega, ?_⟩
      rintro rfl
      rw [List.length_nil] at hlong hlen
      omega
    · rintro (⟨hs, -⟩ | ⟨rfl, rfl⟩)
      · rw [hs, Nat.add_sub_cancel]
        exact ⟨List.take_left, List.drop_left⟩
      · simp at hlong
  case isFalse hshort =>
    rw [List.length_append] at hshort
    simp only [BucketKey.mk.injEq, true_and]
    constructor
    · rintro ⟨rfl, rfl⟩
      exact .inr ⟨rfl, rfl⟩
    · rintro (⟨hs, hk⟩ | ⟨rfl, rfl⟩)
      · have := List.length_pos_iff.mpr hk
        omega
      · exact ⟨rfl, rfl⟩

/-- An object is found again under its name just if its bucket has no delimiter in it, and its session has
16 characters and its key at least one. -/
theorem object_name_round_trip_iff (bk : BucketKey) :
    getBucketKeyFromString bk.shmKeyName = bk ↔
      124 ∉ bk.bucket_ ∧ (bk.session_.length = 16 ∧ bk.key_ ≠ [] ∨ bk.key_ = [] ∧ bk.session_ = []) := by
  obtain ⟨bucket, key, session⟩ := bk
  obtain ⟨i, hi, hidx, hiff⟩ := exists_idxOf?_delimiter bucket (key ++ session)
  have hsplit : getBucketKeyFromString (BucketKey.shmKeyName ⟨bucket, key, session⟩) =
      .ofSessionKey (bucket.take i) ((bucket ++ 124 :: (key ++ session)).drop (i + 1)) := by
    rw [shmKeyName_eq, getBucketKeyFromString, hidx]
    simp only [List.take_append_of_le_length hi]
  have hbucket (sk : Bytes) : (BucketKey.ofSessionKey (bucket.take i) sk).bucket_ = bucket.take i := by
    unfold BucketKey.ofSessionKey
    dsimp only
    split <;> rfl
  rw [hsplit]
  by_cases hb : 124 ∈ bucket
  · -- the bucket that is read is shorter
    refine ⟨fun h => ?_, fun h => absurd hb h.1⟩
    have hlt : i < bucket.length := Nat.lt_of_le_of_ne hi fun heq => (hiff.mp heq) hb
    have hlen := congrArg (fun bk => bk.bucket_.length) h
    simp only [hbucket, List.length_take] at hlen
    omega
  · obtain rfl := hiff.mpr hb
    rw [List.take_length, List.drop_append, List.drop_of_length_le (Nat.le_succ _), List.nil_append,
      Nat.add_sub_cancel_left, List.drop_succ_cons, List.drop_zero, ofSessionKey_eq_iff]
    exact ⟨fun h => ⟨hb, h⟩, fun h => h.2⟩

end Pheromone
