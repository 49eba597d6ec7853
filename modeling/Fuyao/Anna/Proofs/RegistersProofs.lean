import Fuyao.Anna.Lattices
import Fuyao.Merge.Proofs.MergeProofs
import Mathlib.Data.List.Induction
import Mathlib.Data.Nat.Log
import Mathlib.Tactic.Ring

/-!
# Proofs: registers

A register keeps an update with the latest timestamp, and among several such updates the one that is
merged in last. Timestamps of ids with one number of digits are ordered by time, and then by id. A
lattice with priorities keeps the first of the updates with the least number.
-/

namespace Anna

open Cpp Merge

section Registers

variable {T : Type}

theorem LWWPairLattice.chooses : Chooses fun l : LWWPairLattice T => l.element.timestamp.toNat := by
  have hmerge (a b : LWWPairLattice T) :
      merge a b = if a.element.timestamp.toNat ≤ b.element.timestamp.toNat then b else a := rfl
  refine ⟨fun a b => ?_, fun a b => ?_, .inl fun a b h => ?_⟩
  · rw [hmerge]
    split
    · exact .inr rfl
    · exact .inl rfl
  · rw [hmerge]
    split
    case isTrue h => exact (max_eq_right h).symm
    case isFalse h => exact (max_eq_left (not_le.mp h).le).symm
  · rw [hmerge, if_pos h.le]

/-- No update of the list has a later timestamp. -/
def Latest (updates : List (LWWPairLattice T)) (p : LWWPairLattice T) : Prop :=
  p ∈ updates ∧ ∀ q ∈ updates, q.element.timestamp ≤ p.element.timestamp

/-- A replica keeps a latest update, and replicas of the same updates agree, for every order of merging,
just if there is only one latest update. -/
theorem registers_agree_iff (updates : List (LWWPairLattice T)) :
    (∀ t : History (LWWPairLattice T), t.Of updates → Latest updates t.eval) ∧
      ((∀ t u : History (LWWPairLattice T), t.Of updates → u.Of updates → t.eval = u.eval) ↔
        ∀ p q, Latest updates p → Latest updates q → p = q) := by
  refine ⟨?_, History.agree_iff LWWPairLattice.chooses updates⟩
  intro t ht
  obtain ⟨hmem, htop⟩ := History.top_eval LWWPairLattice.chooses t
  exact ⟨(ht _).mp hmem, fun q hq => htop q ((ht q).mpr hq)⟩

end Registers

/-! ## Timestamps -/

/-- The loop ends at the first power, of those that fit into the word, that is above the id. -/
theorem powAbove_isSome_iff (id : UInt32) (fuel : ℕ) (pow : UInt32) :
    (powAbove id fuel pow).isSome ↔ ∃ k < fuel, id.toNat < pow.toNat * 10 ^ k % 2 ^ 32 := by
  induction fuel generalizing pow with
  | zero => simp [powAbove]
  | succ fuel ih =>
    have hzero : pow.toNat * 10 ^ 0 % 2 ^ 32 = pow.toNat := by
      rw [pow_zero, Nat.mul_one, Nat.mod_eq_of_lt pow.toNat_lt]
    have hsucc (k : ℕ) : (pow * 10).toNat * 10 ^ k % 2 ^ 32 = pow.toNat * 10 ^ (k + 1) % 2 ^ 32 := by
      rw [UInt32.toNat_mul, Nat.mod_mul_mod, pow_succ' 10 k, ← Nat.mul_assoc]
      rfl
    rw [powAbove]
    split
    case isTrue h =>
      simp only [ih, hsucc]
      constructor
      · rintro ⟨k, hk, hlt⟩
        exact ⟨k + 1, by omega, hlt⟩
      · rintro ⟨k, hk, hlt⟩
        cases k with
        | zero => exact absurd (hlt.trans_eq hzero) (Nat.not_lt.mpr h)
        | succ k => exact ⟨k, by omega, hlt⟩
    case isFalse h =>
      simp only [Option.isSome_some, true_iff]
      exact ⟨0, by omega, (Nat.not_le.mp h).trans_eq hzero.symm⟩

/-- From the 32nd power on the factors of two fill the word. -/
theorem pow_ten_mod_le (k : ℕ) : 10 * 10 ^ k % 2 ^ 32 ≤ 4135583744 := by
  by_cases hk : 31 ≤ k
  · obtain ⟨m, rfl⟩ := Nat.exists_eq_add_of_le hk
    have hfactor : 10 * 10 ^ (31 + m) = 2 ^ 32 * (5 ^ 32 * 10 ^ m) := by
      rw [pow_add]
      ring
    rw [hfactor, Nat.mul_mod_right]
    exact Nat.zero_le _
  · have hall : ∀ j < 31, 10 * 10 ^ j % 2 ^ 32 ≤ 4135583744 := by decide
    exact hall k (by omega)

/-- The search for the power ends for the ids below the largest remainder of a power of ten, and for no
other id. -/
theorem generate_timestamp_returns_iff (time : UInt64) (id : UInt32) :
    (∃ fuel timestamp, generateTimestamp fuel time id = some timestamp) ↔ id < 4135583744 := by
  have hsome (fuel : ℕ) : (∃ timestamp, generateTimestamp fuel time id = some timestamp) ↔
      ∃ k < fuel, id.toNat < 10 * 10 ^ k % 2 ^ 32 := by
    rw [generateTimestamp, ← Option.isSome_iff_exists, Option.isSome_map, powAbove_isSome_iff]
    rfl
  simp only [hsome]
  constructor
  · rintro ⟨_, k, -, hlt⟩
    exact hlt.trans_le (pow_ten_mod_le k)
  · intro h
    exact ⟨23, 22, by omega, h⟩

theorem toNat_powAbove {id : UInt32} (hid : id.toNat < 10 ^ 9) {fuel k : ℕ} {pow r : UInt32}
    (hpow : pow.toNat = 10 ^ (k + 1)) (hk : k = 0 ∨ 10 ^ k ≤ id.toNat) (h : powAbove id fuel pow = some r) :
    r.toNat = 10 ^ (Nat.log 10 id.toNat + 1) := by
  induction fuel generalizing k pow with
  | zero => simp [powAbove] at h
  | succ fuel ih =>
    rw [powAbove] at h
    split at h
    case isTrue hge =>
      have hle : 10 ^ (k + 1) ≤ id.toNat := by rw [← hpow]; exact hge
      have hlt : k + 1 < 9 := (Nat.pow_lt_pow_iff_right (by omega)).mp (hle.trans_lt hid)
      have hstep : (pow * 10).toNat = 10 ^ (k + 1 + 1) := by
        have hbound : 10 ^ (k + 1 + 1) ≤ 10 ^ 9 := Nat.pow_le_pow_right (by omega) (by omega)
        rw [UInt32.toNat_mul, hpow, pow_succ 10 (k + 1)] at *
        exact Nat.mod_eq_of_lt (hbound.trans_lt (by decide))
      exact ih hstep (.inr hle) h
    case isFalse hlt =>
      obtain rfl := Option.some.inj h
      have hid' : id.toNat < 10 ^ (k + 1) := by
        rw [← hpow]
        exact UInt32.not_le.mp hlt
      have hlog : Nat.log 10 id.toNat = k := by
        rcases hk with rfl | hk
        · exact Nat.log_of_lt (by simpa using hid')
        · exact Nat.log_eq_of_pow_le_of_lt_pow hk hid'
      rw [hpow, hlog]

/-- Where nothing overflows, the timestamp is the time followed by the digits of the id. -/
theorem Write.toNat_timestamp {T : Type} (w : Write T) {d : ℕ} (hd : d < 9)
    (hid : Nat.log 10 w.id.toNat = d) (htime : (w.time.toNat + 1) * 10 ^ (d + 1) ≤ 2 ^ 64) :
    w.timestamp.toNat = w.time.toNat * 10 ^ (d + 1) + w.id.toNat := by
  obtain ⟨fuel, h⟩ := w.generated
  obtain ⟨pow, hpow, hts⟩ := Option.map_eq_some_iff.mp h
  have hlt : w.id.toNat < 10 ^ (d + 1) := hid ▸ Nat.lt_pow_succ_log_self (by omega) _
  have hlt9 : w.id.toNat < 10 ^ 9 := hlt.trans_le (Nat.pow_le_pow_right (by omega) (by omega))
  have hpn : pow.toNat = 10 ^ (d + 1) := by
    rw [toNat_powAbove hlt9 (k := 0) rfl (.inl rfl) hpow, hid]
  have hfit : w.time.toNat * 10 ^ (d + 1) + w.id.toNat < 2 ^ 64 := by
    rw [Nat.add_mul, Nat.one_mul] at htime
    omega
  rw [← hts, UInt64.toNat_add, UInt64.toNat_mul, UInt32.toNat_toUInt64, UInt32.toNat_toUInt64, hpn,
    Nat.mod_add_mod, Nat.mod_eq_of_lt hfit]

/-- Numbers that are written one after the other compare by the first, and then by the second. -/
theorem mul_add_le_iff {a b c i j : ℕ} (hi : i < c) (hj : j < c) :
    a * c + i ≤ b * c + j ↔ a < b ∨ a = b ∧ i ≤ j := by
  rcases Nat.lt_trichotomy a b with h | rfl | h
  · have := Nat.mul_le_mul_right c h
    rw [Nat.succ_mul] at this
    omega
  · omega
  · have := Nat.mul_le_mul_right c h
    rw [Nat.succ_mul] at this
    omega

section Writes

variable {T : Type} {writes : List (Write T)} {d : ℕ}

/-- The second write is not earlier than the first one, and where they are of the same time its writer
has the same or a larger id. -/
def Write.Precedes (w w' : Write T) : Prop := w.time < w'.time ∨ w.time = w'.time ∧ w.id ≤ w'.id

theorem Write.timestamp_le_iff (hd : d < 9) {w w' : Write T} (hid : Nat.log 10 w.id.toNat = d)
    (hid' : Nat.log 10 w'.id.toNat = d) (htime : (w.time.toNat + 1) * 10 ^ (d + 1) ≤ 2 ^ 64)
    (htime' : (w'.time.toNat + 1) * 10 ^ (d + 1) ≤ 2 ^ 64) :
    w.timestamp ≤ w'.timestamp ↔ w.Precedes w' := by
  have hlt : w.id.toNat < 10 ^ (d + 1) := hid ▸ Nat.lt_pow_succ_log_self (by omega) _
  have hlt' : w'.id.toNat < 10 ^ (d + 1) := hid' ▸ Nat.lt_pow_succ_log_self (by omega) _
  rw [UInt64.le_iff_toNat_le, w.toNat_timestamp hd hid htime, w'.toNat_timestamp hd hid' htime',
    mul_add_le_iff hlt hlt', Precedes, UInt64.lt_iff_toNat_lt, UInt32.le_iff_toNat_le, UInt64.toNat_inj]

/-- All replicas keep the latest write, if the ids of the writers have the same number of digits, the
timestamps do not overflow and no writer stamps two writes in one millisecond. -/
theorem stamped_writes_converge (hne : writes ≠ []) (hd : d < 9)
    (hid : ∀ w ∈ writes, Nat.log 10 w.id.toNat = d)
    (htime : ∀ w ∈ writes, (w.time.toNat + 1) * 10 ^ (d + 1) ≤ 2 ^ 64)
    (hunique : ∀ w ∈ writes, ∀ w' ∈ writes, w.time = w'.time → w.id = w'.id → w = w') :
    ∃ latest ∈ writes, (∀ w ∈ writes, w.Precedes latest) ∧
      ∀ t : History (Write T), t.Of writes → (t.map Write.update).eval = latest.update := by
  have hkept (t : History (Write T)) (ht : t.Of writes) :
      ∃ w ∈ writes, (∀ v ∈ writes, v.Precedes w) ∧ (t.map Write.update).eval = w.update := by
    obtain ⟨hmem, htop⟩ := History.top_eval LWWPairLattice.chooses (t.map Write.update)
    rw [History.leaves_map, List.mem_map] at hmem
    obtain ⟨w, hw, heq⟩ := hmem
    have hw' := (ht w).mp hw
    refine ⟨w, hw', ?_, heq.symm⟩
    intro v hv
    rw [← Write.timestamp_le_iff hd (hid v hv) (hid w hw') (htime v hv) (htime w hw')]
    have hle := htop v.update (by rw [History.leaves_map]; exact List.mem_map_of_mem ((ht v).mpr hv))
    rw [← heq] at hle
    exact hle
  obtain ⟨v, hv⟩ := List.exists_mem_of_ne_nil writes hne
  obtain ⟨t, ht⟩ := History.exists_of hv
  obtain ⟨latest, hlatest, hafter, -⟩ := hkept t ht
  refine ⟨latest, hlatest, hafter, ?_⟩
  intro u hu
  obtain ⟨w, hw, hwafter, heval⟩ := hkept u hu
  have h := hafter w hw
  have h' := hwafter latest hlatest
  simp only [Write.Precedes, UInt64.lt_iff_toNat_lt, UInt32.le_iff_toNat_le, ← UInt64.toNat_inj] at h h'
  have hw_eq : w = latest :=
    hunique w hw latest hlatest (UInt64.toNat_inj.mp (by omega)) (UInt32.toNat_inj.mp (by omega))
  rw [heval, hw_eq]

/-- Three writes, two of them at one time. -/
def sampleWrites : List (Write ℕ) :=
  [⟨5, 12, 1, 512, 2, rfl⟩, ⟨5, 34, 2, 534, 2, rfl⟩, ⟨4, 56, 3, 456, 2, rfl⟩]

theorem stamped_writes_converge_sample :
    ∃ latest ∈ sampleWrites, (∀ w ∈ sampleWrites, w.Precedes latest) ∧
      ∀ t : History (Write ℕ), t.Of sampleWrites → (t.map Write.update).eval = latest.update := by
  refine stamped_writes_converge (d := 1) (by simp [sampleWrites]) (by omega) ?_ ?_ ?_
  · rintro w hw
    simp only [sampleWrites, List.mem_cons, List.not_mem_nil, or_false] at hw
    rcases hw with rfl | rfl | rfl <;> decide
  · rintro w hw
    simp only [sampleWrites, List.mem_cons, List.not_mem_nil, or_false] at hw
    rcases hw with rfl | rfl | rfl <;> decide
  · rintro w hw w' hw'
    simp only [sampleWrites, List.mem_cons, List.not_mem_nil, or_false] at hw hw'
    rcases hw with rfl | rfl | rfl <;> rcases hw' with rfl | rfl | rfl <;> simp

/-- An earlier write of a writer whose id has more digits has the later timestamp. -/
example : generateTimestamp 2 5 3 = some 53 ∧ generateTimestamp 3 4 12 = some 412 := by decide

end Writes

/-! ## Priorities -/

namespace PriorityLattice

variable {V : Type}

/-- After some updates the lattice has its first element, if none of them comes before that, or else the
first of the updates with the least number. -/
inductive Keeps (first : PriorityLattice Double V) (updates : List (PriorityValuePair Double V)) :
    PriorityLattice Double V → Prop where
  | first (h : ∀ u ∈ updates, u.priority.less first.element.priority = false) :
    Keeps first updates first
  | update (u : PriorityValuePair Double V) (before after : List (PriorityValuePair Double V))
    (hupdates : updates = before ++ u :: after) (hfirst : u.priority.less first.element.priority = true)
    (hbefore : ∀ v ∈ before, v.priority.isNaN = true ∨ u.priority.less v.priority = true)
    (hafter : ∀ v ∈ after, v.priority.less u.priority = false) : Keeps first updates ⟨u⟩

theorem less_trans {x y z : Double} (h : x.less y = true) (h' : y.less z = true) : x.less z = true := by
  simp only [Double.less, Bool.and_eq_true, decide_eq_true_eq] at *
  exact ⟨⟨h.1.1, h'.1.2⟩, h.2.trans h'.2⟩

/-- What does not come before `z` is no number, or what does comes before it. -/
theorem isNaN_or_less {x y z : Double} (h : x.less z = true) (h' : y.less z = false) :
    y.isNaN = true ∨ x.less y = true := by
  simp only [Double.less, Bool.and_eq_true, decide_eq_true_eq, Bool.not_eq_true', Bool.and_eq_false_iff,
    Bool.not_eq_false', decide_eq_false_iff_not] at *
  by_cases hy : y.isNaN = true
  · exact .inl hy
  · have hxy : x.key < y.key := by
      rcases h' with (h' | h') | h'
      · exact absurd h' hy
      · rw [h.1.2] at h'
        exact absurd h' Bool.false_ne_true
      · omega
    exact .inr ⟨⟨h.1.1, Bool.eq_false_iff.mpr hy⟩, hxy⟩

theorem Keeps.step {first l : PriorityLattice Double V} {updates : List (PriorityValuePair Double V)}
    (h : Keeps first updates l) (v : PriorityValuePair Double V) :
    Keeps first (updates ++ [v]) (l.doMerge Double.less v) := by
  cases h with
  | first h =>
    unfold doMerge
    split
    case isTrue hv =>
      exact .update v updates [] rfl hv (fun w hw => isNaN_or_less hv (h w hw)) (by simp)
    case isFalse hv =>
      refine .first ?_
      intro u hu
      rcases List.mem_append.mp hu with hu | hu
      · exact h u hu
      · rw [List.mem_singleton.mp hu]
        exact Bool.eq_false_iff.mpr hv
  | update u before after hupdates hfirst hbefore hafter =>
    subst hupdates
    unfold doMerge
    split
    case isTrue hv =>
      refine .update v (before ++ u :: after) [] rfl (less_trans hv hfirst) ?_ (by simp)
      intro w hw
      rcases List.mem_append.mp hw with hw | hw
      · exact (hbefore w hw).imp_right (less_trans hv)
      · rcases List.mem_cons.mp hw with rfl | hw
        · exact .inr hv
        · exact isNaN_or_less hv (hafter w hw)
    case isFalse hv =>
      refine .update u before (after ++ [v]) (by simp) hfirst hbefore ?_
      intro w hw
      rcases List.mem_append.mp hw with hw | hw
      · exact hafter w hw
      · rw [List.mem_singleton.mp hw]
        exact Bool.eq_false_iff.mpr hv

/-- A lattice that takes in updates one after another keeps the first of those with the least number;
numbers that compare with nothing are never taken in. -/
theorem priority_updates_kept (first : PriorityLattice Double V)
    (updates : List (PriorityValuePair Double V)) :
    Keeps first updates (updates.foldl (doMerge Double.less) first) := by
  induction updates using List.reverseRecOn with
  | nil => exact .first (by simp)
  | append_singleton updates v ih =>
    rw [List.foldl_append]
    exact ih.step v

end PriorityLattice

end Anna
