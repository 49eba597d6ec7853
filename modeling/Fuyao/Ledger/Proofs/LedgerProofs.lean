import Fuyao.Ledger.Ledger

/-!
# Proofs: the ledger of requests

No entry loses a request (`Moves.complete`, `Moves.kept`). As long as nothing is put back into the queue,
there are never more copies of a request than were issued (`Moves.le_issued`), and a request that was issued
once is at exactly one place (`Moves.exact`).
-/

namespace Ledger

variable {R : Type*} {again : Prop} {b b' : Book R}

theorem Move.complete (h : Move again b b') (hb : b.Complete) : b'.Complete := by
  intro x
  have hx := hb x
  cases h with
  | issue i q s a r =>
    simp only [Multiset.mem_cons] at hx ⊢
    rw [hx]
    tauto
  | send i q s a r =>
    simp only [Multiset.mem_cons] at hx ⊢
    rw [hx]
    tauto
  | resend i q s a hr =>
    simp only [Multiset.mem_cons] at hx ⊢
    rw [hx]
    constructor
    · rintro ((rfl | h) | h)
      · exact .inr (.inl hr)
      · exact .inl h
      · exact .inr h
    · rintro (h | h)
      · exact .inl (.inr h)
      · exact .inr h
  | requeue i q s a hr hagain =>
    simp only [Multiset.mem_cons] at hx ⊢
    rw [hx]
    constructor
    · rintro (h | h)
      · exact .inl (.inr h)
      · exact .inr h
    · rintro ((rfl | h) | h)
      · exact .inr (.inl hr)
      · exact .inl h
      · exact .inr h
  | answer i q s a r =>
    simp only [Multiset.mem_cons] at hx ⊢
    rw [hx]
    tauto
  | expire i q s a r =>
    simp only [Multiset.mem_cons] at hx ⊢
    rw [hx]
    tauto

theorem Move.issued_le (h : Move again b b') : b.issued ≤ b'.issued := by
  cases h with
  | issue i q s a r => exact Multiset.le_cons_self i r
  | _ => exact le_rfl

theorem Move.le_issued (h : Move False b b') (hb : b.queued + b.sent + b.answered ≤ b.issued) :
    b'.queued + b'.sent + b'.answered ≤ b'.issued := by
  cases h with
  | issue i q s a r => simpa only [Multiset.cons_add, Multiset.cons_le_cons_iff] using hb
  | send i q s a r => simpa only [Multiset.cons_add, Multiset.add_cons] using hb
  | resend i q s a hr =>
    simp only [Multiset.cons_add] at hb
    exact (Multiset.le_cons_self _ _).trans hb
  | requeue i q s a hr hagain => exact hagain.elim
  | answer i q s a r => simpa only [Multiset.cons_add, Multiset.add_cons] using hb
  | expire i q s a r => simpa only [Multiset.cons_add, Multiset.add_cons] using hb

theorem Move.exact [DecidableEq R] (h : Move False b b') {x : R} (hx : b'.issued.count x ≤ 1) (hb : b.Exact x) :
    b'.Exact x := by
  unfold Book.Exact at hb ⊢
  cases h with
  | issue i q s a r =>
    simp only [Multiset.count_add, Multiset.count_cons] at hb ⊢
    omega
  | send i q s a r =>
    simp only [Multiset.count_add, Multiset.count_cons] at hb ⊢
    omega
  | resend i q s a hr =>
    simp only [Multiset.count_add, Multiset.count_cons] at hx hb ⊢
    -- the request would be at two places, and would have been issued twice
    split at hb
    case isTrue hxr =>
      have hpos : 0 < s.count x := Multiset.count_pos.mpr (hxr ▸ hr)
      omega
    case isFalse => exact hb
  | requeue i q s a hr hagain => exact hagain.elim
  | answer i q s a r =>
    simp only [Multiset.count_add, Multiset.count_cons] at hb ⊢
    omega
  | expire i q s a r =>
    simp only [Multiset.count_add, Multiset.count_cons] at hb ⊢
    omega

theorem Move.answered_le (h : Move again b b') : b.answered ≤ b'.answered := by
  cases h with
  | answer i q s a r => exact Multiset.le_cons_self a r
  | expire i q s a r => exact Multiset.le_cons_self a r
  | _ => exact le_rfl

theorem Move.mono {again' : Prop} (hagain : again → again') (h : Move again b b') : Move again' b b' := by
  cases h with
  | issue i q s a r => exact .issue i q s a r
  | send i q s a r => exact .send i q s a r
  | resend i q s a hr => exact .resend i q s a hr
  | requeue i q s a hr h => exact .requeue i q s a hr (hagain h)
  | answer i q s a r => exact .answer i q s a r
  | expire i q s a r => exact .expire i q s a r

/-- A request that waits goes on waiting until it is answered. -/
theorem Move.kept [DecidableEq R] (h : Move again b b') {x : R} (hx : x ∈ b.queued ∨ x ∈ b.sent) :
    (x ∈ b'.queued ∨ x ∈ b'.sent) ∨ b.answered.count x < b'.answered.count x := by
  cases h with
  | issue i q s a r => exact .inl (hx.imp Multiset.mem_cons_of_mem id)
  | send i q s a r =>
    rcases hx with hx | hx
    · rcases Multiset.mem_cons.mp hx with rfl | hx
      · exact .inl (.inr (Multiset.mem_cons_self _ _))
      · exact .inl (.inl hx)
    · exact .inl (.inr (Multiset.mem_cons_of_mem hx))
  | resend i q s a hr =>
    rcases hx with hx | hx
    · rcases Multiset.mem_cons.mp hx with rfl | hx
      · exact .inl (.inr hr)
      · exact .inl (.inl hx)
    · exact .inl (.inr hx)
  | requeue i q s a hr hagain => exact .inl (hx.imp Multiset.mem_cons_of_mem id)
  | answer i q s a r =>
    rcases hx with hx | hx
    · exact .inl (.inl hx)
    · rcases Multiset.mem_cons.mp hx with rfl | hx
      · exact .inr (by simp)
      · exact .inl (.inr hx)
  | expire i q s a r =>
    rcases hx with hx | hx
    · rcases Multiset.mem_cons.mp hx with rfl | hx
      · exact .inr (by simp)
      · exact .inl (.inl hx)
    · exact .inl (.inr hx)

namespace Moves

theorem mono {again' : Prop} (hagain : again → again') (h : Moves again b b') : Moves again' b b' :=
  Relation.ReflTransGen.mono (fun _ _ => Move.mono hagain) _ _ h

theorem complete (h : Moves again b b') (hb : b.Complete) : b'.Complete := by
  induction h with
  | refl => exact hb
  | tail _ hmove ih => exact hmove.complete ih

theorem le_issued (h : Moves False b b') (hb : b.queued + b.sent + b.answered ≤ b.issued) :
    b'.queued + b'.sent + b'.answered ≤ b'.issued := by
  induction h with
  | refl => exact hb
  | tail _ hmove ih => exact hmove.le_issued ih

theorem exact [DecidableEq R] (h : Moves False b b') {x : R} (hx : b'.issued.count x ≤ 1) (hb : b.Exact x) :
    b'.Exact x := by
  induction h with
  | refl => exact hb
  | tail _ hmove ih => exact hmove.exact hx (ih ((Multiset.count_le_of_le x hmove.issued_le).trans hx))

theorem answered_le (h : Moves again b b') : b.answered ≤ b'.answered := by
  induction h with
  | refl => exact le_rfl
  | tail _ hmove ih => exact ih.trans hmove.answered_le

theorem kept [DecidableEq R] (h : Moves again b b') {x : R} (hx : x ∈ b.queued ∨ x ∈ b.sent) :
    (x ∈ b'.queued ∨ x ∈ b'.sent) ∨ b.answered.count x < b'.answered.count x := by
  induction h with
  | refl => exact .inl hx
  | tail hmoves hmove ih =>
    rcases ih with hwaits | hanswered
    · rcases hmove.kept hwaits with hwaits | hanswered
      · exact .inl hwaits
      · exact .inr ((Multiset.count_le_of_le x (answered_le hmoves)).trans_lt hanswered)
    · exact .inr (hanswered.trans_le (Multiset.count_le_of_le x hmove.answered_le))

/-- Many of the sent requests are answered. -/
theorem answerAll (i q s a new : Multiset R) : Moves again ⟨i, q, new + s, a⟩ ⟨i, q, s, new + a⟩ := by
  induction new using Multiset.induction_on generalizing a with
  | empty => simpa using Relation.ReflTransGen.refl
  | cons r new ih =>
    rw [Multiset.cons_add r new s, Multiset.cons_add r new a, ← Multiset.add_cons r new a]
    exact .head (.answer i q (new + s) a r) (ih (r ::ₘ a))

/-- Many of the queued requests are given up. -/
theorem expireAll (i q s a new : Multiset R) : Moves again ⟨i, new + q, s, a⟩ ⟨i, q, s, new + a⟩ := by
  induction new using Multiset.induction_on generalizing a with
  | empty => simpa using Relation.ReflTransGen.refl
  | cons r new ih =>
    rw [Multiset.cons_add r new q, Multiset.cons_add r new a, ← Multiset.add_cons r new a]
    exact .head (.expire i (new + q) s a r) (ih (r ::ₘ a))

end Moves

end Ledger
