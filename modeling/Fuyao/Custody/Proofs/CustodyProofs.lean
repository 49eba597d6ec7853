import Fuyao.Custody.Custody

/-!
# Proofs: moves keep a register balanced
-/

namespace Custody

variable {P X : Type*} {s s' : Multiset (P × X)} {n d : ℤ}

theorem Move.nodup (h : Move s s' d) (hs : (s.map Prod.snd).Nodup) : (s'.map Prod.snd).Nodup := by
  cases h with
  | stay => exact hs
  | pass s p p' x => simpa only [Multiset.map_cons] using hs
  | create s p hx =>
    rw [Multiset.map_cons]
    exact Multiset.nodup_cons.mpr ⟨hx, hs⟩
  | destroy s p x =>
    rw [Multiset.map_cons] at hs
    exact (Multiset.nodup_cons.mp hs).2

theorem Move.card_eq (h : Move s s' d) : (s'.card : ℤ) = s.card + d := by
  cases h with
  | stay => simp
  | pass s p p' x => simp
  | create s p hx => simp
  | destroy s p x =>
    rw [Multiset.card_cons]
    omega

/-- Objects come into being one at a time. -/
theorem Move.le_one (h : Move s s' d) : d ≤ 1 := by
  cases h <;> omega

/-- The invariant rule of the register: a counter that follows the moves stays right. -/
theorem Move.balanced (h : Move s s' d) (hs : Balanced s n) : Balanced s' (n + d) :=
  ⟨h.nodup hs.nodup, by rw [h.card_eq, hs.card]⟩

end Custody
