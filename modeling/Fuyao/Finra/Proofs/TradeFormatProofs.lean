import Fuyao.Cpp.Proofs.StringsProofs
import Fuyao.Finra.TradeFormat
import Mathlib.Tactic.IntervalCases

/-!
# Proofs: which portfolios the validators accept

Each check of stage 0 accepts exactly its loose format, and a well-formed field has the loose format. So
a validator is right about a portfolio unless all trades that its loop gets to are loosely right and some
trade is not well-formed.
-/

namespace Finra

open Cpp

/-! ## Dates -/

theorem isLeapYear_iff (y : Int) : isLeapYear y = true ↔ IsLeap y := by
  simp [isLeapYear, IsLeap, Int.dvd_iff_tmod_eq_zero]

theorem monthDays_eq (beyond : Int → Int) (y : Int) {m : Int} (hlow : 1 ≤ m) (hhigh : m ≤ 12) :
    monthDays beyond y (m - 1) = daysInMonth y m := by
  rw [monthDays, if_pos (by omega)]
  by_cases hfeb : m = 2
  · subst hfeb
    by_cases hleap : IsLeap y
    · simp [daysInMonth, hleap, (isLeapYear_iff y).mpr hleap]
    · have hnot : isLeapYear y = false := by
        simpa using mt (isLeapYear_iff y).mp hleap
      simp [daysInMonth, hleap, hnot]
  · rw [daysInMonth, if_neg hfeb]
    -- the other eleven months, whose number of days does not depend on the year
    interval_cases m <;> first | rfl | exact absurd rfl hfeb

theorem isDate_eq (beyond : Int → Int) (str : Bytes) :
    isDate beyond str = (decide (0 < atoi (datePart 2 str)) &&
      (decide (atoi (datePart 2 str) ≤
          monthDays beyond (fullYear (atoi (datePart 0 str))) (atoi (datePart 1 str) - 1)) &&
        decide (0 < atoi (datePart 1 str)) && decide (atoi (datePart 1 str) ≤ 12))) := by
  have hyear : (if atoi (str.take 2) ≤ 23 then atoi (str.take 2) + 2000 else atoi (str.take 2) + 1900) =
      fullYear (atoi (datePart 0 str)) := by
    rw [fullYear, add_comm 2000, add_comm 1900]
    rfl
  rw [isDate, isDateBy, hyear]
  change Id.run (if 0 < atoi (datePart 2 str) then _ else _) = _
  split
  next hd =>
    rw [decide_eq_true hd]
    rfl
  next hd =>
    rw [decide_eq_false hd]
    rfl

/-- What lies beyond the table does not matter: the month is checked afterwards. -/
theorem isDate_iff (beyond : Int → Int) (str : Bytes) :
    isDate beyond str = true ↔
      IsDay (fullYear (atoi (datePart 0 str))) (atoi (datePart 1 str)) (atoi (datePart 2 str)) := by
  rw [isDate_eq]
  simp only [Bool.and_eq_true, decide_eq_true_eq]
  constructor
  · rintro ⟨hd, ⟨hdays, hm⟩, hm'⟩
    rw [monthDays_eq beyond _ hm hm'] at hdays
    exact ⟨hm, hm', hd, hdays⟩
  · rintro ⟨hm, hm', hd, hdays⟩
    rw [← monthDays_eq beyond _ hm hm'] at hdays
    exact ⟨hd, ⟨hdays, hm⟩, hm'⟩

theorem tradeDateOk_iff (beyond : Int → Int) (str : Bytes) :
    tradeDateOk beyond str = true ↔ IsLooseDate str := by
  rw [tradeDateOk, Bool.and_eq_true, beq_iff_eq, isDate_iff, IsLooseDate]

theorem atoi_digits {s : Bytes} (hne : s ≠ []) (h : ∀ b ∈ s, isDigit b) : atoi s = decimal s := by
  simp [atoi, scanInteger_digits hne h]

theorem IsTradeDate.loose {str : Bytes} (h : IsTradeDate str) : IsLooseDate str := by
  obtain ⟨hlen, hdigits, hday⟩ := h
  have hpart : ∀ k < 3, atoi (datePart k str) = decimal (datePart k str) := by
    intro k hk
    refine atoi_digits ?_ fun b hb => hdigits b (List.mem_of_mem_drop (List.mem_of_mem_take hb))
    refine List.ne_nil_of_length_pos ?_
    rw [datePart, List.length_take, List.length_drop]
    omega
  refine ⟨hlen, ?_⟩
  rw [hpart 0 (by norm_num), hpart 1 (by norm_num), hpart 2 (by norm_num)]
  exact hday

/-! ## Prices and quantities -/

/-- The first point of a text is where `find` finds it. -/
theorem findIdx_point {before : Bytes} (h : 46 ∉ before) (after : Bytes) :
    (before ++ 46 :: after).findIdx? (· == 46) = some before.length := by
  have hnone : before.findIdx? (· == 46) = none := by
    refine List.findIdx?_eq_none_iff.mpr fun b hb => ?_
    simpa using fun heq : b = 46 => h (heq ▸ hb)
  simp [List.findIdx?_append, List.findIdx?_cons, hnone]

theorem lastPxOk_iff (str : Bytes) : lastPxOk str = true ↔ IsLoosePrice str := by
  by_cases hmem : 46 ∈ str
  · obtain ⟨before, after, rfl, hpoint⟩ := List.eq_append_cons_of_mem hmem
    have hafter : (before ++ 46 :: after).length - before.length - 1 = after.length := by
      rw [List.length_append, List.length_cons]
      omega
    simp only [lastPxOk, findIdx_point hpoint, hafter, Bool.or_eq_true, Bool.and_eq_true, beq_iff_eq]
    constructor
    · intro h
      exact ⟨before, after, rfl, by omega, by omega, by omega, hpoint, fun _ _ => trivial⟩
    · rintro ⟨before', after', heq, hlow, hhigh, hlen, hpoint', -⟩
      -- the first point is in one place only
      have hplace : before.length = before'.length := by
        have h := findIdx_point hpoint after
        rw [heq, findIdx_point hpoint'] at h
        exact (Option.some.inj h).symm
      have hlength := congrArg List.length heq
      simp only [List.length_append, List.length_cons] at hlength
      omega
  · have hnone : str.findIdx? (· == 46) = none := by
      refine List.findIdx?_eq_none_iff.mpr fun b hb => ?_
      simpa using fun heq : b = 46 => hmem (heq ▸ hb)
    simp only [lastPxOk, hnone, Bool.false_eq_true, false_iff]
    rintro ⟨before, after, rfl, -⟩
    exact hmem (by simp)

theorem volumeOk_iff (str : Bytes) : volumeOk str = true ↔ IsLooseQuantity str := by
  simp [volumeOk, IsLooseQuantity]

theorem IsPrice.loose {str : Bytes} (h : IsPrice str) : IsLoosePrice str := by
  obtain ⟨before, after, hstr, hlow, hhigh, hlen, hpoint, -⟩ := h
  exact ⟨before, after, hstr, hlow, hhigh, hlen, hpoint, fun _ _ => trivial⟩

theorem IsQuantity.loose {str : Bytes} (h : IsQuantity str) : IsLooseQuantity str := by
  obtain ⟨-, hlen, hdigits⟩ := h
  exact ⟨fun hmem => absurd (hdigits 46 hmem) (by decide), hlen⟩

/-! ## Portfolios -/

section Portfolio

variable {trades : List Trade} {check : Trade → Bool} {Loose Strict : Trade → Prop}

theorem allValid_iff (hcheck : ∀ t, check t = true ↔ Loose t) :
    allValid check trades = true ↔ ∀ t ∈ inLoop trades, Loose t := by
  rw [allValid, List.all_eq_true]
  exact forall₂_congr fun t _ => hcheck t

/-- A validator is wrong about a portfolio exactly if everything it gets to is loosely right and not
everything is well-formed. -/
theorem allValid_exact_iff (hcheck : ∀ t, check t = true ↔ Loose t) (hloose : ∀ t, Strict t → Loose t) :
    (allValid check trades = true ↔ ∀ t ∈ trades, Strict t) ↔
      (∃ t ∈ inLoop trades, ¬ Loose t) ∨ ∀ t ∈ trades, Strict t := by
  rw [allValid_iff hcheck]
  constructor
  · intro h
    by_cases hall : ∀ t ∈ inLoop trades, Loose t
    · exact .inr (h.mp hall)
    · simp only [not_forall, exists_prop] at hall
      exact .inl hall
  · rintro (⟨t, ht, hnot⟩ | hstrict)
    · refine ⟨fun h => absurd (h t ht) hnot, fun h => ?_⟩
      exact absurd (hloose t (h t (List.mem_of_mem_take ht))) hnot
    · exact ⟨fun _ => hstrict, fun _ t ht => hloose t (hstrict t (List.mem_of_mem_take ht))⟩

/-- An element is looked at if everything before it has passed. -/
theorem mem_take_takeWhile {α : Type} {p : α → Bool} {l : List α} {a : α} :
    a ∈ l.take ((l.takeWhile p).length + 1) ↔ ∃ before after, l = before ++ a :: after ∧ ∀ b ∈ before, p b := by
  induction l with
  | nil => simp
  | cons b l ih =>
    by_cases hb : p b
    · rw [List.takeWhile_cons_of_pos hb, List.length_cons, List.take_succ_cons, List.mem_cons, ih]
      constructor
      · rintro (rfl | ⟨before, after, rfl, hbefore⟩)
        · exact ⟨[], l, rfl, by simp⟩
        · exact ⟨b :: before, after, rfl, by simpa [hb] using hbefore⟩
      · rintro ⟨before, after, heq, hbefore⟩
        rcases List.cons_eq_append_iff.mp heq with ⟨rfl, hcons⟩ | ⟨before, rfl, rfl⟩
        · exact .inl (List.cons.inj hcons).1
        · exact .inr ⟨before, after, rfl, fun b' h => hbefore b' (List.mem_cons_of_mem _ h)⟩
    · rw [List.takeWhile_cons_of_neg hb, List.length_nil, List.take_succ_cons, List.take_zero, List.mem_singleton]
      constructor
      · rintro rfl
        exact ⟨[], l, rfl, by simp⟩
      · rintro ⟨before, after, heq, hbefore⟩
        rcases List.cons_eq_append_iff.mp heq with ⟨rfl, hcons⟩ | ⟨before, rfl, rfl⟩
        · exact (List.cons.inj hcons).1
        · exact absurd (hbefore b (List.mem_cons_self ..)) hb

/-- The table is looked at for a text of six characters whose day is positive. -/
theorem monthIndex_eq (str : Bytes) :
    monthIndex str =
      if str.length = 6 ∧ 0 < atoi (datePart 2 str) then some (atoi (datePart 1 str) - 1) else none := by
  have hlook : isDateBy (fun _ i => (.error i : Except Int Int)) str =
      if 0 < atoi (datePart 2 str) then .error (atoi (datePart 1 str) - 1) else .ok false := rfl
  rw [monthIndex, ite_and, hlook]
  split_ifs <;> rfl

theorem monthIndex_iff (str : Bytes) :
    (∀ i, monthIndex str = some i → 0 ≤ i ∧ i < 12) ↔
      (str.length = 6 → 1 ≤ atoi (datePart 2 str) →
        1 ≤ atoi (datePart 1 str) ∧ atoi (datePart 1 str) ≤ 12) := by
  rw [monthIndex_eq]
  split
  next h =>
    constructor
    · intro hindex _ _
      have := hindex _ rfl
      omega
    · intro hmonth i hi
      have := hmonth h.1 h.2
      have := Option.some.inj hi
      omega
  next h =>
    constructor
    · exact fun _ hlen hd => absurd ⟨hlen, hd⟩ h
    · exact fun _ i hi => nomatch hi

end Portfolio

/-- The validators are right about a portfolio exactly if no trade of it is only loosely right. -/
theorem validators_exact_iff (beyond : Int → Int) (trades : List Trade) :
    AcceptsWellFormed beyond trades ↔ NoneOnlyLoose trades := by
  have hdate : (tradeDateValid beyond trades = true ↔ ∀ t ∈ trades, IsTradeDate t.TradeDate) ↔
      (∃ t ∈ inLoop trades, ¬ IsLooseDate t.TradeDate) ∨ ∀ t ∈ trades, IsTradeDate t.TradeDate :=
    allValid_exact_iff (fun t => tradeDateOk_iff beyond t.TradeDate) fun t h => h.loose
  have hprice : (lastPxValid trades = true ↔ ∀ t ∈ trades, IsPrice t.LastPx) ↔
      (∃ t ∈ inLoop trades, ¬ IsLoosePrice t.LastPx) ∨ ∀ t ∈ trades, IsPrice t.LastPx :=
    allValid_exact_iff (fun t => lastPxOk_iff t.LastPx) fun t h => h.loose
  have hquantity : (volumeValid trades = true ↔ ∀ t ∈ trades, IsQuantity t.LastQty) ↔
      (∃ t ∈ inLoop trades, ¬ IsLooseQuantity t.LastQty) ∨ ∀ t ∈ trades, IsQuantity t.LastQty :=
    allValid_exact_iff (fun t => volumeOk_iff t.LastQty) fun t h => h.loose
  constructor
  · intro h
    refine ⟨hdate.mp h.date, fun before t after hsplit hbefore => ?_, hprice.mp h.price, hquantity.mp h.quantity⟩
    refine (monthIndex_iff t.TradeDate).mp (h.table t (mem_take_takeWhile.mpr ⟨before, after, hsplit, ?_⟩))
    exact fun u hu => (tradeDateOk_iff beyond u.TradeDate).mpr (hbefore u hu)
  · intro h
    refine ⟨hdate.mpr h.date, fun t ht => ?_, hprice.mpr h.price, hquantity.mpr h.quantity⟩
    obtain ⟨before, after, hsplit, hbefore⟩ := mem_take_takeWhile.mp ht
    refine (monthIndex_iff t.TradeDate).mpr (h.month before t after hsplit fun u hu => ?_)
    exact (tradeDateOk_iff beyond u.TradeDate).mp (hbefore u hu)

/-- A trade without a quantity, with letters for a price and spaces in its date. -/
def looseTrade : Trade := ⟨ascii "GOOG", [], ascii "abc.defghi", 1, ascii " 1 1 1"⟩

/-- A trade in a thirteenth month. -/
def lateTrade : Trade := ⟨ascii "GOOG", ascii "10", ascii "1732.38000", 1, ascii "231301"⟩

/-- The first trade passes all checks, and for the second one the month table is read at index 12. -/
theorem loose_trades_accepted :
    ¬ AcceptsWellFormed (fun _ => 0) [looseTrade] ∧ ¬ AcceptsWellFormed (fun _ => 0) [lateTrade] := by
  refine ⟨fun h => ?_, fun h => ?_⟩
  · have hempty := (h.quantity.mp (by decide) looseTrade (List.mem_singleton_self _)).1
    exact absurd hempty (by decide)
  · have hindex := h.table lateTrade (by decide) 12 (by decide)
    exact absurd hindex.2 (by decide)

end Finra
