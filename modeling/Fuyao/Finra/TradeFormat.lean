import Fuyao.Finra.Validators

/-!
# The formats of a trade

What a date, a price and a quantity of a trade should look like, and the looser formats that the
validators of stage 0 go by: they compare lengths, look for a point, and let `atoi` make of the three
parts of a date what it can.
-/

namespace Finra

open Cpp

/-! ## The calendar -/

/-- The leap years of the Gregorian calendar. -/
def IsLeap (y : Int) : Prop := 4 ∣ y ∧ ¬ 100 ∣ y ∨ 400 ∣ y

instance (y : Int) : Decidable (IsLeap y) := inferInstanceAs (Decidable (_ ∨ _))

/-- The number of days of a month. -/
def daysInMonth (y m : Int) : Int :=
  if m = 2 then if IsLeap y then 29 else 28
  else if m = 4 ∨ m = 6 ∨ m = 9 ∨ m = 11 then 30
  else 31

/-- There is such a day in the Gregorian calendar. -/
def IsDay (y m d : Int) : Prop := 1 ≤ m ∧ m ≤ 12 ∧ 1 ≤ d ∧ d ≤ daysInMonth y m

/-- The year that two digits stand for. -/
def fullYear (yy : Int) : Int := if yy ≤ 23 then 2000 + yy else 1900 + yy

/-! ## What a trade should look like -/

/-- The `k`-th pair of characters of a date. -/
def datePart (k : ℕ) (str : Bytes) : Bytes := (str.drop (2 * k)).take 2

/-- Six digits, two each for the year, the month and the day, that name a day. -/
def IsTradeDate (str : Bytes) : Prop :=
  str.length = 6 ∧ (∀ b ∈ str, isDigit b) ∧
    IsDay (fullYear (decimal (datePart 0 str))) (decimal (datePart 1 str)) (decimal (datePart 2 str))

/-- 3 to 6 characters, a point, and as many characters as there are missing to 9, all of which
satisfy `p`. -/
def HasPriceShape (p : UInt8 → Prop) (str : Bytes) : Prop :=
  ∃ before after, str = before ++ 46 :: after ∧ 3 ≤ before.length ∧ before.length ≤ 6 ∧
    before.length + after.length = 9 ∧ (46 ∉ before) ∧ (∀ b ∈ before ++ after, p b)

/-- A price: nine digits with a point after the third to the sixth of them. -/
def IsPrice (str : Bytes) : Prop := HasPriceShape (fun b => isDigit b) str

/-- A quantity: one to eight digits. -/
def IsQuantity (str : Bytes) : Prop := 1 ≤ str.length ∧ str.length ≤ 8 ∧ ∀ b ∈ str, isDigit b

/-! ## What the validators go by -/

/-- A date to `atoi`, which takes what is not a digit for 0 or skips it. -/
def IsLooseDate (str : Bytes) : Prop :=
  str.length = 6 ∧ IsDay (fullYear (atoi (datePart 0 str))) (atoi (datePart 1 str)) (atoi (datePart 2 str))

/-- A price with any characters for digits. -/
def IsLoosePrice (str : Bytes) : Prop := HasPriceShape (fun _ => True) str

/-- At most eight characters, none of which is a point. -/
def IsLooseQuantity (str : Bytes) : Prop := 46 ∉ str ∧ str.length ≤ 8

/-- The trades that the loop of a validator may get to. -/
def inLoop (trades : List Trade) : List Trade := trades.take (Int32.ofNat trades.length).toInt.toNat

/-- The trades that the loop looks at: it stops at the first one that fails. -/
def examined (check : Trade → Bool) (trades : List Trade) : List Trade :=
  (inLoop trades).take (((inLoop trades).takeWhile check).length + 1)

/-- The index at which the check of a date looks at the month table, if it does: the one that a table which
cannot be looked at reports. -/
def monthIndex (str : Bytes) : Option Int :=
  if str.length = 6 then
    match isDateBy (fun _ i => (.error i : Except Int Int)) str with
    | .error i => some i
    | .ok _ => none
  else none

/-- The validators accept exactly the portfolios of well-formed trades, and `is_date` stays in its month
table. -/
structure AcceptsWellFormed (beyond : Int → Int) (trades : List Trade) : Prop where
  date : tradeDateValid beyond trades = true ↔ ∀ t ∈ trades, IsTradeDate t.TradeDate
  table : ∀ t ∈ examined (fun t => tradeDateOk beyond t.TradeDate) trades, ∀ i, monthIndex t.TradeDate = some i →
    0 ≤ i ∧ i < 12
  price : lastPxValid trades = true ↔ ∀ t ∈ trades, IsPrice t.LastPx
  quantity : volumeValid trades = true ↔ ∀ t ∈ trades, IsQuantity t.LastQty

/-- The portfolios without a trade that is only loosely right. Either the loop gets to a trade that
fails even the loose format, or all trades are well-formed. The dates before the first one that fails
have a month, and so has that one if it has six characters and a day. -/
structure NoneOnlyLoose (trades : List Trade) : Prop where
  date : (∃ t ∈ inLoop trades, ¬ IsLooseDate t.TradeDate) ∨ ∀ t ∈ trades, IsTradeDate t.TradeDate
  month : ∀ before t after, inLoop trades = before ++ t :: after →
    (∀ u ∈ before, IsLooseDate u.TradeDate) → t.TradeDate.length = 6 → 1 ≤ atoi (datePart 2 t.TradeDate) →
      1 ≤ atoi (datePart 1 t.TradeDate) ∧ atoi (datePart 1 t.TradeDate) ≤ 12
  price : (∃ t ∈ inLoop trades, ¬ IsLoosePrice t.LastPx) ∨ ∀ t ∈ trades, IsPrice t.LastPx
  quantity : (∃ t ∈ inLoop trades, ¬ IsLooseQuantity t.LastQty) ∨ ∀ t ∈ trades, IsQuantity t.LastQty

end Finra
