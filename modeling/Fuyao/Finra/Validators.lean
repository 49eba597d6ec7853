import Fuyao.Cpp.Strings

/-!
# The validators of stage 0

Four functions check one field each of all trades of a portfolio. Their loops count with an `int` up to
the size of the portfolio converted to `int`.
-/

namespace Finra

open Cpp

/-- The fields of a trade that some function looks at. -/
structure Trade where
  Security : Bytes
  LastQty : Bytes
  LastPx : Bytes
  Side : Int
  TradeDate : Bytes
  deriving DecidableEq

/-- The loop of a validator: `int tilength = j["1234"].size()`. -/
def allValid (check : Trade → Bool) (trades : List Trade) : Bool :=
  (trades.take (Int32.ofNat trades.length).toInt.toNat).all check

/-! ## `exp05LastPx`, `exp05Side` and `exp05Volume` -/

/-- The numbers of characters before and after the point; a text without a point has `npos` characters
before it, which fits no case. -/
def lastPxOk (str : Bytes) : Bool :=
  match str.findIdx? (· == 46) with
  | none => false
  | some len_a =>
    let len_b := str.length - len_a - 1
    (len_a == 3 && len_b == 6) || (len_a == 4 && len_b == 5) || (len_a == 5 && len_b == 4) ||
      (len_a == 6 && len_b == 3)

/-- What `exp05LastPx` reports. -/
def lastPxValid (trades : List Trade) : Bool := allValid (fun t => lastPxOk t.LastPx) trades

/-- `get<int>()` of the side, which is compared with the three sides there are. -/
def sideOk (side : Int) : Bool :=
  Int32.ofInt side == 1 || Int32.ofInt side == 2 || Int32.ofInt side == 8

/-- What `exp05Side` reports. -/
def sideValid (trades : List Trade) : Bool := allValid (fun t => sideOk t.Side) trades

/-- The check of `exp05Volume`: no point and at most eight characters. -/
def volumeOk (str : Bytes) : Bool := !(str.contains 46 || 8 < str.length)

/-- What `exp05Volume` reports. -/
def volumeValid (trades : List Trade) : Bool := allValid (fun t => volumeOk t.LastQty) trades

/-! ## `exp05TradeDate` -/

/-- `std::atoi`. -/
def atoi (s : Bytes) : Int :=
  match scanInteger 10 s with
  | none => 0
  | some (neg, n) => if neg then -(n : Int) else n

/-- The condition in `is_date` for a leap year. -/
def isLeapYear (y : Int) : Bool := (y.tmod 4 == 0 && y.tmod 100 != 0) || y.tmod 400 == 0

/-- `month[i]`. An index outside the array reads what lies there on the stack. -/
def monthDays (beyond : Int → Int) (y i : Int) : Int :=
  if 0 ≤ i ∧ i < 12 then
    [31, if isLeapYear y then 29 else 28, 31, 30, 31, 30, 31, 31, 30, 31, 30, 31].getD i.toNat 0
  else beyond i

/-- `is_date`, where `month y i` looks at `month[i]` in the table of the year `y`. The table is looked at
before the month is checked. -/
def isDateBy {F : Type → Type} [Monad F] (month : Int → Int → F Int) (str : Bytes) : F Bool := do
  let y := atoi (str.take 2)
  let m := atoi ((str.drop 2).take 2)
  let d := atoi ((str.drop 4).take 2)
  let y := if y ≤ 23 then y + 2000 else y + 1900
  if 0 < d then
    return d ≤ (← month y (m - 1)) && 0 < m && m ≤ 12
  else
    return false

/-- `is_date`. -/
def isDate (beyond : Int → Int) (str : Bytes) : Bool :=
  Id.run (isDateBy (fun y i => pure (monthDays beyond y i)) str)

/-- The check of `exp05TradeDate`. -/
def tradeDateOk (beyond : Int → Int) (str : Bytes) : Bool := str.length == 6 && isDate beyond str

/-- What `exp05TradeDate` reports. -/
def tradeDateValid (beyond : Int → Int) (trades : List Trade) : Bool :=
  allValid (fun t => tradeDateOk beyond t.TradeDate) trades

end Finra
