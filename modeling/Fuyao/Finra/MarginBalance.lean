import Fuyao.Cpp.Floats
import Fuyao.Faas.Faas
import Fuyao.Finra.Validators

/-!
# `exp05MarginBalance`

The function invokes the four validators and `exp05MarketData`, and if all validators report that the
portfolio is valid it prices the portfolio and compares its value with the balance of the account.

The JSON library and floating-point arithmetic are parameters: nothing here depends on the text of a
document or on the value of a portfolio.
-/

namespace Finra

open Cpp Concurrency Faas

/-! ## JSON -/

/-- A value in a document, as far as the functions look at it. -/
inductive Scalar where
  | boolean (b : Bool)
  | string (s : Bytes)
  | other
  deriving DecidableEq

/-- A parsed document; `other` is everything that is not an object. -/
inductive Document where
  | object (fields : List (Bytes × Scalar))
  | other
  deriving DecidableEq

namespace Document

/-- `at(key)`. -/
def field : Document → Bytes → Except Exn Scalar
  | object fields, key =>
    match fields.lookup key with
    | some value => .ok value
    | none => .error .outOfRange
  | other, _ => .error .typeError

end Document

namespace Scalar

/-- `get<bool>()`. -/
def getBool : Scalar → Except Exn Bool
  | boolean b => .ok b
  | _ => .error .typeError

/-- `get<std::string>()`. -/
def getString : Scalar → Except Exn Bytes
  | string s => .ok s
  | _ => .error .typeError

end Scalar

/-- What is used of the JSON library. -/
structure JsonLib where
  parse : Bytes → Except Exn Document
  dump : Document → Bytes

/-! ## Pricing -/

/-- The arithmetic of `double`. -/
structure Arith (D : Type) where
  zero : D
  ofLongDouble : FloatText → D
  add : D → D → D
  mul : D → D → D
  quarter : D → D
  ge : D → D → Bool

section Pricing

variable {D : Type} (arith : Arith D)

/-- What one round of the loop adds to `portfolioMarketValue`. -/
def tradeValue (market_data_json : Document) (t : Trade) : Except Exn D := do
  let qty ← stold (cStr t.LastQty)
  let price ← market_data_json.field t.Security
  let market_dataprice ← stold (cStr (← price.getString))
  return arith.mul (arith.ofLongDouble qty) (arith.ofLongDouble market_dataprice)

/-- The loop that prices the portfolio, from round `i` on. Its counter is an `int`, which the increment
after round `2 ^ 31 - 1` overflows. -/
def priceLoop (market_data_json : Document) : ℕ → List Trade → D → Except Exn D
  | _, [], portfolioMarketValue => .ok portfolioMarketValue
  | i, t :: trades, portfolioMarketValue => do
    let value ← tradeValue arith market_data_json t
    if i = 2 ^ 31 - 1 then .error .overflow
    else priceLoop market_data_json (i + 1) trades (arith.add portfolioMarketValue value)

/-- The value of the portfolio after the loop. -/
def portfolioMarketValue (market_data_json : Document) (trades : List Trade) : Except Exn D :=
  priceLoop arith market_data_json 0 trades arith.zero

end Pricing

/-! ## The functions -/

/-- The functions of the benchmark. -/
inductive Func where
  | exp05LastPx
  | exp05Side
  | exp05Volume
  | exp05TradeDate
  | exp05MarketData
  | exp05MarginBalance
  deriving DecidableEq

/-- What the data files hold; reading a file may end by an exception. -/
structure Files (D : Type) where
  marginBalance : Except Exn D
  portfolios : Except Exn (List Trade)

/-- The document that a validator writes. -/
def validDocument (valid : Bool) : Document := .object [(ascii "valid", .boolean valid)]

/-- The prices `exp05MarketData` returns. -/
def marketData : Document :=
  .object [(ascii "GOOG", .string (ascii "1732.38")), (ascii "AMZN", .string (ascii "3185.27")),
    (ascii "MSFT", .string (ascii "221.02"))]

section Functions

variable {D : Type} (lib : JsonLib) (arith : Arith D) (files : Files D)

/-- `faas_func_call` of a validator. -/
def validator (valid : List Trade → Bool) : Body Func Int32 := do
  let trades ← Prog.ofExcept files.portfolios
  ask (.append (lib.dump (validDocument (valid trades))))
  return 0

/-- `faas_func_call` of `exp05MarketData`. -/
def exp05MarketData : Body Func Int32 := do
  ask (.append (lib.dump marketData))
  return 0

/-- `json::parse(output).at("valid").get<bool>()` for the output of the `k`-th invocation. -/
def readValid (k : ℕ) : Body Func Bool := do
  let document ← Prog.ofExcept (lib.parse (← ask (.output k)))
  let valid ← Prog.ofExcept (document.field (ascii "valid"))
  Prog.ofExcept valid.getBool

/-- `exp05MarginBalance` once the validators have agreed: the portfolio is priced. -/
def checkMargin (ret : Int32) : Body Func Int32 := do
  let market_data_json ← Prog.ofExcept (lib.parse (← ask (.output 4)))
  let marginAccountBalance ← Prog.ofExcept files.marginBalance
  let trades ← Prog.ofExcept files.portfolios
  let value ← Prog.ofExcept (portfolioMarketValue arith market_data_json trades)
  if arith.ge marginAccountBalance (arith.quarter value) then
    ask (.append (ascii "true\n"))
  else
    ask (.append (ascii "false\n"))
  return ret

/-- `exp05MarginBalance` after the invocations. -/
def evaluateMargin (ret : Int32) : Body Func Int32 := do
  let valid_last_px ← readValid lib 0
  let valid_side ← readValid lib 1
  let valid_volume ← readValid lib 2
  let valid_trade_date ← readValid lib 3
  if !(valid_last_px && valid_side && valid_volume && valid_trade_date) then
    ask (.append (ascii "not valid\n"))
    return ret
  checkMargin lib arith files ret

/-- `faas_func_call` of `exp05MarginBalance`. The return code is whether some invocation has failed. -/
def exp05MarginBalance (input : Bytes) : Body Func Int32 := do
  let ret_last_px ← ask (.invoke .exp05LastPx input)
  let ret_side ← ask (.invoke .exp05Side input)
  let ret_volume ← ask (.invoke .exp05Volume input)
  let ret_trade_date ← ask (.invoke .exp05TradeDate input)
  let ret_marketdata ← ask (.invoke .exp05MarketData input)
  let failed := ret_last_px ≠ 0 ∨ ret_side ≠ 0 ∨ ret_volume ≠ 0 ∨ ret_trade_date ≠ 0 ∨ ret_marketdata ≠ 0
  evaluateMargin lib arith files (if failed then 1 else 0)

/-- The function with a given name. -/
def body (beyond : Int → Int) : Func → Bytes → Body Func Int32
  | .exp05LastPx, _ => validator lib files lastPxValid
  | .exp05Side, _ => validator lib files sideValid
  | .exp05Volume, _ => validator lib files volumeValid
  | .exp05TradeDate, _ => validator lib files (tradeDateValid beyond)
  | .exp05MarketData, _ => exp05MarketData lib
  | .exp05MarginBalance, input => exp05MarginBalance lib arith files input

end Functions

end Finra
