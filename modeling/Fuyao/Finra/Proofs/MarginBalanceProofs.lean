import Fuyao.Cpp.Proofs.FloatsProofs
import Fuyao.Faas.Proofs.FaasProofs
import Fuyao.Finra.MarginBalance

/-!
# Proofs: when the pricing loop raises nothing

A round of the loop goes through if the quantity can be read and the security is one that there is a
price for (`tradeValue_ok_iff`). None of this is what the validators check.

When the platform runs `exp05MarginBalance` with the functions it invokes, what it prints is decided by what
the validators say about the portfolio and by the pricing loop (`exp05MarginBalance_answers`).
-/

namespace Finra

open Cpp Concurrency Faas

/-- The securities `exp05MarketData` has a price for. -/
def tickers : List Bytes := [ascii "GOOG", ascii "AMZN", ascii "MSFT"]

/-- All four validators report `valid`. -/
def AllValid (beyond : Int → Int) (trades : List Trade) : Prop :=
  lastPxValid trades = true ∧ sideValid trades = true ∧ volumeValid trades = true ∧
    tradeDateValid beyond trades = true

instance (beyond : Int → Int) (trades : List Trade) : Decidable (AllValid beyond trades) :=
  inferInstanceAs (Decidable (_ ∧ _))

section Pricing

variable {D : Type} {arith : Arith D}

/-- There is a price for the tickers and for nothing else, and every price can be read. -/
theorem marketData_field (security : Bytes) :
    (security ∈ tickers ∧ ∃ price text x, marketData.field security = .ok price ∧
      price.getString = .ok text ∧ stold (cStr text) = .ok x) ∨
    (security ∉ tickers ∧ marketData.field security = .error .outOfRange) := by
  by_cases hgoog : security = ascii "GOOG"
  · subst hgoog
    exact .inl ⟨by decide, _, _, _, rfl, rfl, stold_of_scanFloat rfl (n := ⟨173238, 10, -2⟩) (by decide +kernel)⟩
  by_cases hamzn : security = ascii "AMZN"
  · subst hamzn
    exact .inl ⟨by decide, _, _, _, rfl, rfl, stold_of_scanFloat rfl (n := ⟨318527, 10, -2⟩) (by decide +kernel)⟩
  by_cases hmsft : security = ascii "MSFT"
  · subst hmsft
    exact .inl ⟨by decide, _, _, _, rfl, rfl, stold_of_scanFloat rfl (n := ⟨22102, 10, -2⟩) (by decide +kernel)⟩
  refine .inr ⟨by simp [tickers, hgoog, hamzn, hmsft], ?_⟩
  simp [marketData, Document.field, List.lookup_cons, beq_eq_false_iff_ne.mpr hgoog,
    beq_eq_false_iff_ne.mpr hamzn, beq_eq_false_iff_ne.mpr hmsft]

variable (arith) in
theorem tradeValue_ok_iff (t : Trade) :
    (∃ v, tradeValue arith marketData t = .ok v) ↔ t.Security ∈ tickers ∧ Readable (cStr t.LastQty) := by
  rw [← stold_ok_iff]
  cases hqty : stold (cStr t.LastQty) with
  | error e => simp [tradeValue, hqty, bind, Except.bind]
  | ok qty =>
    rcases marketData_field t.Security with ⟨hmem, price, text, x, hfield, htext, hprice⟩ | ⟨hmem, hfield⟩
    · simp [tradeValue, hqty, hfield, htext, hprice, hmem, bind, Except.bind, pure, Except.pure]
    · simp [tradeValue, hqty, hfield, hmem, bind, Except.bind]

/-- The loop from round `i` on: every round goes through, and the counter stays in range. -/
theorem priceLoop_ok_iff {i : ℕ} (hi : i < 2 ^ 31) (trades : List Trade) (v : D) :
    (∃ w, priceLoop arith marketData i trades v = .ok w) ↔
      i + trades.length < 2 ^ 31 ∧ ∀ t ∈ trades, t.Security ∈ tickers ∧ Readable (cStr t.LastQty) := by
  induction trades generalizing i v with
  | nil =>
    constructor
    · intro _
      exact ⟨hi, by simp⟩
    · intro _
      exact ⟨v, rfl⟩
  | cons t trades ih =>
    rw [List.forall_mem_cons, ← tradeValue_ok_iff arith]
    cases hvalue : tradeValue arith marketData t with
    | error e => simp [priceLoop, hvalue, bind, Except.bind]
    | ok value =>
      have hunfold : priceLoop arith marketData i (t :: trades) v =
          if i = 2 ^ 31 - 1 then .error .overflow
          else priceLoop arith marketData (i + 1) trades (arith.add v value) := by
        rw [priceLoop, hvalue]
        rfl
      rw [hunfold, List.length_cons]
      by_cases hlast : i = 2 ^ 31 - 1
      · rw [if_pos hlast]
        constructor
        · rintro ⟨w, hw⟩
          cases hw
        · rintro ⟨hlong, -⟩
          omega
      · rw [if_neg hlast, ih (by omega)]
        constructor
        · rintro ⟨hlong, hall⟩
          exact ⟨by omega, ⟨value, rfl⟩, hall⟩
        · rintro ⟨hlong, -, hall⟩
          exact ⟨by omega, hall⟩

theorem portfolioMarketValue_ok_iff (arith : Arith D) (trades : List Trade) :
    (∃ v, portfolioMarketValue arith marketData trades = .ok v) ↔
      trades.length < 2 ^ 31 ∧ ∀ t ∈ trades, t.Security ∈ tickers ∧ Readable (cStr t.LastQty) := by
  rw [portfolioMarketValue, priceLoop_ok_iff (by norm_num), Nat.zero_add]

/-- For every portfolio: what the validators accept is priced without an exception if and only if, when
they accept it, it has fewer than `2 ^ 31` trades, and each of them names a security that there is a
price for and a quantity that starts with a number in the range of `long double`. -/
theorem margin_loop_protected_iff (arith : Arith D) (beyond : Int → Int) (trades : List Trade) :
    (AllValid beyond trades → ∃ v, portfolioMarketValue arith marketData trades = .ok v) ↔
    (AllValid beyond trades → trades.length < 2 ^ 31 ∧
      ∀ t ∈ trades, t.Security ∈ tickers ∧ Readable (cStr t.LastQty)) := by
  rw [portfolioMarketValue_ok_iff]

end Pricing

/-- A trade of which only the security and the quantity are left open. -/
def sampleTrade (security quantity : Bytes) : Trade :=
  ⟨security, quantity, ascii "1732.38000", 1, ascii "230307"⟩

/-- An arithmetic that forgets all values. -/
def sampleArith : Arith Unit := ⟨(), fun _ => (), fun _ _ => (), fun _ _ => (), fun _ => (), fun _ _ => true⟩

/-- A quantity that is a word, and a security without a price: the validators accept both, and both
raise an exception when the portfolio is priced. -/
theorem margin_loop_raises :
    (AllValid (fun _ => 0) [sampleTrade (ascii "GOOG") (ascii "ten")] ∧
      portfolioMarketValue sampleArith marketData [sampleTrade (ascii "GOOG") (ascii "ten")] =
        .error .invalidArgument) ∧
    (AllValid (fun _ => 0) [sampleTrade (ascii "TSLA") (ascii "10")] ∧
      portfolioMarketValue sampleArith marketData [sampleTrade (ascii "TSLA") (ascii "10")] =
        .error .outOfRange) := by
  have hten : stold (cStr (ascii "10")) = .ok (.finite false ⟨10, 10, 0⟩) :=
    stold_of_scanFloat rfl (by decide +kernel)
  have hprice : marketData.field (ascii "TSLA") = .error .outOfRange := rfl
  refine ⟨⟨by decide, rfl⟩, by decide, ?_⟩
  simp [portfolioMarketValue, priceLoop, tradeValue, sampleTrade, hten, hprice, bind, Except.bind]

/-! ## Runs on the platform -/

section Runs

variable {D : Type} {lib : JsonLib} {arith : Arith D} {files : Files D} {beyond : Int → Int}
  {trades : List Trade} {host : Host Func} {s : Site Func} {input : Bytes}

/-- What an invocation leaves that returns 0. -/
def answered (s : Site Func) (f : Func) (input output : Bytes) : Response Func :=
  ⟨0, output, (s.note (.start f input)).note (.finish f 0 output)⟩

/-- A validator prints whether the portfolio is valid. -/
theorem call_validator {f : Func} {valid : List Trade → Bool}
    (hbody : body lib arith files beyond f input = validator lib files valid)
    (hfiles : files.portfolios = .ok trades) (fuel : ℕ) :
    call host (body lib arith files beyond) (fuel + 1) f input s =
      some (answered s f input (lib.dump (validDocument (valid trades)))) := by
  refine call_of_interp (e := ⟨.ok 0, ⟨[], lib.dump (validDocument (valid trades))⟩, _⟩) ?_
  rw [hbody, validator, hfiles]
  rfl

theorem call_exp05MarketData (fuel : ℕ) :
    call host (body lib arith files beyond) (fuel + 1) .exp05MarketData input s =
      some (answered s .exp05MarketData input (lib.dump marketData)) :=
  call_of_interp (e := ⟨.ok 0, ⟨[], lib.dump marketData⟩, _⟩) rfl

/-- An output that is the document of a validator is read as what the validator says. -/
theorem interp_readValid {invoked : Func → Bytes → Site Func → Option (Response Func)} {fr : Frame} {k : ℕ}
    {valid : Bool} (hvalid : lib.parse (lib.dump (validDocument valid)) = .ok (validDocument valid))
    (hk : fr.outputs.getD k [] = lib.dump (validDocument valid)) (next : Bool → Body Func Int32) :
    interp host invoked (readValid lib k >>= next) fr s = interp host invoked (next valid) fr s := by
  have hfield : (validDocument valid).field (ascii "valid") = .ok (.boolean valid) := by
    rw [validDocument, Document.field, List.lookup_cons, beq_self_eq_true]
  change interp host invoked
    ((Prog.ofExcept (lib.parse (fr.outputs.getD k [])) >>= fun document =>
      Prog.ofExcept (document.field (ascii "valid")) >>= fun v => Prog.ofExcept v.getBool) >>= next) fr s = _
  rw [hk, hvalid]
  change interp host invoked
    ((Prog.ofExcept ((validDocument valid).field (ascii "valid")) >>= fun v => Prog.ofExcept v.getBool) >>=
      next) fr s = _
  rw [hfield]
  rfl

/-- How `exp05MarginBalance` ends, and what it prints. -/
def marginAnswer (arith : Arith D) (balance : D) (beyond : Int → Int) (trades : List Trade) :
    Except Exn Int32 × Bytes :=
  if AllValid beyond trades then
    match portfolioMarketValue arith marketData trades with
    | .ok value => (.ok 0, if arith.ge balance (arith.quarter value) then ascii "true\n" else ascii "false\n")
    | .error e => (.error e, [])
  else (.ok 0, ascii "not valid\n")

/-- It ends by an exception exactly if an accepted portfolio cannot be priced. -/
theorem marginAnswer_ok_iff (arith : Arith D) (balance : D) (beyond : Int → Int) (trades : List Trade) :
    (marginAnswer arith balance beyond trades).1 = .ok 0 ↔
      (AllValid beyond trades → trades.length < 2 ^ 31 ∧
        ∀ t ∈ trades, t.Security ∈ tickers ∧ Readable (cStr t.LastQty)) := by
  rw [← portfolioMarketValue_ok_iff arith, marginAnswer]
  split
  next hall =>
    cases portfolioMarketValue arith marketData trades with
    | ok value => exact iff_of_true rfl fun _ => ⟨value, rfl⟩
    | error e => exact iff_of_false nofun fun h => nomatch h hall
  next hnot => exact iff_of_true rfl fun h => absurd h hnot

section Answers

variable {balance : D} (hmarket : lib.parse (lib.dump marketData) = .ok marketData)
  (hfiles : files.portfolios = .ok trades) (hbalance : files.marginBalance = .ok balance)

include hmarket hfiles hbalance

theorem interp_checkMargin {invoked : Func → Bytes → Site Func → Option (Response Func)} {outputs : List Bytes}
    (hout : outputs.getD 4 [] = lib.dump marketData) (hall : AllValid beyond trades) :
    ∃ e, interp host invoked (checkMargin lib arith files 0) ⟨outputs, []⟩ s = some e ∧
      (e.outcome, e.frame.appended) = marginAnswer arith balance beyond trades := by
  change ∃ e, interp host invoked
    (Prog.ofExcept (lib.parse (outputs.getD 4 [])) >>= fun market_data_json => _) _ s = some e ∧ _
  rw [hout, hmarket, hbalance, hfiles, marginAnswer, if_pos hall]
  change ∃ e, interp host invoked
    (Prog.ofExcept (portfolioMarketValue arith marketData trades) >>= fun value => _) _ s = some e ∧ _
  cases portfolioMarketValue arith marketData trades with
  | error e => exact ⟨_, rfl, rfl⟩
  | ok value =>
    change ∃ e, interp host invoked
      (if arith.ge balance (arith.quarter value) then _ else _) _ s = some e ∧ _
    dsimp only
    cases arith.ge balance (arith.quarter value) with
    | true => exact ⟨_, rfl, rfl⟩
    | false => exact ⟨_, rfl, rfl⟩

/-- With a JSON library that reads what it has written, `exp05MarginBalance` says `not valid` unless all
validators accept the portfolio, and otherwise whether the balance covers a quarter of its value. -/
theorem exp05MarginBalance_answers
    (hvalid : ∀ valid, lib.parse (lib.dump (validDocument valid)) = .ok (validDocument valid)) (fuel : ℕ) :
    ∃ e, interp host (call host (body lib arith files beyond) (fuel + 1))
        (exp05MarginBalance lib arith files input) .empty s = some e ∧
      (e.outcome, e.frame.appended) = marginAnswer arith balance beyond trades := by
  rw [exp05MarginBalance, interp_of_invoked (call_validator (f := .exp05LastPx) rfl hfiles fuel),
    interp_of_invoked (call_validator (f := .exp05Side) rfl hfiles fuel),
    interp_of_invoked (call_validator (f := .exp05Volume) rfl hfiles fuel),
    interp_of_invoked (call_validator (f := .exp05TradeDate) rfl hfiles fuel),
    interp_of_invoked (call_exp05MarketData fuel)]
  -- no invocation has failed
  change ∃ e, interp host _ (evaluateMargin lib arith files 0) _ _ = some e ∧ _
  rw [evaluateMargin, interp_readValid (hvalid _) rfl, interp_readValid (hvalid _) rfl,
    interp_readValid (hvalid _) rfl, interp_readValid (hvalid _) rfl]
  by_cases hall : AllValid beyond trades
  · obtain ⟨hpx, hside, hvolume, hdate⟩ := hall
    rw [hpx, hside, hvolume, hdate]
    exact interp_checkMargin hmarket hfiles hbalance rfl ⟨hpx, hside, hvolume, hdate⟩
  · have hnot : (!(lastPxValid trades && sideValid trades && volumeValid trades &&
        tradeDateValid beyond trades)) = true := by
      rw [Bool.not_eq_true', ← Bool.not_eq_true]
      simpa only [Bool.and_eq_true, and_assoc, AllValid] using hall
    rw [if_pos hnot, marginAnswer, if_neg hall]
    exact ⟨_, rfl, rfl⟩

end Answers

end Runs

end Finra
