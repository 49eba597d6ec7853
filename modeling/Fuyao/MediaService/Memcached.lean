import Fuyao.Cpp.Strings
import Mathlib.Logic.Function.Basic

/-!
# The memcached server

What the methods of `MCClient` ask the server for: an atomic map from keys to items. An item that was
stored with an expiration time may vanish once that time has passed; `incr` changes the value of an
item and not its life.
-/

namespace MediaService

open Cpp

/-- A value with its expiration. -/
structure Item where
  value : Bytes
  /-- How long the item is guaranteed to stay; 0 means that it never expires. -/
  exptime : Nat
  storedAt : Nat
  deriving DecidableEq

/-- The cache and its clock. -/
structure Memcached where
  now : Nat
  items : Bytes → Option Item

namespace Memcached

variable (m : Memcached)

/-- The value of a key. -/
def get (key : Bytes) : Option Bytes := (m.items key).map Item.value

/-- Store a value, whether or not the key exists. -/
def set (key value : Bytes) (exptime : Nat) : Memcached :=
  { m with items := Function.update m.items key (some ⟨value, exptime, m.now⟩) }

/-- Store a value unless the key exists; the answer says whether it was stored. -/
def add (key value : Bytes) (exptime : Nat) : Bool × Memcached :=
  match m.items key with
  | none => (true, m.set key value exptime)
  | some _ => (false, m)

/-- The number a value denotes for `incr`: decimal digits only, and 64 bits wide. -/
def counterValue (value : Bytes) : Option UInt64 :=
  if value ≠ [] ∧ (value.all fun b => 48 ≤ b && b ≤ 57) ∧ horner 10 (value.map rawDigit) < 2 ^ 64 then
    some (UInt64.ofNat (horner 10 (value.map rawDigit)))
  else none

/-- Add to the number stored under a key; no key and no number are errors. -/
def incr (key : Bytes) (delta : UInt64) : Option (UInt64 × Memcached) :=
  match m.items key with
  | none => none
  | some item =>
    match counterValue item.value with
    | none => none
    | some n =>
      let item' := { item with value := toStr ((n + delta).toNat) }
      some (n + delta, { m with items := Function.update m.items key (some item') })

/-- The cache without a key. -/
def delete (key : Bytes) : Memcached := { m with items := Function.update m.items key none }

/-- The item of a key has outlived its expiration time. -/
def expired (key : Bytes) : Bool :=
  match m.items key with
  | none => false
  | some item => item.exptime != 0 && decide (item.storedAt + item.exptime ≤ m.now)

end Memcached

end MediaService
