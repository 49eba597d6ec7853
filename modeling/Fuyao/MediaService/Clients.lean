import Fuyao.Concurrency.Proofs.ProgProofs
import Fuyao.MediaService.Entries
import Fuyao.MediaService.RatingHandler

/-!
# The pooled clients a call takes

A handler pops a client from a `ClientPool` and has to push it back, on every path. `givesBack` looks at
what a call has done with clients: each one that it took it gave back, once, before it took the next.
Two things come between a `Pop` and its `Push` in the handlers on memcached: a rating that `std::stoi`
cannot represent (`LargeRating`), and a counter that is gone when it is incremented (`LostCounter`). In the
handler on Redis it is a reply that does not come (`NoReply`).
-/

namespace MediaService

open Cpp Concurrency

/-- What happens to a client of a pool. -/
inductive ClientUse (κ : Type) where
  | take (k : κ)
  | giveBack (k : κ)
  deriving DecidableEq

/-- Every client that is taken is given back, exactly once, and nothing else is given back. -/
def givesBack {κ : Type} [DecidableEq κ] : List (ClientUse κ) → Bool
  | [] => true
  | .take k :: .giveBack k' :: uses => k = k' && givesBack uses
  | _ => false

/-- What an operation and its answer mean for the clients of `ClientPool<MCClient>`. A `Pop` that is
answered by `nullptr` takes none. -/
def clientUse : ((o : Op) × o.Res) → Option (ClientUse Handler)
  | ⟨.pop h, true⟩ => some (.take h)
  | ⟨.push h, _⟩ => some (.giveBack h)
  | _ => none

/-- A `Get` finds, under the key of a rating, a number that is not an `int`. -/
def LargeRating : ((o : Op) × o.Res) → Prop
  | ⟨.get key, some (some value)⟩ => ∃ req_id rating : Int64,
      key = keyComponent req_id .uploadRating ∧ value = toStr rating.toInt ∧ ¬ FitsInt rating
  | _ => False

/-- An `Incr` does not find its counter, and its result is a null pointer. -/
def LostCounter : ((o : Op) × o.Res) → Prop
  | ⟨.incr _ _, some none⟩ => True
  | _ => False

/-- The answer makes a handler on memcached end between a `Pop` and its `Push`. -/
def Stops (e : (o : Op) × o.Res) : Prop := LargeRating e ∨ LostCounter e

/-- The uses of clients of a call that starts with the client `held` in its hands. -/
def clientUses (held : Option Handler) (es : List ((o : Op) × o.Res)) : List (ClientUse Handler) :=
  held.toList.map .take ++ es.filterMap clientUse

/-- The operations lead from holding `held` to holding `held'`. -/
def Carries (held held' : Option Handler) (es : List ((o : Op) × o.Res)) : Prop :=
  (∀ e ∈ es, ¬ Stops e) ∧
    ∀ uses, givesBack (clientUses held es ++ uses) = givesBack (clientUses held' [] ++ uses)

/-- The operations end at an answer that stops them, with a client in hand. -/
def Leaves (held : Option Handler) (es : List ((o : Op) × o.Res)) : Prop :=
  (∃ e ∈ es, Stops e) ∧ givesBack (clientUses held es) = false

/-- What the operations of a part of a method do that starts with the client `held`: when it returns `b`,
then with a client in hand that `P b` allows, and when it ends otherwise, then without one unless an
answer has stopped it. -/
def Settles {β : Type} (held : Option Handler) (P : β → Option Handler → Prop)
    (es : List ((o : Op) × o.Res)) : Except Exn β → Prop
  | .ok b => ∃ held', Carries held held' es ∧ P b held'
  | .error e => e ≠ .overflow ∧ (Carries held none es ∨ Leaves held es)

/-- Whatever is returned, no client is left in hand. -/
def EmptyHanded {β : Type} (_ : β) (held : Option Handler) : Prop := held = none

/-- What a call does with clients, unless its input stops it before it has done anything. -/
def SettlesUnless (stopped : Prop) (es : List ((o : Op) × o.Res)) (out : Except Exn Int) : Prop :=
  Settles none EmptyHanded es out ∨ es = [] ∧ stopped

/-! ## Counters that stay -/

section Counters

variable {ι : Type}

/-- Anything may fail, and anything may expire or be evicted but the counters. -/
def CountersStay : ServiceLabel ι → Prop
  | .env (.expire key) | .env (.evict key) => ∀ req_id, key ≠ keyCounter req_id
  | _ => True

/-- An `Add` has stored the key or found it. -/
def Adds (key : Bytes) : ((o : Op) × o.Res) → Prop
  | ⟨.add key' _ _, some _⟩ => key' = key
  | _ => False

/-- No answer to the operation tells of a missing counter: it is not an `Incr`. -/
def NotIncr (o : Op) : Prop := ∀ r, ¬ LostCounter ⟨o, r⟩

/-- What was added as a counter is there, and every `Incr` has found its counter. -/
structure CountersInv (w : World) (T : List (ServiceEvent ι)) : Prop where
  held : ∀ e ∈ T, ∀ req_id, Adds (keyCounter req_id) ⟨e.op, e.res⟩ →
    w.memcached.get (keyCounter req_id) ≠ none
  found : ∀ e ∈ T, ¬ LostCounter ⟨e.op, e.res⟩

/-- The logic in which a handler increments a counter only after it has added it. -/
def counters : Logic ι Op Op.Res Exn Int World Choice Env Unit Unit where
  machine := machine
  adm _ := CountersStay
  good _ := True
  inv w T _ := CountersInv w T
  view _ _ := ()

end Counters

namespace Redis

/-- What an operation and its answer mean for the clients of `ClientPool<RedisClient>`. -/
def clientUse : ((o : Op) × o.Res) → Option (ClientUse ℕ)
  | ⟨.pop, some client⟩ => some (.take client)
  | ⟨.push client, _⟩ => some (.giveBack client)
  | _ => none

/-- The commands cannot be written, or a reply cannot be read. -/
def NoReply : ((o : Op) × o.Res) → Prop
  | ⟨.bufferWrite _, ok⟩ => ok = false
  | ⟨.readReply _, reply⟩ => reply = none
  | _ => False

end Redis

end MediaService
