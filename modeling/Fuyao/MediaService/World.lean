import Fuyao.Concurrency.Prog
import Fuyao.MediaService.Memcached
import Fuyao.MediaService.Types

/-!
# The world of the media service

Every interaction of a function with something it shares with others is one atomic operation: a
client pool, memcached, MongoDB, the clock, the runtime that invokes other functions, and the thread
pool of the entry function. `machine` says what each operation does to the `World`.

A label carries a `Choice`. Its fault says whether the operation succeeds, fails without effect, or
takes effect and still reports a failure; its value is what the outside delivers where the world does
not determine it (a return code, the time, a random number).
-/

namespace MediaService

open Cpp Concurrency

/-- The method that asks for a pooled client. -/
inductive Handler where
  | upload
  | composeAndUpload
  | uploadMovieId
  | registerMovieId
  | storeReview
  deriving DecidableEq

/-- The three functions `exp02ComposeReview` fans out to. -/
inductive Downstream where
  | movieId
  | text
  | uniqueId
  deriving DecidableEq

/-- What the functions do outside of their own memory. -/
inductive Op where
  /-- `ClientPool<MCClient>::Pop`; the answer is whether a client was obtained. -/
  | pop (h : Handler)
  /-- `ClientPool<MCClient>::Push`. -/
  | push (h : Handler)
  /-- `MCClient::Get`; `none` is a failure, `some none` a key that was not found. -/
  | get (key : Bytes)
  /-- `MCClient::Set`; the answer is the success. -/
  | set (key value : Bytes) (exptime : Nat)
  /-- `MCClient::Add`; `none` is a failure, `some stored` a success. -/
  | add (key value : Bytes) (exptime : Nat)
  /-- `client_incr` in `MCClient::Incr`; `none` is a failure, and otherwise the answer is a pointer to the new
  value. -/
  | incr (key : Bytes) (delta : UInt64)
  /-- `mongoc_client_pool_pop`. -/
  | mongoPop (h : Handler)
  /-- `mongoc_client_pool_push`. -/
  | mongoPush (h : Handler)
  /-- `mongoc_client_get_collection`; the answer is whether there is one. -/
  | getCollection (h : Handler)
  /-- `mongoc_cursor_next` on the documents with this title; an error looks like no document. -/
  | findMovie (title : Bytes)
  /-- `mongoc_collection_insert_one` into `movie-id`. -/
  | insertMovie (doc : Movie)
  /-- `mongoc_collection_insert_one` into `review`. -/
  | insertReview (doc : Review)
  /-- `clock_gettime` in microseconds. -/
  | clock
  /-- `rand`. -/
  | rand
  /-- A call of `invoke_func_fn`, answered by its return code. -/
  | invoke (f : Invocation)
  /-- `ThreadPool::enqueue` of a job of request `q`. -/
  | enqueue (q : Nat) (f : Downstream)
  /-- A worker of the thread pool takes the job. -/
  | startJob (q : Nat) (f : Downstream)
  /-- The job sets `succeed` and completes its future. -/
  | finishJob (q : Nat) (f : Downstream) (succeed : Bool)
  /-- `std::future::get`, which blocks until the job has finished. -/
  | futureGet (q : Nat) (f : Downstream)
  /-- The entry function reads `job->succeed`. -/
  | readSucceed (q : Nat) (f : Downstream)
  deriving DecidableEq

/-- The answers of the operations. -/
@[reducible] def Op.Res : Op → Type
  | .pop _ => Bool
  | .push _ => Unit
  | .get _ => Option (Option Bytes)
  | .set _ _ _ => Bool
  | .add _ _ _ => Option Bool
  | .incr _ _ => Option (Option UInt64)
  | .mongoPop _ => Bool
  | .mongoPush _ => Unit
  | .getCollection _ => Bool
  | .findMovie _ => Option Movie
  | .insertMovie _ => Bool
  | .insertReview _ => Bool
  | .clock => UInt64
  | .rand => Nat
  | .invoke _ => Int
  | .enqueue _ _ => Unit
  | .startJob _ _ => Unit
  | .finishJob _ _ _ => Unit
  | .futureGet _ _ => Unit
  | .readSucceed _ _ => Bool

/-- The memcached key an operation reads or writes. -/
def Op.key : Op → Option Bytes
  | .get key | .set key _ _ | .add key _ _ | .incr key _ => some key
  | _ => none

/-- The job that an operation is about. -/
def Op.job : Op → Option (Nat × Downstream)
  | .enqueue q f | .startJob q f | .finishJob q f _ | .futureGet q f | .readSucceed q f => some (q, f)
  | _ => none

/-- The operation leaves no trace in anything that is shared: it manages clients, or it only looks at
the collection `movie-id`, the clock or the random numbers. -/
def Op.isLocal : Op → Bool
  | .pop _ | .push _ | .mongoPop _ | .mongoPush _ | .getCollection _ | .findMovie _ | .clock
  | .rand => true
  | _ => false

/-- The programs over these operations. -/
abbrev Service := Prog Op Op.Res Exn

/-- The program that performs one operation. -/
def ask (o : Op) : Service o.Res := Prog.call o

/-- How far a job of the thread pool is. -/
inductive JobState where
  | absent
  | queued
  | running
  | finished (succeed : Bool)
  deriving DecidableEq

/-- The cache, the database and the jobs. -/
structure World where
  memcached : Memcached
  /-- The collection `movie-id`, in the order in which a cursor walks through it. -/
  movies : List Movie
  reviews : List Review
  jobs : Nat → Downstream → JobState

/-- Nothing cached, nothing stored, no job. -/
def World.empty : World := ⟨⟨0, fun _ => none⟩, [], [], fun _ _ => .absent⟩

/-- How an operation goes. -/
inductive Fault where
  | ok
  /-- It reports a failure and has no effect. -/
  | failed
  /-- It takes effect and reports a failure. -/
  | unreported
  deriving DecidableEq

/-- What is left open about an operation: how it goes, and a value that comes from outside. -/
structure Choice where
  fault : Fault
  value : Int

/-- The surroundings: time passes, an expired key vanishes, a key is evicted. -/
inductive Env where
  | tick
  | expire (key : Bytes)
  | evict (key : Bytes)
  deriving DecidableEq

namespace World

variable (w : World)

/-- The cache changes. -/
def onMemcached (m : Memcached) : World := { w with memcached := m }

/-- A job changes. -/
def setJob (q : Nat) (f : Downstream) (s : JobState) : World :=
  { w with jobs := Function.update w.jobs q (Function.update (w.jobs q) f s) }

/-- An operation that answers `r` and makes the world `w'` when it succeeds, and that answers `bad`
when it fails. -/
def faulty {ρ : Type} (fault : Fault) (r bad : ρ) (w' : World) : Option (ρ × World) :=
  match fault with
  | .ok => some (r, w')
  | .failed => some (bad, w)
  | .unreported => some (bad, w')

/-- What an operation does and what it answers. -/
def exec : (o : Op) → Choice → World → Option (o.Res × World)
  | .pop _, ch, w => w.faulty ch.fault true false w
  | .push _, _, w => some ((), w)
  | .get key, ch, w => w.faulty ch.fault (some (w.memcached.get key)) none w
  | .set key value exptime, ch, w =>
    w.faulty ch.fault true false (w.onMemcached (w.memcached.set key value exptime))
  | .add key value exptime, ch, w =>
    let r := w.memcached.add key value exptime
    w.faulty ch.fault (some r.1) none (w.onMemcached r.2)
  | .incr key delta, ch, w =>
    match w.memcached.incr key delta with
    | some r => w.faulty ch.fault (some (some r.1)) none (w.onMemcached r.2)
    | none =>
      -- for the client library a value that is no number is an error; a key that is not there is none, and
      -- the result is a null pointer
      match w.memcached.get key with
      | none => w.faulty ch.fault (some none) none w
      | some _ => some (none, w)
  | .mongoPop _, ch, w => w.faulty ch.fault true false w
  | .mongoPush _, _, w => some ((), w)
  | .getCollection _, ch, w => w.faulty ch.fault true false w
  | .findMovie title, ch, w => w.faulty ch.fault (w.movies.find? (·.title == title)) none w
  | .insertMovie doc, ch, w =>
    w.faulty ch.fault true false { w with movies := w.movies ++ [doc] }
  | .insertReview doc, ch, w =>
    w.faulty ch.fault true false { w with reviews := w.reviews ++ [doc] }
  | .clock, ch, w => some (UInt64.ofInt ch.value, w)
  | .rand, ch, w => some (ch.value.toNat % 2 ^ 31, w)
  | .invoke _, ch, w => some (ch.value, w)
  | .enqueue q f, _, w => some ((), w.setJob q f .queued)
  | .startJob q f, _, w =>
    if w.jobs q f = .queued then some ((), w.setJob q f .running) else none
  | .finishJob q f succeed, _, w => some ((), w.setJob q f (.finished succeed))
  | .futureGet q f, _, w =>
    match w.jobs q f with
    | .finished _ => some ((), w)
    | _ => none
  | .readSucceed q f, _, w =>
    match w.jobs q f with
    | .finished succeed => some (succeed, w)
    | _ => some (false, w)

/-- What happens to the cache by itself. -/
def env : Env → World → Option World
  | .tick, w => some (w.onMemcached { w.memcached with now := w.memcached.now + 1 })
  | .expire key, w =>
    if w.memcached.expired key then some (w.onMemcached (w.memcached.delete key)) else none
  | .evict key, w => some (w.onMemcached (w.memcached.delete key))

end World

/-- The world as a machine. -/
def machine : Machine Op Op.Res World Choice Env := ⟨World.exec, World.env⟩

section Runs

variable {ι : Type}

/-- An operation that a thread has performed. -/
abbrev ServiceEvent (ι : Type) := Event ι Op Op.Res World

/-- Threads of the service; every one of them ends in a return code. -/
abbrev ServiceConfig (ι : Type) := Config ι Op Op.Res Exn Int World

/-- A step of a thread, or of the cache. -/
abbrev ServiceLabel (ι : Type) := Label ι Choice Env

/-! ## Which runs a statement is about -/

/-- Nothing fails and nothing vanishes. -/
def Reliable : ServiceLabel ι → Prop
  | .run _ ch => ch.fault = .ok
  | .env _ => False

/-- Any operation may fail, with or without effect; nothing vanishes. -/
def Faulty : ServiceLabel ι → Prop
  | .run _ _ => True
  | .env _ => False

/-- An operation may fail without effect; nothing vanishes. -/
def FailStop : ServiceLabel ι → Prop
  | .run _ ch => ch.fault ≠ .unreported
  | .env _ => False

/-- Nothing fails; keys vanish when they have expired. -/
def Expiring : ServiceLabel ι → Prop
  | .run _ ch => ch.fault = .ok
  | .env (.evict _) => False
  | .env _ => True

/-- An operation may fail without effect; any key may vanish at any time. -/
def Evicting : ServiceLabel ι → Prop
  | .run _ ch => ch.fault ≠ .unreported
  | .env _ => True

instance : (l : ServiceLabel ι) → Decidable (Reliable l)
  | .run _ ch => inferInstanceAs (Decidable (ch.fault = .ok))
  | .env _ => inferInstanceAs (Decidable False)

instance : (l : ServiceLabel ι) → Decidable (Faulty l)
  | .run _ _ => inferInstanceAs (Decidable True)
  | .env _ => inferInstanceAs (Decidable False)

instance : (l : ServiceLabel ι) → Decidable (FailStop l)
  | .run _ ch => inferInstanceAs (Decidable (ch.fault ≠ .unreported))
  | .env _ => inferInstanceAs (Decidable False)

instance : (l : ServiceLabel ι) → Decidable (Expiring l)
  | .run _ ch => inferInstanceAs (Decidable (ch.fault = .ok))
  | .env (.evict _) => inferInstanceAs (Decidable False)
  | .env .tick => inferInstanceAs (Decidable True)
  | .env (.expire _) => inferInstanceAs (Decidable True)

instance : (l : ServiceLabel ι) → Decidable (Evicting l)
  | .run _ ch => inferInstanceAs (Decidable (ch.fault ≠ .unreported))
  | .env _ => inferInstanceAs (Decidable True)

/-- The configurations reached from the world `w₀` by labels that satisfy `adm`. -/
def ReachableFrom [DecidableEq ι] (w₀ : World) (adm : ServiceLabel ι → Prop)
    (threads : ι → Service Int) (c : ServiceConfig ι) : Prop :=
  Reach (Config.step machine) (fun _ l => adm l) (Config.initial w₀ threads) c

end Runs

end MediaService
