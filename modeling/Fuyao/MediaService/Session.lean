import Fuyao.Gather.Gather
import Fuyao.MediaService.Composition
import Fuyao.MediaService.Proofs.WorldProofs

/-!
# One request as a gathering of components

`Session` is what an argument about the uploads of one request fixes. The parties of the gathering
are the calls of `Upload` for the request, each made by the thread that owns it; `Session.Inv` says
how memcached and the history represent the state of the gathering as long as no key vanishes.
-/

namespace MediaService

open Cpp Concurrency Gather

section History

variable {ι : Type}

/-- The value an event stored under `key` by an `Add` that found nothing there. -/
def storedBy (key : Bytes) : ServiceEvent ι → Option Bytes
  | ⟨_, .add key' value _, _, pre, post⟩ =>
    if key' = key ∧ pre.memcached.get key = none ∧ post.memcached.get key ≠ none then some value
    else none
  | _ => none

/-- The value of the first `Add` that stored something under `key`. -/
def firstStored (key : Bytes) (T : List (ServiceEvent ι)) : Option Bytes := T.findSome? (storedBy key)

/-- The review with which an event invokes `exp02StoreReview4` for request `req_id`. -/
def reviewInvoked (req_id : Int64) : ServiceEvent ι → Option Review
  | ⟨_, .invoke (.exp02StoreReview4 review), _, _, _⟩ =>
    if review.req_id = req_id then some review else none
  | _ => none

/-- The reviews `exp02StoreReview4` was invoked with for request `req_id`, in the order of the
invocations. -/
def storeReviewCalls (req_id : Int64) (T : List (ServiceEvent ι)) : List Review :=
  T.filterMap (reviewInvoked req_id)

/-- What a `Get` of `key` that did not fail answered; `some none` is a key that was not found. -/
def readBy (key : Bytes) : ServiceEvent ι → Option (Option Bytes)
  | ⟨_, .get key', res, _, _⟩ => if key' = key then res else none
  | _ => none

/-- The event is a `Get` that did not find its key. -/
def MissedGet (key : Bytes) (e : ServiceEvent ι) : Prop := readBy key e = some none

/-- Thread `i` has found a value under `key`. -/
def FoundGet (i : ι) (key : Bytes) (T : List (ServiceEvent ι)) : Prop :=
  ∃ value w, (⟨i, .get key, some (some value), w, w⟩ : ServiceEvent ι) ∈ T

end History

/-- The calls that upload the components of one request, as parties of a gathering. -/
structure Session (ι κ : Type) where
  req_id : Int64
  comp : κ → Component
  /-- The thread that makes the call of a party. -/
  owner : κ → ι
  /-- What a party may upload. -/
  Val : κ → Review → Prop
  adm : ServiceLabel ι → Prop
  good : ServiceEvent ι → Prop
  Allowed : Phase Component Review → Prop
  /-- The operations that deliver a composed review. -/
  Emits : Op → Prop
  out : World → List (ServiceEvent ι) → List Review
  /-- The event reports that the call of a party has succeeded. -/
  Reports : ServiceEvent ι → κ → Prop

namespace Session

variable {ι κ : Type} (S : Session ι κ)

/-- In some run an operation of thread `i` goes as `f` says. -/
def Goes (i : ι) (o : Op) (f : Fault) : Prop :=
  ∃ ch r w w', S.adm (.run i ch) ∧ w.exec o ch = some (r, w') ∧ S.good ⟨i, o, r, w, w'⟩ ∧ ch.fault = f

/-- In some run an operation of thread `i` fails. -/
def MayFail (i : ι) (o : Op) : Prop := S.Goes i o .failed ∨ S.Goes i o .unreported

/-- In some run thread `i` reads `n` from the counter. -/
def MayRead (i : ι) (n : ℕ) : Prop :=
  ∃ w w', w.memcached.get (keyCounter S.req_id) = some (toStr n) ∧
    S.good ⟨i, .get (keyCounter S.req_id), some (some (toStr n)), w, w'⟩

/-- The operation may report that the call of a party has succeeded. -/
def Reporting (o : Op) : Prop := ∃ e k, e.op = o ∧ S.Reports e k

/-- The key of a component. -/
def key (c : Component) : Bytes := keyComponent S.req_id c.op

/-- What makes the session an account of its runs. -/
structure Lawful : Prop where
  no_env : ∀ e, ¬ S.adm (.env e)
  regular : ∀ p : Phase Component Review, p.regular = true → S.Allowed p
  lost_incr : ∀ k, S.Goes (S.owner k) (.incr (keyCounter S.req_id) 1) .failed → S.Allowed .lost
  lost_add : ∀ k c value, S.Goes (S.owner k) (.add (S.key c) value mmcExpTime) .unreported →
    S.Allowed .lost
  blind : ∀ k, S.Goes (S.owner k) (.incr (keyCounter S.req_id) 1) .unreported → S.Allowed .blind
  again : ∀ k k', k' ≠ k → S.comp k' = S.comp k → S.MayRead (S.owner k) numComponents →
    (∀ v, S.Allowed (.again v)) ∧ S.Allowed .recomposed
  emits : ∀ o, S.Emits o → (∃ f, o = .invoke f) ∨ ∃ doc, o = .insertReview doc
  out_keep : ∀ i o ch r w w' T, w.exec o ch = some (r, w') → ¬ S.Emits o →
    S.out w' (T ++ [⟨i, o, r, w, w'⟩]) = S.out w T
  reports : ∀ e k, S.Reports e k → ∃ q f, e.op = .finishJob q f true

/-- The invariant: memcached and the history represent the gathering. -/
structure Inv (w : World) (T : List (ServiceEvent ι)) (a : State Component κ Review) : Prop where
  gather : a.Inv S.comp S.Allowed
  counter : w.memcached.get (keyCounter S.req_id) = a.counter.map fun n : ℕ => toStr n
  store : ∀ c, w.memcached.get (S.key c) = (a.store c).map fun x => c.encode x.2
  first : ∀ c, firstStored (S.key c) T = (a.store c).map fun x => c.encode x.2
  val : ∀ c k v, a.store c = some (k, v) → S.Val k v
  found : ∀ e ∈ T, ∀ c, ¬ MissedGet (S.key c) e
  gets : ∀ T₁ e T₂, T = T₁ ++ e :: T₂ → S.Emits e.op → ∀ c, FoundGet e.thread (S.key c) T₁
  out : S.out w T = a.outputs.map fun x => assemble S.req_id x.2
  reported : ∀ e ∈ T, ∀ k, S.Reports e k → (a.phase k).done = true

/-- An operation that is no matter of the session. -/
def Foreign (o : Op) : Prop :=
  (∀ key, o.key = some key → ¬ IsComposeKey S.req_id key) ∧ ¬ S.Emits o ∧ ¬ S.Reporting o

variable [DecidableEq ι]

/-- The logic of the session: a thread sees the phases of the parties it owns. -/
def logic : Logic ι Op Op.Res Exn Int World Choice Env (State Component κ Review)
    (κ → Phase Component Review) where
  machine := machine
  adm _ l := S.adm l
  good := S.good
  inv := S.Inv
  view i a k := if S.owner k = i then a.phase k else .idle

/-- An operation of `ComposeAndUpload` before the invocation. -/
inductive ComposeOp : Op → Prop where
  | pop : ComposeOp (.pop .composeAndUpload)
  | get (c : Component) : ComposeOp (.get (S.key c))

/-- How the call of party `k` may end: its result, and the phase it ends in. -/
inductive Ends (k : κ) (v : κ → Phase Component Review) :
    Except Exn Int → Phase Component Review → Prop where
  /-- Some operation failed, and the call says so. -/
  | failed {p : Phase Component Review} (hp : p = .idle ∨ p = .ready ∨ p = .lost ∨ p = .blind)
      (hf : ∃ o, S.MayFail (S.owner k) o) : Ends k v (.ok (-1)) p
  | done {p : Phase Component Review} (hp : p.done = true) : Ends k v (.ok 0) p
  /-- The component was there already, and the counter was not full. -/
  | repeated {k' : κ} (hk : k' ≠ k) (hc : S.comp k' = S.comp k)
      (hs : S.owner k' = S.owner k → (v k').stored = true)
      (hr : ∃ n < numComponents, S.MayRead (S.owner k) n) : Ends k v (.ok 0) .ready
  /-- The review was not composed, because an operation failed, and the call does not say so. -/
  | aborted {p : Phase Component Review} (hp : p.sawAll = true)
      (hf : ∃ o, S.ComposeOp o ∧ S.MayFail (S.owner k) o) : Ends k v (.ok 0) p
  /-- The rating could not be read back. -/
  | threw {p : Phase Component Review} {e : Exn} (hp : p.sawAll = true)
      (hf : ∃ k' val, S.comp k' = .rating ∧ S.Val k' val ∧ ¬ FitsInt val.rating) :
      Ends k v (.error e) p

variable [DecidableEq κ]

/-- Invoking `exp02StoreReview4` with the assembled review, after its components have been read,
delivers it. -/
def Delivers (worker : FaasWorker) : Prop :=
  ∀ (k : κ) (v : κ → Phase Component Review) (vals : Component → Review) (p : Phase Component Review)
    (T : List (ServiceEvent ι)),
    (v k = .last vals ∧ p = .composed ∨ v k = .again vals ∧ p = .recomposed) →
    (∀ c, FoundGet (S.owner k) (S.key c) T) →
    S.logic.wp (S.owner k) (worker.invoke_func_fn_ (.exp02StoreReview4 (assemble S.req_id vals)))
      (fun out v' _ => (∃ code, out = .ok code) ∧ v' = Function.update v k p) v T

end Session

end MediaService
