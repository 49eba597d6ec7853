import Fuyao.Concurrency.Prog
import Fuyao.MediaService.Types

/-!
# `RatingHandler` and its Redis connections

`UploadRating` passes a rating on to `exp02UploadRating3` and then counts it in Redis with two
pipelined commands. The commands are appended to the output buffer of a connection, written when the
first reply is asked for, and executed one by one by the server; a reply comes back for each. Every
command is one atomic step, and between any two of them the commands of other connections may be
executed. Whatever can fail (the invocation, the pool, a write, a read) may fail.
-/

namespace MediaService.Redis

open Cpp Concurrency

/-- The commands of `UploadRating`. -/
inductive Command where
  | incrby (key : Bytes) (n : Int)
  | incr (key : Bytes)
  deriving DecidableEq

namespace Command

/-- The key that a command increments. -/
def key : Command → Bytes
  | incrby key _ | incr key => key

/-- What the value of the key grows by. -/
def delta : Command → Int
  | incrby _ n => n
  | incr _ => 1

end Command

/-- A connection of a pooled client: the commands that are appended and not written, those that are
written and not executed, and the replies that are not read. -/
structure Connection where
  output : List Command
  sent : List Command
  replies : List Int
  deriving DecidableEq

/-- A connection on which nothing is on its way. -/
def Connection.empty : Connection := ⟨[], [], []⟩

/-- The integer keys of Redis, where a key that does not exist counts as 0, the connections of all
clients, and the clients that nobody holds. -/
structure Server where
  store : Bytes → Int
  conn : ℕ → Connection
  idle : ℕ → Bool

/-- All counters are 0, and all clients are idle. -/
def Server.initial : Server := ⟨fun _ => 0, fun _ => .empty, fun _ => true⟩

/-- What the handler does outside of its own memory. -/
inductive Op where
  /-- `invoke_func_fn_` of `exp02UploadRating3`, answered by its return code. -/
  | invoke (rating : Rating)
  /-- `ClientPool<RedisClient>::Pop`; `none` is `nullptr`. -/
  | pop
  | appendCommand (client : ℕ) (cmd : Command)
  /-- `redisGetReply`, its first part: the output buffer is written. -/
  | bufferWrite (client : ℕ)
  /-- `redisGetReply`, its second part: a reply is read, which blocks until there is one. -/
  | readReply (client : ℕ)
  /-- `ClientPool<RedisClient>::Push`. -/
  | push (client : ℕ)
  deriving DecidableEq

/-- The answers of the operations. -/
@[reducible] def Op.Res : Op → Type
  | .invoke _ => Int
  | .pop => Option ℕ
  | .appendCommand _ _ => Unit
  | .bufferWrite _ => Bool
  | .readReply _ => Option Int
  | .push _ => Unit

/-- How a call ends when it does not return: `check_ok` is called on a null pointer. -/
inductive Crash where
  | nullDereference
  deriving DecidableEq

/-- The programs over these operations. -/
abbrev RatingProg := Prog Op Op.Res Crash

/-- The program that performs one operation. -/
def ask (o : Op) : RatingProg o.Res := Prog.call o

/-- What the outside decides at an operation. -/
structure Choice where
  code : Int
  client : Option ℕ
  ok : Bool
  /-- The number of commands that have been written when a write fails. -/
  written : ℕ

/-- The server executes the next command of a connection. -/
inductive Env where
  | serve (client : ℕ)

namespace Server

variable (w : Server)

/-- A connection changes. -/
def setConn (client : ℕ) (c : Connection) : Server :=
  { w with conn := Function.update w.conn client c }

/-- A client is taken or given back. -/
def setIdle (client : ℕ) (b : Bool) : Server := { w with idle := Function.update w.idle client b }

/-- One command of a client, which is answered by the new value of its key. -/
def execute (client : ℕ) (cmd : Command) (rest : List Command) : Server :=
  let c := w.conn client
  let value := w.store cmd.key + cmd.delta
  { w.setConn client { c with sent := rest, replies := c.replies ++ [value] } with
    store := Function.update w.store cmd.key value }

/-- What an operation does and what it answers. -/
def exec : (o : Op) → Choice → Server → Option (o.Res × Server)
  | .invoke _, ch, w => some (ch.code, w)
  | .pop, ch, w =>
    match ch.client with
    | none => some (none, w)
    -- an idle client or a new one: nobody else holds it
    | some client => if w.idle client then some (some client, w.setIdle client false) else none
  | .appendCommand client cmd, _, w =>
    let c := w.conn client
    some ((), w.setConn client { c with output := c.output ++ [cmd] })
  | .bufferWrite client, ch, w =>
    let c := w.conn client
    let n := if ch.ok then c.output.length else ch.written
    some (ch.ok, w.setConn client
      { c with output := c.output.drop n, sent := c.sent ++ c.output.take n })
  | .readReply client, ch, w =>
    if ch.ok then
      match (w.conn client).replies with
      | [] => none
      | reply :: replies => some (some reply, w.setConn client { w.conn client with replies := replies })
    else some (none, w)
  | .push client, _, w => some ((), w.setIdle client true)

/-- The server executes the next command that has arrived on a connection. -/
def env : Env → Server → Option Server
  | .serve client, w =>
    match (w.conn client).sent with
    | [] => none
    | cmd :: rest => some (w.execute client cmd rest)

end Server

/-- The server as a machine. -/
def machine : Machine Op Op.Res Server Choice Env := ⟨Server.exec, Server.env⟩

/-! ## `UploadRating` -/

/-- The argument that `%d` reads where a `Rating` is passed for it: the lower half of the first of the
two words of the structure, that is of `req_id`. -/
def formatArgument (rating : Rating) : Int := rating.req_id.toInt32.toInt

/-- `%s:uncommit_sum`. -/
def keySum (movie_id : CString 128) : Bytes := movie_id.bytes ++ ascii ":uncommit_sum"

/-- `%s:uncommit_num`. -/
def keyNum (movie_id : CString 128) : Bytes := movie_id.bytes ++ ascii ":uncommit_num"

/-- `RedisContextWrapper::GetReply`; `none` is `nullptr`. -/
def getReply (client : ℕ) : RatingProg (Option Int) := do
  let written ← ask (.bufferWrite client)
  if !written then
    return none
  ask (.readReply client)

/-- `reply->check_ok()`, which only logs a reply that is not ok. -/
def checkOk : Option Int → RatingProg Unit
  | none => .raise .nullDereference
  | some _ => return ()

/-- `RatingHandler::UploadRating`. -/
def uploadRating (val : MovieId) : RatingProg Int := do
  let rating : Rating := ⟨val.req_id, val.rating⟩
  let ret ← ask (.invoke rating)
  if ret ≠ 0 then
    return -1
  match ← ask .pop with
  | none => return -1
  | some redis_client =>
    ask (.appendCommand redis_client (.incrby (keySum val.movie_id) (formatArgument rating)))
    ask (.appendCommand redis_client (.incr (keyNum val.movie_id)))
    let incrby_reply ← getReply redis_client
    let incr_reply ← getReply redis_client
    checkOk incrby_reply
    checkOk incr_reply
    ask (.push redis_client)
    return 0

section Runs

variable {ι : Type}

/-- The calls with the server. -/
abbrev RatingConfig (ι : Type) := Config ι Op Op.Res Crash Int Server

/-- An operation that a call has performed. -/
abbrev RatingEvent (ι : Type) := Event ι Op Op.Res Server

/-- The configurations that any number of calls reach, whatever fails. -/
def Reachable [DecidableEq ι] (calls : ι → MovieId) (c : RatingConfig ι) : Prop :=
  Reach (Config.step machine) (fun _ _ => True)
    (Config.initial .initial fun i => uploadRating (calls i)) c

end Runs

end MediaService.Redis
