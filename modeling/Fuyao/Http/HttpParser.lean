import Fuyao.Cpp.Strings

/-!
# `HttpParser`

`extract_payload` runs the vendored parser over a response. The parser reports the body in fragments,
one call of `on_body` for each of them, and the callback stores where the fragment lies and how long it
is. The members it stores them in are not initialised.
-/

namespace Http

open Cpp

/-- What `http_parser_execute` does with a response: the fragments it calls `on_body` with, in their
order, and the number of bytes it says it has parsed. -/
structure Execution where
  fragments : List Bytes
  nparsed : Int32

/-- The members of a parser that a run changes. -/
structure HttpParser where
  len_ : Int32
  /-- The bytes that `payload_` and `payload_length_` designate; `none` if there is no such memory. -/
  payload : Option Bytes

namespace HttpParser

/-- `OnHttpParser`, the callback. -/
def onHttpParser (p : HttpParser) (data : Bytes) : HttpParser := { p with payload := some data }

/-- `extract_payload`: the bytes of the buffer that is returned, or `none` for a null pointer. -/
def extractPayload (p : HttpParser) (e : Execution) : Except Exn (Option Bytes) :=
  let p := e.fragments.foldl onHttpParser p
  if e.nparsed ≠ p.len_ then .ok none
  else
    match p.payload with
    -- `memcpy` from memory that there is not
    | none => .error .overflow
    | some payload => .ok (some (payload ++ [0]))

end HttpParser

end Http
