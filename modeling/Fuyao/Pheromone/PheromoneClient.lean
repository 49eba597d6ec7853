import Fuyao.Cpp.Strings

/-!
# The addresses of `PheromoneClient`

A client of the Pheromone platform binds two sockets on its host, one for the responses to bucket
operations and one for those to trigger operations, and names the matching address in every request.
The start functions construct their client with a thread id reduced modulo 128.
-/

namespace Pheromone

open Cpp

/-- The two sockets of a client, `bucket_op_puller_` and `trigger_op_puller_`. -/
inductive Puller where
  | bucket
  | trigger
  deriving DecidableEq

/-- `BUCKET_REQ_PORT` and `TRIGGER_REQ_PORT`. -/
def Puller.reqPort : Puller → Int32
  | .bucket => 12070
  | .trigger => 12170

/-- `OperationRequestThread`: the address of a client thread. -/
structure OperationRequestThread where
  ip_addr_ : Bytes
  thread_id_ : Int32

namespace OperationRequestThread

variable (ort : OperationRequestThread)

/-- The port of a puller. -/
def port (k : Puller) : Int32 := k.reqPort + ort.thread_id_

/-- The address that others send to. -/
def connectAddr (k : Puller) : Bytes :=
  ascii "tcp://" ++ ort.ip_addr_ ++ ascii ":" ++ toStr (ort.port k).toInt

/-- The address that the puller is bound to. -/
def bindAddress (k : Puller) : Bytes := ascii "tcp://*:" ++ toStr (ort.port k).toInt

/-- `bucket_req_connect_addr`. -/
def bucketReqConnectAddr : Bytes := ort.connectAddr .bucket

/-- `bucket_req_bind_address`. -/
def bucketReqBindAddress : Bytes := ort.bindAddress .bucket

/-- `trigger_req_connect_addr`. -/
def triggerReqConnectAddr : Bytes := ort.connectAddr .trigger

/-- `trigger_req_bind_address`. -/
def triggerReqBindAddress : Bytes := ort.bindAddress .trigger

end OperationRequestThread

/-- The members of `PheromoneClient` that its addresses come from. -/
structure PheromoneClient where
  manager_ip_ : Bytes
  thread_id_ : Int32
  ort_ : OperationRequestThread

namespace PheromoneClient

/-- The constructor. -/
def construct (manager_ip : Bytes) (thread_id : Int32) : PheromoneClient :=
  ⟨manager_ip, thread_id, ⟨manager_ip, thread_id⟩⟩

/-- The address the constructor binds a puller to. -/
def boundAddress (client : PheromoneClient) : Puller → Bytes
  | .bucket => client.ort_.bucketReqBindAddress
  | .trigger => client.ort_.triggerReqBindAddress

/-- The `response_address` in a request of `create_bucket` or `add_trigger`. -/
def responseAddress (client : PheromoneClient) : Puller → Bytes
  | .bucket => client.ort_.bucketReqConnectAddr
  | .trigger => client.ort_.triggerReqConnectAddr

end PheromoneClient

/-- `thread_num`. -/
def threadNum : Int32 := 128

/-- The client of a start function: `client(manager_ip, thread_id % thread_num)`. -/
def startClient (manager_ip : Bytes) (thread_id : Int32) : PheromoneClient :=
  .construct manager_ip (thread_id % threadNum)

/-- The text after the last colon of an address. -/
def portText (addr : Bytes) : Bytes := (addr.reverse.takeWhile (· != 58)).reverse

/-- A socket bound to all interfaces of the host receives what is sent to an address of the host with
its port. -/
def Receives (bound addr : Bytes) : Prop := bound = ascii "tcp://*:" ++ portText addr

instance (bound addr : Bytes) : Decidable (Receives bound addr) := inferInstanceAs (Decidable (_ = _))

section Host

variable {ι : Type}

/-- The sockets of all clients on the host are bound to different addresses. -/
def AddressesDistinct (clients : ι → PheromoneClient) : Prop :=
  ∀ i k j l, (clients i).boundAddress k = (clients j).boundAddress l → i = j ∧ k = l

/-- A response that is sent where a request asked for it is received by the puller of the client and
of the kind that the request came from, and by no other. -/
def ResponsesReturn (clients : ι → PheromoneClient) : Prop :=
  ∀ i k j l, Receives ((clients j).boundAddress l) ((clients i).responseAddress k) → i = j ∧ k = l

end Host

end Pheromone
