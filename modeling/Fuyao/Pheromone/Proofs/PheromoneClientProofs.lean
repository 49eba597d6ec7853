import Fuyao.Cpp.Proofs.StringsProofs
import Fuyao.Pheromone.PheromoneClient

/-!
# Proofs: when two clients share an address

An address determines its port (`bindAddress_inj`, `receives_iff`), so everything comes down to the
ports: the two ranges of ports start 100 apart, and each is as long as there are thread ids modulo 128.
-/

namespace Pheromone

open Cpp

namespace OperationRequestThread

variable {ort ort' : OperationRequestThread} {k l : Puller}

theorem bindAddress_inj : ort.bindAddress k = ort'.bindAddress l ↔ ort.port k = ort'.port l := by
  constructor
  · intro h
    exact Int32.toInt_inj.mp (toStr_injective (List.append_cancel_left h))
  · intro h
    rw [bindAddress, bindAddress, h]

/-- The port is what stands after the last colon, whatever the rest of the address is. -/
theorem portText_append {s t : Bytes} (h : 58 ∉ t) : portText (s ++ ascii ":" ++ t) = t := by
  have hall : ∀ b ∈ t.reverse, (b != 58) = true := by
    intro b hb
    simp only [bne_iff_ne]
    rintro rfl
    exact h (List.mem_reverse.mp hb)
  have hcolon : (ascii ":").reverse = [58] := rfl
  rw [portText, List.reverse_append, List.reverse_append, List.takeWhile_append_of_pos hall, hcolon]
  simp

theorem receives_iff :
    Receives (ort'.bindAddress l) (ort.connectAddr k) ↔ ort'.port l = ort.port k := by
  rw [Receives, connectAddr, portText_append (colon_notMem_toStr _)]
  exact bindAddress_inj

end OperationRequestThread

namespace PheromoneClient

theorem boundAddress_eq (client : PheromoneClient) (k : Puller) :
    client.boundAddress k = client.ort_.bindAddress k := by
  cases k <;> rfl

theorem responseAddress_eq (client : PheromoneClient) (k : Puller) :
    client.responseAddress k = client.ort_.connectAddr k := by
  cases k <;> rfl

end PheromoneClient

section Ports

variable {a b : OperationRequestThread}

theorem port_eq_same (k : Puller) : a.port k = b.port k ↔ a.thread_id_ = b.thread_id_ := by
  simp only [OperationRequestThread.port]
  grind

/-- The bucket port of one client is the trigger port of another one if their thread ids differ by the
distance of the two ranges. -/
theorem port_bucket_eq_trigger :
    a.port .bucket = b.port .trigger ↔ a.thread_id_ = b.thread_id_ + 100 := by
  simp only [OperationRequestThread.port, Puller.reqPort]
  grind

end Ports

section Host

variable {ι : Type} {clients : ι → PheromoneClient}

/-- No two sockets of the host have one port. -/
def PortsDistinct (clients : ι → PheromoneClient) : Prop :=
  ∀ i k j l, (clients i).ort_.port k = (clients j).ort_.port l → i = j ∧ k = l

theorem addressesDistinct_iff : AddressesDistinct clients ↔ PortsDistinct clients := by
  simp only [AddressesDistinct, PortsDistinct, PheromoneClient.boundAddress_eq,
    OperationRequestThread.bindAddress_inj]

theorem responsesReturn_iff : ResponsesReturn clients ↔ PortsDistinct clients := by
  simp only [ResponsesReturn, PortsDistinct, PheromoneClient.boundAddress_eq,
    PheromoneClient.responseAddress_eq, OperationRequestThread.receives_iff]
  constructor <;> intro h i k j l heq <;> exact h i k j l heq.symm

theorem portsDistinct_iff : PortsDistinct clients ↔
    ∀ i j, i ≠ j → (clients i).ort_.thread_id_ ≠ (clients j).ort_.thread_id_ ∧
      (clients i).ort_.thread_id_ ≠ (clients j).ort_.thread_id_ + 100 := by
  constructor
  · intro h i j hij
    constructor
    · intro heq
      exact hij (h i .bucket j .bucket ((port_eq_same .bucket).mpr heq)).1
    · intro heq
      exact hij (h i .bucket j .trigger (port_bucket_eq_trigger.mpr heq)).1
  · intro h i k j l heq
    by_cases hij : i = j
    · subst hij
      refine ⟨rfl, ?_⟩
      -- the two ports of one client are 100 apart
      cases k <;> cases l <;> first | rfl | simp [OperationRequestThread.port, Puller.reqPort] at heq
    · exfalso
      obtain ⟨hsame, hdist⟩ := h i j hij
      cases k <;> cases l
      · exact hsame ((port_eq_same .bucket).mp heq)
      · exact hdist (port_bucket_eq_trigger.mp heq)
      · exact (h j i (Ne.symm hij)).2 (port_bucket_eq_trigger.mp heq.symm)
      · exact hsame ((port_eq_same .trigger).mp heq)

/-- Any number of worker processes on one host, whatever their thread ids: their sockets are bound to
different addresses, and every response returns to the socket it is meant for, if and only if no two of
the thread ids agree modulo 128 and no two of them differ by 100 after the reduction. -/
theorem start_clients_separate_iff (manager_ip : Bytes) (thread_id : ι → Int32) :
    (AddressesDistinct (fun i => startClient manager_ip (thread_id i)) ∧
      ResponsesReturn (fun i => startClient manager_ip (thread_id i))) ↔
    ∀ i j, i ≠ j → thread_id i % threadNum ≠ thread_id j % threadNum ∧
      thread_id i % threadNum ≠ thread_id j % threadNum + 100 := by
  rw [addressesDistinct_iff, responsesReturn_iff, and_self, portsDistinct_iff]
  rfl

/-- Two clients of one machine, with the thread ids 100 and 128. -/
def sampleClients : Bool → PheromoneClient
  | false => startClient (ascii "192.168.1.129") 100
  | true => startClient (ascii "192.168.1.129") 128

/-- The processes with the thread ids 100 and 128: the bucket socket of the first and the trigger socket
of the second are both bound to port 12170, and a response to a bucket operation of the first may be
received as one to a trigger operation of the second. -/
theorem start_clients_share_address :
    (sampleClients false).boundAddress .bucket = ascii "tcp://*:12170" ∧
      (sampleClients true).boundAddress .trigger = ascii "tcp://*:12170" ∧
      ¬ AddressesDistinct sampleClients ∧ ¬ ResponsesReturn sampleClients := by
  refine ⟨by decide, by decide, ?_, ?_⟩
  · intro h
    exact absurd (h false .bucket true .trigger (by decide)).1 (by decide)
  · intro h
    exact absurd (h false .bucket true .trigger (by decide)).1 (by decide)

end Host

end Pheromone
