import Spigeon.Spec.Worker

/-!
# The input side of a UDP connection over a run of read events

`server/worker.cpp`: `udp_read_io` with a handler that leaves `_io_buffer` alone. What the handler does
to the connection is part of the event, so that it may depend on anything.
-/

namespace Spigeon

/-- A read event: what the socket gives, and the calls the handler makes on the connection. -/
structure DgramEvent where
  env : DgramEnv
  calls : List Call

/-- `udp_read_io`: the connection it leaves, and the connection at each call of `process_io_buffer`.
The handler is called whatever the read returned. -/
def udpReadIo (c : UDPConnection) (e : DgramEvent) : Option (UDPConnection × List UDPConnection) :=
  (udpRecv e.env c).map fun c₁ => (e.calls.foldl Call.runUdp c₁, [c₁])

/-- A read event as a step of the connection. -/
def UDPConnection.step (c : UDPConnection) (e : DgramEvent) : Option UDPConnection := (udpReadIo c e).map Prod.fst

end Spigeon
