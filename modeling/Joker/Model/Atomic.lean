/-
The timer coordinator under concurrency: receiver threads, ticker
threads and the overhearing hook share one coordinator, and a step is
one atomic action of one of them.

- `on_candidate`: the critical section of `OnCandidateReceivedDataPacket`
  (schedule and retain, both under `pending_mutex_`).
- `overheard`: the critical section of `HandleOverheardForward`.
- `pop`: a ticker thread pops the earliest expired timer. Its
  `cancelled` flag is the one the entry carried out of the wheel; a
  cancel after the pop no longer reaches it.
- `enter`: a popped callback runs its critical section.
- `transmit`: a callback past its critical section parses, decrements
  and transmits what it took.

Any number of callbacks may sit between their steps, in `popped` and
`taken`, and go on in any order; a sequential `Tick` is the run in
which each pop is followed at once by its own `enter` and `transmit`.

`calls` is bookkeeping: the packet id and the pending entry of each
`OnCandidateReceivedDataPacket` call so far. The entry's timer id is
unique to the call, so an entry names the frame instance handed over by
it.
-/
import Joker.Model.Forwarding

namespace Joker

variable {H : WheelHeap ForwardCallback}

/-- A coordinator with its callbacks in flight. -/
structure AtomicState (H : WheelHeap ForwardCallback) where
  node : TimerNode H
  popped : List ForwardCallback := []
  taken : List (PacketId × Option PendingForward) := []
  calls : List (PacketId × PendingForward) := []

/-- An atomic action. -/
inductive AtomicStep where
  | on_candidate (now : TimePoint) (header : JokerHeader) (frame : Bytes)
      (local_mac : MacAddress) (config : Config)
  | overheard (packet_id : PacketId)
  | pop (now : TimePoint)
  | enter (k : Nat)
  | transmit (k : Nat)

/-- What an action does. One that has nothing to act on does nothing. -/
def AtomicState.step (s : AtomicState H) : AtomicStep → AtomicState H
  | .on_candidate now header frame local_mac config =>
      { s with
        node := Coordinator.OnCandidateReceivedDataPacket header frame 0
          local_mac config now s.node
        calls := s.calls ++ [(header.packet_id,
          ⟨s.node.coordinator.wheel.next_id, frame⟩)] }
  | .overheard packet_id =>
      { s with
        node := { s.node with
          coordinator :=
            s.node.coordinator.HandleOverheardForward packet_id } }
  | .pop now =>
      match s.node.coordinator.wheel.popExpired now with
      | none => s
      | some (entry, w) =>
          { s with
            node := { s.node with
              coordinator := { s.node.coordinator with wheel := w } }
            popped :=
              if entry.cancelled then s.popped
              else s.popped ++ [entry.callback] }
  | .enter k =>
      match s.popped[k]? with
      | none => s
      | some cb =>
          let (it, c) := s.node.coordinator.take_pending cb.packet_id
          { s with
            node := { s.node with coordinator := c }
            popped := s.popped.eraseIdx k
            taken := s.taken ++ [(cb.packet_id, it)] }
  | .transmit k =>
      match s.taken[k]? with
      | none => s
      | some (packet_id, it) =>
          { s with
            node := send_frame packet_id it s.node
            taken := s.taken.eraseIdx k }

/-- A coordinator at start-up, in a node with the given cache. -/
def AtomicState.start (H : WheelHeap ForwardCallback) (capacity : Nat)
    (ttl : TimePoint) : AtomicState H :=
  { node := TimerNode.start H capacity ttl }

/-- The coordinator after a sequence of atomic actions. -/
def AtomicState.run (H : WheelHeap ForwardCallback) (capacity : Nat)
    (ttl : TimePoint) (as : List AtomicStep) : AtomicState H :=
  Transition.exec AtomicState.step (AtomicState.start H capacity ttl) as

end Joker
