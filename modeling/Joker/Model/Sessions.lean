/-
Two phones whose nodes are started and stopped
(adapters/android_jni/joker_jni.cpp).

The process of a phone keeps `g_node` and `g_seq_counter`. Starting makes
an instance, if there is none; stopping destroys it, with its cache, its
timers and its socket, and leaves the counter. A message given to a
process without an instance is dropped. A frame that arrives there meets
no socket and is gone: `missed` keeps it on record. `shown` is all that
the instances of a phone ever dispatched, as the Kotlin side keeps it.

A phone is started in its own role each time. What its adapter transmits,
for a message or in a tick, is on its way to the other phone.
-/
import Joker.Model.Jni

namespace Joker

open Transition

variable {H : WheelHeap ForwardCallback}

/-- The statics of joker_jni.cpp. -/
structure JokerProcess (H : WheelHeap ForwardCallback) where
  g_node : Option (JokerInstance H) := none
  g_seq_counter : UInt32 := 1

namespace JokerProcess

/-- `startJokerProtocol`, in the phone's role. -/
def startJokerProtocol (p : JokerProcess H) (name : NodeName) :
    JokerProcess H :=
  match p.g_node with
  | some _ => p
  | none => { p with g_node := some (JokerInstance.create H name) }

/-- `stopJokerProtocol`. -/
def stopJokerProtocol (p : JokerProcess H) : JokerProcess H :=
  { p with g_node := none }

/-- `sendChatMessage`: the frame that is broadcast, if there is a node to
send it, and the process after. -/
def sendChatMessage (p : JokerProcess H) (msg : Bytes) (now : TimePoint) :
    Option Bytes × JokerProcess H :=
  match p.g_node with
  | none => (none, p)
  | some node =>
      let (wire, q) := send_from_node ⟨node, p.g_seq_counter⟩ msg now
      (some wire, ⟨some q.g_node, q.g_seq_counter⟩)

end JokerProcess

/-- What happens to the two processes. -/
inductive SessionEvent where
  | startJokerProtocol (name : NodeName)
  | stopJokerProtocol (name : NodeName)
  | sendChatMessage (name : NodeName) (now : TimePoint) (msg : Bytes)
  /-- The `k`-th frame on its way to a phone arrives. -/
  | deliver (name : NodeName) (k : Nat) (now : TimePoint)
  /-- The ticker thread of a phone ticks its wheel. -/
  | tick (name : NodeName) (now : TimePoint)

/-- The processes and the frames on their way to each. -/
structure Sessions (H : WheelHeap ForwardCallback) where
  processes : NodeName → JokerProcess H := fun _ => {}
  in_flight : NodeName → List Bytes := fun _ => []
  /-- The messages a phone was given while its node was running. -/
  sent : NodeName → List Bytes := fun _ => []
  shown : NodeName → List Bytes := fun _ => []
  missed : NodeName → List Bytes := fun _ => []

namespace Sessions

/-- The state with another process. -/
def setProcess (c : Sessions H) (name : NodeName) (p : JokerProcess H) :
    Sessions H :=
  { c with processes := Function.update c.processes name p }

/-- One event. -/
def step (c : Sessions H) : SessionEvent → Sessions H
  | .startJokerProtocol name =>
      c.setProcess name ((c.processes name).startJokerProtocol name)
  | .stopJokerProtocol name =>
      c.setProcess name (c.processes name).stopJokerProtocol
  | .sendChatMessage name now msg =>
      match (c.processes name).sendChatMessage msg now with
      | (none, p) => c.setProcess name p
      | (some wire, p) =>
          { c.setProcess name p with
            in_flight := Function.update c.in_flight name.peer
              (c.in_flight name.peer ++ [wire])
            sent := Function.update c.sent name (c.sent name ++ [msg]) }
  | .deliver name k now =>
      match (c.in_flight name)[k]? with
      | none => c
      | some frame =>
          let in_flight := Function.update c.in_flight name
            ((c.in_flight name).eraseIdx k)
          match (c.processes name).g_node with
          | none =>
              { c with
                in_flight := in_flight
                missed := Function.update c.missed name
                  (c.missed name ++ [frame]) }
          | some node =>
              let node' := node.receive_callback frame true now
              { c.setProcess name
                  { c.processes name with g_node := some node' } with
                in_flight := in_flight
                shown := Function.update c.shown name
                  (c.shown name ++ node'.ui.drop node.ui.length) }
  | .tick name now =>
      match (c.processes name).g_node with
      | none => c
      | some node =>
          let ticked := TimerNode.Tick now node.node
          let sent := ticked.nic.transmitted.drop
            node.node.nic.transmitted.length
          { c.setProcess name
              { c.processes name with
                g_node := some { node with node := ticked } } with
            in_flight := Function.update c.in_flight name.peer
              (c.in_flight name.peer ++ sent.map TransmittedFrame.data) }

/-- The frames that reach the running node of a phone in an event. -/
def arrived (name : NodeName) (c : Sessions H) : SessionEvent → List Bytes
  | .deliver n k _ =>
      if n = name ∧ (c.processes n).g_node.isSome then
        (c.in_flight n)[k]?.toList
      else []
  | _ => []

/-- The processes after a run, from the start of both. -/
def run (H : WheelHeap ForwardCallback) (es : List SessionEvent) :
    Sessions H := exec step {} es

end Sessions

end Joker
