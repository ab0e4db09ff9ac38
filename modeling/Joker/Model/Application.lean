/-
The application on two phones: Kotlin above the native node.

A call of `sendChatMessage` hands a Kotlin string down through the JNI;
what the receive callback of a phone dispatches comes up through it, as
the argument of `onPacketReceived`, before the callback returns. In
between is the chat of Model/Jni.lean.

`Platform` is what Android supplies: the conversions of strings, Base64,
and the place of received files. Of the conversions no more is known than
that a string's bytes end at the first zero, and are read back as the
string. C keeps of a byte string what stands before its first zero
(`c_str`), on the way down and on the way up.
-/
import Joker.Model.Jni
import Joker.Model.MainActivity

namespace Joker

open Transition

/-- The string functions of the JNI. -/
structure JniStrings where
  GetStringUTFChars : KString → Bytes
  NewStringUTF : Bytes → KString
  zero_notMem : ∀ s, 0 ∉ GetStringUTFChars s
  getStringUTFChars_nil : GetStringUTFChars [] = []
  newStringUTF_getStringUTFChars : ∀ s, NewStringUTF (GetStringUTFChars s) = s

/-- What the phones run on. -/
structure Platform where
  jni : JniStrings
  base64 : Base64Codec
  appContext : NodeName → Option Context

/-- `dispatch_packet_to_ui`, and what it calls. -/
def dispatch_packet_to_ui (pf : Platform) (name : NodeName) (s : Receiver)
    (payload : Bytes) : Receiver :=
  onPacketReceived pf.base64 (pf.appContext name) s
    (pf.jni.NewStringUTF (c_str payload))

/-- What happens to the application. -/
inductive AppEvent where
  | sendChatMessage (name : NodeName) (now : TimePoint) (message : KString)
  /-- The `k`-th frame on its way to a phone arrives. -/
  | deliver (name : NodeName) (k : Nat) (now : TimePoint)
  /-- The ticker thread of a phone ticks its wheel. -/
  | tick (name : NodeName) (now : TimePoint)

/-- What the native code is told. -/
def AppEvent.native (jni : JniStrings) : AppEvent → ChatEvent
  | .sendChatMessage name now message =>
      .send name now (c_str (jni.GetStringUTFChars message))
  | .deliver name k now => .deliver name k now
  | .tick name now => .tick name now

/-- The message a phone is given to send. -/
def AppEvent.message (name : NodeName) : AppEvent → Option KString
  | .sendChatMessage n _ message => if n = name then some message else none
  | _ => none

variable {H : WheelHeap ForwardCallback}

/-- The native nodes of the two phones, and what the Kotlin side of each
received. -/
structure Application (H : WheelHeap ForwardCallback) where
  chat : Chat H
  receivers : NodeName → Receiver := fun _ => {}

namespace Application

/-- One event; what it dispatches on a phone is received there. -/
def step (pf : Platform) (app : Application H) (ev : AppEvent) :
    Application H :=
  let chat := app.chat.step (ev.native pf.jni)
  { chat := chat
    receivers := fun name =>
      ((chat.phones name).g_node.ui.drop
        (app.chat.phones name).g_node.ui.length).foldl
          (dispatch_packet_to_ui pf name) (app.receivers name) }

/-- Two phones just started. -/
def start (H : WheelHeap ForwardCallback) : Application H :=
  { chat := Chat.start H }

/-- The phones after a run. -/
def run (H : WheelHeap ForwardCallback) (pf : Platform)
    (es : List AppEvent) : Application H := exec (step pf) (start H) es

/-- The messages a phone was given to send, in order. -/
def messages (name : NodeName) (es : List AppEvent) : List KString :=
  es.filterMap (AppEvent.message name)

end Application

end Joker
