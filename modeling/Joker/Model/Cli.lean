/-
The laptop node (cli/main.cpp), and the two programs that run a node.

The laptop binds to every interface and takes the last byte of its
address from the clock. Its receive callback hands every frame to the
core and prints it; what is printed is left out. Its send loop
broadcasts a line as a data packet to the group owner and does nothing
else with it: the line's id is not put into the duplicate cache.

# Hosts

`Host` is a node as either program composes it, and `HostEvent` what can
happen to it: a frame comes in, with any flag, the user enters a text, or
the ticker thread ticks the wheel.
-/
import Joker.Model.Jni

namespace Joker

variable {H : WheelHeap ForwardCallback}

-- ============================================================ the laptop

/-- `MacAddress` of six given bytes. -/
def MacAddress.of_bytes (b₀ b₁ b₂ b₃ b₄ b₅ : UInt8) : MacAddress :=
  ⟨[b₀, b₁, b₂, b₃, b₄, b₅], rfl⟩

/-- `JokerInstance` of the laptop. -/
structure CliInstance (H : WheelHeap ForwardCallback) where
  mac : MacAddress
  node : TimerNode H
  config : Config := {}

namespace CliInstance

/-- A new instance: `rand_byte` in the address, a cache of 1000 entries
and 5000 ms. -/
def create (H : WheelHeap ForwardCallback) (rand_byte : UInt8) :
    CliInstance H where
  mac := .of_bytes 0x02 0x00 0x00 0x00 0x00 rand_byte
  node := TimerNode.start H 1000 (milliseconds 5000)

/-- The receive callback. -/
def receive_callback (s : CliInstance H) (frame : Bytes) (is_cand : Bool)
    (now : TimePoint) : CliInstance H :=
  { s with
    node := process_received_frame frame s.mac is_cand s.config now s.node }

end CliInstance

/-- The process: the instance and `cli_seq`. -/
structure CliProcess (H : WheelHeap ForwardCallback) where
  node : CliInstance H
  cli_seq : UInt32 := 1

/-- The header the send loop builds. It leaves `num_candidates` as it
is, and the encoder does not read it. -/
def cli_header (input : Bytes) (seq : UInt32) : JokerHeader where
  type := .kUnicast
  ttl := 32
  num_candidates := 0
  packet_id := joker_packet_id (id_bytes input seq)
  final_destination := .of_bytes 0x02 0x00 0x00 0x00 0x00 0x01
  other_candidates := []

/-- Does the send loop send the line? An empty line is skipped, and
`exit` and `quit` end the program. -/
def sends_line (input : Bytes) : Bool :=
  input ≠ [] ∧ input ≠ [0x65, 0x78, 0x69, 0x74]
    ∧ input ≠ [0x71, 0x75, 0x69, 0x74]

/-- The send loop, once round: the line is broadcast, if it is sent. -/
def send_line (p : CliProcess H) (input : Bytes) : CliProcess H :=
  if sends_line input then
    let hdr := cli_header input p.cli_seq
    let wire := (serialize_header hdr []).2 ++ input
    let node := { p.node.node with
      nic := p.node.node.nic.TransmitBroadcast wire none }
    { node := { p.node with node := node }
      cli_seq := p.cli_seq + 1 }
  else p

-- ============================================================= the hosts

/-- A node as one of the two programs composes it. -/
inductive Host (H : WheelHeap ForwardCallback) where
  | phone (p : Phone H)
  | laptop (p : CliProcess H)

/-- What happens to a host. -/
inductive HostEvent where
  /-- The adapter hands over a frame. -/
  | receive (now : TimePoint) (frame : Bytes) (is_cand : Bool)
  /-- The user enters a text. -/
  | send (now : TimePoint) (msg : Bytes)
  /-- The ticker thread ticks the wheel. -/
  | tick (now : TimePoint)

/-- The clock reading of an event. -/
def HostEvent.now : HostEvent → TimePoint
  | .receive now _ _ => now
  | .send now _ => now
  | .tick now => now

namespace Host

/-- A phone just started. -/
def start_phone (H : WheelHeap ForwardCallback) (name : NodeName) : Host H :=
  .phone { g_node := JokerInstance.create H name }

/-- A laptop just started. -/
def start_laptop (H : WheelHeap ForwardCallback) (rand_byte : UInt8) :
    Host H :=
  .laptop { node := CliInstance.create H rand_byte }

def node : Host H → TimerNode H
  | .phone p => p.g_node.node
  | .laptop p => p.node.node

def mac : Host H → MacAddress
  | .phone p => p.g_node.mac
  | .laptop p => p.node.mac

def config : Host H → Config
  | .phone p => p.g_node.config
  | .laptop p => p.node.config

/-- One event. -/
def step : Host H → HostEvent → Host H
  | .phone p, .receive now frame is_cand =>
      .phone { p with g_node := p.g_node.receive_callback frame is_cand now }
  | .phone p, .send now msg => .phone (send_from_node p msg now).2
  | .phone p, .tick now =>
      .phone { p with g_node :=
        { p.g_node with node := TimerNode.Tick now p.g_node.node } }
  | .laptop p, .receive now frame is_cand =>
      .laptop { p with node := p.node.receive_callback frame is_cand now }
  | .laptop p, .send _ msg => .laptop (send_line p msg)
  | .laptop p, .tick now =>
      .laptop { p with node :=
        { p.node with node := TimerNode.Tick now p.node.node } }

/-- The id of the packet the host originates for a text. -/
def originates : Host H → Bytes → Option PacketId
  | .phone p, msg =>
      some (send_header p.g_node.name msg p.g_seq_counter).packet_id
  | .laptop p, msg =>
      if sends_line msg then some (cli_header msg p.cli_seq).packet_id
      else none

/-- Is the host a phone? -/
def isPhone : Host H → Bool
  | .phone _ => true
  | .laptop _ => false

end Host

-- ==================================================== what the cache sees

/-- A use of the duplicate cache. -/
inductive CacheUse where
  | inserted (packet_id : PacketId) (now : TimePoint)
  /-- The pipeline looked an id up, and found it or did not. -/
  | looked_up (packet_id : PacketId) (now : TimePoint) (duplicate : Bool)

/-- The id the pipeline looks up for a frame: that of a data packet for
this node, or with TTL left. -/
def consulted (frame : Bytes) (local_mac : MacAddress) (config : Config) :
    Option PacketId :=
  match (deserialize_header frame 0).1 with
  | none => none
  | some header =>
      if validate_header header config.candidate_count = true
          ∧ header.type = .kUnicast
          ∧ (header.final_destination = local_mac ∨ header.ttl ≠ 0) then
        some header.packet_id
      else none

/-- How an event uses the cache: a frame is looked up and, if it is new,
recorded; a phone records what it sends. -/
def Host.uses (h : Host H) : HostEvent → List CacheUse
  | .receive now frame _ =>
      match consulted frame h.mac h.config with
      | none => []
      | some p =>
          let duplicate := h.node.dedup.Contains p
          .looked_up p now duplicate
            :: if duplicate then [] else [.inserted p now]
  | .send now msg =>
      if h.isPhone then
        (h.originates msg).toList.map fun p => .inserted p now
      else []
  | .tick _ => []

end Joker
