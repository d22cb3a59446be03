import LiveTiming.Network
import LiveTiming.Service.Task

namespace LiveTiming

/-- A peer of a feed: its connection, and the bytes it has not read a frame from. -/
structure Peer where
  connection : Nat
  buffer : Bytes := []
  read : Nat := 0
  present : Bool := true

/-- A feed that serves peers over a network, with an operator at its console. -/
structure Site where
  network : Network
  address : SocketAddress
  service : Service
  peers : Array Peer := #[]
  consoleOpen : Bool := true

namespace Site

/-- A feed that begins to listen, with its driver at work. -/
def start (network : Network) (address : SocketAddress) (feed : Feed) (fuel : Nat) :
    Except Failure (Option Site) := do
  let network ← network.bind address
  let service : Service := { feed, driver := some .looking }
  pure ((service.settle fuel).map fun service => { network, address, service })

/-- Lets an operator's task end, and everything that follows from it. -/
def run {α : Type} (s : Site) (fuel : Nat) (task : Service.Task α) : Option (α × Site) := do
  let (a, service) ← task.run s.service
  let service ← service.settle fuel
  pure (a, { s with service })

/-- Time passes. -/
def sleep (s : Site) (fuel time : Nat) : Option Site := do
  let service ← s.service.sleepUntil (s.service.hub.clock + time) fuel
  pure { s with service }

/-- A new peer connects. -/
def connect (s : Site) (fuel : Nat) : Except String (Option Site) :=
  match s.network.connectError? with
  | some e => .error e
  | none => .ok do
    let name := (SocketAddress.mk s.address.host 0 (49152 + s.peers.size)).text
    let (connection, s) ← s.run fuel (Service.connect fuel name)
    pure { s with peers := s.peers.push { connection } }

/-- A peer hangs up. -/
def disconnect (s : Site) (fuel peer : Nat) : Option Site :=
  match s.peers[peer]? with
  | none => some s
  | some p => do
    let ((), s) ← s.run fuel (Service.onConnection p.connection ({ · with peerGone := true }))
    pure { s with peers := s.peers.setIfInBounds peer { p with present := false } }

/-- A peer sends some bytes. -/
def send (s : Site) (fuel peer count : Nat) : Option Site :=
  match s.peers[peer]? with
  | none => some s
  | some p => do
    let ((), s) ← s.run fuel
      (Service.onConnection p.connection fun c => { c with unread := c.unread + count })
    pure s

/-- The operator types one line, unless the session has ended. The answer is what is
written from then on. -/
def typeLine (s : Site) (fuel : Nat) (line : String) : Option (String × Site) := do
  if s.consoleOpen then
    let inputs := Console.inputs false (Utf8.encode (line ++ "\n"))
    let prompt := s.service.feed.config.prompt
    let (out, s) ← s.run fuel (Console.converse (Service.perform fuel) prompt inputs {})
    pure (out.text, { s with
      consoleOpen := inputs.all (·.isLine) && !s.service.feed.stopping })
  else pure ("", s)

/-- Why a second feed cannot listen on the same address, if so. -/
def bindConflict (s : Site) : Option Failure :=
  match s.network.bind s.address with
  | .error e => some e
  | .ok _ => none

/-- The frames in some bytes, and the bytes that are left. -/
def framesIn (d : Decoder) : (fuel : Nat) → Bytes → List Bytes × Bytes
  | 0, buffer => ([], buffer)
  | fuel + 1, buffer =>
    match d.decode buffer with
    | (.ok (some body), left) =>
      let (bodies, left) := framesIn d fuel left
      (body :: bodies, left)
    | (_, left) => ([], left)

/-- A peer reads the frames that have reached it. -/
def readPeer (s : Site) (p : Peer) : List Bytes × Peer :=
  match s.service.connections[p.connection]? with
  | none => ([], p)
  | some c =>
    let fresh := p.buffer ++ c.written.drop p.read
    let (bodies, buffer) := framesIn s.service.feed.config.decoder (fresh.length + 1) fresh
    (bodies, { p with buffer, read := c.written.length })

/-- Every peer that is present reads its frames. -/
def readAll (s : Site) : List (Option (List Bytes)) × Site :=
  let results := s.peers.toList.map fun p =>
    if p.present then let (bodies, p) := s.readPeer p; (some bodies, p) else (none, p)
  (results.map (·.1), { s with peers := (results.map (·.2)).toArray })

/-- The service stops, and everybody leaves. -/
def stop (s : Site) (fuel : Nat) : Option Site := do
  let ((), s) ← s.run fuel (Service.onFeed fun feed => ((), { feed with stopping := true }))
  pure s

/-- Whether the peer sees the end of its connection. -/
def isClosed (s : Site) (p : Peer) : Bool :=
  (s.service.connections[p.connection]?).any (·.phase == .ended)

end Site

end LiveTiming
