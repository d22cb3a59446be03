import LiveTiming.Service.Turns

namespace LiveTiming

/-- How far a connection has come: it hands frames to its peer, it is about to end its
registration, or it is over. -/
inductive ConnectionPhase
  | serving
  | leaving
  | ended
deriving DecidableEq

/-- A connection to a subscriber at the other end of a network: the index of its queue,
its registration, what the peer has sent and not been read, whether the peer is gone
or cannot be read, and the bytes that were written to it. -/
structure Connection where
  mailbox : Nat
  id : SubscriberId
  phase : ConnectionPhase := .serving
  unread : Nat := 0
  peerGone : Bool := false
  readFails : Bool := false
  written : Bytes := []

/-- What a connection can do next. It stops when the feed does, hands the next frame of
its queue to the peer, fails to after some bytes, finds its queue empty and its
registration ended, reads and ignores what the peer has sent, finds the peer gone or
unreadable, and ends its registration. -/
inductive ConnectionMove
  | stop
  | relay
  | relayFails (taken : Nat)
  | evicted
  | ignore
  | hangUp
  | readFails
  | leave
deriving DecidableEq

namespace Connection

/-- Whether the queue of the connection is still registered. -/
def isRegistered (c : Connection) (h : Hub) : Bool :=
  h.roster.entries.any (·.subscriber == c.mailbox)

/-- What a connection does, if it can. `stopping` tells that the feed stops. -/
def move? (c : Connection) (h : Hub) (t : Turns) (stopping : Bool) (m : ConnectionMove) :
    Option (Connection × Hub) :=
  match c.phase with
  | .ended => none
  | .leaving =>
    match m with
    | .leave =>
      (t.remove? h c.id).map fun (_, h) =>
        ({ c with phase := .ended }, h.closeMailbox c.mailbox)
    | _ => none
  | .serving =>
    let left := { c with phase := .leaving }
    match m with
    | .stop => if stopping then some (left, h) else none
    | .relay =>
      match h.receive c.mailbox 1 with
      | (frame :: _, h) => some ({ c with written := c.written ++ frame }, h)
      | ([], _) => none
    | .relayFails taken =>
      match h.receive c.mailbox 1 with
      | (frame :: _, h) => some ({ left with written := c.written ++ frame.take taken }, h)
      | ([], _) => none
    | .evicted =>
      let isEmpty := (h.mailbox? c.mailbox).all (·.queue.isEmpty)
      if isEmpty && !c.isRegistered h then some (left, h) else none
    | .ignore => if 0 < c.unread then some ({ c with unread := 0 }, h) else none
    | .hangUp => if c.unread = 0 ∧ c.peerGone then some (left, h) else none
    | .readFails => if c.readFails then some (left, h) else none
    | .leave => none

/-- The moves in the order in which a connection that has a choice prefers them. -/
def preferred : List ConnectionMove :=
  [.stop, .relay, .evicted, .ignore, .hangUp, .readFails, .leave]

end Connection

end LiveTiming
