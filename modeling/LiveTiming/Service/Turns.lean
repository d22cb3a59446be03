import LiveTiming.Hub

namespace LiveTiming

/-- Who waits for a broadcast. -/
inductive Caller
  | driver
  | operator
  | background
deriving DecidableEq

/-- A broadcast that somebody asked for. -/
structure Call where
  caller : Caller
  message : Message

/-- A broadcast that is under way: its frame, the registered subscribers that it has
not come to the end of, the time until which the first of them waits before it takes
the frame, and the answers so far. -/
structure Pass where
  call : Call
  frame : Bytes
  left : List Entry
  heldUntil : Option Nat := none
  tally : Tally := {}

/-- The broadcasts that were asked for. One at most is under way, and the others wait
in the order in which they were asked for. -/
structure Turns where
  pass : Option Pass := none
  waiting : List Call := []

namespace Turns

/-- Whether nobody asked for a broadcast that has not ended. -/
def isIdle (t : Turns) : Bool :=
  t.pass.isNone && t.waiting.isEmpty

/-- A call has its turn. It goes to those who are registered then. -/
def start (t : Turns) (h : Hub) (call : Call) : Turns :=
  { t with pass := some { call, frame := Frame.encode call.message, left := h.roster.entries } }

/-- Asks for a broadcast, which has its turn at once if nobody else asked for one. -/
def ask (t : Turns) (h : Hub) (call : Call) : Turns :=
  if t.isIdle then t.start h call else { t with waiting := t.waiting ++ [call] }

/-- Whether a broadcast has subscribers left to come to. Until then nobody can be
registered and no registration can end. -/
def isDelivering (t : Turns) : Bool :=
  t.pass.any (!·.left.isEmpty)

/-- The time at which the subscriber that is waited for takes its frame. -/
def heldUntil? (t : Turns) : Option Nat :=
  t.pass.bind (·.heldUntil)

/-- Registers a subscriber under a number that was given out. -/
def enter? (t : Turns) (h : Hub) (id : SubscriberId) (subscriber : Nat) : Option Hub :=
  if t.isDelivering then none else some (h.enter id subscriber)

/-- Ends a registration, and tells whether there was one. -/
def remove? (t : Turns) (h : Hub) (id : SubscriberId) : Option (Bool × Hub) :=
  if t.isDelivering then none else some (h.remove id)

/-- The first call that waits has its turn. -/
def begin? (t : Turns) (h : Hub) : Option Turns :=
  match t.pass, t.waiting with
  | none, call :: later => some (start { t with waiting := later } h call)
  | _, _ => none

/-- The broadcast comes to its next subscriber, who may wait, or the subscriber has
waited long enough and takes the frame. -/
def visit? (t : Turns) (h : Hub) : Option (Turns × Hub) :=
  match t.pass with
  | none => none
  | some p =>
    match p.left with
    | [] => none
    | e :: later =>
      let take : Turns × Hub :=
        let (answer, h) := h.take e.subscriber p.frame
        ({ t with pass := some { p with
            left := later, heldUntil := none, tally := p.tally.count e.id answer } }, h)
      match p.heldUntil with
      | some time => if time ≤ h.clock then some take else none
      | none =>
        let hold := h.hold e.subscriber
        if hold = 0 then some take
        else some ({ t with pass := some { p with heldUntil := some (h.clock + hold) } }, h)

/-- The broadcast ends: those who are gone are evicted, and the report goes to the
caller. -/
def conclude? (t : Turns) (h : Hub) : Option (Caller × Tally × Turns × Hub) :=
  match t.pass with
  | none => none
  | some p =>
    if p.left.isEmpty then
      some (p.call.caller, p.tally, { t with pass := none },
        { h with roster := h.roster.evict p.tally.evicted })
    else none

end Turns

end LiveTiming
