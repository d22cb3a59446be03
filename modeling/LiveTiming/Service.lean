import LiveTiming.Feed
import LiveTiming.Service.Connection
import LiveTiming.Service.Driver

namespace LiveTiming

/-- A feed at work: the broadcasts that were asked for, the driver of its timeline if it
has one, the answer to the operator's last broadcast, and the connections. -/
structure Service where
  feed : Feed
  turns : Turns := {}
  driver : Option Driver := none
  answer : Option Tally := none
  connections : Array Connection := #[]

/-- The smallest things that happen by themselves. -/
inductive Action
  | begin
  | visit
  | conclude
  | look
  | plan
  | rest
  | stop
  | rouse
  | ring
  | connection (index : Nat) (move : ConnectionMove)
deriving DecidableEq

namespace Service

/-- The hub of the feed. -/
def hub (s : Service) : Hub :=
  s.feed.hub

/-- The same service with another hub. -/
def withHub (s : Service) (hub : Hub) : Service :=
  { s with feed := { s.feed with hub } }

/-- The tally of a broadcast goes to its caller. -/
def reportTo (s : Service) (caller : Caller) (tally : Tally) : Service :=
  match caller with
  | .driver => { s with driver := s.driver.map .resume }
  | .operator => { s with answer := some tally }
  | .background => s

/-- The service after an action, if that can happen. -/
def step? (s : Service) : Action → Option Service
  | .begin => (s.turns.begin? s.hub).map fun turns => { s with turns }
  | .visit => (s.turns.visit? s.hub).map fun (turns, hub) => { s.withHub hub with turns }
  | .conclude => (s.turns.conclude? s.hub).map fun (caller, tally, turns, hub) =>
      { s.withHub hub with turns }.reportTo caller tally
  | .look => do
    let (driver, hub, turns) ← (← s.driver).look? s.hub s.turns
    pure { s.withHub hub with driver := some driver, turns }
  | .plan => do
    let (driver, hub) ← (← s.driver).plan? s.hub
    pure { s.withHub hub with driver := some driver }
  | .rest => do
    let driver ← (← s.driver).rest?
    pure { s with driver := some driver }
  | .stop => do
    let driver ← (← s.driver).stop? s.feed.stopping
    pure { s with driver := some driver }
  | .rouse => do
    let (driver, hub) ← (← s.driver).rouse? s.hub
    pure { s.withHub hub with driver := some driver }
  | .ring => do
    let driver ← (← s.driver).ring? s.hub
    pure { s with driver := some driver }
  | .connection index move => do
    let c ← s.connections[index]?
    let (c, hub) ← c.move? s.hub s.turns s.feed.stopping move
    pure { s.withHub hub with connections := s.connections.setIfInBounds index c }

/-- The actions in the order in which a service that has a choice prefers them. A
broadcast goes on as far as it can; the driver and the connections go on next, and a
driver that sleeps wakes. The next broadcast has its turn when all that has happened. -/
def preferred (s : Service) : List Action :=
  [.visit, .conclude, .look, .plan, .rest] ++
    (List.range s.connections.size).flatMap (fun i => Connection.preferred.map (.connection i)) ++
    [.stop, .rouse, .ring, .begin]

/-- The service after the first action that can happen, if any can. -/
def next? (s : Service) : Option Service :=
  s.preferred.findSome? s.step?

/-- The next time at which something can happen that cannot happen now. -/
def nextTime? (s : Service) : Option Nat :=
  match s.turns.heldUntil?, s.driver.bind (·.deadline?) with
  | some a, some b => some (min a b)
  | some a, none => some a
  | none, b => b

/-- The clock moves on. -/
def moveClock (s : Service) (time : Nat) : Service :=
  s.withHub (s.hub.moveClock time)

/-- Whether nothing can happen unless the operator does it. -/
def isAlone (s : Service) : Bool :=
  s.turns.isIdle && s.connections.isEmpty && (s.driver.isNone || s.driver == some .stopped)

/-- Lets everything happen that can happen now. There is no answer if `fuel` actions
are not enough. -/
def settle (s : Service) : Nat → Option Service
  | 0 => none
  | fuel + 1 =>
    match s.next? with
    | none => some s
    | some s => settle s fuel

/-- Lets things happen until `done`, and the clock moves on when nothing else can. -/
def runUntil (done : Service → Bool) (s : Service) : Nat → Option Service
  | 0 => none
  | fuel + 1 =>
    if done s then some s
    else
      match s.next? with
      | some s => runUntil done s fuel
      | none => s.nextTime?.bind fun time => runUntil done (s.moveClock time) fuel

/-- Lets everything happen until a time, at its own time. -/
def sleepUntil (time : Nat) (s : Service) : Nat → Option Service
  | 0 => none
  | fuel + 1 =>
    match s.next? with
    | some s => sleepUntil time s fuel
    | none =>
      match s.nextTime? with
      | none => some (s.moveClock time)
      | some t =>
        if t ≤ time then sleepUntil time (s.moveClock t) fuel else some (s.moveClock time)

end Service

end LiveTiming
