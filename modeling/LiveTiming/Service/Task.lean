import LiveTiming.Console
import LiveTiming.Service

namespace LiveTiming

namespace Service

/-- Something that an operator does, which may have to wait for the service. -/
abbrev Task := StateT Service Option

/-- Changes the feed at once. -/
def onFeed {α : Type} (f : Feed → α × Feed) : Task α :=
  modifyGet fun s => let (a, feed) := f s.feed; (a, { s with feed })

/-- Changes the hub at once. -/
def onHub {α : Type} (f : Hub → α × Hub) : Task α :=
  onFeed fun feed => let (a, hub) := f feed.hub; (a, { feed with hub })

/-- Changes the hub as soon as the broadcasts allow it. -/
def onFreeHub {α : Type} (fuel : Nat) (f : Turns → Hub → Option (α × Hub)) : Task α := do
  let s ← StateT.lift ((← get).runUntil (fun s => (f s.turns s.hub).isSome) fuel)
  let (a, hub) ← StateT.lift (f s.turns s.hub)
  set (s.withHub hub)
  return a

/-- Asks for a broadcast without waiting for it. -/
def askFor (m : Message) : Task Unit :=
  modify fun s => { s with turns := s.turns.ask s.hub ⟨.background, m⟩ }

/-- Sends a message and waits for the tally. -/
def broadcast (fuel : Nat) (m : Message) : Task Tally := do
  if (← get).isAlone then onHub (·.broadcast m)
  else
    modify fun s => { s with answer := none, turns := s.turns.ask s.hub ⟨.operator, m⟩ }
    let s ← StateT.lift ((← get).runUntil (·.answer.isSome) fuel)
    set s
    StateT.lift s.answer

/-- Does what a command asks for. -/
def perform (fuel : Nat) (c : Command) : Task (Except Failure Outcome) := do
  match ← onFeed (·.react c) with
  | .answer result => return result
  | .send m => return .ok (.broadcast m.kind (← broadcast fuel m))

/-- Sends the events that are due, one after the other, as long as there are any, and
counts them. -/
def sendInTurns (fuel : Nat) : (count : Nat) → Task Nat
  | 0 => StateT.lift none
  | count + 1 => do
    match ← onHub (·.takeDue) with
    | none => return 0
    | some e =>
      discard (broadcast fuel e.message)
      return (← sendInTurns fuel count) + 1

/-- Sends the events that are due, and counts them. -/
def sendDue (fuel : Nat) : Task Nat := do
  let s ← get
  if s.isAlone then
    let (count, hub) ← StateT.lift (s.hub.sendDue fuel)
    set (s.withHub hub)
    return count
  else sendInTurns fuel fuel

/-- Registers a subscriber, once no broadcast is on its way. -/
def register (fuel : Nat) (subscriber : Nat) : Task SubscriberId := do
  let id ← onHub (·.reserve)
  onFreeHub fuel fun t h => (t.enter? h id subscriber).map ((), ·)
  return id

/-- Ends a registration, once no broadcast is on its way, and tells whether there was
one. -/
def remove (fuel : Nat) (id : SubscriberId) : Task Bool :=
  onFreeHub fuel (·.remove? · id)

/-- Holds a session on a console. -/
def console (fuel : Nat) (inputs : List Console.Input) (out : Console.Output) :
    Task Console.Output := do
  Console.session (perform fuel) (← get).feed.config.prompt inputs out

/-- Connects a peer with the given name, whose queue is registered, and gives the index
of the connection. -/
def connect (fuel : Nat) (name : String) : Task Nat := do
  let room := (← get).feed.config.queueRoom
  let mailbox ← onHub (·.introduce (.mailbox (.ofCapacity name room)))
  let id ← register fuel mailbox
  modifyGet fun s =>
    (s.connections.size, { s with connections := s.connections.push { mailbox, id } })

/-- Changes a connection. -/
def onConnection (index : Nat) (f : Connection → Connection) : Task Unit :=
  modify fun s => { s with connections := s.connections.modify index f }

end Service

end LiveTiming
