import LiveTiming.Service.Turns

namespace LiveTiming

/-- Where the driver of the timeline stands: it looks for an event that is due, it
waits for the broadcast of one, it looks for the next deadline, it is about to sleep until
that deadline, it sleeps until then or until somebody wakes it, or it has stopped. -/
inductive Driver
  | looking
  | sending
  | planning
  | planned (deadline : Option Nat)
  | asleep (deadline : Option Nat)
  | stopped
deriving DecidableEq

namespace Driver

/-- Takes an event that is due and asks for its broadcast. If none is due, the next
deadline has to be found. -/
def look? (d : Driver) (h : Hub) (t : Turns) : Option (Driver × Hub × Turns) :=
  match d with
  | looking =>
    match h.takeDue with
    | (some e, h) => some (sending, h, t.ask h ⟨.driver, e.message⟩)
    | (none, h) => some (planning, h, t)
  | _ => none

/-- Finds the next deadline. -/
def plan? (d : Driver) (h : Hub) : Option (Driver × Hub) :=
  match d with
  | planning =>
    let (deadline, timeline) := h.timeline.nextTime
    some (planned deadline, { h with timeline })
  | _ => none

/-- Goes to sleep. -/
def rest? (d : Driver) : Option Driver :=
  match d with
  | planned deadline => some (asleep deadline)
  | _ => none

/-- Stops, once the feed is told to. -/
def stop? (d : Driver) (stopping : Bool) : Option Driver :=
  match d with
  | asleep _ => if stopping then some stopped else none
  | _ => none

/-- Wakes because somebody asked for it, which uses up what they asked. -/
def rouse? (d : Driver) (h : Hub) : Option (Driver × Hub) :=
  match d with
  | asleep _ => if h.wake then some (looking, { h with wake := false }) else none
  | _ => none

/-- Wakes because the deadline has come. -/
def ring? (d : Driver) (h : Hub) : Option Driver :=
  match d with
  | asleep (some deadline) => if deadline ≤ h.clock then some looking else none
  | _ => none

/-- The broadcast that the driver waited for has ended. -/
def resume : Driver → Driver
  | sending => looking
  | d => d

/-- The deadline that the driver sleeps until. -/
def deadline? : Driver → Option Nat
  | asleep deadline => deadline
  | _ => none

end Driver

end LiveTiming
