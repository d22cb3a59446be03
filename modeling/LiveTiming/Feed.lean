import LiveTiming.Config
import LiveTiming.Hub
import LiveTiming.Outcome
import LiveTiming.Race.Book
import LiveTiming.Race.RandomSplit
import LiveTiming.Race.Rundown

namespace LiveTiming

/-- A feed: how it is set up, its hub, the events of its races, its random words, and
whether it was told to stop. -/
structure Feed where
  config : Config
  hub : Hub
  races : RaceBook := {}
  generator : Generator
  stopping : Bool := false

/-- What a command comes to: an answer at once, or a message that has to be sent
first. -/
inductive Reaction
  | answer (result : Except Failure Outcome)
  | send (m : Message)

namespace Feed

/-- A feed with subscribers that are registered from the start. A feed that echoes
what it sends has a log as the last of them. -/
def start (config : Config) (subscribers : List Subscriber) (g : Generator) : Feed :=
  let subscribers := if config.echo then subscribers ++ [.log] else subscribers
  { config, generator := g
    hub := { subscribers := subscribers.toArray, roster := .ofCount subscribers.length } }

/-- Plans a race, if it is accepted. -/
def plan (f : Feed) (r : RaceRequest) : Except RaceRejection Rundown × Feed :=
  match r.rejection? f.config.bounds with
  | some reason => (.error reason, f)
  | none =>
    let (rundown, generator) := r.plan f.config.pacing f.generator
    (.ok rundown, { f with generator })

/-- Schedules the cues of a race, each at its offset from now, and gives the numbers of
the events. -/
def book (f : Feed) (rundown : Rundown) : List EventId × Feed :=
  let base := f.hub.clock
  let (ids, hub) := rundown.cues.foldl (fun (ids, hub) cue =>
    let delay := cue.offset.realTime f.config.timeUnit
    let (id, hub) := Hub.postAt hub (base + delay.toNanos) cue.message
    (ids.push id, hub)) ((#[] : Array EventId), f.hub)
  (ids.toList, { f with hub })

/-- Plans a race and schedules its cues. -/
def launch (f : Feed) (r : RaceRequest) : Except RaceRejection BookedRace × Feed :=
  match f.plan r with
  | (.error reason, f) => (.error reason, f)
  | (.ok rundown, f) =>
    let (events, f) := f.book rundown
    (.ok ⟨r.component, events, rundown.duration.realTime f.config.timeUnit⟩, f)

/-- Notes the events of a race, and forgets those that are no longer to come. -/
def keep (f : Feed) (race : BookedRace) : Feed :=
  { f with races := (f.races.prune f.hub.timeline).extend race.component race.events }

/-- Cancels the events of a component's races. -/
def abort (f : Feed) (component : String) : Nat × Feed :=
  let (cancelled, hub) := f.hub.cancelAll (f.races.eventsOf component)
  (cancelled, { f with hub, races := f.races.forget component })

/-- Does what a command asks for, up to the sending of a message. -/
def react (f : Feed) : Command → Reaction × Feed
  | .raw text => (.send (.raw text), f)
  | .announce component stage => (.send (.status component stage), f)
  | .randomSplit component participant split =>
    let (record, generator) := SplitRecord.random component participant split f.generator
    (.send (.split record), { f with generator })
  | .race request =>
    match f.launch request with
    | (.error reason, f) => (.answer (.error (.invalidRace reason.message)), f)
    | (.ok race, f) => (.answer (.ok (.scheduled race)), f.keep race)
  | .abort component =>
    let (cancelled, f) := f.abort component
    (.answer (.ok (.aborted component cancelled)), f)
  | .report =>
    (.answer (.ok (.status f.hub.roster.entries.length f.hub.timeline.size
      (f.races.active f.hub.timeline))), f)
  | .help => (.answer (.ok .help), f)
  | .quit => (.answer (.ok .quit), { f with stopping := true })

/-- Does what a command asks for, while nobody else uses the feed. -/
def perform (f : Feed) (c : Command) : Except Failure Outcome × Feed :=
  match f.react c with
  | (.answer result, f) => (result, f)
  | (.send m, f) =>
    let (tally, hub) := f.hub.broadcast m
    (.ok (.broadcast m.kind tally), { f with hub })

end Feed

end LiveTiming
