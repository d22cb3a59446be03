import LiveTiming.Command
import LiveTiming.Network.Address
import LiveTiming.Roster
import LiveTiming.Text.Binary
import LiveTiming.Timeline

namespace LiveTiming

/-- Why the feed cannot do what it is asked to. -/
inductive Failure
  | invalidRace (reason : String)
  | bind (address : SocketAddress) (source : String)
  | transport (source : String)
  | command (error : LineError)
deriving DecidableEq

namespace Failure

/-- The reason in one word. -/
def label : Failure → String
  | .invalidRace _ => "feed_invalid_race"
  | .bind .. => "feed_bind_failed"
  | .transport _ => "feed_io"
  | .command e => e.label

/-- The reason as the operator is told. -/
def message : Failure → String
  | .invalidRace reason => s!"race rejected: {reason}"
  | .bind address source => s!"bind {address}: {source}"
  | .transport source => s!"io: {source}"
  | .command e => e.message

/-- The reason as a sentence. -/
def sentence : Failure → String
  | .invalidRace reason => s!"invalid race: {reason}"
  | .bind address source => s!"failed to bind {address}: {source}"
  | .transport source => s!"i/o error: {source}"
  | .command e => e.message

end Failure

/-- A race whose events are scheduled, with the time until the last of them. -/
structure BookedRace where
  component : String
  events : List EventId
  duration : Duration
deriving DecidableEq

/-- What became of a command. -/
inductive Outcome
  | broadcast (kind : String) (tally : Tally)
  | scheduled (race : BookedRace)
  | aborted (component : String) (cancelled : Nat)
  | status (subscribers pending races : Nat)
  | help
  | quit
deriving DecidableEq

/-- The outcome as the operator is told. -/
def Outcome.text : Outcome → String
  | .broadcast kind tally =>
    s!"sent {kind} to {tally.delivered} subscriber(s)" ++
      (if 0 < tally.dropped then s!", {tally.dropped} dropped" else "") ++
      (if tally.evicted.isEmpty then "" else s!", {tally.evicted.length} evicted")
  | .scheduled race =>
    s!"race {race.component} scheduled: {race.events.length} events over " ++
      Text.secondsText race.duration.seconds race.duration.nanos ++ "s"
  | .aborted component cancelled => s!"race {component}: {cancelled} pending event(s) cancelled"
  | .status subscribers pending races =>
    s!"subscribers: {subscribers}, pending events: {pending}, active races: {races}"
  | .help => Command.listing
  | .quit => "shutting down"

end LiveTiming
