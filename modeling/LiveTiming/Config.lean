import LiveTiming.Frame.Decoder
import LiveTiming.Network.Address
import LiveTiming.Pacing
import LiveTiming.Race.Request

namespace LiveTiming

/-- How a feed is set up. -/
structure Config where
  listen : SocketAddress := { host := .unspecified, port := 9000 }
  timeUnit : Duration := .ofNanos 1000000000
  pacing : Pacing := {}
  bounds : RaceBounds := {}
  queueCapacity : Nat := 1024
  maxFrameLength : Nat := 65536
  echo : Bool := false
  prompt : String := ">>> "

namespace Config

/-- The room of a subscriber's queue, which is for one frame at least. -/
def queueRoom (c : Config) : Nat :=
  max c.queueCapacity 1

/-- The limit of an open frame, which is one byte at least. -/
def frameLimit (c : Config) : Nat :=
  max c.maxFrameLength 1

/-- The same setting on another port. -/
def onPort (c : Config) (port : Nat) : Config :=
  { c with listen := { c.listen with port } }

/-- The reader of the feed's frames. -/
def decoder (c : Config) : Decoder :=
  .ofLimit c.frameLimit

end Config

end LiveTiming
