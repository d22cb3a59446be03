import LiveTiming.Message
import LiveTiming.Text.Utf8

namespace LiveTiming.Frame

/-- The byte that opens a frame. -/
def opening : UInt8 := 0x02

/-- The byte that closes a frame. -/
def closing : UInt8 := 0x03

/-- A body between the two control bytes. Control bytes inside it stay as they are. -/
def wrap (body : Bytes) : Bytes :=
  opening :: body ++ [closing]

/-- The frame of a message. -/
def encode (m : Message) : Bytes :=
  wrap (Utf8.encode m.render)

/-- Writes the frame of a message to the end of a buffer. -/
def append (buffer : Bytes) (m : Message) : Bytes :=
  (buffer ++ [opening]) ++ Utf8.encode m.render ++ [closing]

/-- The bytes between the two control bytes, or all of them where one is missing. -/
def strip (frame : Bytes) : Bytes :=
  match frame with
  | [] => []
  | first :: rest =>
    if first = opening ∧ rest.getLast? = some closing then rest.dropLast else frame

/-- What a log shows of a frame. -/
def logText (frame : Bytes) : String :=
  Utf8.decodeLossy (strip frame)

end LiveTiming.Frame
