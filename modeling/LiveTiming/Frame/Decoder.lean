import LiveTiming.Frame

namespace LiveTiming

/-- Why a buffer cannot be read. -/
inductive FrameError
  | tooLong (limit : Nat)
  | transport (source : String)
deriving DecidableEq

namespace FrameError

/-- The error in one word. -/
def label : FrameError → String
  | .tooLong _ => "codec_frame_too_long"
  | .transport _ => "codec_io"

/-- The error in words. -/
def message : FrameError → String
  | .tooLong limit => s!"frame exceeds {limit} bytes"
  | .transport source => s!"i/o error: {source}"

end FrameError

/-- A reader of frames. An open frame may hold `limit` bytes before its closing byte
arrives, and one byte at least. -/
structure Decoder where
  limit : Nat := 65536
  limit_pos : 1 ≤ limit := by decide
deriving DecidableEq

namespace Decoder

/-- A reader with the given limit, or with the least one. -/
def ofLimit (limit : Nat) : Decoder :=
  ⟨max limit 1, Nat.le_max_right _ _⟩

/-- The bytes before the closing byte and those after it. -/
def closeAt? (inside : Bytes) : Option (Bytes × Bytes) :=
  match inside.dropWhile (· != Frame.closing) with
  | [] => none
  | _ :: later => some (inside.takeWhile (· != Frame.closing), later)

/-- Takes the next frame out of a buffer and gives its body. Bytes before a frame are
dropped. A frame that is still open stays in the buffer, until it is too long, and
then the buffer is emptied. -/
def decode (d : Decoder) (buffer : Bytes) : Except FrameError (Option Bytes) × Bytes :=
  match buffer.dropWhile (· != Frame.opening) with
  | [] => (.ok none, [])
  | first :: inside =>
    match closeAt? inside with
    | some (body, later) => (.ok (some body), later)
    | none =>
      if d.limit < inside.length then (.error (.tooLong d.limit), [])
      else (.ok none, first :: inside)

/-- Reads what is left once no bytes follow. A frame that is still open then is an
error, and stays in the buffer. -/
def finish (d : Decoder) (buffer : Bytes) : Except FrameError (Option Bytes) × Bytes :=
  match d.decode buffer with
  | (.ok none, left) =>
    if left.isEmpty then (.ok none, left)
    else (.error (.transport "bytes remaining on stream"), left)
  | answer => answer

end Decoder

end LiveTiming
