import LiveTiming.Text.Utf8

namespace LiveTiming.Console

/-- The longest line, in bytes. -/
def lineLimit : Nat := 8192

/-- What a console reads: a line, a line that is too long, or something that is no
text or cannot be read at all. -/
inductive Input
  | line (text : String)
  | tooLong
  | broken
deriving DecidableEq

/-- Whether this is a line. -/
def Input.isLine : Input → Bool
  | .line _ => true
  | _ => false

/-- The line that some bytes hold, without a carriage return at its end. -/
def inputOf (bytes : Bytes) : Input :=
  let bytes := if bytes.getLast? = some 0x0D then bytes.dropLast else bytes
  match Utf8.decode? bytes with
  | some text => .line text
  | none => .broken

/-- The inputs in some bytes, in turn. `fails` tells that reading fails after the last
byte. A line ends with a line feed; at the end of the bytes it also ends unless
reading fails, and unless it is empty or a lone carriage return. A line that is too
long is the last input. -/
def inputsFrom (fails : Bool) : (fuel : Nat) → Bytes → List Input
  | 0, _ => []
  | fuel + 1, bytes =>
    let first := bytes.takeWhile (· != 0x0A)
    if lineLimit < first.length then [.tooLong]
    else
      match bytes.dropWhile (· != 0x0A) with
      | _ :: later => inputOf first :: inputsFrom fails fuel later
      | [] =>
        if fails then [.broken]
        else if first = [] ∨ first = [0x0D] then []
        else [inputOf first]

/-- The inputs in some bytes, in turn. -/
def inputs (fails : Bool) (bytes : Bytes) : List Input :=
  inputsFrom fails (bytes.length + 1) bytes

end LiveTiming.Console
