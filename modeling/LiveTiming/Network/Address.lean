import LiveTiming.Text.Numeral

namespace LiveTiming

/-- The address of a host: four bytes, or eight groups of 16 bits. -/
inductive HostAddress
  | v4 (a b c d : Nat)
  | v6 (groups : List Nat)
deriving DecidableEq

/-- The address of a service: a host, a zone for hosts of the longer kind, and a
port. -/
structure SocketAddress where
  host : HostAddress
  zone : Nat := 0
  port : Nat
deriving DecidableEq

namespace HostAddress

/-- Every address of this machine. -/
def unspecified : HostAddress :=
  .v4 0 0 0 0

/-- Four bytes with points between them. -/
def pointed (a b c d : Nat) : String :=
  s!"{a}.{b}.{c}.{d}"

/-- Groups with colons between them. -/
def colons (groups : List Nat) : String :=
  String.intercalate ":" (groups.map Text.hexDigits)

/-- The first and longest run of zero groups, as its start and its length. `here` is
the number of the next group. -/
def zeroRun (here : Nat) : List Nat → Nat × Nat
  | [] => (here, 0)
  | g :: rest =>
    let (start, length) := zeroRun (here + 1) rest
    let own := ((g :: rest).takeWhile (· == 0)).length
    if length ≤ own then (here, own) else (start, length)

/-- The address as text. The longest run of two zero groups or more is left out, and
an address that stands for one of four bytes ends in those. -/
def text : HostAddress → String
  | .v4 a b c d => pointed a b c d
  | .v6 groups =>
    match groups with
    | [0, 0, 0, 0, 0, 0xFFFF, x, y] =>
      "::ffff:" ++ pointed (x / 256) (x % 256) (y / 256) (y % 256)
    | _ =>
      let (start, length) := zeroRun 0 groups
      if 1 < length then
        colons (groups.take start) ++ "::" ++ colons (groups.drop (start + length))
      else colons groups

end HostAddress

namespace SocketAddress

/-- The address as text. -/
def text (a : SocketAddress) : String :=
  match a.host with
  | .v4 .. => a.host.text ++ ":" ++ toString a.port
  | .v6 _ =>
    let zone := if a.zone = 0 then "" else "%" ++ toString a.zone
    "[" ++ a.host.text ++ zone ++ "]:" ++ toString a.port

instance : ToString SocketAddress :=
  ⟨text⟩

end SocketAddress

namespace AddressText

/-- A reader takes characters from the front, or refuses. -/
abbrev Reader (α : Type) := List Char → Option (α × List Char)

/-- Reads one given character. -/
def char (c : Char) : Reader Unit
  | [] => none
  | d :: rest => if d = c then some ((), rest) else none

/-- The value of a digit in a base up to sixteen. -/
def digit? (base : Nat) (c : Char) : Option Nat :=
  let value :=
    if '0' ≤ c ∧ c ≤ '9' then c.toNat - 48
    else if 'a' ≤ c ∧ c ≤ 'f' then c.toNat - 87
    else if 'A' ≤ c ∧ c ≤ 'F' then c.toNat - 55
    else 16
  if value < base then some value else none

/-- Reads all digits that follow as a number up to `limit`, of `most` digits if that
is given. A zero in front of other digits may be refused. -/
def number (base limit : Nat) (most : Option Nat) (zeroInFront : Bool) : Reader Nat := fun s =>
  let digits := s.takeWhile fun c => (digit? base c).isSome
  let value := digits.foldl (fun n c => n * base + (digit? base c).getD 0) 0
  if digits.isEmpty then none
  else if most.any (· < digits.length) then none
  else if limit < value then none
  else if !zeroInFront && 1 < digits.length && s.head? == some '0' then none
  else some (value, s.drop digits.length)

/-- Reads four bytes with points between them. -/
def host4 : Reader HostAddress := fun s => do
  let byte := number 10 255 (some 3) false
  let (a, s) ← byte s
  let (_, s) ← char '.' s
  let (b, s) ← byte s
  let (_, s) ← char '.' s
  let (c, s) ← byte s
  let (_, s) ← char '.' s
  let (d, s) ← byte s
  pure (.v4 a b c d, s)

/-- Reads up to `room` groups with colons between them, and tells whether they end in
an address of four bytes, which takes two groups. `first` tells that no colon comes
before the next group. -/
def groups : (room : Nat) → (first : Bool) → List Char → (List Nat × Bool) × List Char
  | 0, _, s => (([], false), s)
  | room + 1, first, s =>
    let start := if first then some s else (char ':' s).map (·.2)
    match start with
    | none => (([], false), s)
    | some inside =>
      match if 1 ≤ room then host4 inside else none with
      | some (.v4 a b c d, later) => (([a * 256 + b, c * 256 + d], true), later)
      | _ =>
        match number 16 0xFFFF (some 4) true inside with
        | none => (([], false), s)
        | some (g, later) =>
          let ((rest, pointed), later) := groups room false later
          ((g :: rest, pointed), later)

/-- Reads eight groups, or fewer where a double colon stands for one zero group or
more. -/
def host6 : Reader HostAddress := fun s =>
  let ((front, pointed), s) := groups 8 true s
  if front.length = 8 then some (.v6 front, s)
  else if pointed then none
  else do
    let (_, s) ← char ':' s
    let (_, s) ← char ':' s
    let ((back, _), s) := groups (7 - front.length) true s
    pure (.v6 (front ++ List.replicate (8 - front.length - back.length) 0 ++ back), s)

/-- Reads a port. -/
def port : Reader Nat :=
  number 10 65535 none true

/-- Reads an address of the shorter kind with a port. -/
def socket4 : Reader SocketAddress := fun s => do
  let (host, s) ← host4 s
  let (_, s) ← char ':' s
  let (port, s) ← port s
  pure ({ host, port }, s)

/-- Reads an address of the longer kind in brackets, with a zone if there is one, and
a port. -/
def socket6 : Reader SocketAddress := fun s => do
  let (_, s) ← char '[' s
  let (host, s) ← host6 s
  let (zone, s) := ((char '%' s).bind fun (_, s) => number 10 (UInt32.size - 1) none true s).getD (0, s)
  let (_, s) ← char ']' s
  let (_, s) ← char ':' s
  let (port, s) ← port s
  pure ({ host, zone, port }, s)

end AddressText

/-- Reads the address of a service. -/
def SocketAddress.parse? (text : String) : Option SocketAddress :=
  let whole (r : Option (SocketAddress × List Char)) : Option SocketAddress :=
    match r with
    | some (a, []) => some a
    | _ => none
  let s := text.toList
  match AddressText.socket4 s with
  | some r => whole (some r)
  | none => whole (AddressText.socket6 s)

end LiveTiming
