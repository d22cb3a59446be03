namespace LiveTiming.Text

/-- The value of a decimal digit. -/
def digitValue? (c : Char) : Option Nat :=
  if '0' ≤ c ∧ c ≤ '9' then some (c.toNat - 48) else none

/-- Goes on reading a decimal number after digits that are worth `value`. -/
def decimalFrom? : Nat → List Char → Option Nat
  | value, [] => some value
  | value, c :: rest =>
    match digitValue? c with
    | some d => decimalFrom? (value * 10 + d) rest
    | none => none

/-- Reads one decimal digit or more, leading zeros included. -/
def decimal? : List Char → Option Nat
  | [] => none
  | s => decimalFrom? 0 s

/-- Reads a decimal number up to `limit`, with one plus sign before it or none. -/
def unsigned? (limit : Nat) (s : List Char) : Option Nat :=
  let digits := match s with
    | '+' :: rest => rest
    | _ => s
  (decimal? digits).filter (· ≤ limit)

/-- Reads a decimal number up to `limit`, which may be zero with a minus sign. -/
def signed? (limit : Nat) : List Char → Option Nat
  | '-' :: digits => (decimal? digits).filter (· == 0)
  | s => unsigned? limit s

/-- The digits of a number in base sixteen, in lower case. -/
def hexDigits (n : Nat) : String :=
  String.ofList (Nat.toDigits 16 n)

end LiveTiming.Text
