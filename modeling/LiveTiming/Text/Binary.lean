namespace LiveTiming.Text

/-- A nonnegative rational number, kept as a quotient. -/
structure Quotient where
  num : Nat
  den : Nat

namespace Quotient

instance : Add Quotient :=
  ⟨fun a b => ⟨a.num * b.den + b.num * a.den, a.den * b.den⟩⟩

/-- The quotient times a power of two. -/
def shift (q : Quotient) : Int → Quotient
  | .ofNat n => ⟨q.num <<< n, q.den⟩
  | .negSucc n => ⟨q.num, q.den <<< (n + 1)⟩

/-- The nearest whole number; a tie goes to the even neighbour. -/
def round (q : Quotient) : Nat :=
  let whole := q.num / q.den
  let rest := q.num % q.den
  if 2 * rest < q.den then whole
  else if q.den < 2 * rest then whole + 1
  else whole + whole % 2

/-- The nearest number with a mantissa of 53 binary digits; a tie goes to the even
mantissa. -/
def toBinary64 (q : Quotient) : Quotient :=
  if q.num = 0 then q
  else
    let guess : Int := 53 - ((q.num.log2 : Int) - q.den.log2)
    let scaled := q.shift guess
    let exponent := if scaled.num / scaled.den < 1 <<< 53 then guess else guess - 1
    Quotient.shift ⟨(q.shift exponent).round, 1⟩ (-exponent)

/-- The number with two decimal places; a tie goes to the even neighbour. -/
def twoPlaces (q : Quotient) : String :=
  let hundredths := Quotient.round ⟨q.num * 100, q.den⟩
  let rest := hundredths % 100
  toString (hundredths / 100) ++ "." ++ (if rest < 10 then "0" else "") ++ toString rest

end Quotient

/-- A whole number and a billionth part as seconds with two places. The two are
rounded to 53 binary digits, and so is their sum, before the places are cut. -/
def secondsText (seconds nanos : Nat) : String :=
  let whole := Quotient.toBinary64 ⟨seconds, 1⟩
  let part := Quotient.toBinary64 ⟨nanos, 1000000000⟩
  (whole + part).toBinary64.twoPlaces

end LiveTiming.Text
