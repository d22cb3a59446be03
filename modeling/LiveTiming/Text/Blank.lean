import LiveTiming.Text.Fields

namespace LiveTiming.Text

/-- The characters that Unicode calls white space. -/
def isBlank (c : Char) : Bool :=
  let n := c.toNat
  (9 ≤ n && n ≤ 13) || n == 0x20 || n == 0x85 || n == 0xA0 || n == 0x1680 ||
    (0x2000 ≤ n && n ≤ 0x200A) || n == 0x2028 || n == 0x2029 || n == 0x202F ||
    n == 0x205F || n == 0x3000

/-- The control characters of Unicode. -/
def isControl (c : Char) : Bool :=
  let n := c.toNat
  n < 0x20 || (0x7F ≤ n && n < 0xA0)

/-- The words of a line: its longest stretches without a blank. -/
def words (s : List Char) : List (List Char) :=
  (splitAt isBlank s).filter (!·.isEmpty)

/-- The line without the blanks at its end. -/
def trimRight : List Char → List Char
  | [] => []
  | c :: rest =>
    match trimRight rest with
    | [] => if isBlank c then [] else [c]
    | kept => c :: kept

/-- The line without the blanks at its two ends. -/
def trim (s : List Char) : List Char :=
  trimRight (s.dropWhile isBlank)

end LiveTiming.Text
