namespace LiveTiming

abbrev Bytes := List UInt8

namespace Utf8

/-- The bytes of a text. -/
def encode (s : String) : Bytes :=
  s.toList.flatMap String.utf8EncodeChar

/-- Where a reader stands: between characters, or inside one. Inside, `owed + 1`
bytes are still to come, `value` is read so far, and the next byte must lie between
`least` and `most`. -/
inductive Stand
  | between
  | inside (owed value : Nat) (least most : UInt8)
deriving DecidableEq

/-- What the first byte of a character announces; `none` if no character begins
with it. A character may be complete already. -/
def lead (b : UInt8) : Option (Char ⊕ Stand) :=
  let low (n : Nat) := b.toNat % n
  if b < 0x80 then some (.inl (Char.ofNat b.toNat))
  else if b < 0xC2 then none
  else if b < 0xE0 then some (.inr (.inside 0 (low 0x20) 0x80 0xBF))
  else if b = 0xE0 then some (.inr (.inside 1 0 0xA0 0xBF))
  else if b = 0xED then some (.inr (.inside 1 (low 0x10) 0x80 0x9F))
  else if b < 0xF0 then some (.inr (.inside 1 (low 0x10) 0x80 0xBF))
  else if b = 0xF0 then some (.inr (.inside 2 0 0x90 0xBF))
  else if b < 0xF4 then some (.inr (.inside 2 (low 0x08) 0x80 0xBF))
  else if b = 0xF4 then some (.inr (.inside 2 (low 0x08) 0x80 0x8F))
  else none

/-- Reads a byte that stands between characters. A piece is a character, or `none`
for a part that belongs to none. -/
def readLead (b : UInt8) : List (Option Char) × Stand :=
  match lead b with
  | some (.inl c) => ([some c], .between)
  | some (.inr stand) => ([], stand)
  | none => ([none], .between)

/-- Reads one byte. A byte that does not continue a character ends a broken part
and is read anew. -/
def readByte (stand : Stand) (b : UInt8) : List (Option Char) × Stand :=
  match stand with
  | .between => readLead b
  | .inside owed value least most =>
    if least ≤ b ∧ b ≤ most then
      let value := value * 64 + b.toNat % 64
      match owed with
      | 0 => ([some (Char.ofNat value)], .between)
      | owed + 1 => ([], .inside owed value 0x80 0xBF)
    else
      let (pieces, stand) := readLead b
      (none :: pieces, stand)

/-- The pieces of the rest of some bytes. A character that ends too early is a
broken part. -/
def piecesFrom : Stand → Bytes → List (Option Char)
  | .between, [] => []
  | .inside .., [] => [none]
  | stand, b :: rest =>
    let (pieces, stand) := readByte stand b
    pieces ++ piecesFrom stand rest

/-- The characters of some bytes, with `none` for each longest part that begins a
character and does not complete it, and for each byte that begins none. -/
def pieces (bytes : Bytes) : List (Option Char) :=
  piecesFrom .between bytes

/-- The text whose bytes these are, if they are those of a text. -/
def decode? (bytes : Bytes) : Option String :=
  ((pieces bytes).mapM id).map String.ofList

/-- The text of the bytes, with a replacement character for each broken part. -/
def decodeLossy (bytes : Bytes) : String :=
  String.ofList ((pieces bytes).map (·.getD '\uFFFD'))

end Utf8

end LiveTiming
