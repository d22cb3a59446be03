import LiveTiming.Text.Utf8

namespace LiveTiming.Utf8

/-- The bytes that are owed for a character of which a part is read, the first of them between two bounds, and
the character that they make. -/
inductive Completes : (owed value : Nat) → (least most : UInt8) → Bytes → Char → Prop
  | last {value least most b} : least ≤ b ∧ b ≤ most →
      Completes 0 value least most [b] (Char.ofNat (value * 64 + b.toNat % 64))
  | more {owed value least most b later c} : least ≤ b ∧ b ≤ most →
      Completes owed (value * 64 + b.toNat % 64) 0x80 0xBF later c →
        Completes (owed + 1) value least most (b :: later) c

variable {b least most : UInt8} {n owed value : Nat} {later rest : Bytes} {c : Char}

/-- The byte of a number below 256 is that number. -/
theorem toNat_byte (small : n < 256) : (UInt8.ofNat n).toNat = n := by
  rw [UInt8.toNat_ofNat']
  exact Nat.mod_eq_of_lt small

theorem lead_one (narrow : b.toNat < 0x80) : lead b = some (.inl (Char.ofNat b.toNat)) :=
  if_pos (UInt8.lt_iff_toNat_lt.mpr narrow)

theorem lead_two (low : 0xC2 ≤ b.toNat) (high : b.toNat < 0xE0) :
    lead b = some (.inr (.inside 0 (b.toNat % 0x20) 0x80 0xBF)) := by
  unfold lead
  simp only [UInt8.lt_iff_toNat_lt, UInt8.reduceToNat]
  rw [if_neg (by omega), if_neg (by omega), if_pos high]

/-- Which second bytes the first of three allows: all but those of a number that two bytes
suffice for, or of half a pair. -/
theorem lead_three (low : 0xE0 ≤ b.toNat) (high : b.toNat < 0xF0) :
    ∃ least most : UInt8, lead b = some (.inr (.inside 1 (b.toNat % 0x10) least most)) ∧
      least.toNat = (if b.toNat = 0xE0 then 0xA0 else 0x80) ∧
      most.toNat = (if b.toNat = 0xED then 0x9F else 0xBF) := by
  unfold lead
  simp only [UInt8.lt_iff_toNat_lt, ← UInt8.toNat_inj, UInt8.reduceToNat]
  rw [if_neg (by omega), if_neg (by omega), if_neg (by omega)]
  by_cases first : b.toNat = 0xE0
  · exact ⟨0xA0, 0xBF, by simp [first], by simp [first], by simp [first]⟩
  · rw [if_neg first, if_neg first]
    by_cases last : b.toNat = 0xED
    · exact ⟨0x80, 0x9F, by simp [last], rfl, by simp [last]⟩
    · rw [if_neg last, if_pos high, if_neg last]
      exact ⟨0x80, 0xBF, rfl, rfl, rfl⟩

/-- Which second bytes the first of four allows: all but those of a number that three bytes
suffice for, or of one beyond the last character. -/
theorem lead_four (low : 0xF0 ≤ b.toNat) (high : b.toNat ≤ 0xF4) :
    ∃ least most : UInt8, lead b = some (.inr (.inside 2 (b.toNat % 0x08) least most)) ∧
      least.toNat = (if b.toNat = 0xF0 then 0x90 else 0x80) ∧
      most.toNat = (if b.toNat = 0xF4 then 0x8F else 0xBF) := by
  unfold lead
  simp only [UInt8.lt_iff_toNat_lt, ← UInt8.toNat_inj, UInt8.reduceToNat]
  rw [if_neg (by omega), if_neg (by omega), if_neg (by omega), if_neg (by omega), if_neg (by omega),
    if_neg (by omega)]
  by_cases first : b.toNat = 0xF0
  · exact ⟨0x90, 0xBF, by simp [first], by simp [first], by simp [first]⟩
  · rw [if_neg first, if_neg first]
    by_cases last : b.toNat = 0xF4
    · exact ⟨0x80, 0x8F, by simp [last], rfl, by simp [last]⟩
    · rw [if_pos (by omega), if_neg last]
      exact ⟨0x80, 0xBF, rfl, rfl, rfl⟩

theorem piecesFrom_cons (stand : Stand) (b : UInt8) (rest : Bytes) :
    piecesFrom stand (b :: rest) = (readByte stand b).1 ++ piecesFrom (readByte stand b).2 rest := by
  cases stand <;> rfl

theorem piecesFrom_lead {stand : Stand} (leads : lead b = some (.inr stand)) :
    piecesFrom .between (b :: rest) = piecesFrom stand rest := by
  rw [piecesFrom_cons, readByte, readLead, leads]
  rfl

theorem tail_within (low : least.toNat ≤ n % 64 + 128) (high : n % 64 + 128 ≤ most.toNat) :
    least ≤ UInt8.ofNat (n % 64 + 128) ∧ UInt8.ofNat (n % 64 + 128) ≤ most := by
  rw [UInt8.le_iff_toNat_le, UInt8.le_iff_toNat_le, toNat_byte (by omega)]
  exact ⟨low, high⟩

theorem tail_usual (n : Nat) : 0x80 ≤ UInt8.ofNat (n % 64 + 128) ∧ UInt8.ofNat (n % 64 + 128) ≤ 0xBF :=
  tail_within (Nat.le_add_left 128 _) (Nat.add_le_add_right (by omega : n % 64 ≤ 63) 128)

/-- A byte after the first holds six bits. -/
theorem tail_bits (n : Nat) : (UInt8.ofNat (n % 64 + 128)).toNat % 64 = n % 64 := by
  rw [toNat_byte (by omega)]
  omega

theorem Completes.pieces (completes : Completes owed value least most later c) (rest : Bytes) :
    piecesFrom (.inside owed value least most) (later ++ rest) = some c :: piecesFrom .between rest := by
  induction completes with
  | last within =>
    rw [List.singleton_append, piecesFrom_cons, readByte, if_pos within]
    rfl
  | more within _ ih =>
    rw [List.cons_append, piecesFrom_cons, readByte, if_pos within]
    exact ih

theorem Completes.tail_last {v : Nat} (code : value * 64 + n % 64 = v)
    (within : least ≤ UInt8.ofNat (n % 64 + 128) ∧ UInt8.ofNat (n % 64 + 128) ≤ most) :
    Completes 0 value least most [UInt8.ofNat (n % 64 + 128)] (Char.ofNat v) := by
  have last := @Completes.last value _ _ _ within
  rwa [tail_bits, code] at last

theorem Completes.tail_more
    (within : least ≤ UInt8.ofNat (n % 64 + 128) ∧ UInt8.ofNat (n % 64 + 128) ≤ most)
    (completes : Completes owed (value * 64 + n % 64) 0x80 0xBF later c) :
    Completes (owed + 1) value least most (UInt8.ofNat (n % 64 + 128) :: later) c := by
  refine .more within ?_
  rwa [tail_bits]

/-- The first byte of a character announces how it goes on, and the others complete it. -/
theorem lead_of_encode (bytes : String.utf8EncodeChar c = b :: later) :
    (lead b = some (.inl c) ∧ later = []) ∨
      ∃ owed value least most,
        lead b = some (.inr (.inside owed value least most)) ∧ Completes owed value least most later c := by
  have valid : c.toNat < 0xD800 ∨ 0xDFFF < c.toNat ∧ c.toNat < 0x110000 := c.valid
  have again : Char.ofNat c.toNat = c := Char.ofNat_toNat c
  have code : c.val.toNat = c.toNat := rfl
  unfold String.utf8EncodeChar at bytes
  dsimp only at bytes
  rw [code] at bytes
  rw [← again]
  generalize c.toNat = v at valid bytes
  split at bytes
  · obtain ⟨rfl, rfl⟩ := List.cons.inj bytes
    have head : (UInt8.ofNat v).toNat = v := toNat_byte (by omega)
    refine .inl ⟨?_, rfl⟩
    rw [lead_one (by omega), head]
  · refine .inr ?_
    split at bytes
    · obtain ⟨rfl, rfl⟩ := List.cons.inj bytes
      have head : (UInt8.ofNat (v / 64 % 32 + 192)).toNat = v / 64 % 32 + 192 := toNat_byte (by omega)
      exact ⟨_, _, _, _, lead_two (by omega) (by omega), .tail_last (by omega) (tail_usual v)⟩
    · split at bytes
      · obtain ⟨rfl, rfl⟩ := List.cons.inj bytes
        have head : (UInt8.ofNat (v / 4096 % 16 + 224)).toNat = v / 4096 % 16 + 224 := toNat_byte (by omega)
        obtain ⟨least, most, leads, low, high⟩ :=
          lead_three (b := UInt8.ofNat (v / 4096 % 16 + 224)) (by omega) (by omega)
        rw [head] at low high
        have second : least ≤ UInt8.ofNat (v / 64 % 64 + 128) ∧ UInt8.ofNat (v / 64 % 64 + 128) ≤ most :=
          tail_within (by split at low <;> omega) (by split at high <;> omega)
        exact ⟨_, _, _, _, leads, .tail_more second (.tail_last (by omega) (tail_usual v))⟩
      · obtain ⟨rfl, rfl⟩ := List.cons.inj bytes
        have head : (UInt8.ofNat (v / 262144 % 8 + 240)).toNat = v / 262144 % 8 + 240 := toNat_byte (by omega)
        obtain ⟨least, most, leads, low, high⟩ :=
          lead_four (b := UInt8.ofNat (v / 262144 % 8 + 240)) (by omega) (by omega)
        rw [head] at low high
        have second : least ≤ UInt8.ofNat (v / 4096 % 64 + 128) ∧
            UInt8.ofNat (v / 4096 % 64 + 128) ≤ most :=
          tail_within (by split at low <;> omega) (by split at high <;> omega)
        exact ⟨_, _, _, _, leads,
          .tail_more second (.tail_more (tail_usual _) (.tail_last (by omega) (tail_usual v)))⟩

/-- The bytes of a character are read as that character. -/
theorem piecesFrom_char (c : Char) (rest : Bytes) :
    piecesFrom .between (String.utf8EncodeChar c ++ rest) = some c :: piecesFrom .between rest := by
  obtain ⟨b, later, bytes⟩ := List.exists_cons_of_ne_nil (String.utf8EncodeChar_ne_nil (c := c))
  rw [bytes, List.cons_append]
  rcases lead_of_encode bytes with ⟨leads, rfl⟩ | ⟨owed, value, least, most, leads, completes⟩
  · rw [piecesFrom_cons, readByte, readLead, leads]
    rfl
  · rw [piecesFrom_lead leads, completes.pieces]

/-- The bytes of a text are read as its characters. -/
theorem pieces_encode (s : String) : pieces (encode s) = s.toList.map some := by
  unfold pieces encode
  induction s.toList with
  | nil => rfl
  | cons c rest ih => rw [List.flatMap_cons, piecesFrom_char, ih, List.map_cons]

/-- A text is read back from its bytes. -/
theorem decode_encode (s : String) : decode? (encode s) = some s := by
  have all (cs : List Char) : (cs.map some).mapM id = some cs := by
    induction cs with
    | nil => rfl
    | cons c cs ih => rw [List.map_cons, List.mapM_cons, ih]; rfl
  rw [decode?, pieces_encode, all, Option.map_some, String.ofList_toList]

end LiveTiming.Utf8
