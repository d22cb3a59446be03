import LiveTiming.Proofs.Utf8Reading
import Mathlib.Data.List.Basic

namespace LiveTiming.Utf8

/-- Whether some character begins with these bytes. -/
def Begins (part : Bytes) : Prop :=
  ∃ c : Char, part <+: String.utf8EncodeChar c

/-- Whether a part of some bytes is broken: no character stands where it begins, and it is the longest part there
that a character begins with, or one byte that no character begins with. -/
structure Broken (part later : Bytes) : Prop where
  inhabited : part ≠ []
  nobody : ∀ c : Char, ¬ String.utf8EncodeChar c <+: part ++ later
  longest : (Begins part ∧ ∀ more, more ≠ [] → more <+: later → ¬ Begins (part ++ more)) ∨
    (¬ Begins part ∧ part.length = 1)

/-- What bytes consist of from first to last: characters, and `none` for each part that is broken. -/
inductive Parts : Bytes → List (Option Char) → Prop
  | nil : Parts [] []
  | char (c : Char) {later parts} : Parts later parts → Parts (String.utf8EncodeChar c ++ later) (some c :: parts)
  | broken {part later parts} : Broken part later → Parts later parts → Parts (part ++ later) (none :: parts)

/-- What a byte announces at the front of a character: the character itself, that one, two or three bytes are
still to come, or nothing. -/
inductive Announces (b : UInt8) : Option (Char ⊕ Stand) → Prop
  | one : b.toNat < 0x80 → Announces b (some (.inl (Char.ofNat b.toNat)))
  | two : 0xC2 ≤ b.toNat → b.toNat < 0xE0 → Announces b (some (.inr (.inside 0 (b.toNat % 0x20) 0x80 0xBF)))
  | three {least most : UInt8} : 0xE0 ≤ b.toNat → b.toNat < 0xF0 →
      least.toNat = (if b.toNat = 0xE0 then 0xA0 else 0x80) → most.toNat = (if b.toNat = 0xED then 0x9F else 0xBF) →
        Announces b (some (.inr (.inside 1 (b.toNat % 0x10) least most)))
  | four {least most : UInt8} : 0xF0 ≤ b.toNat → b.toNat ≤ 0xF4 →
      least.toNat = (if b.toNat = 0xF0 then 0x90 else 0x80) → most.toNat = (if b.toNat = 0xF4 then 0x8F else 0xBF) →
        Announces b (some (.inr (.inside 2 (b.toNat % 0x08) least most)))
  | nothing : Announces b none

/-- Where a reader stands who has read a part of a character: what can still come is what completes it. -/
structure Partway (part : Bytes) (owed value : Nat) (least most : UInt8) : Prop where
  inhabited : part ≠ []
  completes_iff : ∀ {later c}, String.utf8EncodeChar c = part ++ later ↔ Completes owed value least most later c
  unfinished : ∀ c, ¬ String.utf8EncodeChar c <+: part
  order : least ≤ most

variable {b least most : UInt8} {n owed value : Nat} {part bytes later : Bytes} {c : Char}
variable {parts others : List (Option Char)}

theorem lead_none (outside : 0x80 ≤ b.toNat ∧ b.toNat < 0xC2 ∨ 0xF4 < b.toNat) : lead b = none := by
  unfold lead
  simp only [UInt8.lt_iff_toNat_lt, ← UInt8.toNat_inj, UInt8.reduceToNat]
  rcases outside with ⟨low, high⟩ | high
  · rw [if_neg (by omega), if_pos high]
  · rw [if_neg (by omega), if_neg (by omega), if_neg (by omega), if_neg (by omega), if_neg (by omega),
      if_neg (by omega), if_neg (by omega), if_neg (by omega), if_neg (by omega)]

/-- The leading byte says how many bytes are owed. -/
theorem announces_lead (b : UInt8) : Announces b (lead b) := by
  by_cases outside : 0x80 ≤ b.toNat ∧ b.toNat < 0xC2 ∨ 0xF4 < b.toNat
  · rw [lead_none outside]
    exact .nothing
  by_cases one : b.toNat < 0x80
  · rw [lead_one one]
    exact .one one
  by_cases two : b.toNat < 0xE0
  · rw [lead_two (by omega) two]
    exact .two (by omega) two
  by_cases three : b.toNat < 0xF0
  · obtain ⟨least, most, leads, low, high⟩ := lead_three (by omega) three
    rw [leads]
    exact .three (by omega) three low high
  · obtain ⟨least, most, leads, low, high⟩ := lead_four (b := b) (by omega) (by omega)
    rw [leads]
    exact .four (by omega) (by omega) low high

theorem val_ofNat {v : Nat} (valid : v.isValidChar) : (Char.ofNat v).val.toNat = v := by
  have made : Char.ofNat v = Char.ofNatAux v valid := dif_pos valid
  rw [made]
  rfl

theorem ofNat_byte (same : n = b.toNat) : UInt8.ofNat n = b := by
  rw [same, UInt8.ofNat_toNat]

theorem encode_one (narrow : b.toNat < 0x80) : String.utf8EncodeChar (Char.ofNat b.toNat) = [b] := by
  unfold String.utf8EncodeChar
  dsimp only
  rw [val_ofNat (.inl (by omega)), if_pos (by omega), ofNat_byte rfl]

theorem encode_two {v : Nat} {x y : UInt8} (low : 0x80 ≤ v) (high : v < 0x800)
    (first : v / 64 + 192 = x.toNat) (second : v % 64 + 128 = y.toNat) :
    String.utf8EncodeChar (Char.ofNat v) = [x, y] := by
  unfold String.utf8EncodeChar
  dsimp only
  rw [val_ofNat (.inl (by omega)), if_neg (by omega), if_pos (by omega), ofNat_byte (b := x) (by omega),
    ofNat_byte second]

theorem encode_three {v : Nat} {x y z : UInt8} (valid : v.isValidChar) (low : 0x800 ≤ v) (high : v < 0x10000)
    (first : v / 4096 + 224 = x.toNat) (second : v / 64 % 64 + 128 = y.toNat) (third : v % 64 + 128 = z.toNat) :
    String.utf8EncodeChar (Char.ofNat v) = [x, y, z] := by
  unfold String.utf8EncodeChar
  dsimp only
  rw [val_ofNat valid, if_neg (by omega), if_neg (by omega), if_pos (by omega), ofNat_byte (b := x) (by omega),
    ofNat_byte second, ofNat_byte third]

theorem encode_four {v : Nat} {x y z w : UInt8} (low : 0x10000 ≤ v) (high : v < 0x110000)
    (first : v / 262144 + 240 = x.toNat) (second : v / 4096 % 64 + 128 = y.toNat)
    (third : v / 64 % 64 + 128 = z.toNat) (fourth : v % 64 + 128 = w.toNat) :
    String.utf8EncodeChar (Char.ofNat v) = [x, y, z, w] := by
  unfold String.utf8EncodeChar
  dsimp only
  rw [val_ofNat (.inr ⟨by omega, high⟩), if_neg (by omega), if_neg (by omega), if_neg (by omega),
    ofNat_byte (b := x) (by omega), ofNat_byte second, ofNat_byte third, ofNat_byte fourth]

/-- A byte that stands alone is the encoding of its character. -/
theorem encode_whole (leads : lead b = some (.inl c)) : String.utf8EncodeChar c = [b] := by
  have announced := announces_lead b
  rw [leads] at announced
  cases announced with
  | one narrow => exact encode_one narrow

/-- The bytes that a byte announces make a character together with it. -/
theorem encode_of_lead (leads : lead b = some (.inr (.inside owed value least most)))
    (completes : Completes owed value least most later c) : String.utf8EncodeChar c = b :: later := by
  have announced := announces_lead b
  rw [leads] at announced
  cases announced with
  | two lower upper =>
    cases completes with
    | last within =>
      simp only [UInt8.le_iff_toNat_le, UInt8.reduceToNat] at within
      exact encode_two (by omega) (by omega) (by omega) (by omega)
  | three lower upper low high =>
    cases completes with
    | more within rest =>
      cases rest with
      | last tail =>
        -- The bounds of the second byte leave out what two bytes suffice for, and the halves of pairs.
        simp only [UInt8.le_iff_toNat_le, UInt8.reduceToNat] at within tail
        split at low <;> split at high <;>
          exact encode_three (by unfold Nat.isValidChar; omega) (by omega) (by omega) (by omega) (by omega)
            (by omega)
  | four lower upper low high =>
    cases completes with
    | more within rest =>
      cases rest with
      | more middle rest =>
        cases rest with
        | last tail =>
          simp only [UInt8.le_iff_toNat_le, UInt8.reduceToNat] at within middle tail
          split at low <;> split at high <;>
            exact encode_four (by omega) (by omega) (by omega) (by omega) (by omega) (by omega)

theorem Begins.of_prefix {longer : Bytes} (begins : Begins longer) (shorter : part <+: longer) : Begins part := by
  obtain ⟨c, first⟩ := begins
  exact ⟨c, shorter.trans first⟩

/-- Where a character stands at the front, no other one does. -/
theorem encode_append_inj {c d : Char} {later rest : Bytes}
    (same : String.utf8EncodeChar c ++ later = String.utf8EncodeChar d ++ rest) : c = d ∧ later = rest := by
  have read := piecesFrom_char c later
  rw [same, piecesFrom_char] at read
  have char : c = d := (Option.some.inj (List.cons.inj read).1).symm
  subst char
  exact ⟨rfl, List.append_cancel_left same⟩

theorem Broken.not_longer {more rest : Bytes} (first : Broken part (more ++ rest))
    (second : Broken (part ++ more) rest) : more = [] := by
  by_contra longer
  have two : 2 ≤ (part ++ more).length := by
    have some := List.length_pos_of_ne_nil first.inhabited
    have others := List.length_pos_of_ne_nil longer
    rw [List.length_append]
    omega
  rcases second.longest with ⟨begins, _⟩ | ⟨_, one⟩
  · rcases first.longest with ⟨_, longest⟩ | ⟨nobody, _⟩
    · exact longest more longer (List.prefix_append _ _) begins
    · exact nobody (begins.of_prefix (List.prefix_append _ _))
  · omega

/-- Where a broken part begins, its end is settled. -/
theorem Broken.unique {later other rest : Bytes} (first : Broken part later) (second : Broken other rest)
    (same : part ++ later = other ++ rest) : part = other ∧ later = rest := by
  rcases List.append_eq_append_iff.mp same with ⟨more, rfl, rfl⟩ | ⟨more, rfl, rfl⟩
  · rw [first.not_longer second]
    simp
  · rw [second.not_longer first]
    simp

/-- Bytes fall into parts in one way only. -/
theorem Parts.unique (first : Parts bytes parts) (second : Parts bytes others) : parts = others := by
  induction first generalizing others with
  | nil =>
    generalize same : ([] : Bytes) = bytes at second
    cases second with
    | nil => rfl
    | char d => exact absurd (List.append_eq_nil_iff.mp same.symm).1 String.utf8EncodeChar_ne_nil
    | broken broken => exact absurd (List.append_eq_nil_iff.mp same.symm).1 broken.inhabited
  | @char c later parts _ ih =>
    generalize same : String.utf8EncodeChar c ++ later = bytes at second
    cases second with
    | nil => exact absurd (List.append_eq_nil_iff.mp same).1 String.utf8EncodeChar_ne_nil
    | char d rest =>
      obtain ⟨rfl, rfl⟩ := encode_append_inj same
      rw [ih rest]
    | broken broken => exact absurd ⟨_, same⟩ (broken.nobody c)
  | @broken part later parts broken _ ih =>
    generalize same : part ++ later = bytes at second
    cases second with
    | nil => exact absurd (List.append_eq_nil_iff.mp same).1 broken.inhabited
    | char d => exact absurd ⟨_, same.symm⟩ (broken.nobody d)
    | broken other rest =>
      obtain ⟨rfl, rfl⟩ := broken.unique other same
      rw [ih rest]

theorem Completes.head (completes : Completes owed value least most later c) :
    ∃ b rest, later = b :: rest ∧ least ≤ b ∧ b ≤ most := by
  cases completes with
  | last within => exact ⟨_, _, rfl, within⟩
  | more within => exact ⟨_, _, rfl, within⟩

/-- What has begun well can be completed. -/
theorem exists_completes (owed value : Nat) (order : least ≤ most) :
    ∃ later c, Completes owed value least most later c := by
  induction owed generalizing value least most with
  | zero => exact ⟨_, _, .last ⟨UInt8.le_refl _, order⟩⟩
  | succ owed ih =>
    obtain ⟨later, c, completes⟩ := ih (value * 64 + least.toNat % 64) (show (0x80 : UInt8) ≤ 0xBF by decide)
    exact ⟨_, _, .more ⟨UInt8.le_refl _, order⟩ completes⟩

namespace Partway

/-- One byte further no character is finished either, as more bytes are to come. -/
theorem concat (front : ∀ c, ¬ String.utf8EncodeChar c <+: part) (order : least ≤ most)
    (completes_iff : ∀ {later c}, String.utf8EncodeChar c = part ++ b :: later ↔
      Completes owed value least most later c) : Partway (part ++ [b]) owed value least most where
  inhabited := by simp
  completes_iff := by
    intro later c
    rw [List.append_assoc, List.singleton_append]
    exact completes_iff
  unfinished c whole := by
    rcases List.prefix_concat_iff.mp whole with same | shorter
    · obtain ⟨_, _, none, _⟩ := (completes_iff.mp same).head
      cases none
    · exact front c shorter
  order := order

theorem of_lead (leads : lead b = some (.inr (.inside owed value least most))) :
    Partway [b] owed value least most := by
  have announced := announces_lead b
  rw [leads] at announced
  have order : least ≤ most := by
    rw [UInt8.le_iff_toNat_le]
    cases announced with
    | two => decide
    | three _ _ low high => split at low <;> split at high <;> omega
    | four _ _ low high => split at low <;> split at high <;> omega
  have empty : ∀ c, ¬ String.utf8EncodeChar c <+: [] := fun c none =>
    String.utf8EncodeChar_ne_nil (List.prefix_nil.mp none)
  refine concat empty order fun {later c} => ⟨fun bytes => ?_, encode_of_lead leads⟩
  rcases lead_of_encode bytes with ⟨whole, _⟩ | ⟨_, _, _, _, same, completes⟩
  · rw [leads] at whole
    cases whole
  · rw [leads] at same
    cases same
    exact completes

/-- A byte within its bounds leaves one fewer owed. -/
theorem next (partway : Partway part (owed + 1) value least most) (within : least ≤ b ∧ b ≤ most) :
    Partway (part ++ [b]) owed (value * 64 + b.toNat % 64) 0x80 0xBF := by
  refine concat partway.unfinished (by decide) fun {later c} => partway.completes_iff.trans ?_
  refine ⟨fun completes => ?_, .more within⟩
  cases completes with
  | more _ rest => exact rest

/-- The last byte owed completes a character. -/
theorem encode_last (partway : Partway part 0 value least most) (within : least ≤ b ∧ b ≤ most) :
    String.utf8EncodeChar (Char.ofNat (value * 64 + b.toNat % 64)) = part ++ [b] :=
  partway.completes_iff.mpr (.last within)

/-- What was read of a character is broken, if the next byte does not belong to it. -/
theorem broken (partway : Partway part owed value least most)
    (ends : ∀ b ∈ later.head?, ¬ (least ≤ b ∧ b ≤ most)) : Broken part later := by
  have stops {more rest : Bytes} {c : Char} (some : more ≠ []) (first : more <+: later)
      (whole : String.utf8EncodeChar c = part ++ (more ++ rest)) : False := by
    obtain ⟨b, front, head, within⟩ := (partway.completes_iff.mp whole).head
    obtain ⟨d, more, rfl⟩ := List.exists_cons_of_ne_nil some
    obtain ⟨rfl, _⟩ := List.cons.inj head
    obtain ⟨last, rfl⟩ := first
    exact ends d rfl within
  refine ⟨partway.inhabited, fun c front => ?_, .inl ⟨?_, fun more some first => ?_⟩⟩
  · rcases List.prefix_or_prefix_of_prefix front (List.prefix_append part later) with shorter | ⟨more, whole⟩
    · exact partway.unfinished c shorter
    · by_cases none : more = []
      · exact partway.unfinished c ⟨[], by rw [List.append_nil, ← whole, none, List.append_nil]⟩
      · rw [← whole] at front
        exact stops none ((List.prefix_append_right_inj part).mp front) (by rw [← whole, List.append_nil])
  · obtain ⟨rest, c, completes⟩ := exists_completes owed value partway.order
    exact ⟨c, rest, (partway.completes_iff.mpr completes).symm⟩
  · rintro ⟨c, rest, whole⟩
    exact stops some first (by rw [← whole, List.append_assoc])

end Partway

theorem broken_of_lead (leads : lead b = none) (later : Bytes) : Broken [b] later := by
  have starts {rest : Bytes} {c : Char} (bytes : String.utf8EncodeChar c = b :: rest) : False := by
    rcases lead_of_encode bytes with ⟨other, _⟩ | ⟨_, _, _, _, other, _⟩ <;>
    · rw [leads] at other
      cases other
  refine ⟨List.cons_ne_nil _ _, fun c front => ?_, .inr ⟨?_, rfl⟩⟩
  · obtain ⟨d, rest, bytes⟩ := List.exists_cons_of_ne_nil (String.utf8EncodeChar_ne_nil (c := c))
    rw [bytes] at front
    obtain ⟨rfl, _⟩ := List.cons_prefix_cons.mp front
    exact starts bytes
  · rintro ⟨c, rest, bytes⟩
    exact starts bytes.symm

/-- A reader finds the parts of the bytes, from the start of a character as well as from inside one. -/
theorem parts_piecesFrom (bytes : Bytes) :
    Parts bytes (piecesFrom .between bytes) ∧
      ∀ {part owed value least most}, Partway part owed value least most →
        Parts (part ++ bytes) (piecesFrom (.inside owed value least most) bytes) := by
  induction bytes with
  | nil => exact ⟨.nil, fun partway => .broken (partway.broken nofun) .nil⟩
  | cons b rest ih =>
    obtain ⟨between, inside⟩ := ih
    have anew : Parts (b :: rest) (piecesFrom .between (b :: rest)) := by
      rw [piecesFrom_cons, readByte, readLead]
      rcases leads : lead b with _ | c | stand
      · exact .broken (broken_of_lead leads rest) between
      · have whole := Parts.char c between
        rwa [encode_whole leads] at whole
      · cases stand with
        | between =>
          have announced := announces_lead b
          rw [leads] at announced
          cases announced
        | inside => exact inside (.of_lead leads)
    refine ⟨anew, fun {part owed value least most} partway => ?_⟩
    rw [piecesFrom_cons, readByte]
    by_cases within : least ≤ b ∧ b ≤ most
    · rw [if_pos within, List.append_cons]
      cases owed with
      | zero =>
        have whole := Parts.char (Char.ofNat (value * 64 + b.toNat % 64)) between
        rwa [partway.encode_last within] at whole
      | succ owed => exact inside (partway.next within)
    · rw [if_neg within]
      have ends : ∀ d ∈ (b :: rest).head?, ¬ (least ≤ d ∧ d ≤ most) := by
        rintro d ⟨⟩
        exact within
      have parts := Parts.broken (partway.broken ends) anew
      rwa [piecesFrom_cons] at parts

theorem parts_iff : Parts bytes parts ↔ pieces bytes = parts := by
  have read : Parts bytes (pieces bytes) := (parts_piecesFrom bytes).1
  refine ⟨fun found => read.unique found, ?_⟩
  rintro rfl
  exact read

/-- Bytes without a broken part are the encoding of their characters. -/
theorem Parts.encode {s : List Char} (found : Parts bytes (s.map some)) :
    bytes = s.flatMap String.utf8EncodeChar := by
  generalize same : s.map some = parts at found
  induction found generalizing s with
  | nil =>
    rw [List.map_eq_nil_iff.mp same]
    rfl
  | char c _ ih =>
    obtain ⟨d, rest, rfl, char, others⟩ := List.map_eq_cons_iff.mp same
    cases char
    rw [ih others, List.flatMap_cons]
  | broken =>
    obtain ⟨_, _, _, none, _⟩ := List.map_eq_cons_iff.mp same
    cases none

theorem mapM_id_eq_some_iff {s : List Char} : parts.mapM id = some s ↔ parts = s.map some := by
  induction parts generalizing s with
  | nil => cases s <;> simp
  | cons part parts ih => cases part <;> cases s <;> simp [Option.bind_eq_some_iff, ih, and_comm]

/-- Bytes are read as a text exactly if they are its bytes. -/
theorem decode?_eq_some_iff {s : String} : decode? bytes = some s ↔ bytes = encode s := by
  refine ⟨fun read => ?_, fun same => same ▸ decode_encode s⟩
  obtain ⟨chars, whole, rfl⟩ := Option.map_eq_some_iff.mp read
  rw [encode, String.toList_ofList]
  exact (parts_iff.mpr (mapM_id_eq_some_iff.mp whole)).encode

/-- A text that is read in any case shows the parts of the bytes, with a replacement character for each that is
broken. -/
theorem decodeLossy_parts (bytes : Bytes) :
    ∃ parts, (∀ others, Parts bytes others ↔ others = parts) ∧
      decodeLossy bytes = String.ofList (parts.map (·.getD '\uFFFD')) :=
  ⟨pieces bytes, fun _ => parts_iff.trans eq_comm, rfl⟩

/-- A string that is encoded is read back as it was. -/
theorem decodeLossy_encode (s : String) : decodeLossy (encode s) = s := by
  rw [decodeLossy, pieces_encode, List.map_map]
  exact (congrArg String.ofList (List.map_id _)).trans String.ofList_toList

end LiveTiming.Utf8
