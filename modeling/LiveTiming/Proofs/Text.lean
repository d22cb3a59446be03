import LiveTiming.Race.Request
import LiveTiming.Text.Numeral
import LiveTiming.Text.Utf8

namespace LiveTiming

namespace Text

section Split

variable {α : Type} {separates : α → Bool} {front rest : List α} {separator : α}

theorem splitAt_ne_nil (separates : α → Bool) (l : List α) : splitAt separates l ≠ [] := by
  cases l with
  | nil => simp [splitAt]
  | cons a rest =>
    unfold splitAt
    split
    · simp
    · split <;> simp

/-- Text is split at the first separator, and behind it. -/
theorem splitAt_append (free : ∀ a ∈ front, separates a = false) (ends : separates separator = true) :
    splitAt separates (front ++ separator :: rest) = front :: splitAt separates rest := by
  induction front with
  | nil =>
    rw [List.nil_append, splitAt]
    cases later : splitAt separates rest with
    | nil => exact absurd later (splitAt_ne_nil separates rest)
    | cons stretch later => simp [ends]
  | cons a front ih =>
    have others := ih fun b member => free b (List.mem_cons_of_mem _ member)
    have first := free a (List.mem_cons_self ..)
    rw [List.cons_append, splitAt, others]
    simp [first]

theorem splitAt_free (free : ∀ a ∈ front, separates a = false) : splitAt separates front = [front] := by
  induction front with
  | nil => rfl
  | cons a front ih =>
    have others := ih fun b member => free b (List.mem_cons_of_mem _ member)
    have first := free a (List.mem_cons_self ..)
    rw [splitAt, others]
    simp [first]

/-- No stretch holds a separator. -/
theorem mem_splitAt {stretch : List α} (l : List α) (member : stretch ∈ splitAt separates l) :
    ∀ a ∈ stretch, separates a = false := by
  induction l generalizing stretch with
  | nil =>
    have empty : stretch = [] := by simpa [splitAt] using member
    simp [empty]
  | cons b rest ih =>
    cases later : splitAt separates rest with
    | nil => exact absurd later (splitAt_ne_nil separates rest)
    | cons first others =>
      rw [later] at ih
      rw [splitAt, later] at member
      by_cases ends : separates b = true
      · simp only [ends, if_true] at member
        rcases List.mem_cons.mp member with rfl | old
        · simp
        · exact ih old
      · simp only [ends] at member
        rcases List.mem_cons.mp member with rfl | old
        · have free := ih (List.mem_cons_self ..)
          simpa [ends] using free
        · exact ih (List.mem_cons_of_mem _ old)

/-- There is one stretch more than there are separators. -/
theorem length_splitAt (separates : α → Bool) (l : List α) :
    (splitAt separates l).length = l.countP separates + 1 := by
  induction l with
  | nil => rfl
  | cons a rest ih =>
    cases later : splitAt separates rest with
    | nil => exact absurd later (splitAt_ne_nil separates rest)
    | cons stretch later' =>
      rw [later] at ih
      rw [splitAt, later]
      have more : (stretch :: later').length = rest.countP separates + 1 := ih
      rw [List.length_cons] at more
      by_cases ends : separates a = true <;> simp [ends] <;> omega

end Split

/-- A word of a line is not empty and holds no blank. -/
theorem mem_words {s word : List Char} (member : word ∈ words s) :
    word ≠ [] ∧ ∀ c ∈ word, isBlank c = false := by
  obtain ⟨stretch, some⟩ := List.mem_filter.mp member
  exact ⟨by simpa using some, mem_splitAt s stretch⟩

theorem record_cons_cons (part next : String) (parts : List String) :
    (record (part :: next :: parts)).toList = part.toList ++ '|' :: (record (next :: parts)).toList := by
  simp [record]

/-- The fields of a record line are the ones it was made of, if none holds a bar. -/
theorem fields_record {parts : List String} (some : parts ≠ []) (free : ∀ part ∈ parts, '|' ∉ part.toList) :
    fields (record parts) = parts := by
  have noBar {s : String} (free : '|' ∉ s.toList) : ∀ c ∈ s.toList, (c == '|') = false := by
    intro c member
    exact beq_eq_false_iff_ne.mpr fun same => free (same ▸ member)
  induction parts with
  | nil => exact absurd rfl some
  | cons part parts ih =>
    have first := noBar (free part (List.mem_cons_self ..))
    have rest : ∀ other ∈ parts, '|' ∉ other.toList := fun other member =>
      free other (List.mem_cons_of_mem _ member)
    cases parts with
    | nil => simp [fields, record, splitAt_free first]
    | cons next parts =>
      have later := ih (by simp) rest
      unfold fields at later ⊢
      rw [record_cons_cons, splitAt_append first (by decide), List.map_cons, later, String.ofList_toList]

/-- Bars separate the fields of a record, and stand inside them if the fields hold some. -/
theorem count_record {parts : List String} (some : parts ≠ []) :
    (record parts).toList.countP (· == '|') + 1 =
      parts.length + (parts.flatMap String.toList).countP (· == '|') := by
  induction parts with
  | nil => exact absurd rfl some
  | cons part parts ih =>
    rw [List.flatMap_cons, List.countP_append, List.length_cons]
    cases parts with
    | nil => simp [record, Nat.add_comm]
    | cons next parts =>
      have later := ih (by simp)
      rw [record_cons_cons, List.countP_append, List.countP_cons_of_pos (by decide)]
      omega

/-- A record line has as many fields as it was made of exactly if none of them holds a
bar. -/
theorem length_fields_iff {parts : List String} (some : parts ≠ []) :
    (fields (record parts)).length = parts.length ↔ ∀ part ∈ parts, '|' ∉ part.toList := by
  constructor
  · intro same part member bar
    have count := count_record some
    have whole : (fields (record parts)).length = (record parts).toList.countP (· == '|') + 1 := by
      rw [fields, List.length_map, length_splitAt]
    have none : (parts.flatMap String.toList).countP (· == '|') = 0 := by omega
    have inside : '|' ∈ parts.flatMap String.toList := List.mem_flatMap.mpr ⟨part, member, bar⟩
    exact absurd (List.countP_eq_zero.mp none '|' inside) (by decide)
  · intro free
    rw [fields_record some free]

/-- A character of a record is a bar, or stands in a field. -/
theorem mem_record {parts : List String} {c : Char} (member : c ∈ (record parts).toList) :
    c = '|' ∨ ∃ part ∈ parts, c ∈ part.toList := by
  induction parts with
  | nil => simp [record] at member
  | cons part parts ih =>
    cases parts with
    | nil => exact Or.inr ⟨part, List.mem_singleton_self _, by simpa [record] using member⟩
    | cons next parts =>
      rw [record_cons_cons] at member
      rcases List.mem_append.mp member with first | behind
      · exact Or.inr ⟨part, List.mem_cons_self .., first⟩
      · rcases List.mem_cons.mp behind with bar | later
        · exact Or.inl bar
        · exact (ih later).imp_right fun ⟨other, listed, inside⟩ =>
            ⟨other, List.mem_cons_of_mem _ listed, inside⟩

theorem mem_record_of_mem {parts : List String} {part : String} {c : Char} (listed : part ∈ parts)
    (inside : c ∈ part.toList) : c ∈ (record parts).toList := by
  induction parts with
  | nil => cases listed
  | cons first parts ih =>
    cases parts with
    | nil =>
      rw [List.mem_singleton.mp listed] at inside
      simpa [record] using inside
    | cons next parts =>
      rw [record_cons_cons]
      rcases List.mem_cons.mp listed with rfl | later
      · exact List.mem_append_left _ inside
      · exact List.mem_append_right _ (List.mem_cons_of_mem _ (ih later))

theorem digitValue_eq {c : Char} (digit : c.isDigit = true) : digitValue? c = some (c.toNat - 48) := by
  have bounds : '0' ≤ c ∧ c ≤ '9' := by
    simpa [Char.isDigit, Char.le_def] using digit
  exact if_pos bounds

theorem decimalFrom_eq {s : List Char} (digits : ∀ c ∈ s, c.isDigit = true) (value : Nat) :
    decimalFrom? value s = some (Nat.ofDigitChars 10 s value) := by
  induction s generalizing value with
  | nil => rfl
  | cons c s ih =>
    have first := digitValue_eq (digits c (List.mem_cons_self ..))
    have rest := ih (fun other member => digits other (List.mem_cons_of_mem _ member))
      (value * 10 + (c.toNat - 48))
    rw [decimalFrom?, first, Nat.ofDigitChars_cons, Nat.mul_comm 10 value]
    exact rest

/-- Digits are read as the number that they write in base ten. -/
theorem decimal_eq {s : List Char} (digits : ∀ c ∈ s, c.isDigit = true) (some_ : s ≠ []) :
    decimal? s = some (Nat.ofDigitChars 10 s 0) := by
  cases s with
  | nil => exact absurd rfl some_
  | cons c s => exact decimalFrom_eq digits 0

theorem isDigit_toString (n : Nat) : ∀ c ∈ (toString n).toList, c.isDigit = true := by
  intro c member
  rw [Nat.toString_eq_repr, Nat.toList_repr] at member
  exact Nat.isDigit_of_mem_toDigits (by decide) (by decide) member

/-- A number that is written reads back. -/
theorem decimal_toString (n : Nat) : decimal? (toString n).toList = some n := by
  have digits := isDigit_toString n
  rw [Nat.toString_eq_repr, Nat.toList_repr] at digits ⊢
  rw [decimal_eq digits Nat.toDigits_ne_nil, Nat.ofDigitChars_ten_toDigits]

/-- Whether a character can stand in a field. -/
def isPlain (c : Char) : Bool :=
  !(c == '|' || isBlank c || isControl c)

theorem isPlain_of_isDigit {c : Char} (digit : c.isDigit = true) : isPlain c = true := by
  have bounds : 48 ≤ c.toNat ∧ c.toNat ≤ 57 := by
    simp only [Char.isDigit, Bool.and_eq_true, decide_eq_true_eq, UInt32.le_iff_toNat_le, ge_iff_le] at digit
    exact digit
  have bar : c ≠ '|' := by
    rintro rfl
    exact absurd bounds (by decide)
  simp only [isPlain, isBlank, isControl, Bool.not_eq_true', Bool.or_eq_false_iff, beq_eq_false_iff_ne,
    Bool.and_eq_false_iff, decide_eq_false_iff_not]
  exact ⟨⟨bar, by omega⟩, by omega⟩

/-- Whether a text can be part of a field. -/
def Plain (s : String) : Prop :=
  ∀ c ∈ s.toList, isPlain c = true

instance (s : String) : Decidable (Plain s) :=
  decidable_of_iff (s.toList.all isPlain = true) List.all_eq_true

theorem Plain.append {a b : String} (left : Plain a) (right : Plain b) : Plain (a ++ b) := by
  intro c member
  rw [String.toList_append] at member
  exact (List.mem_append.mp member).elim (left c) (right c)

theorem plain_toString (n : Nat) : Plain (toString n) :=
  fun c member => isPlain_of_isDigit (isDigit_toString n c member)

theorem isPlain_iff {c : Char} : isPlain c = true ↔ c ≠ '|' ∧ isBlank c = false ∧ isControl c = false := by
  simp [isPlain, and_assoc]

end Text

/-- A name fits a field if it is plain and not empty. -/
theorem fitsField_iff {name : String} :
    fitsField name = true ↔ name.toList ≠ [] ∧ Text.Plain name := by
  have split : fitsField name = (!name.toList.isEmpty && name.toList.all Text.isPlain) := rfl
  rw [split]
  simp [Text.Plain]

namespace Utf8

/-- A character that is no single byte has no byte below 0x80. -/
theorem high_of_mem_utf8EncodeChar {c : Char} {b : UInt8} (wide : 0x7f < c.toNat)
    (member : b ∈ String.utf8EncodeChar c) : 0x80 ≤ b.toNat := by
  have code : ¬ c.val.toNat ≤ 0x7f := Nat.not_le_of_lt wide
  unfold String.utf8EncodeChar at member
  dsimp only at member
  rw [if_neg code] at member
  split at member
  · simp only [List.mem_cons, List.not_mem_nil, or_false] at member
    rcases member with rfl | rfl <;> rw [UInt8.toNat_ofNat'] <;> omega
  · split at member
    · simp only [List.mem_cons, List.not_mem_nil, or_false] at member
      rcases member with rfl | rfl | rfl <;> rw [UInt8.toNat_ofNat'] <;> omega
    · simp only [List.mem_cons, List.not_mem_nil, or_false] at member
      rcases member with rfl | rfl | rfl | rfl <;> rw [UInt8.toNat_ofNat'] <;> omega

theorem utf8EncodeChar_ascii {c : Char} (narrow : c.toNat ≤ 0x7f) :
    String.utf8EncodeChar c = [UInt8.ofNat c.toNat] :=
  if_pos narrow

/-- A byte below 0x80 stands for a character of its own. -/
theorem mem_encode_ascii {s : String} {b : UInt8} (ascii : b.toNat < 0x80) :
    b ∈ encode s ↔ Char.ofNat b.toNat ∈ s.toList := by
  have valid : b.toNat.isValidChar := Or.inl (by omega)
  have code : (Char.ofNat b.toNat).toNat = b.toNat := by
    have made : Char.ofNat b.toNat = Char.ofNatAux b.toNat valid := dif_pos valid
    rw [made]
    rfl
  constructor
  · intro member
    obtain ⟨c, listed, inside⟩ := List.mem_flatMap.mp member
    have narrow : c.toNat ≤ 0x7f := by
      refine Nat.le_of_not_lt fun wide => ?_
      have high := high_of_mem_utf8EncodeChar wide inside
      omega
    rw [utf8EncodeChar_ascii narrow] at inside
    have same : b.toNat = c.toNat := by
      rw [List.mem_singleton.mp inside, UInt8.toNat_ofNat']
      omega
    rw [same, Char.ofNat_toNat]
    exact listed
  · intro listed
    refine List.mem_flatMap.mpr ⟨_, listed, ?_⟩
    have narrow : (Char.ofNat b.toNat).toNat ≤ 0x7f := by omega
    rw [utf8EncodeChar_ascii narrow, code, UInt8.ofNat_toNat]
    exact List.mem_singleton_self _

end Utf8

end LiveTiming
