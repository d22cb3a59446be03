import LiveTiming.Message
import LiveTiming.Proofs.ClockReading
import LiveTiming.Proofs.FrameStream

namespace LiveTiming

open LiveTiming.Frame

namespace Message

/-- The parts that the line of a message is made of. -/
def parts : Message → List String
  | .status component stage => ["STT0", component, component, toString stage]
  | .split r =>
    ["LOG0", r.component, r.component, r.participant, "y", toString r.split, r.elapsed.clockText,
      toString r.rank, r.deltaText]
  | .raw text => [text]

/-- The number of fields in the line of a status change and of a split record. -/
def width : Message → Nat
  | .status .. => 4
  | .split _ => 9
  | .raw _ => 1

/-- The names that a message holds. -/
def names : Message → List String
  | .status component _ => [component]
  | .split r => [r.component, r.participant]
  | .raw _ => []

/-- Status changes and split records, whose names are fields. The leader of a split has no
gap, and everybody else has one. -/
inductive IsRecord : Message → Prop
  | status {component stage} : fitsField component = true → IsRecord (.status component stage)
  | split {component participant split elapsed rank delta} :
      fitsField component = true → fitsField participant = true →
        IsRecord (.split (.ranked component participant split elapsed rank delta))

/-- Reads the gap of a record, which may be missing. -/
def readDelta? (s : String) : Option (Option ClockTime) :=
  if s = "" then some none else (ClockTime.ofGapText? s).map some

/-- Reads a message from the fields of its line. A component stands there twice. -/
def ofFields? : List String → Option Message
  | [tag, component, again, stage] =>
    if tag = "STT0" ∧ again = component then do
      let code ← (Text.decimal? stage.toList).filter (· < UInt8.size)
      pure (.status component ⟨UInt8.ofNat code⟩)
    else none
  | [tag, component, again, participant, flag, number, elapsed, rank, delta] =>
    if tag = "LOG0" ∧ again = component ∧ flag = "y" then do
      let number ← Text.decimal? number.toList
      let elapsed ← ClockTime.ofClockText? elapsed
      let rank ← Text.decimal? rank.toList
      let delta ← readDelta? delta
      pure (.split ⟨component, participant, number, elapsed, rank, delta⟩)
    else none
  | _ => none

/-- Reads a message from its line. -/
def ofLine? (line : String) : Option Message :=
  ofFields? (Text.fields line)

variable {m : Message}

theorem render_eq (m : Message) : m.render = Text.record m.parts := by
  cases m with
  | status | split => rfl
  | raw text => exact String.intercalate_singleton.symm

theorem parts_ne_nil (m : Message) : m.parts ≠ [] := by
  cases m <;> simp [parts]

theorem length_parts (m : Message) : m.parts.length = m.width := by
  cases m <;> rfl

theorem plain_deltaText (r : SplitRecord) : Text.Plain r.deltaText := by
  unfold SplitRecord.deltaText
  split
  · split
    · exact ClockTime.plain_gapText _
    · decide
  · decide

/-- All that a message writes beside its names is plain. -/
theorem plain_or_name (tagged : ∀ text, m ≠ .raw text) :
    ∀ part ∈ m.parts, Text.Plain part ∨ part ∈ m.names := by
  intro part member
  cases m with
  | status component stage =>
    simp only [parts, List.mem_cons, List.not_mem_nil, or_false] at member
    rcases member with rfl | rfl | rfl | rfl
    · exact Or.inl (by decide)
    · exact Or.inr (by simp [names])
    · exact Or.inr (by simp [names])
    · exact Or.inl (Text.plain_toString _)
  | split r =>
    simp only [parts, List.mem_cons, List.not_mem_nil, or_false] at member
    rcases member with rfl | rfl | rfl | rfl | rfl | rfl | rfl | rfl | rfl
    · exact Or.inl (by decide)
    · exact Or.inr (by simp [names])
    · exact Or.inr (by simp [names])
    · exact Or.inr (by simp [names])
    · exact Or.inl (by decide)
    · exact Or.inl (Text.plain_toString _)
    · exact Or.inl (ClockTime.plain_clockText _)
    · exact Or.inl (Text.plain_toString _)
    · exact Or.inl (plain_deltaText r)
  | raw text => exact absurd rfl (tagged text)

/-- The names in a record are among its fields. -/
theorem names_parts : ∀ name ∈ m.names, name ∈ m.parts := by
  cases m <;> simp [names, parts]

/-- The line of a record has the number of fields that belongs to its kind exactly if no
name in it holds a bar. -/
theorem length_fields_eq_iff (tagged : ∀ text, m ≠ .raw text) :
    (Text.fields m.render).length = m.width ↔ ∀ name ∈ m.names, '|' ∉ name.toList := by
  rw [render_eq, ← length_parts, Text.length_fields_iff (parts_ne_nil m)]
  constructor
  · exact fun free name member => free name (names_parts name member)
  · intro free part member
    rcases plain_or_name tagged part member with plain | name
    · intro bar
      exact (Text.isPlain_iff.mp (plain '|' bar)).1 rfl
    · exact free part name

/-- The text of a record holds the character that closes frames exactly if one of its names
does. -/
theorem closing_mem_textOf_iff (tagged : ∀ text, m ≠ .raw text) :
    closing ∈ textOf m ↔ ∃ name ∈ m.names, '\x03' ∈ name.toList := by
  have byte : closing ∈ textOf m ↔ '\x03' ∈ m.render.toList := Utf8.mem_encode_ascii (by decide)
  rw [byte, render_eq]
  constructor
  · intro member
    rcases Text.mem_record member with bar | ⟨part, listed, inside⟩
    · exact absurd bar (by decide)
    · rcases plain_or_name tagged part listed with plain | name
      · exact absurd (plain _ inside) (by decide)
      · exact ⟨part, name, inside⟩
  · rintro ⟨name, member, inside⟩
    exact Text.mem_record_of_mem (names_parts name member) inside

namespace IsRecord

theorem tagged (isRecord : IsRecord m) : ∀ text, m ≠ .raw text := by
  cases isRecord <;> nofun

/-- The names in a record are fit for a field. -/
theorem names_fit (isRecord : IsRecord m) : ∀ name ∈ m.names, fitsField name = true := by
  cases isRecord with
  | status component => simpa [names] using component
  | split component participant => simpa [names, SplitRecord.ranked] using ⟨component, participant⟩

/-- No field of a record has a separator or a control character in it. -/
theorem plain_parts (isRecord : IsRecord m) : ∀ part ∈ m.parts, Text.Plain part := by
  intro part member
  rcases plain_or_name isRecord.tagged part member with plain | name
  · exact plain
  · exact (fitsField_iff.mp (isRecord.names_fit part name)).2

theorem isControl_render (isRecord : IsRecord m) : ∀ c ∈ m.render.toList, Text.isControl c = false := by
  intro c member
  rw [render_eq] at member
  rcases Text.mem_record member with rfl | ⟨part, listed, inside⟩
  · decide
  · exact (Text.isPlain_iff.mp (isRecord.plain_parts part listed c inside)).2.2

/-- A record splits into the fields it was made of. -/
theorem fields_render (isRecord : IsRecord m) : Text.fields m.render = m.parts := by
  rw [render_eq]
  refine Text.fields_record (parts_ne_nil m) fun part member bar => ?_
  exact (Text.isPlain_iff.mp (isRecord.plain_parts part member '|' bar)).1 rfl

/-- A record does not contain the byte that closes a frame. -/
theorem closing_notMem (isRecord : IsRecord m) : closing ∉ textOf m := by
  intro member
  have byte : '\x03' ∈ m.render.toList := (Utf8.mem_encode_ascii (by decide)).mp member
  exact absurd (isRecord.isControl_render _ byte) (by decide)

theorem readDelta_ranked (component participant : String) (split : Nat) (elapsed : ClockTime) (rank : Nat)
    (delta : ClockTime) :
    let r := SplitRecord.ranked component participant split elapsed rank delta
    readDelta? r.deltaText = some r.delta := by
  intro r
  by_cases behind : 1 < rank
  · have gap : r.delta = some delta := if_pos behind
    have text : r.deltaText = delta.gapText := by
      unfold SplitRecord.deltaText
      rw [gap]
      exact if_pos behind
    have read := ClockTime.ofGapText_gapText delta
    have some_ : delta.gapText ≠ "" := by
      intro empty
      rw [empty] at read
      cases read
    rw [text, gap, readDelta?, if_neg some_, read]
    rfl
  · have none_ : r.delta = none := if_neg behind
    have text : r.deltaText = "" := by
      unfold SplitRecord.deltaText
      rw [none_]
    rw [text, none_]
    rfl

/-- A record is read back from its line. -/
theorem ofLine_render (isRecord : IsRecord m) : ofLine? m.render = some m := by
  unfold ofLine?
  rw [isRecord.fields_render]
  cases isRecord with
  | @status component stage _ =>
    have code : Text.decimal? (toString stage).toList = some stage.code.toNat := Text.decimal_toString _
    have small : stage.code.toNat < UInt8.size := stage.code.toNat_lt
    have read : (Text.decimal? (toString stage).toList).filter (· < UInt8.size) = some stage.code.toNat := by
      rw [code, Option.filter_some, if_pos (decide_eq_true small)]
    simp [parts, ofFields?, read]
  | @split component participant number elapsed rank delta _ _ =>
    have gap := readDelta_ranked component participant number elapsed rank delta
    have count : Text.decimal? (toString number).toList = some number := Text.decimal_toString number
    have place : Text.decimal? (toString rank).toList = some rank := Text.decimal_toString rank
    generalize made : SplitRecord.ranked component participant number elapsed rank delta = r at gap ⊢
    have numberSame : r.split = number := by rw [← made]; rfl
    have rankSame : r.rank = rank := by rw [← made]; rfl
    rw [← numberSame] at count
    rw [← rankSame] at place
    have time := ClockTime.ofClockText_clockText r.elapsed
    simp only [parts, ofFields?, count, place, time, gap]
    rfl

end IsRecord

end Message

end LiveTiming
