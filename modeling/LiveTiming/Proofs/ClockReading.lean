import LiveTiming.ClockTime
import LiveTiming.Proofs.Text

namespace LiveTiming.ClockTime

/-- Reads seconds and hundredths, as hundredths. -/
def readSeconds? (s : List Char) : Option Nat :=
  match Text.splitAt (· == '.') s with
  | [seconds, hundredths] => do
    let seconds ← Text.decimal? seconds
    let hundredths ← Text.decimal? hundredths
    pure (seconds * 100 + hundredths)
  | _ => none

/-- Reads seconds and hundredths with or without minutes before them, as hundredths. -/
def readCentis? (s : List Char) : Option Nat :=
  match Text.splitAt (· == ':') s with
  | [seconds] => readSeconds? seconds
  | [minutes, seconds] => do
    let minutes ← Text.decimal? minutes
    let rest ← readSeconds? seconds
    pure (minutes * 6000 + rest)
  | _ => none

/-- The time with so many hundredths, unless the clock ends before it. -/
def ofCentis? (n : Nat) : Option ClockTime :=
  if fits : n ≤ maxWord then some ⟨n, fits⟩ else none

/-- Reads the form of an elapsed time. -/
def ofClockText? (s : String) : Option ClockTime :=
  (readCentis? s.toList).bind ofCentis?

/-- Reads the form of a gap. -/
def ofGapText? (s : String) : Option ClockTime :=
  match s.toList with
  | '+' :: rest => (readCentis? rest).bind ofCentis?
  | _ => none

theorem isDigit_twoDigits (n : Nat) : ∀ c ∈ (twoDigits n).toList, c.isDigit = true := by
  have digits := Text.isDigit_toString n
  unfold twoDigits
  split
  · intro c member
    rw [String.toList_append] at member
    rcases List.mem_append.mp member with zero | rest
    · have same : c = '0' := by simpa using zero
      rw [same]
      rfl
    · exact digits c rest
  · exact digits

/-- Two digits read back as the number that they were written for. -/
theorem decimal_twoDigits (n : Nat) : Text.decimal? (twoDigits n).toList = some n := by
  have read := Text.decimal_toString n
  unfold twoDigits
  split
  · -- The leading zero does not change the value of the digits after it.
    have digits := Text.isDigit_toString n
    have some_ : (toString n).toList ≠ [] := by
      rw [Nat.toString_eq_repr, Nat.toList_repr]
      exact Nat.toDigits_ne_nil
    rw [Text.decimal_eq digits some_] at read
    rw [String.toList_append]
    have zero : ("0" : String).toList = ['0'] := rfl
    rw [zero, List.singleton_append, Text.decimal_eq _ (List.cons_ne_nil _ _), Nat.ofDigitChars_cons]
    · exact read
    · intro c member
      rcases List.mem_cons.mp member with rfl | rest
      · rfl
      · exact digits c rest
  · exact read

theorem not_mem_of_isDigit {s : List Char} (digits : ∀ c ∈ s, c.isDigit = true) {sign : Char}
    (other : sign.isDigit = false) : ∀ c ∈ s, (c == sign) = false := by
  intro c member
  refine beq_eq_false_iff_ne.mpr fun same => ?_
  rw [same] at member
  exact Bool.false_ne_true (other.symm.trans (digits sign member))

/-- Seconds and hundredths are read back. -/
theorem readSeconds_eq {seconds hundredths : String} {s h : Nat}
    (digits : ∀ c ∈ seconds.toList, c.isDigit = true)
    (read : Text.decimal? seconds.toList = some s) (rest : ∀ c ∈ hundredths.toList, c.isDigit = true)
    (readRest : Text.decimal? hundredths.toList = some h) :
    readSeconds? (seconds.toList ++ '.' :: hundredths.toList) = some (s * 100 + h) := by
  unfold readSeconds?
  rw [Text.splitAt_append (not_mem_of_isDigit digits rfl) (by decide),
    Text.splitAt_free (not_mem_of_isDigit rest rfl)]
  simp [read, readRest]

/-- A time below a minute shows no colon, which is how a reader tells the two forms apart. -/
theorem colon_free {seconds hundredths : String} (digits : ∀ c ∈ seconds.toList, c.isDigit = true)
    (rest : ∀ c ∈ hundredths.toList, c.isDigit = true) :
    ∀ c ∈ seconds.toList ++ '.' :: hundredths.toList, (c == ':') = false := by
  intro c member
  rcases List.mem_append.mp member with first | later
  · exact not_mem_of_isDigit digits rfl c first
  · rcases List.mem_cons.mp later with rfl | last
    · rfl
    · exact not_mem_of_isDigit rest rfl c last

/-- A time that is shown with its minutes reads back. -/
theorem readCentis_minutes (t : ClockTime) : readCentis? t.minutesText.toList = some t.centis := by
  have minutes := Text.isDigit_toString (t.centis / 6000)
  have seconds := isDigit_twoDigits (t.centis / 100 % 60)
  have hundredths := isDigit_twoDigits (t.centis % 100)
  have read := readSeconds_eq seconds (decimal_twoDigits _) hundredths (decimal_twoDigits _)
  have form : t.minutesText.toList = (toString (t.centis / 6000)).toList ++
      ':' :: ((twoDigits (t.centis / 100 % 60)).toList ++ '.' :: (twoDigits (t.centis % 100)).toList) := by
    simp [minutesText]
  unfold readCentis?
  rw [form, Text.splitAt_append (not_mem_of_isDigit minutes rfl) (by decide),
    Text.splitAt_free (colon_free seconds hundredths)]
  simp only [read, Text.decimal_toString, Option.bind_eq_bind, Option.bind_some, Option.pure_def, Option.some.injEq]
  omega

/-- So does one that is shown without. -/
theorem readCentis_seconds (t : ClockTime) {seconds : String} (digits : ∀ c ∈ seconds.toList, c.isDigit = true)
    (read : Text.decimal? seconds.toList = some (t.centis / 100)) :
    readCentis? (seconds.toList ++ '.' :: (twoDigits (t.centis % 100)).toList) = some t.centis := by
  have hundredths := isDigit_twoDigits (t.centis % 100)
  have rest := readSeconds_eq digits read hundredths (decimal_twoDigits _)
  unfold readCentis?
  rw [Text.splitAt_free (colon_free digits hundredths)]
  simp only [rest, Option.some.injEq]
  omega

theorem ofCentis_centis (t : ClockTime) : ofCentis? t.centis = some t :=
  dif_pos t.centis_le

/-- An elapsed time is read back from its form. -/
theorem ofClockText_clockText (t : ClockTime) : ofClockText? t.clockText = some t := by
  have read : readCentis? t.clockText.toList = some t.centis := by
    unfold clockText
    split
    · exact readCentis_minutes t
    · have seconds := readCentis_seconds t (isDigit_twoDigits _) (decimal_twoDigits _)
      simpa using seconds
  unfold ofClockText?
  rw [read]
  exact ofCentis_centis t

/-- A gap is read back from its form. -/
theorem ofGapText_gapText (t : ClockTime) : ofGapText? t.gapText = some t := by
  have read : ∃ rest, t.gapText.toList = '+' :: rest ∧ readCentis? rest = some t.centis := by
    unfold gapText
    split
    · exact ⟨_, by simp, readCentis_minutes t⟩
    · have seconds := readCentis_seconds t (Text.isDigit_toString _) (Text.decimal_toString _)
      exact ⟨_, by simp, seconds⟩
  obtain ⟨rest, form, read⟩ := read
  unfold ofGapText?
  rw [form]
  change (readCentis? rest).bind ofCentis? = some t
  rw [read]
  exact ofCentis_centis t

theorem plain_twoDigits (n : Nat) : Text.Plain (twoDigits n) :=
  fun c member => Text.isPlain_of_isDigit (isDigit_twoDigits n c member)

theorem plain_minutesText (t : ClockTime) : Text.Plain t.minutesText :=
  ((((Text.plain_toString _).append (by decide)).append (plain_twoDigits _)).append (by decide)).append
    (plain_twoDigits _)

/-- A clock may stand in a field of a record. -/
theorem plain_clockText (t : ClockTime) : Text.Plain t.clockText := by
  unfold clockText
  split
  · exact plain_minutesText t
  · exact ((plain_twoDigits _).append (by decide)).append (plain_twoDigits _)

theorem plain_gapText (t : ClockTime) : Text.Plain t.gapText := by
  have sign : Text.Plain "+" := by decide
  unfold gapText
  split
  · exact sign.append (plain_minutesText t)
  · exact ((sign.append (Text.plain_toString _)).append (by decide)).append (plain_twoDigits _)

end LiveTiming.ClockTime
