import LiveTiming.Proofs.ClockReading
import Mathlib.Data.List.Basic

namespace LiveTiming

namespace Text

/-- Whether a text is the number `n` in decimal digits with no zero before them. -/
structure Unpadded (s : List Char) (n : Nat) : Prop where
  digits : ∀ c ∈ s, c.isDigit = true
  some : s ≠ []
  value : Nat.ofDigitChars 10 s 0 = n
  leading : ∀ rest, s = '0' :: rest → rest = []

/-- Whether a text is the number `n` in two decimal digits. -/
structure TwoDigits (s : List Char) (n : Nat) : Prop where
  digits : ∀ c ∈ s, c.isDigit = true
  length : s.length = 2
  value : Nat.ofDigitChars 10 s 0 = n

variable {s : List Char} {n : Nat}

theorem digitChar_of_isDigit {c : Char} (digit : c.isDigit = true) :
    c.toNat - 48 < 10 ∧ (c.toNat - 48).digitChar = c := by
  have bounds : 48 ≤ c.toNat ∧ c.toNat ≤ 57 := by
    simp only [Char.isDigit, Bool.and_eq_true, decide_eq_true_eq, UInt32.le_iff_toNat_le, ge_iff_le] at digit
    exact digit
  have small : c.toNat - 48 < 10 := by omega
  refine ⟨small, Char.toNat_inj.mp ?_⟩
  rw [Nat.toNat_digitChar_of_lt_ten small]
  omega

/-- Digits behind a number that is not zero make the number that they are read as after it. -/
theorem toDigits_append_digits {lead : Nat} (positive : 0 < lead) (digits : ∀ c ∈ s, c.isDigit = true) :
    Nat.toDigits 10 lead ++ s = Nat.toDigits 10 (Nat.ofDigitChars 10 s lead) := by
  induction s generalizing lead with
  | nil => rw [List.append_nil, Nat.ofDigitChars_nil]
  | cons c s ih =>
    obtain ⟨first, rest⟩ := List.forall_mem_cons.mp digits
    obtain ⟨small, same⟩ := digitChar_of_isDigit first
    have longer := Nat.toDigits_append_toDigits (b := 10) (by decide) positive small
    rw [Nat.toDigits_of_lt_base small, same] at longer
    rw [List.append_cons, longer, Nat.ofDigitChars_cons]
    exact ih (by omega) rest

theorem head_toDigits (positive : 0 < n) : (Nat.toDigits 10 n).head? ≠ some '0' := by
  induction n using Nat.strongRecOn with
  | _ n ih =>
    by_cases small : n < 10
    · rw [Nat.toDigits_of_lt_base small, List.head?_cons, ne_eq, Option.some.injEq, Nat.digitChar_eq_zero]
      omega
    · rw [Nat.toDigits_of_base_le (by decide) (by omega), List.head?_append_of_ne_nil _ Nat.toDigits_ne_nil]
      exact ih (n / 10) (by omega) (by omega)

/-- A number is written without zeros before it in one way only. -/
theorem unpadded_iff : Unpadded s n ↔ s = Nat.toDigits 10 n := by
  constructor
  · rintro ⟨digits, some, rfl, leading⟩
    obtain ⟨c, rest, rfl⟩ := List.exists_cons_of_ne_nil some
    obtain ⟨first, later⟩ := List.forall_mem_cons.mp digits
    obtain ⟨small, same⟩ := digitChar_of_isDigit first
    rw [Nat.ofDigitChars_cons]
    by_cases zero : c = '0'
    · subst zero
      rw [leading rest rfl]
      rfl
    · have positive : 0 < c.toNat - 48 := by
        refine Nat.pos_of_ne_zero fun none => zero ?_
        rw [← same, none]
        rfl
      rw [Nat.mul_zero, Nat.zero_add]
      change _ = Nat.toDigits 10 (Nat.ofDigitChars 10 rest (c.toNat - 48))
      rw [← toDigits_append_digits positive later, Nat.toDigits_of_lt_base small, same, List.singleton_append]
  · rintro rfl
    refine ⟨fun c => Nat.isDigit_of_mem_toDigits (by decide) (by decide), Nat.toDigits_ne_nil,
      Nat.ofDigitChars_ten_toDigits, fun rest zero => ?_⟩
    by_cases positive : 0 < n
    · exact absurd (by rw [zero, List.head?_cons]) (head_toDigits positive)
    · have none : n = 0 := by omega
      rw [none, Nat.toDigits_zero] at zero
      exact (List.cons.inj zero).2.symm

end Text

namespace ClockTime

open Text

theorem length_twoDigits {n : Nat} (small : n < 100) : (twoDigits n).toList.length = 2 := by
  unfold twoDigits
  split
  · rename_i one
    rw [String.toList_append, List.length_append, Nat.toString_eq_repr, Nat.toList_repr,
      Nat.toDigits_of_lt_base one]
    rfl
  · rename_i two
    have upper := (Nat.length_toDigits_le_iff (b := 10) (n := n) (k := 2) (by decide) (by decide)).mpr small
    have lower := mt (Nat.length_toDigits_le_iff (b := 10) (n := n) (k := 1) (by decide) (by decide)).mp two
    rw [Nat.toString_eq_repr, Nat.toList_repr]
    omega

/-- A number is written in two digits in one way only, and only if it is below one hundred. -/
theorem twoDigits_iff {s : List Char} {n : Nat} : TwoDigits s n ↔ n < 100 ∧ s = (twoDigits n).toList := by
  constructor
  · rintro ⟨digits, length, rfl⟩
    obtain ⟨c, d, rfl⟩ := List.length_eq_two.mp length
    obtain ⟨tens, units⟩ := List.forall_mem_cons.mp digits
    obtain ⟨few, first⟩ := digitChar_of_isDigit tens
    obtain ⟨less, second⟩ := digitChar_of_isDigit (units d (List.mem_singleton_self d))
    have value : Nat.ofDigitChars 10 [c, d] 0 = 10 * (c.toNat - 48) + (d.toNat - 48) := by
      rw [Nat.ofDigitChars_cons, Nat.ofDigitChars_cons, Nat.ofDigitChars_nil, Nat.mul_zero, Nat.zero_add]
      rfl
    rw [value]
    refine ⟨by omega, ?_⟩
    unfold twoDigits
    split
    · rename_i one
      have zero : c.toNat - 48 = 0 := by omega
      rw [zero] at first ⊢
      rw [String.toList_append, Nat.mul_zero, Nat.zero_add, Nat.toString_eq_repr, Nat.toList_repr,
        Nat.toDigits_of_lt_base less, ← first, second]
      rfl
    · rename_i two
      rw [Nat.toString_eq_repr, Nat.toList_repr, ← Nat.toDigits_append_toDigits (by decide) (by omega) less,
        Nat.toDigits_of_lt_base few, Nat.toDigits_of_lt_base less, first, second]
      rfl
  · rintro ⟨small, rfl⟩
    refine ⟨isDigit_twoDigits n, length_twoDigits small, ?_⟩
    have some : (twoDigits n).toList ≠ [] := List.ne_nil_of_length_eq_add_one (length_twoDigits small)
    have read := decimal_twoDigits n
    rw [decimal_eq (isDigit_twoDigits n) some] at read
    exact Option.some.inj read

/-- How a time of so many hundredths is written: seconds and hundredths below one minute, and minutes before
them from one minute on. The seconds that no minutes stand before are written as `alone` says. -/
inductive Form (alone : List Char → Nat → Prop) : List Char → Nat → Prop
  | seconds {s h a b} : alone s a → a < 60 → TwoDigits h b → Form alone (s ++ '.' :: h) (a * 100 + b)
  | minutes {m s h c a b} : Unpadded m c → 0 < c → TwoDigits s a → a < 60 → TwoDigits h b →
      Form alone (m ++ ':' :: (s ++ '.' :: h)) (c * 6000 + a * 100 + b)

/-- The form of an elapsed time. -/
abbrev ClockForm : List Char → Nat → Prop :=
  Form TwoDigits

/-- The form of a gap. -/
def GapForm (s : List Char) (n : Nat) : Prop :=
  ∃ rest, s = '+' :: rest ∧ Form Unpadded rest n

section Forms

variable {alone : List Char → Nat → Prop} {written : Nat → String} {s : List Char} {n : Nat}

theorem toList_minutesText (t : ClockTime) :
    t.minutesText.toList = (toString (t.centis / 6000)).toList ++
      ':' :: ((twoDigits (t.centis / 100 % 60)).toList ++ '.' :: (twoDigits (t.centis % 100)).toList) := by
  simp [minutesText]

/-- A time is written in one way only, if the seconds alone are. -/
theorem form_iff (unique : ∀ {s a}, a < 60 → (alone s a ↔ s = (written a).toList)) {t : ClockTime} :
    Form alone s t.centis ↔ s = if 6000 ≤ t.centis then t.minutesText.toList
      else (written (t.centis / 100)).toList ++ '.' :: (twoDigits (t.centis % 100)).toList := by
  constructor
  · generalize shown : t.centis = n
    intro form
    cases form with
    | @seconds s h a b first below last =>
      obtain ⟨small, rfl⟩ := twoDigits_iff.mp last
      have quotient : (a * 100 + b) / 100 = a := by omega
      have rest : (a * 100 + b) % 100 = b := by omega
      rw [if_neg (by omega), quotient, rest, (unique below).mp first]
    | @minutes m s h c a b first some middle below last =>
      obtain ⟨_, rfl⟩ := twoDigits_iff.mp last
      obtain ⟨_, rfl⟩ := twoDigits_iff.mp middle
      have minutes : (c * 6000 + a * 100 + b) / 6000 = c := by omega
      have seconds : (c * 6000 + a * 100 + b) / 100 % 60 = a := by omega
      have rest : (c * 6000 + a * 100 + b) % 100 = b := by omega
      rw [if_pos (by omega), toList_minutesText, shown, minutes, seconds, rest, unpadded_iff.mp first,
        Nat.toString_eq_repr, Nat.toList_repr]
  · rintro rfl
    have last : TwoDigits (twoDigits (t.centis % 100)).toList (t.centis % 100) :=
      twoDigits_iff.mpr ⟨Nat.mod_lt _ (by decide), rfl⟩
    split
    · have first : Unpadded (toString (t.centis / 6000)).toList (t.centis / 6000) := by
        rw [unpadded_iff, Nat.toString_eq_repr, Nat.toList_repr]
      have middle : TwoDigits (twoDigits (t.centis / 100 % 60)).toList (t.centis / 100 % 60) :=
        twoDigits_iff.mpr ⟨by omega, rfl⟩
      have form : Form alone _ _ := .minutes first (by omega) middle (Nat.mod_lt _ (by decide)) last
      have total : t.centis / 6000 * 6000 + t.centis / 100 % 60 * 100 + t.centis % 100 = t.centis := by omega
      rw [toList_minutesText]
      rwa [total] at form
    · have below : t.centis / 100 < 60 := by omega
      have form := Form.seconds ((unique below).mpr rfl) below last
      rwa [Nat.div_add_mod'] at form

theorem clockForm_iff {text : String} {t : ClockTime} : ClockForm text.toList t.centis ↔ text = t.clockText := by
  have padded {s a} (below : a < 60) : TwoDigits s a ↔ s = (twoDigits a).toList := by
    rw [twoDigits_iff, and_iff_right (by omega)]
  rw [ClockForm, form_iff padded, ← String.toList_inj, clockText]
  split <;> simp

theorem gapForm_iff {text : String} {t : ClockTime} : GapForm text.toList t.centis ↔ text = t.gapText := by
  have plain {s a} (_ : a < 60) : Unpadded s a ↔ s = (toString a).toList := by
    rw [unpadded_iff, Nat.toString_eq_repr, Nat.toList_repr]
  simp only [GapForm, form_iff plain, ← String.toList_inj, gapText]
  split <;> simp

/-- The minutes are there from one minute on. -/
theorem Form.colon_iff (digits : ∀ {s a}, alone s a → ∀ c ∈ s, c.isDigit = true) (form : Form alone s n) :
    ':' ∈ s ↔ 6000 ≤ n := by
  have free {s : List Char} (digits : ∀ c ∈ s, c.isDigit = true) : ':' ∉ s := fun colon =>
    absurd (digits ':' colon) (by decide)
  cases form with
  | @seconds s h a b first below last =>
    obtain ⟨small, -⟩ := twoDigits_iff.mp last
    have none : ':' ∉ s ++ '.' :: h := by
      simp [free (digits first), free last.digits]
    exact iff_of_false none (by omega)
  | minutes first some middle below last =>
    exact iff_of_true (List.mem_append_right _ List.mem_cons_self) (by omega)

end Forms

/-- A gap is written as an elapsed time behind a plus sign, but below one minute without a zero before its
seconds. -/
theorem toList_gapText (t : ClockTime) :
    t.gapText.toList = '+' ::
      if t.centis < 6000 ∧ t.clockText.toList.head? = some '0' then t.clockText.toList.tail
      else t.clockText.toList := by
  unfold gapText clockText
  by_cases minutes : 6000 ≤ t.centis
  · rw [if_pos minutes, if_pos minutes, if_neg (by omega)]
    simp
  · rw [if_neg minutes, if_neg minutes]
    by_cases padded : t.centis / 100 < 10
    · have zero : (twoDigits (t.centis / 100)).toList = '0' :: (toString (t.centis / 100)).toList := by
        rw [twoDigits, if_pos padded, String.toList_append]
        rfl
      rw [if_pos (by simp [zero]; omega)]
      simp [zero]
    · have plain : twoDigits (t.centis / 100) = toString (t.centis / 100) := if_neg padded
      have head := head_toDigits (n := t.centis / 100) (by omega)
      rw [if_neg]
      · simp [plain]
      · simp [plain, Nat.toList_repr, List.head?_append_of_ne_nil _ Nat.toDigits_ne_nil, head]

/-- Times are read back from both of their forms, so different times are written differently. The texts are
the only ones of their forms: hundredths in two digits and seconds below sixty, in two digits for an elapsed
time and without zeros before them for a gap, and from one minute on minutes without zeros before them, and
then two digits of seconds for both. -/
theorem times_are_written_exactly :
    Function.Injective clockText ∧ Function.Injective gapText ∧ ∀ t : ClockTime,
      ofClockText? t.clockText = some t ∧ ofGapText? t.gapText = some t ∧
      (∀ text : String, ClockForm text.toList t.centis ↔ text = t.clockText) ∧
      (∀ text : String, GapForm text.toList t.centis ↔ text = t.gapText) ∧
      (':' ∈ t.clockText.toList ↔ 6000 ≤ t.centis) ∧ (':' ∈ t.gapText.toList ↔ 6000 ≤ t.centis) ∧
      t.gapText.toList = '+' ::
        if t.centis < 6000 ∧ t.clockText.toList.head? = some '0' then t.clockText.toList.tail
        else t.clockText.toList := by
  refine ⟨fun t u same => ?_, fun t u same => ?_, fun t => ⟨ofClockText_clockText t, ofGapText_gapText t,
    fun _ => clockForm_iff, fun _ => gapForm_iff, ?_, ?_, t.toList_gapText⟩⟩
  · have read := ofClockText_clockText t
    rw [same, ofClockText_clockText u] at read
    exact (Option.some.inj read).symm
  · have read := ofGapText_gapText t
    rw [same, ofGapText_gapText u] at read
    exact (Option.some.inj read).symm
  · exact (clockForm_iff.mpr rfl).colon_iff TwoDigits.digits
  · obtain ⟨rest, text, form⟩ := gapForm_iff.mpr (rfl : t.gapText = t.gapText)
    rw [text, ← form.colon_iff Unpadded.digits]
    simp

example :
    [0, 999, 1000, 5999, 6000, 7550].map (fun n => (ofCentis n).clockText) =
      ["00.00", "09.99", "10.00", "59.99", "1:00.00", "1:15.50"] ∧
    [0, 999, 1000, 5999, 6000, 7550].map (fun n => (ofCentis n).gapText) =
      ["+0.00", "+9.99", "+10.00", "+59.99", "+1:00.00", "+1:15.50"] := by
  decide +kernel

end ClockTime

end LiveTiming
