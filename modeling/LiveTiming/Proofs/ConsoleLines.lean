import LiveTiming.Console.Lines
import LiveTiming.Proofs.Text
import LiveTiming.Proofs.Utf8Reading
import Mathlib.Data.List.Forall2
import Mathlib.Data.List.TakeWhile

namespace LiveTiming.Console

/-- The lines that are ended by a line feed. -/
def closedLines (bytes : Bytes) : List Bytes :=
  (Text.splitAt (· == 0x0A) bytes).dropLast

/-- What stands after the last line feed. -/
def remainder (bytes : Bytes) : Bytes :=
  (Text.splitAt (· == 0x0A) bytes).getLastD []

/-- The lines in some bytes. What stands after the last line feed is one, unless it is
empty or a lone carriage return. -/
def lines (bytes : Bytes) : List Bytes :=
  closedLines bytes ++
    if remainder bytes = [] ∨ remainder bytes = [0x0D] then [] else [remainder bytes]

/-- What a line comes to for a console. -/
def inputOfLine (line : Bytes) : Input :=
  if lineLimit < line.length then .tooLong else inputOf line

/-- What is read from the bytes after the last line feed. -/
def lastInputs (fails : Bool) (rest : Bytes) : List Input :=
  if lineLimit < rest.length then [.tooLong]
  else if fails then [.broken]
  else if rest = [] ∨ rest = [0x0D] then []
  else [inputOf rest]

/-- The inputs in some bytes if a line that is too long is one of them and those after it
are read as well. -/
def allInputs (fails : Bool) (bytes : Bytes) : List Input :=
  (closedLines bytes).map inputOfLine ++ lastInputs fails (remainder bytes)

/-- The inputs up to the first line that is too long. -/
def upToLong : List Input → List Input
  | [] => []
  | .tooLong :: _ => [.tooLong]
  | input :: later => input :: upToLong later

variable {fails : Bool} {fuel : Nat} {first later rest bytes more : Bytes}

/-- Bytes are what is left after the last line, or begin with a line. -/
theorem line_or_rest (bytes : Bytes) :
    0x0A ∉ bytes ∨ ∃ first later, 0x0A ∉ first ∧ bytes = first ++ 0x0A :: later := by
  by_cases ended : 0x0A ∈ bytes
  · obtain ⟨first, later, split, free⟩ := List.eq_append_cons_of_mem ended
    exact Or.inr ⟨first, later, free, split⟩
  · exact Or.inl ended

theorem ends_none (free : 0x0A ∉ bytes) : ∀ b ∈ bytes, (b == 0x0A) = false := by
  rintro b member
  exact beq_eq_false_iff_ne.mpr fun same => free (same ▸ member)

theorem split_line (free : 0x0A ∉ first) : Text.splitAt (· == 0x0A) (first ++ 0x0A :: later) =
    first :: Text.splitAt (· == 0x0A) later :=
  Text.splitAt_append (ends_none free) rfl

/-- Bytes without the end of a line have no closed line. -/
theorem closedLines_rest (free : 0x0A ∉ rest) : closedLines rest = [] := by
  rw [closedLines, Text.splitAt_free (ends_none free)]
  rfl

theorem remainder_rest (free : 0x0A ∉ rest) : remainder rest = rest := by
  rw [remainder, Text.splitAt_free (ends_none free)]
  rfl

/-- The first line stands before the closed lines of what follows it. -/
theorem closedLines_line (free : 0x0A ∉ first) :
    closedLines (first ++ 0x0A :: later) = first :: closedLines later := by
  rw [closedLines, split_line free, List.dropLast_cons_of_ne_nil (Text.splitAt_ne_nil _ _)]
  rfl

theorem remainder_line (free : 0x0A ∉ first) : remainder (first ++ 0x0A :: later) = remainder later := by
  rw [remainder, split_line free, remainder]
  cases split : Text.splitAt (· == 0x0A) later with
  | nil => exact absurd split (Text.splitAt_ne_nil _ _)
  | cons stretch others => simp [List.getLastD_eq_getLast?, List.getLast?_cons]

theorem lines_line (free : 0x0A ∉ first) : lines (first ++ 0x0A :: later) = first :: lines later := by
  rw [lines, closedLines_line free, remainder_line free, List.cons_append]
  rfl

/-- Bytes that end with a line are read before those that follow them. -/
theorem lines_append (closed : bytes.getLast? = some 0x0A) :
    lines (bytes ++ more) = lines bytes ++ lines more := by
  induction size : bytes.length using Nat.strongRecOn generalizing bytes with
  | ind size ih =>
    rcases line_or_rest bytes with free | ⟨first, later, free, rfl⟩
    · exact absurd (List.mem_of_getLast? closed) free
    · rw [List.append_assoc, List.cons_append, lines_line free, lines_line free, List.cons_append]
      cases later with
      | nil => rfl
      | cons b later =>
        have ends : (b :: later).getLast? = some 0x0A := by
          simpa [List.getLast?_append, List.getLast?_cons] using closed
        rw [ih _ (by rw [← size]; simp; omega) ends rfl]

theorem allInputs_rest (free : 0x0A ∉ rest) : allInputs fails rest = lastInputs fails rest := by
  rw [allInputs, closedLines_rest free, remainder_rest free]
  rfl

/-- A reader that goes on after every error reads the first line, and then what follows. -/
theorem allInputs_line (free : 0x0A ∉ first) : allInputs fails (first ++ 0x0A :: later) =
    inputOfLine first :: allInputs fails later := by
  rw [allInputs, closedLines_line free, remainder_line free]
  rfl

/-- If reading does not fail, the inputs are the lines. -/
theorem allInputs_eq (bytes : Bytes) : allInputs false bytes = (lines bytes).map inputOfLine := by
  rw [allInputs, lines, List.map_append]
  congr 1
  unfold lastInputs
  rw [if_neg Bool.false_ne_true]
  by_cases empty : remainder bytes = [] ∨ remainder bytes = [0x0D]
  · rw [if_pos empty, if_pos empty, if_neg]
    · rfl
    · rcases empty with none | one <;> simp [*, lineLimit]
  · rw [if_neg empty, if_neg empty, List.map_singleton, inputOfLine]
    split <;> rfl

/-- That a line is too long is seen before it is read. -/
theorem inputOf_ne_tooLong (line : Bytes) : inputOf line ≠ .tooLong := by
  unfold inputOf
  dsimp only
  split <;> nofun

theorem upToLong_cons {input : Input} {later : List Input} (short : input ≠ .tooLong) :
    upToLong (input :: later) = input :: upToLong later := by
  cases input with
  | tooLong => exact absurd rfl short
  | line | broken => rfl

/-- What is left after the last line is no line that is too long. -/
theorem upToLong_last (fails : Bool) (rest : Bytes) :
    upToLong (lastInputs fails rest) = lastInputs fails rest := by
  unfold lastInputs
  split
  · rfl
  · split
    · rfl
    · split
      · rfl
      · exact upToLong_cons (inputOf_ne_tooLong _)

/-- If no line is too long nothing is cut off. -/
theorem upToLong_of_short {inputs : List Input} (short : .tooLong ∉ inputs) : upToLong inputs = inputs := by
  induction inputs with
  | nil => rfl
  | cons input later ih =>
    obtain ⟨first, others⟩ := not_or.mp (mt List.mem_cons.mpr short)
    rw [upToLong_cons (Ne.symm first), ih others]

/-- The first line that is too long is the last input. -/
theorem upToLong_append {before after : List Input} (short : .tooLong ∉ before) :
    upToLong (before ++ .tooLong :: after) = before ++ [.tooLong] := by
  induction before with
  | nil => rfl
  | cons input later ih =>
    obtain ⟨first, others⟩ := not_or.mp (mt List.mem_cons.mpr short)
    rw [List.cons_append, upToLong_cons (Ne.symm first), ih others, List.cons_append]

theorem takeWhile_line (free : 0x0A ∉ first) : (first ++ 0x0A :: later).takeWhile (· != 0x0A) = first := by
  rw [List.takeWhile_append_of_pos (by simpa using ends_none free)]
  simp

theorem dropWhile_line (free : 0x0A ∉ first) :
    (first ++ 0x0A :: later).dropWhile (· != 0x0A) = 0x0A :: later := by
  rw [List.dropWhile_append_of_pos (by simpa using ends_none free)]
  simp

/-- What a console reads are all the inputs up to the first line that is too long. -/
theorem inputs_eq (fails : Bool) (bytes : Bytes) : inputs fails bytes = upToLong (allInputs fails bytes) := by
  have enough (fuel : Nat) : ∀ bytes : Bytes, bytes.length < fuel →
      inputsFrom fails fuel bytes = upToLong (allInputs fails bytes) := by
    induction fuel with
    | zero => exact fun bytes short => absurd short (Nat.not_lt_zero _)
    | succ fuel ih =>
      intro bytes short
      rcases line_or_rest bytes with free | ⟨first, later, free, rfl⟩
      · rw [allInputs_rest free, upToLong_last, inputsFrom]
        have plain : ∀ b ∈ bytes, (b != 0x0A) = true := by simpa using ends_none free
        have taken : bytes.takeWhile (· != 0x0A) = bytes := List.takeWhile_eq_self_iff.mpr plain
        have dropped : bytes.dropWhile (· != 0x0A) = [] := List.dropWhile_eq_nil_iff.mpr plain
        rw [taken, dropped]
        rfl
      · have fewer : later.length < fuel := by
          simp at short
          omega
        rw [allInputs_line free, inputsFrom, takeWhile_line free, dropWhile_line free, inputOfLine]
        dsimp only
        split
        · rfl
        · rw [upToLong_cons (inputOf_ne_tooLong _), ih later fewer]
  exact enough _ bytes (Nat.lt_succ_self _)

/-- A line holds a text if its bytes are those of the text, perhaps with a carriage return
after them. A carriage return at the end of a line is not one of its text. -/
def Holds (line : Bytes) (text : String) : Prop :=
  line = Utf8.encode text ++ [0x0D] ∨ line = Utf8.encode text ∧ line.getLast? ≠ some 0x0D

/-- The lines in the bytes are short enough, and they hold the texts. -/
def Readable (bytes : Bytes) (texts : List String) : Prop :=
  List.Forall₂ (fun line text => line.length ≤ lineLimit ∧ Holds line text) (lines bytes) texts

instance (line : Bytes) (text : String) : Decidable (Holds line text) :=
  inferInstanceAs (Decidable (_ ∨ _))

instance (bytes : Bytes) (texts : List String) : Decidable (Readable bytes texts) :=
  inferInstanceAs (Decidable (List.Forall₂ _ _ _))

/-- A line is read as the text that it holds. -/
theorem inputOf_eq {line : Bytes} {text : String} (holds : Holds line text) : inputOf line = .line text := by
  unfold inputOf
  dsimp only
  rcases holds with rfl | ⟨rfl, unended⟩
  · rw [List.getLast?_concat, if_pos rfl, List.dropLast_concat, Utf8.decode_encode]
  · rw [if_neg unended, Utf8.decode_encode]

/-- Bytes with readable lines are read as these lines. -/
theorem Readable.inputs_eq {texts : List String} (readable : Readable bytes texts) :
    inputs false bytes = texts.map .line := by
  have each : (lines bytes).map inputOfLine = texts.map .line := by
    unfold Readable at readable
    generalize lines bytes = all at readable ⊢
    induction readable with
    | nil => rfl
    | cons read _ ih =>
      rw [List.map_cons, List.map_cons, ih, inputOfLine, if_neg (Nat.not_lt.mpr read.1), inputOf_eq read.2]
  rw [Console.inputs_eq, allInputs_eq, each]
  exact upToLong_of_short (by simp)

/-- Readable bytes that close their last line go on with readable bytes. -/
theorem Readable.append {texts moreTexts : List String} (readable : Readable bytes texts)
    (readableMore : Readable more moreTexts) (closed : bytes.getLast? = some 0x0A) :
    Readable (bytes ++ more) (texts ++ moreTexts) := by
  unfold Readable
  rw [lines_append closed]
  exact List.rel_append readable readableMore

end LiveTiming.Console
