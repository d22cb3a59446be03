import LiveTiming.Frame.Decoder
import Mathlib.Data.List.TakeWhile

namespace LiveTiming.Decoder

open LiveTiming.Frame

/-- What a buffer can hold, and what is then read from it and left in it. -/
inductive Reading (d : Decoder) : Bytes → Except FrameError (Option Bytes) → Bytes → Prop
  | noise {buffer} : opening ∉ buffer → Reading d buffer (.ok none) []
  | closed {noise body later} : opening ∉ noise → closing ∉ body →
      Reading d (noise ++ opening :: (body ++ closing :: later)) (.ok (some body)) later
  | unclosed {noise inside} : opening ∉ noise → closing ∉ inside → inside.length ≤ d.limit →
      Reading d (noise ++ opening :: inside) (.ok none) (opening :: inside)
  | tooLong {noise inside} : opening ∉ noise → closing ∉ inside → d.limit < inside.length →
      Reading d (noise ++ opening :: inside) (.error (.tooLong d.limit)) []

variable {d : Decoder} {noise inside body later buffer left : Bytes}
variable {answer : Except FrameError (Option Bytes)}

theorem dropWhile_noise (free : opening ∉ noise) (rest : Bytes) :
    (noise ++ rest).dropWhile (· != opening) = rest.dropWhile (· != opening) :=
  List.dropWhile_append_of_pos fun _ member => bne_iff_ne.mpr fun same => free (same ▸ member)

theorem closeAt_none (unclosed : closing ∉ inside) : closeAt? inside = none := by
  have all : inside.dropWhile (· != closing) = [] :=
    List.dropWhile_eq_nil_iff.mpr fun _ member => bne_iff_ne.mpr fun same => unclosed (same ▸ member)
  unfold closeAt?
  rw [all]

theorem closeAt_append (unclosed : closing ∉ body) (later : Bytes) :
    closeAt? (body ++ closing :: later) = some (body, later) := by
  have before : ∀ b ∈ body, (b != closing) = true := fun _ member =>
    bne_iff_ne.mpr fun same => unclosed (same ▸ member)
  unfold closeAt?
  rw [List.dropWhile_append_of_pos before, List.takeWhile_append_of_pos before]
  simp

/-- A frame that is closed is read, however long it is. -/
theorem decode_closed (d : Decoder) (free : opening ∉ noise) (unclosed : closing ∉ body) (later : Bytes) :
    d.decode (noise ++ opening :: (body ++ closing :: later)) = (.ok (some body), later) := by
  have first : (noise ++ opening :: (body ++ closing :: later)).dropWhile (· != opening) =
      opening :: (body ++ closing :: later) := by
    rw [dropWhile_noise free]
    rfl
  unfold decode
  rw [first]
  dsimp only
  rw [closeAt_append unclosed]

/-- An open frame waits for its end, unless it is too long already: then all is dropped. -/
theorem decode_open (d : Decoder) (free : opening ∉ noise) (unclosed : closing ∉ inside) :
    d.decode (noise ++ opening :: inside) =
      if d.limit < inside.length then (.error (.tooLong d.limit), []) else (.ok none, opening :: inside) := by
  have first : (noise ++ opening :: inside).dropWhile (· != opening) = opening :: inside := by
    rw [dropWhile_noise free]
    rfl
  unfold decode
  rw [first]
  dsimp only
  rw [closeAt_none unclosed]

/-- Bytes without a beginning of a frame are dropped. -/
theorem decode_noise (d : Decoder) (free : opening ∉ buffer) : d.decode buffer = (.ok none, []) := by
  have all : buffer.dropWhile (· != opening) = [] :=
    List.dropWhile_eq_nil_iff.mpr fun _ member => bne_iff_ne.mpr fun same => free (same ▸ member)
  unfold decode
  rw [all]

/-- The cases cover what a decoder does. -/
theorem reading_decode (d : Decoder) (buffer : Bytes) :
    Reading d buffer (d.decode buffer).1 (d.decode buffer).2 := by
  by_cases opened : opening ∈ buffer
  · obtain ⟨noise, inside, rfl, free⟩ := List.eq_append_cons_of_mem opened
    by_cases closed : closing ∈ inside
    · obtain ⟨body, later, rfl, unclosed⟩ := List.eq_append_cons_of_mem closed
      rw [decode_closed d free unclosed]
      exact .closed free unclosed
    · rw [decode_open d free closed]
      split
      · rename_i long
        exact .tooLong free closed long
      · rename_i short
        exact .unclosed free closed (Nat.le_of_not_lt short)
  · rw [decode_noise d opened]
    exact .noise opened

/-- A body is read exactly when its frame is closed and the first one in the buffer. -/
theorem decode_body_iff : (d.decode buffer).1 = .ok (some body) ↔
    ∃ noise later, opening ∉ noise ∧ closing ∉ body ∧
      buffer = noise ++ opening :: (body ++ closing :: later) := by
  constructor
  · intro read
    have reading := reading_decode d buffer
    rw [read] at reading
    generalize (d.decode buffer).2 = left at reading
    cases reading with
    | closed free unclosed => exact ⟨_, _, free, unclosed, rfl⟩
  · rintro ⟨noise, later, free, unclosed, rfl⟩
    rw [decode_closed d free unclosed]

/-- Only a frame that is open can be too long. -/
theorem decode_tooLong_iff : (d.decode buffer).1 = .error (.tooLong d.limit) ↔
    ∃ noise inside, opening ∉ noise ∧ closing ∉ inside ∧ buffer = noise ++ opening :: inside ∧
      d.limit < inside.length := by
  constructor
  · intro refused
    have reading := reading_decode d buffer
    rw [refused] at reading
    generalize (d.decode buffer).2 = left at reading
    cases reading with
    | tooLong free unclosed long => exact ⟨_, _, free, unclosed, rfl, long⟩
  · rintro ⟨noise, inside, free, unclosed, rfl, long⟩
    rw [decode_open d free unclosed, if_pos long]

/-- What is done with a buffer: bytes arrive, or a frame is read from it. -/
inductive Operation
  | feed (chunk : Bytes)
  | decode

/-- The buffer after some operations, of which the latest stands first. -/
def bufferAfter (d : Decoder) : List Operation → Bytes
  | [] => []
  | .feed chunk :: past => d.bufferAfter past ++ chunk
  | .decode :: past => (d.decode (d.bufferAfter past)).2

/-- What was answered in some operations, the latest answer first. -/
def answers (d : Decoder) : List Operation → List (Except FrameError (Option Bytes))
  | [] => []
  | .feed _ :: past => d.answers past
  | .decode :: past => (d.decode (d.bufferAfter past)).1 :: d.answers past

/-- An answer was given to the bytes that had come by then. -/
theorem mem_answers {past : List Operation} : answer ∈ d.answers past ↔
    ∃ later earlier, past = later ++ .decode :: earlier ∧ (d.decode (d.bufferAfter earlier)).1 = answer := by
  induction past with
  | nil => simp [answers]
  | cons operation past ih =>
    have older : (∃ later earlier, past = later ++ .decode :: earlier ∧
        (d.decode (d.bufferAfter earlier)).1 = answer) →
        ∃ later earlier, operation :: past = later ++ .decode :: earlier ∧
          (d.decode (d.bufferAfter earlier)).1 = answer := by
      rintro ⟨later, earlier, rfl, same⟩
      exact ⟨operation :: later, earlier, rfl, same⟩
    constructor
    · intro member
      cases operation with
      | feed => exact older (ih.mp member)
      | decode =>
        rcases List.mem_cons.mp member with rfl | old
        · exact ⟨[], past, rfl, rfl⟩
        · exact older (ih.mp old)
    · rintro ⟨later, earlier, split, same⟩
      rcases later with _ | ⟨last, later⟩
      · obtain ⟨rfl, rfl⟩ := List.cons.inj split
        exact List.mem_cons.mpr (Or.inl same.symm)
      · obtain ⟨rfl, rfl⟩ := List.cons.inj split
        have old := ih.mpr ⟨later, earlier, rfl, same⟩
        cases operation with
        | feed => exact old
        | decode => exact List.mem_cons_of_mem _ old

end LiveTiming.Decoder
