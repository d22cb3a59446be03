import LiveTiming.Proofs.OversizedFrames

namespace LiveTiming.Decoder

open LiveTiming.Frame

/-- A frame within the limit that is still open, with nothing before it. -/
def Unfinished (d : Decoder) (buffer : Bytes) : Prop :=
  ∃ inside, closing ∉ inside ∧ inside.length ≤ d.limit ∧ buffer = opening :: inside

variable {d : Decoder} {noise inside body buffer left : Bytes} {error : FrameError}
variable {answer : Except FrameError (Option Bytes)} {past : List Operation}

theorem reading_of_decode (read : d.decode buffer = (answer, left)) : Reading d buffer answer left := by
  have reading := reading_decode d buffer
  rwa [read] at reading

/-- A body is read together with its frame and the noise before it, and the rest stays. -/
theorem decode_eq_body_iff : d.decode buffer = (.ok (some body), left) ↔
    ∃ noise, opening ∉ noise ∧ closing ∉ body ∧ buffer = noise ++ wrap body ++ left := by
  have joined (noise : Bytes) : noise ++ wrap body ++ left = noise ++ opening :: (body ++ closing :: left) := by
    simp [wrap]
  constructor
  · intro read
    cases reading_of_decode read with
    | closed free unclosed => exact ⟨_, free, unclosed, (joined _).symm⟩
  · rintro ⟨noise, free, unclosed, rfl⟩
    rw [joined, decode_closed d free unclosed]

/-- Where no frame is read, nothing but an open frame stays. -/
theorem decode_eq_none_iff : d.decode buffer = (.ok none, left) ↔
    left = [] ∧ opening ∉ buffer ∨ d.Unfinished left ∧ ∃ noise, opening ∉ noise ∧ buffer = noise ++ left := by
  constructor
  · intro vain
    cases reading_of_decode vain with
    | noise free => exact Or.inl ⟨rfl, free⟩
    | unclosed free unclosed short => exact Or.inr ⟨⟨_, unclosed, short, rfl⟩, _, free, rfl⟩
  · rintro (⟨rfl, free⟩ | ⟨⟨inside, unclosed, short, rfl⟩, noise, free, rfl⟩)
    · exact decode_noise d free
    · rw [decode_open d free unclosed, if_neg (Nat.not_lt_of_le short)]

theorem decode_eq_error (refused : d.decode buffer = (.error error, left)) :
    error = .tooLong d.limit ∧ left = [] ∧ ∃ noise inside, opening ∉ noise ∧ closing ∉ inside ∧
      d.limit < inside.length ∧ buffer = noise ++ opening :: inside := by
  cases reading_of_decode refused with
  | tooLong free unclosed long => exact ⟨rfl, rfl, _, _, free, unclosed, long, rfl⟩

theorem decode_again (vain : d.decode buffer = (.ok none, left)) : d.decode left = (.ok none, left) := by
  refine decode_eq_none_iff.mpr ?_
  rcases decode_eq_none_iff.mp vain with ⟨rfl, _⟩ | ⟨unfinished, _⟩
  · exact Or.inl ⟨rfl, List.not_mem_nil⟩
  · exact Or.inr ⟨unfinished, [], List.not_mem_nil, rfl⟩

theorem Unfinished.ne_nil (unfinished : d.Unfinished left) : left ≠ [] := by
  obtain ⟨_, _, _, rfl⟩ := unfinished
  exact List.cons_ne_nil _ _

/-- What is left at the end of a stream is an error exactly if it is an open frame. -/
theorem finish_eq_leftover_iff :
    d.finish buffer = (.error (.transport "bytes remaining on stream"), left) ↔
      d.Unfinished left ∧ ∃ noise, opening ∉ noise ∧ buffer = noise ++ left := by
  unfold finish
  constructor
  · intro leftover
    split at leftover
    · rename_i rest vain
      split at leftover
      · cases leftover
      · rename_i kept
        cases leftover
        refine (decode_eq_none_iff.mp vain).resolve_left fun emptied => ?_
        exact kept (List.isEmpty_iff.mpr emptied.1)
    · cases (decode_eq_error leftover).1
  · intro unfinished
    rw [decode_eq_none_iff.mpr (Or.inr unfinished)]
    simp [unfinished.1.ne_nil]

/-- A call that gives anything makes the buffer shorter by the control bytes of a frame at
least: a frame that is refused holds more than one byte. -/
theorem decode_shrinks (read : d.decode buffer = (answer, left)) (found : answer ≠ .ok none) :
    left.length + 2 ≤ buffer.length := by
  rcases answer with error | _ | body
  · obtain ⟨_, rfl, noise, inside, _, _, long, rfl⟩ := decode_eq_error read
    have least := d.limit_pos
    simp only [List.length_append, List.length_cons, List.length_nil]
    omega
  · exact absurd rfl found
  · obtain ⟨noise, _, _, rfl⟩ := decode_eq_body_iff.mp read
    simp only [wrap, List.length_append, List.length_cons, List.length_nil]
    omega

theorem drain_shrinks (d : Decoder) (past : List Operation) (n : Nat) :
    d.Drained (List.replicate n .decode ++ past) ∨
      (d.bufferAfter (List.replicate n .decode ++ past)).length + 2 * n ≤ (d.bufferAfter past).length := by
  induction n with
  | zero => exact Or.inr le_rfl
  | succ n ih =>
    rcases ih with drained | shorter
    · exact Or.inl drained.again
    · by_cases vain : (d.decode (d.bufferAfter (List.replicate n .decode ++ past))).1 = .ok none
      · exact Or.inl ⟨_, rfl, vain⟩
      · have shrinks : (d.bufferAfter (List.replicate (n + 1) .decode ++ past)).length + 2 ≤
            (d.bufferAfter (List.replicate n .decode ++ past)).length := decode_shrinks rfl vain
        exact Or.inr (by omega)

/-- Whatever has arrived and was read in whatever order, a decode call reads a body exactly
if the buffer begins with its frame, noise apart, and removes just that. If it finds none,
only an open frame within the limit stays, which it finds again, and which is an error at the
end of the stream. A frame that is refused leaves nothing. So whatever a call gives makes the
buffer shorter, and calls that are repeated come to an end. -/
theorem buffer_shrinks_to_open_frame (d : Decoder) (past : List Operation) :
    let buffer := d.bufferAfter past
    (∀ body left, d.decode buffer = (.ok (some body), left) ↔
      ∃ noise, opening ∉ noise ∧ closing ∉ body ∧ buffer = noise ++ wrap body ++ left) ∧
    (∀ left, d.decode buffer = (.ok none, left) ↔
      left = [] ∧ opening ∉ buffer ∨ d.Unfinished left ∧ ∃ noise, opening ∉ noise ∧ buffer = noise ++ left) ∧
    (∀ left, d.decode buffer = (.ok none, left) → d.decode left = (.ok none, left)) ∧
    (∀ error left, d.decode buffer = (.error error, left) → error = .tooLong d.limit ∧ left = []) ∧
    (∀ left, d.finish buffer = (.error (.transport "bytes remaining on stream"), left) ↔
      d.Unfinished left ∧ ∃ noise, opening ∉ noise ∧ buffer = noise ++ left) ∧
    (∀ answer left, d.decode buffer = (answer, left) → answer ≠ .ok none → left.length + 2 ≤ buffer.length) ∧
    ∀ n, buffer.length < 2 * n → d.Drained (List.replicate n .decode ++ past) := by
  intro buffer
  refine ⟨fun _ _ => decode_eq_body_iff, fun _ => decode_eq_none_iff, fun _ => decode_again,
    fun _ _ refused => ?_, fun _ => finish_eq_leftover_iff, fun _ _ => decode_shrinks, fun n enough => ?_⟩
  · obtain ⟨same, emptied, _⟩ := decode_eq_error refused
    exact ⟨same, emptied⟩
  · have short : (d.bufferAfter past).length < 2 * n := enough
    exact (d.drain_shrinks past n).resolve_right fun shorter => by omega

/-- A frame with an opening byte in it is taken out of a buffer with noise around it, and then
an open frame is found and kept, which is as long as it may be. -/
theorem open_frame_is_kept :
    let d : Decoder := { limit := 3 }
    let buffer : Bytes := [10, 3, 2, 97, 2, 3, 3, 2, 98, 2, 98]
    let drained : List Operation := List.replicate 6 .decode ++ [.feed buffer]
    d.decode buffer = (.ok (some [97, 2]), [3, 2, 98, 2, 98]) ∧ d.Drained drained ∧
      d.bufferAfter drained = [2, 98, 2, 98] ∧ d.Unfinished [2, 98, 2, 98] ∧
      d.finish (d.bufferAfter drained) =
        (.error (.transport "bytes remaining on stream"), [2, 98, 2, 98]) := by
  intro d buffer drained
  obtain ⟨reads, _, _, _, _, _, drains⟩ := buffer_shrinks_to_open_frame d [.feed buffer]
  obtain ⟨_, _, _, _, leftover, _⟩ := buffer_shrinks_to_open_frame d drained
  have unfinished : d.Unfinished [2, 98, 2, 98] := ⟨[98, 2, 98], by decide, by decide, rfl⟩
  have kept : d.bufferAfter drained = [2, 98, 2, 98] := by decide
  refine ⟨(reads _ _).mpr ⟨[10, 3], by decide, by decide, by decide⟩, drains 6 (by decide), kept, unfinished, ?_⟩
  exact (leftover _).mpr ⟨unfinished, [], List.not_mem_nil, kept⟩

end LiveTiming.Decoder
