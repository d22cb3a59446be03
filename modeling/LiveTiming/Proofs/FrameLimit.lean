import LiveTiming.Proofs.Decoding

namespace LiveTiming.Decoder

open LiveTiming.Frame

variable {d : Decoder} {noise body later rest : Bytes}

/-- The bytes that have arrived since a frame was last looked for in vain. -/
def fresh (d : Decoder) : List Operation → Bytes
  | [] => []
  | .feed chunk :: past => d.fresh past ++ chunk
  | .decode :: past =>
    match (d.decode (d.bufferAfter past)).1 with
    | .ok (some _) => d.fresh past
    | _ => []

/-- What is in a buffer has arrived of late, apart from the part of an open frame that
was within the limit when it was last looked at. -/
def Held (d : Decoder) (buffer fresh : Bytes) : Prop :=
  buffer <:+ fresh ∨
    ∃ inside, closing ∉ inside ∧ inside.length ≤ d.limit ∧ buffer = opening :: (inside ++ fresh)

theorem Held.behind (held : Held d (noise ++ opening :: (body ++ closing :: later)) rest) :
    later <:+ rest := by
  rcases held with recent | ⟨inside, unclosed, _, same⟩
  · have tail : later <:+ noise ++ opening :: (body ++ closing :: later) :=
      ⟨noise ++ opening :: (body ++ [closing]), by simp⟩
    exact tail.trans recent
  · have cut : (noise ++ opening :: body) ++ closing :: later = (opening :: inside) ++ rest := by
      simpa using same
    rcases List.append_eq_append_iff.mp cut with ⟨old, front, arrived⟩ | ⟨new, _, arrived⟩
    · rcases old with _ | ⟨first, old⟩
      · exact ⟨[closing], arrived⟩
      · obtain ⟨rfl, _⟩ := List.cons.inj arrived
        have within : closing ∈ opening :: inside := by simp [front]
        exact absurd ((List.mem_cons.mp within).resolve_left (by decide)) unclosed
    · exact ⟨new ++ [closing], by simp [arrived]⟩

/-- Of a body that is longer than the limit, all that is beyond it has arrived of late. -/
theorem Held.beyond (held : Held d (noise ++ opening :: (body ++ closing :: later)) rest)
    (free : opening ∉ noise) (long : d.limit < body.length) :
    body.drop d.limit ++ closing :: later <:+ rest := by
  rcases held with recent | ⟨inside, _, short, same⟩
  · have tail : body.drop d.limit ++ closing :: later <:+ noise ++ opening :: (body ++ closing :: later) := by
      refine ⟨noise ++ opening :: body.take d.limit, ?_⟩
      rw [List.append_assoc, List.cons_append, ← List.append_assoc (body.take _), List.take_append_drop]
    exact tail.trans recent
  · rcases noise with _ | ⟨first, noise⟩
    · have cut : body ++ closing :: later = inside ++ rest := (List.cons.inj same).2
      have arrived := congrArg (List.drop inside.length) cut
      rw [List.drop_left, List.drop_append_of_le_length (by omega)] at arrived
      rw [← arrived]
      exact List.suffix_append_self_iff.mpr (List.drop_suffix_drop_left body short)
    · exact absurd (List.mem_cons.mpr (Or.inl (List.cons.inj same).1.symm)) free

theorem held_bufferAfter (d : Decoder) (past : List Operation) :
    Held d (d.bufferAfter past) (d.fresh past) := by
  induction past with
  | nil => exact Or.inl (List.suffix_refl _)
  | cons operation past ih =>
    cases operation with
    | feed chunk =>
      rcases ih with ⟨front, same⟩ | ⟨inside, unclosed, short, same⟩
      · exact Or.inl ⟨front, by rw [fresh, bufferAfter, ← List.append_assoc, same]⟩
      · exact Or.inr ⟨inside, unclosed, short, by rw [fresh, bufferAfter, same]; simp⟩
    | decode =>
      have reading := reading_decode d (d.bufferAfter past)
      unfold bufferAfter fresh
      generalize d.bufferAfter past = buffer at ih reading
      generalize d.decode buffer = result at reading ⊢
      rcases result with ⟨answer, left⟩
      cases reading with
      | noise => exact Or.inl (List.suffix_refl _)
      | closed => exact Or.inl ih.behind
      | unclosed free unclosed short => exact Or.inr ⟨_, unclosed, short, by simp⟩
      | tooLong => exact Or.inl (List.suffix_refl _)

/-- The limit is kept as long as no frame that exceeds it is closed when it is looked at,
whatever arrives and is read in whatever order. A frame is refused exactly when it is
open and holds more bytes than the limit. So a frame only exceeds the limit when all of
its body that is beyond, and the byte that closes it, have arrived since a frame was
last looked for in vain. -/
theorem limit_kept_iff (d : Decoder) (past : List Operation) :
    ((∀ body, .ok (some body) ∈ d.answers past → body.length ≤ d.limit) ↔
      ∀ later earlier, past = later ++ .decode :: earlier →
        ∀ noise body rest, opening ∉ noise → closing ∉ body →
          d.bufferAfter earlier = noise ++ opening :: (body ++ closing :: rest) → body.length ≤ d.limit) ∧
    ((d.decode (d.bufferAfter past)).1 = .error (.tooLong d.limit) ↔
      ∃ noise inside, opening ∉ noise ∧ closing ∉ inside ∧
        d.bufferAfter past = noise ++ opening :: inside ∧ d.limit < inside.length) ∧
    ∀ body, (d.decode (d.bufferAfter past)).1 = .ok (some body) → d.limit < body.length →
      ∃ rest, body.drop d.limit ++ closing :: rest <:+ d.fresh past := by
  refine ⟨⟨?_, fun closed body given => ?_⟩, decode_tooLong_iff, fun body read long => ?_⟩
  · intro kept later earlier split noise body rest free unclosed same
    have read : (d.decode (d.bufferAfter earlier)).1 = .ok (some body) :=
      decode_body_iff.mpr ⟨noise, rest, free, unclosed, same⟩
    exact kept body (mem_answers.mpr ⟨later, earlier, split, read⟩)
  · obtain ⟨later, earlier, split, read⟩ := mem_answers.mp given
    obtain ⟨noise, rest, free, unclosed, same⟩ := decode_body_iff.mp read
    exact closed later earlier split noise body rest free unclosed same
  · have held := held_bufferAfter d past
    obtain ⟨noise, rest, free, _, same⟩ := decode_body_iff.mp read
    rw [same] at held
    exact ⟨rest, held.beyond free long⟩

/-- A body of six bytes is read where the limit is four, as its frame is closed when it
is looked at. -/
theorem long_body_is_read : ¬ ∀ (d : Decoder) (past : List Operation) (body : Bytes),
    .ok (some body) ∈ d.answers past → body.length ≤ d.limit := by
  intro kept
  have short := kept { limit := 4 } [.decode, .feed [2, 97, 98, 99, 100, 101, 102, 3]]
    [97, 98, 99, 100, 101, 102] (List.mem_cons_self ..)
  exact absurd short (by decide)

end LiveTiming.Decoder
