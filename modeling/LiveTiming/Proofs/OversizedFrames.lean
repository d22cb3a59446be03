import LiveTiming.Proofs.FrameScan
import Mathlib.Data.List.Forall2

namespace LiveTiming

namespace Frame

/-- Frames with noise before each of them and at the end. Each is given by its noise and
its body. -/
def train (frames : List (Bytes × Bytes)) (last : Bytes) : Bytes :=
  frames.flatMap (fun frame => frame.1 ++ wrap frame.2) ++ last

/-- Only frames begin with an opening byte, and only they end with the closing byte after
it: no noise holds the one, and no body holds either of them. -/
structure Clear (frames : List (Bytes × Bytes)) (last : Bytes) : Prop where
  quiet : ∀ frame ∈ frames, opening ∉ frame.1
  plain : ∀ frame ∈ frames, opening ∉ frame.2 ∧ closing ∉ frame.2
  quietEnd : opening ∉ last

variable {noise body rest last inside : Bytes} {frames : List (Bytes × Bytes)}

theorem train_cons (noise body : Bytes) (frames : List (Bytes × Bytes)) (last : Bytes) :
    train ((noise, body) :: frames) last = noise ++ opening :: (body ++ closing :: train frames last) := by
  simp [train, wrap]

/-- Bytes before the first occurrence of a byte are part of what is before it. -/
theorem part_before {b : UInt8} {front before later : Bytes} (free : b ∉ front)
    (same : front ++ rest = before ++ b :: later) :
    ∃ more, before = front ++ more ∧ rest = more ++ b :: later := by
  rcases List.append_eq_append_iff.mp same with found | ⟨beyond, split, cut⟩
  · exact found
  · rcases beyond with _ | ⟨first, beyond⟩
    · exact ⟨[], by simp [split], by simpa using cut.symm⟩
    · obtain ⟨rfl, _⟩ := List.cons.inj cut
      exact absurd (by simp [split]) free

/-- A byte occurs first at one place only. -/
theorem cut_at_first {b : UInt8} {front before later : Bytes} (free : b ∉ front) (freeToo : b ∉ before)
    (same : front ++ b :: rest = before ++ b :: later) : front = before ∧ rest = later := by
  obtain ⟨more, rfl, cut⟩ := part_before free same
  rcases more with _ | ⟨first, more⟩
  · exact ⟨(List.append_nil _).symm, (List.cons.inj cut).2⟩
  · obtain ⟨rfl, _⟩ := List.cons.inj cut
    exact absurd (by simp) freeToo

namespace Clear

theorem tail {frame : Bytes × Bytes} (clear : Clear (frame :: frames) last) : Clear frames last where
  quiet other member := clear.quiet other (List.mem_cons_of_mem _ member)
  plain other member := clear.plain other (List.mem_cons_of_mem _ member)
  quietEnd := clear.quietEnd

theorem cons (clear : Clear frames last) (quiet : opening ∉ noise) (plain : opening ∉ body ∧ closing ∉ body) :
    Clear ((noise, body) :: frames) last where
  quiet := List.forall_mem_cons.mpr ⟨quiet, clear.quiet⟩
  plain := List.forall_mem_cons.mpr ⟨plain, clear.plain⟩
  quietEnd := clear.quietEnd

/-- More noise before the frames is noise of the first of them. -/
theorem add_noise (clear : Clear frames last) (quiet : opening ∉ noise) :
    ∃ others end', others.map Prod.snd = frames.map Prod.snd ∧ Clear others end' ∧
      noise ++ train frames last = train others end' := by
  cases frames with
  | nil =>
    have quietEnd : opening ∉ noise ++ last := by simp [quiet, clear.quietEnd]
    exact ⟨[], noise ++ last, rfl, ⟨by simp, by simp, quietEnd⟩, by simp [train]⟩
  | cons frame frames =>
    have more : opening ∉ noise ++ frame.1 := by simp [quiet, clear.quiet frame (List.mem_cons_self ..)]
    have plain := clear.plain frame (List.mem_cons_self ..)
    refine ⟨(noise ++ frame.1, frame.2) :: frames, last, rfl, clear.tail.cons more plain, ?_⟩
    rw [train_cons, train_cons, List.append_assoc]

/-- So is what is left of it. -/
theorem drop_noise (clear : Clear frames last) (quiet : opening ∉ noise)
    (same : noise ++ rest = train frames last) :
    ∃ others end', others.map Prod.snd = frames.map Prod.snd ∧ Clear others end' ∧ rest = train others end' := by
  cases frames with
  | nil =>
    have whole : last = noise ++ rest := by simpa [train] using same.symm
    have quietEnd : opening ∉ rest := fun member => clear.quietEnd (by simp [whole, member])
    exact ⟨[], rest, rfl, ⟨by simp, by simp, quietEnd⟩, by simp [train]⟩
  | cons frame frames =>
    rw [train_cons] at same
    obtain ⟨more, split, rest_eq⟩ := part_before quiet same
    have quietRest : opening ∉ more := fun member =>
      clear.quiet frame (List.mem_cons_self ..) (by simp [split, member])
    have plain := clear.plain frame (List.mem_cons_self ..)
    refine ⟨(more, frame.2) :: frames, last, rfl, clear.tail.cons quietRest plain, ?_⟩
    rw [train_cons, rest_eq]

/-- The first opening byte belongs to the first frame. -/
theorem first_frame (clear : Clear frames last) (quiet : opening ∉ noise)
    (same : noise ++ opening :: inside = train frames last) :
    ∃ body later, frames = (noise, body) :: later ∧ inside = body ++ closing :: train later last := by
  cases frames with
  | nil =>
    have whole : last = noise ++ opening :: inside := by simpa [train] using same.symm
    exact absurd (by simp [whole]) clear.quietEnd
  | cons frame later =>
    rw [train_cons] at same
    obtain ⟨rfl, behind⟩ := cut_at_first quiet (clear.quiet frame (List.mem_cons_self ..)) same
    exact ⟨frame.2, later, rfl, behind⟩

end Clear

end Frame

open LiveTiming.Frame

namespace Decoder

/-- What can be told of a frame: its body, or that it is too long if it is. -/
inductive Reports (d : Decoder) : Except FrameError Bytes → Bytes → Prop
  | read (body : Bytes) : Reports d (.ok body) body
  | refused {body : Bytes} : d.limit < body.length → Reports d (.error (.tooLong d.limit)) body

/-- What an answer tells of a frame, if it does. -/
def item? : Except FrameError (Option Bytes) → Option (Except FrameError Bytes)
  | .ok none => none
  | .ok (some body) => some (.ok body)
  | .error e => some (.error e)

/-- What was told of frames, in the order in which it was. -/
def items (d : Decoder) (past : List Operation) : List (Except FrameError Bytes) :=
  ((d.answers past).filterMap item?).reverse

/-- The first of the frames with these bodies were told, each of them once, and the others
are in the buffer and in the bytes that are still to come. -/
def Accounts (d : Decoder) (past : List Operation) (bodies : List Bytes) (toCome : Bytes) : Prop :=
  ∃ told frames last, bodies = told ++ frames.map Prod.snd ∧ List.Forall₂ d.Reports (d.items past) told ∧
    Clear frames last ∧ d.bufferAfter past ++ toCome = train frames last

variable {d : Decoder} {past : List Operation} {buffer toCome last : Bytes}
variable {frames : List (Bytes × Bytes)}

theorem items_decode (d : Decoder) (past : List Operation) :
    d.items (.decode :: past) = d.items past ++ (item? (d.decode (d.bufferAfter past)).1).toList := by
  have more : d.answers (.decode :: past) = (d.decode (d.bufferAfter past)).1 :: d.answers past := rfl
  unfold items
  rw [more]
  cases told : item? (d.decode (d.bufferAfter past)).1 <;> simp [told]

/-- A decode call tells of the first frame or of none, and what it leaves in the buffer goes
on with the frames after it. -/
theorem decode_train (d : Decoder) (clear : Clear frames last) (whole : buffer ++ toCome = train frames last) :
    ∃ told others end', frames.map Prod.snd = told ++ others.map Prod.snd ∧
      List.Forall₂ d.Reports (item? (d.decode buffer).1).toList told ∧ Clear others end' ∧
      (d.decode buffer).2 ++ toCome = train others end' := by
  have reading := reading_decode d buffer
  generalize d.decode buffer = result at reading ⊢
  rcases result with ⟨answer, left⟩
  dsimp only at reading ⊢
  cases reading with
  | noise free =>
    obtain ⟨others, end', same, cleared, rest⟩ := clear.drop_noise free whole
    exact ⟨[], others, end', same.symm, .nil, cleared, rest⟩
  | @closed noise body later free unclosed =>
    have opened : noise ++ opening :: (body ++ closing :: (left ++ toCome)) = train frames last := by
      simpa using whole
    obtain ⟨body', others, rfl, cut⟩ := clear.first_frame free opened
    have plain := (clear.plain _ (List.mem_cons_self ..)).2
    obtain ⟨rfl, rest⟩ := cut_at_first unclosed plain cut
    exact ⟨[body], others, last, rfl, .cons (.read body) .nil, clear.tail, rest⟩
  | @unclosed noise inside free unclosed short =>
    have opened : noise ++ opening :: (inside ++ toCome) = train frames last := by simpa using whole
    obtain ⟨body, others, rfl, cut⟩ := clear.first_frame free opened
    have plain := clear.plain _ (List.mem_cons_self ..)
    refine ⟨[], ([], body) :: others, last, rfl, .nil, clear.tail.cons List.not_mem_nil plain, ?_⟩
    rw [train_cons, List.cons_append, cut, List.nil_append]
  | @tooLong noise inside free unclosed long =>
    have opened : noise ++ opening :: (inside ++ toCome) = train frames last := by simpa using whole
    obtain ⟨body, others, rfl, cut⟩ := clear.first_frame free opened
    -- What is still to come of the body, and its closing byte, are noise from now on.
    obtain ⟨more, split, rest⟩ := part_before unclosed cut
    have plain := (clear.plain _ (List.mem_cons_self ..)).1
    have quiet : opening ∉ more ++ [closing] := by
      simp only [split, List.mem_append, not_or] at plain
      simp only [List.mem_append, List.mem_singleton, not_or]
      exact ⟨plain.2, by decide⟩
    obtain ⟨frames', end', same, cleared, joined⟩ := clear.tail.add_noise quiet
    have exceeds : d.limit < body.length := by
      rw [split, List.length_append]
      omega
    refine ⟨[body], frames', end', ?_, .cons (.refused exceeds) .nil, cleared, ?_⟩
    · rw [List.map_cons, same]
      rfl
    · rw [← joined, rest]
      simp

/-- All frames are accounted for, whatever has arrived and was read in whatever order. -/
theorem accounts (d : Decoder) (clear : Clear frames last)
    (arrives : arrived past ++ toCome = train frames last) : d.Accounts past (frames.map Prod.snd) toCome := by
  induction past generalizing toCome with
  | nil => exact ⟨[], frames, last, rfl, .nil, clear, arrives⟩
  | cons operation past ih =>
    cases operation with
    | feed chunk =>
      have before : arrived past ++ (chunk ++ toCome) = train frames last := by
        rw [← List.append_assoc]
        exact arrives
      obtain ⟨told, others, end', same, reports, cleared, rest⟩ := ih before
      refine ⟨told, others, end', same, reports, cleared, ?_⟩
      rw [← rest, ← List.append_assoc]
      rfl
    | decode =>
      obtain ⟨told, others, end', same, reports, cleared, rest⟩ := ih arrives
      obtain ⟨next, others', end'', split, more, cleared', rest'⟩ := d.decode_train cleared rest
      refine ⟨told ++ next, others', end'', ?_, ?_, cleared', rest'⟩
      · rw [same, split, List.append_assoc]
      · rw [items_decode]
        exact List.rel_append reports more

theorem Accounts.length_items {bodies : List Bytes} (accounts : d.Accounts past bodies toCome) :
    (d.items past).length ≤ bodies.length := by
  obtain ⟨told, _, _, rfl, reports, _⟩ := accounts
  rw [reports.length_eq, List.length_append]
  omega

/-- When all has arrived and a decode call finds no frame, nothing is left. -/
theorem Accounts.drained {bodies : List Bytes} (accounts : d.Accounts past bodies []) (drained : d.Drained past) :
    List.Forall₂ d.Reports (d.items past) bodies ∧ d.bufferAfter past = [] := by
  obtain ⟨earlier, rfl, vain⟩ := drained
  obtain ⟨told, frames, last, rfl, reports, clear, rest⟩ := accounts
  have buffer : d.bufferAfter (.decode :: earlier) = (d.decode (d.bufferAfter earlier)).2 := rfl
  rw [buffer] at rest ⊢
  rcases left_of_vain vain with left | ⟨inside, unclosed, _, left⟩
  · rw [left] at rest
    cases frames with
    | nil => exact ⟨by simpa using reports, left⟩
    | cons frame frames =>
      rw [train_cons] at rest
      simp at rest
  · rw [left] at rest
    have opened : [] ++ opening :: inside = train frames last := by simpa using rest
    obtain ⟨body, later, _, cut⟩ := clear.first_frame List.not_mem_nil opened
    exact absurd (by simp [cut]) unclosed

/-- A decode call that finds no frame finds none when it is repeated. -/
theorem Drained.again (drained : d.Drained past) : d.Drained (.decode :: past) := by
  obtain ⟨earlier, rfl, vain⟩ := drained
  have buffer : d.bufferAfter (.decode :: earlier) = (d.decode (d.bufferAfter earlier)).2 := rfl
  refine ⟨_, rfl, ?_⟩
  rw [buffer]
  rcases left_of_vain vain with left | ⟨inside, unclosed, short, left⟩
  · rw [left]
    rfl
  · have again : d.decode (opening :: inside) = _ := decode_open d List.not_mem_nil unclosed
    rw [left, again, if_neg (Nat.not_lt_of_le short)]

theorem drain_items (d : Decoder) (past : List Operation) (n : Nat) :
    d.Drained (List.replicate n .decode ++ past) ∨
      (d.items past).length + n ≤ (d.items (List.replicate n .decode ++ past)).length := by
  induction n with
  | zero => exact Or.inr le_rfl
  | succ n ih =>
    have more : List.replicate (n + 1) .decode ++ past = .decode :: (List.replicate n .decode ++ past) := rfl
    rw [more]
    rcases ih with drained | enough
    · exact Or.inl drained.again
    · rcases read : (d.decode (d.bufferAfter (List.replicate n .decode ++ past))).1 with error | _ | body
      · refine Or.inr ?_
        rw [items_decode, read, List.length_append]
        simp only [item?, Option.toList_some, List.length_singleton]
        omega
      · exact Or.inl ⟨_, rfl, read⟩
      · refine Or.inr ?_
        rw [items_decode, read, List.length_append]
        simp only [item?, Option.toList_some, List.length_singleton]
        omega

/-- Frames are told of one by one, in order, whatever chunks they arrive in and whenever
decode calls are made: a frame within the limit by its body, and a longer one by its body
or by one refusal. No more decode calls than there are frames are needed until one finds
none, and once all has arrived, all frames have been told then. -/
theorem frames_are_told_once (clear : Clear frames last) (arrives : arrived past <+: train frames last) :
    (∃ told rest, frames.map Prod.snd = told ++ rest ∧ List.Forall₂ d.Reports (d.items past) told) ∧
    (∀ n, frames.length < (d.items past).length + n → d.Drained (List.replicate n .decode ++ past)) ∧
    (arrived past = train frames last → d.Drained past →
      List.Forall₂ d.Reports (d.items past) (frames.map Prod.snd) ∧ d.bufferAfter past = []) := by
  obtain ⟨toCome, whole⟩ := arrives
  refine ⟨?_, fun n enough => ?_, fun complete drained => ?_⟩
  · obtain ⟨told, others, _, same, reports, _⟩ := d.accounts clear whole
    exact ⟨told, others.map Prod.snd, same, reports⟩
  · refine (d.drain_items past n).resolve_right fun many => ?_
    rw [← arrived_drain n past] at whole
    have few := (d.accounts clear whole).length_items
    rw [List.length_map] at few
    omega
  · rw [← List.append_nil (arrived past)] at complete
    exact (d.accounts clear complete).drained drained

/-- Of two frames that are too long one is refused and the other read, and those beside
them are read. -/
theorem long_frame_in_pieces :
    let d : Decoder := { limit := 3 }
    let frames : List (Bytes × Bytes) :=
      [([3, 10], [97]), ([], [98, 98, 98, 98, 98, 98]), ([10], [99, 99, 99, 99]), ([], [])]
    let drain : List Operation := List.replicate 5 .decode
    let past := drain ++ .feed [98, 98, 3, 10, 2, 99, 99, 99, 99, 3, 2, 3, 3] ::
      (drain ++ [.feed [3, 10, 2, 97, 3, 2, 98, 98, 98, 98]])
    arrived past = train frames [3] ∧
      d.items past = [.ok [97], .error (.tooLong 3), .ok [99, 99, 99, 99], .ok []] ∧
      List.Forall₂ d.Reports (d.items past) (frames.map Prod.snd) ∧ d.bufferAfter past = [] := by
  intro d frames drain past
  have clear : Clear frames [3] := ⟨by decide, by decide, by decide⟩
  have complete : arrived past = train frames [3] := by decide
  have arrives : arrived past <+: train frames [3] := complete ▸ List.prefix_refl _
  have drained : d.Drained past := ⟨_, rfl, by decide⟩
  obtain ⟨reports, left⟩ := (frames_are_told_once clear arrives).2.2 complete drained
  exact ⟨complete, by decide, reports, left⟩

end Decoder

end LiveTiming
