import LiveTiming.Proofs.Decoding

namespace LiveTiming

open LiveTiming.Frame

/-- What a stream has shown so far: the bodies of the frames that are closed, in order,
and the inside of one that is still open. -/
@[ext]
structure Frame.Scan where
  bodies : List Bytes := []
  inside : Option Bytes := none

namespace Frame.Scan

/-- One more byte of a stream. Between frames only an opening byte counts, and inside of
one only a closing byte does. -/
def next : Scan → UInt8 → Scan
  | ⟨bodies, none⟩, b => if b = opening then ⟨bodies, some []⟩ else ⟨bodies, none⟩
  | ⟨bodies, some inside⟩, b =>
    if b = closing then ⟨bodies ++ [inside], none⟩ else ⟨bodies, some (inside ++ [b])⟩

/-- Some more bytes of a stream. -/
def extend (s : Scan) (bytes : Bytes) : Scan :=
  bytes.foldl next s

/-- The same with frames that were closed earlier. -/
def behind (earlier : List Bytes) (s : Scan) : Scan :=
  ⟨earlier ++ s.bodies, s.inside⟩

/-- The bodies of all frames, and the open one's as far as it goes. -/
def contents (s : Scan) : List Bytes :=
  s.bodies ++ s.inside.toList

/-- The bytes that belong to a frame which is still open. -/
def left (s : Scan) : Bytes :=
  match s.inside with
  | none => []
  | some inside => opening :: inside

end Frame.Scan

/-- The frames of a whole stream. -/
def Frame.scan (stream : Bytes) : Scan :=
  ({} : Scan).extend stream

namespace Frame.Scan

variable {noise inside body later bytes : Bytes}

theorem next_behind (earlier : List Bytes) (s : Scan) (b : UInt8) :
    (s.behind earlier).next b = (s.next b).behind earlier := by
  rcases s with ⟨bodies, _ | inside⟩
  · by_cases opens : b = opening <;> simp [behind, next, opens]
  · by_cases closes : b = closing <;> simp [behind, next, closes]

theorem extend_behind (earlier : List Bytes) (s : Scan) (bytes : Bytes) :
    (s.behind earlier).extend bytes = (s.extend bytes).behind earlier := by
  induction bytes generalizing s with
  | nil => rfl
  | cons b bytes ih =>
    have first : (s.behind earlier).extend (b :: bytes) = ((s.next b).behind earlier).extend bytes := by
      rw [← next_behind]
      rfl
    rw [first, ih]
    rfl

theorem extend_append (s : Scan) (a b : Bytes) : s.extend (a ++ b) = (s.extend a).extend b :=
  List.foldl_append

theorem scan_append (a b : Bytes) : scan (a ++ b) = (scan a).extend b :=
  extend_append _ a b

theorem extend_noise (bodies : List Bytes) (free : opening ∉ noise) :
    extend ⟨bodies, none⟩ noise = ⟨bodies, none⟩ := by
  induction noise with
  | nil => rfl
  | cons b noise ih =>
    obtain ⟨different, rest⟩ := not_or.mp (mt List.mem_cons.mpr free)
    have first : next ⟨bodies, none⟩ b = ⟨bodies, none⟩ := if_neg (Ne.symm different)
    unfold extend
    rw [List.foldl_cons, first]
    exact ih rest

theorem extend_inside (bodies : List Bytes) (unclosed : closing ∉ bytes) :
    extend ⟨bodies, some inside⟩ bytes = ⟨bodies, some (inside ++ bytes)⟩ := by
  induction bytes generalizing inside with
  | nil => simp [extend]
  | cons b bytes ih =>
    obtain ⟨different, rest⟩ := not_or.mp (mt List.mem_cons.mpr unclosed)
    have first : next ⟨bodies, some inside⟩ b = ⟨bodies, some (inside ++ [b])⟩ := if_neg (Ne.symm different)
    have others : extend ⟨bodies, some (inside ++ [b])⟩ bytes = ⟨bodies, some (inside ++ [b] ++ bytes)⟩ :=
      ih rest
    unfold extend at others ⊢
    rw [List.foldl_cons, first, others, List.append_assoc, List.singleton_append]

theorem scan_noise (free : opening ∉ noise) : scan noise = {} :=
  extend_noise [] free

theorem scan_inside (unclosed : closing ∉ inside) : scan (opening :: inside) = ⟨[], some inside⟩ :=
  extend_inside [] unclosed

theorem scan_open (free : opening ∉ noise) (unclosed : closing ∉ inside) :
    scan (noise ++ opening :: inside) = ⟨[], some inside⟩ := by
  rw [scan_append, scan_noise free]
  exact extend_inside [] unclosed

/-- The first frame of a stream and the frames of the rest are all frames of the stream. -/
theorem scan_closed (free : opening ∉ noise) (unclosed : closing ∉ body) :
    scan (noise ++ opening :: (body ++ closing :: later)) = (scan later).behind [body] := by
  have split : noise ++ opening :: (body ++ closing :: later) =
      (noise ++ opening :: body) ++ closing :: later := by simp
  have first : next ⟨[], some body⟩ closing = behind [body] {} := rfl
  rw [split, scan_append, scan_open free unclosed]
  unfold extend
  rw [List.foldl_cons, first]
  exact extend_behind [body] {} later

/-- Frames that are closed stay as they are, and an open one can only grow. -/
theorem extend_grows (s : Scan) (bytes : Bytes) :
    s.bodies <+: (s.extend bytes).bodies ∧
      ∀ inside ∈ s.inside, ∃ body ∈ (s.extend bytes).contents, inside <+: body := by
  induction bytes generalizing s with
  | nil =>
    refine ⟨List.prefix_refl _, fun inside stays => ⟨inside, ?_, List.prefix_refl _⟩⟩
    exact List.mem_append_right _ (Option.mem_toList.mpr stays)
  | cons b bytes ih =>
    obtain ⟨closed, grown⟩ := ih (s.next b)
    have rest : s.extend (b :: bytes) = (s.next b).extend bytes := rfl
    rw [rest]
    rcases s with ⟨bodies, _ | inside⟩
    · have same : (next ⟨bodies, none⟩ b).bodies = bodies := by
        by_cases opens : b = opening <;> simp [next, opens]
      rw [same] at closed
      exact ⟨closed, by simp⟩
    · by_cases closes : b = closing
      · have shut : next ⟨bodies, some inside⟩ b = ⟨bodies ++ [inside], none⟩ := if_pos closes
        rw [shut] at closed ⊢
        have read : inside ∈ (extend ⟨bodies ++ [inside], none⟩ bytes).bodies := closed.subset (by simp)
        refine ⟨(List.prefix_append _ _).trans closed, fun before same => ⟨inside, ?_, ?_⟩⟩
        · exact List.mem_append_left _ read
        · cases Option.mem_some.mp same
          exact List.prefix_refl _
      · have stays : next ⟨bodies, some inside⟩ b = ⟨bodies, some (inside ++ [b])⟩ := if_neg closes
        rw [stays] at closed grown ⊢
        obtain ⟨body, member, more⟩ := grown (inside ++ [b]) rfl
        refine ⟨closed, fun before same => ⟨body, member, ?_⟩⟩
        cases Option.mem_some.mp same
        exact (List.prefix_append _ _).trans more

end Frame.Scan

namespace Decoder

variable {d : Decoder} {stream : Bytes} {past : List Operation}

/-- The bytes that have arrived in some operations. -/
def arrived : List Operation → Bytes
  | [] => []
  | .feed chunk :: past => arrived past ++ chunk
  | .decode :: past => arrived past

/-- The body that an answer gives. -/
def body? : Except FrameError (Option Bytes) → Option Bytes
  | .ok body => body
  | .error _ => none

/-- The bodies that were read, in the order in which they were. -/
def bodies (d : Decoder) (past : List Operation) : List Bytes :=
  ((d.answers past).filterMap body?).reverse

/-- The latest operation looked for a frame in vain. -/
def Drained (d : Decoder) (past : List Operation) : Prop :=
  ∃ earlier, past = .decode :: earlier ∧ (d.decode (d.bufferAfter earlier)).1 = .ok none

/-- No frame was refused, and what has arrived are the bodies that were read and what is
in the buffer. -/
structure InStep (d : Decoder) (past : List Operation) : Prop where
  accepted : ∀ error, .error error ∉ d.answers past
  split : scan (arrived past) = (scan (d.bufferAfter past)).behind (d.bodies past)

theorem bodies_decode (d : Decoder) (past : List Operation) :
    d.bodies (.decode :: past) =
      d.bodies past ++ (body? (d.decode (d.bufferAfter past)).1).toList := by
  have more : d.answers (.decode :: past) = (d.decode (d.bufferAfter past)).1 :: d.answers past := rfl
  unfold bodies
  rw [more]
  cases read : body? (d.decode (d.bufferAfter past)).1 <;> simp [read]

theorem arrived_drain (n : Nat) (past : List Operation) :
    arrived (List.replicate n .decode ++ past) = arrived past := by
  induction n with
  | zero => rfl
  | succ n ih => exact ih

theorem left_of_vain {buffer : Bytes} (vain : (d.decode buffer).1 = .ok none) :
    (d.decode buffer).2 = [] ∨
      ∃ inside, closing ∉ inside ∧ inside.length ≤ d.limit ∧ (d.decode buffer).2 = opening :: inside := by
  have reading := reading_decode d buffer
  rw [vain] at reading
  generalize (d.decode buffer).2 = left at reading
  cases reading with
  | noise => exact Or.inl rfl
  | unclosed _ unclosed short => exact Or.inr ⟨_, unclosed, short, rfl⟩

namespace InStep

theorem start (d : Decoder) : InStep d [] :=
  ⟨by simp [answers], rfl⟩

theorem feed (inStep : InStep d past) (chunk : Bytes) : InStep d (.feed chunk :: past) where
  accepted := inStep.accepted
  split := by
    unfold arrived bufferAfter
    rw [Scan.scan_append, inStep.split, Scan.scan_append, Scan.extend_behind]
    rfl

/-- A decode call keeps step unless it finds an open frame that is too long. -/
theorem decode (inStep : InStep d past)
    (short : ∀ inside ∈ (scan (arrived past)).inside, inside.length ≤ d.limit) :
    InStep d (.decode :: past) := by
  obtain ⟨accepted, split⟩ := inStep
  have reading := reading_decode d (d.bufferAfter past)
  have read := bodies_decode d past
  have same : arrived (.decode :: past) = arrived past := rfl
  rw [split] at short
  suffices kept : (∀ error, (d.decode (d.bufferAfter past)).1 ≠ .error error) ∧
      (scan (d.bufferAfter past)).behind (d.bodies past) =
        (scan (d.decode (d.bufferAfter past)).2).behind
          (d.bodies past ++ (body? (d.decode (d.bufferAfter past)).1).toList) by
    refine ⟨fun error member => ?_, ?_⟩
    · exact (List.mem_cons.mp member).elim (fun first => kept.1 error first.symm) (accepted error)
    · rw [same, split, read]
      exact kept.2
  generalize d.bodies past = earlier at short ⊢
  generalize d.bufferAfter past = buffer at short reading ⊢
  generalize d.decode buffer = result at reading ⊢
  rcases result with ⟨answer, left⟩
  dsimp only at reading ⊢
  cases reading with
  | noise free =>
    refine ⟨nofun, ?_⟩
    rw [Scan.scan_noise free]
    simp [body?, Scan.behind, scan, Scan.extend]
  | closed free unclosed =>
    refine ⟨nofun, ?_⟩
    rw [Scan.scan_closed free unclosed]
    simp [body?, Scan.behind]
  | unclosed free unclosed =>
    refine ⟨nofun, ?_⟩
    rw [Scan.scan_open free unclosed, Scan.scan_inside unclosed]
    simp [body?]
  | tooLong free unclosed long =>
    rw [Scan.scan_open free unclosed] at short
    exact absurd (short _ rfl) (Nat.not_le_of_lt long)

/-- A decoder keeps step with every part of a stream whose bodies are within its limit. -/
theorem of_short (short : ∀ body ∈ (scan stream).contents, body.length ≤ d.limit)
    (arrives : arrived past <+: stream) : InStep d past := by
  induction past with
  | nil => exact .start d
  | cons operation past ih =>
    cases operation with
    | feed chunk => exact (ih ((List.prefix_append _ _).trans arrives)).feed chunk
    | decode =>
      have before : arrived past <+: stream := arrives
      refine (ih before).decode fun inside unclosed => ?_
      obtain ⟨rest, rfl⟩ := before
      have grows := (Scan.extend_grows (scan (arrived past)) rest).2 inside unclosed
      rw [← Scan.scan_append] at grows
      obtain ⟨body, member, more⟩ := grows
      exact more.length_le.trans (short body member)

/-- What was read are the first frames of what has arrived. -/
theorem read_first (inStep : InStep d past) : d.bodies past <+: (scan (arrived past)).bodies := by
  rw [inStep.split]
  exact List.prefix_append _ _

/-- When a decode call finds no frame, the open one is all that is left. -/
theorem drained (inStep : InStep d past) (drained : d.Drained past) :
    d.bodies past = (scan (arrived past)).bodies ∧ d.bufferAfter past = (scan (arrived past)).left := by
  obtain ⟨earlier, rfl, vain⟩ := drained
  have buffer : d.bufferAfter (.decode :: earlier) = (d.decode (d.bufferAfter earlier)).2 := rfl
  rw [inStep.split, buffer]
  rcases left_of_vain vain with left | ⟨inside, unclosed, _, left⟩
  · have none : scan [] = {} := rfl
    rw [left, none]
    simp [Scan.behind, Scan.left]
  · rw [left, Scan.scan_inside unclosed]
    simp [Scan.behind, Scan.left]

theorem decode_advances (inStep : InStep d past)
    (short : ∀ inside ∈ (scan (arrived past)).inside, inside.length ≤ d.limit) :
    d.Drained (.decode :: past) ∨ (d.bodies (.decode :: past)).length = (d.bodies past).length + 1 := by
  have accepted := (inStep.decode short).accepted
  rw [bodies_decode]
  rcases read : (d.decode (d.bufferAfter past)).1 with error | _ | body
  · exact absurd (List.mem_cons.mpr (Or.inl read.symm)) (accepted error)
  · exact Or.inl ⟨past, rfl, read⟩
  · exact Or.inr (by simp [body?])

theorem drain (inStep : InStep d past)
    (short : ∀ inside ∈ (scan (arrived past)).inside, inside.length ≤ d.limit) (n : Nat) :
    InStep d (List.replicate n .decode ++ past) ∧
      min (scan (arrived past)).bodies.length ((d.bodies past).length + n) ≤
        (d.bodies (List.replicate n .decode ++ past)).length := by
  induction n with
  | zero => exact ⟨inStep, Nat.min_le_right _ _⟩
  | succ n ih =>
    obtain ⟨before, read⟩ := ih
    have same := arrived_drain n past
    rw [← same] at short
    have after := before.decode short
    have more : List.replicate (n + 1) .decode ++ past = .decode :: (List.replicate n .decode ++ past) := rfl
    rw [more]
    refine ⟨after, ?_⟩
    rcases before.decode_advances short with vain | advanced
    · have all := congrArg List.length (after.drained vain).1
      have arrivedSame : arrived (.decode :: (List.replicate n .decode ++ past)) = arrived past := same
      rw [arrivedSame] at all
      omega
    · omega

/-- One decode call for each frame that has arrived and is not read yet, and one more, read
all of them and then look for a frame in vain. -/
theorem drains (inStep : InStep d past)
    (short : ∀ inside ∈ (scan (arrived past)).inside, inside.length ≤ d.limit) {n : Nat}
    (enough : (scan (arrived past)).bodies.length < (d.bodies past).length + n) :
    d.Drained (List.replicate n .decode ++ past) := by
  cases n with
  | zero =>
    have read := inStep.read_first.length_le
    omega
  | succ n =>
    obtain ⟨before, read⟩ := inStep.drain short n
    have same := arrived_drain n past
    rw [← same] at short enough read
    have more : List.replicate (n + 1) .decode ++ past = .decode :: (List.replicate n .decode ++ past) := rfl
    rw [more]
    refine (before.decode_advances short).resolve_right fun advanced => ?_
    have most : (d.bodies (.decode :: (List.replicate n .decode ++ past))).length ≤
        (scan (arrived (List.replicate n .decode ++ past))).bodies.length :=
      (before.decode short).read_first.length_le
    omega

end InStep

theorem Drained.finish (drained : d.Drained past) :
    d.finish (d.bufferAfter past) =
      (if d.bufferAfter past = [] then .ok none else .error (.transport "bytes remaining on stream"),
        d.bufferAfter past) := by
  obtain ⟨earlier, rfl, vain⟩ := drained
  have buffer : d.bufferAfter (.decode :: earlier) = (d.decode (d.bufferAfter earlier)).2 := rfl
  rw [buffer]
  rcases left_of_vain vain with left | ⟨inside, unclosed, short, left⟩
  · rw [left]
    rfl
  · have again : d.decode (opening :: inside) = _ := decode_open d List.not_mem_nil unclosed
    rw [if_neg (Nat.not_lt_of_le short)] at again
    rw [left]
    unfold Decoder.finish
    rw [again]
    rfl

/-- It does not matter how a stream is cut into chunks and when frames are looked for in
between, as long as no body in it exceeds the limit: no call fails, and what was read are
the first frames of the whole stream. Once everything has arrived, decode calls read the
rest of them, and then the buffer and the answer at the end of the stream are the same as
when it arrives in one piece. -/
theorem chunks_do_not_matter (short : ∀ body ∈ (scan stream).contents, body.length ≤ d.limit)
    (arrives : arrived past <+: stream) :
    (∀ error, .error error ∉ d.answers past) ∧ d.bodies past <+: (scan stream).bodies ∧
    (arrived past = stream →
      (∀ n, (scan stream).bodies.length < (d.bodies past).length + n →
        d.Drained (List.replicate n .decode ++ past)) ∧
      (d.Drained past →
        d.bodies past = (scan stream).bodies ∧ d.bufferAfter past = (scan stream).left ∧
        d.finish (d.bufferAfter past) =
          (if (scan stream).left = [] then .ok none else .error (.transport "bytes remaining on stream"),
            (scan stream).left) ∧
        ∀ n, (scan stream).bodies.length < n →
          let whole := List.replicate n .decode ++ [.feed stream]
          d.bodies past = d.bodies whole ∧ d.bufferAfter past = d.bufferAfter whole ∧
            d.finish (d.bufferAfter past) = d.finish (d.bufferAfter whole))) := by
  have inStep := InStep.of_short short arrives
  have openShort : ∀ inside ∈ (scan stream).inside, inside.length ≤ d.limit := fun inside unclosed =>
    short inside (List.mem_append_right _ (Option.mem_toList.mpr unclosed))
  have first : d.bodies past <+: (scan stream).bodies := by
    obtain ⟨rest, rfl⟩ := arrives
    rw [Scan.scan_append]
    exact inStep.read_first.trans (Scan.extend_grows _ rest).1
  refine ⟨inStep.accepted, first, fun complete => ⟨fun n enough => ?_, fun drained => ?_⟩⟩
  · rw [← complete] at openShort enough
    exact inStep.drains openShort enough
  · obtain ⟨read, left⟩ := inStep.drained drained
    rw [complete] at read left
    refine ⟨read, left, left ▸ drained.finish, fun n enough => ?_⟩
    have piece : InStep d [.feed stream] := (InStep.start d).feed stream
    have arrivedPiece : arrived (List.replicate n .decode ++ [.feed stream]) = stream :=
      arrived_drain n [.feed stream]
    have drainedPiece : d.Drained (List.replicate n .decode ++ [.feed stream]) :=
      piece.drains openShort (enough.trans_le (Nat.le_add_left _ _))
    obtain ⟨readPiece, leftPiece⟩ := (piece.drain openShort n).1.drained drainedPiece
    rw [arrivedPiece] at readPiece leftPiece
    have sameBuffer := left.trans leftPiece.symm
    exact ⟨read.trans readPiece.symm, sameBuffer, congrArg d.finish sameBuffer⟩

/-- A frame that holds an opening byte arrives in two chunks, after noise, and another one
does not end. -/
theorem frame_in_two_chunks :
    let d : Decoder := { limit := 3 }
    let stream : Bytes := [10, 2, 97, 2, 98, 3, 3, 2, 99]
    let past : List Operation := [.decode, .decode, .feed [98, 3, 3, 2, 99], .decode, .feed [10, 2, 97, 2]]
    arrived past = stream ∧ d.Drained past ∧ d.bodies past = [[97, 2, 98]] ∧
      d.bufferAfter past = [2, 99] ∧
      d.finish (d.bufferAfter past) = (.error (.transport "bytes remaining on stream"), [2, 99]) := by
  intro d stream past
  have short : ∀ body ∈ (scan stream).contents, body.length ≤ d.limit := by decide
  have complete : arrived past = stream := rfl
  have arrives : arrived past <+: stream := List.prefix_refl stream
  obtain ⟨_, _, rest⟩ := chunks_do_not_matter short arrives
  have drained : d.Drained past := ⟨_, rfl, rfl⟩
  obtain ⟨read, left, finished, _⟩ := (rest complete).2 drained
  exact ⟨complete, drained, read, left, finished⟩

end Decoder

end LiveTiming
