import LiveTiming.Service.Turns
import Mathlib.Data.List.Nodup

namespace LiveTiming

/-- What can happen to the broadcasts and to the registrations: a broadcast begins, it
calls a registered subscriber with a frame, who answers sooner or later, it ends and
evicts some, a subscriber is registered, and the registration with a number is ended. -/
inductive Occurrence
  | began (call : Call)
  | called (e : Entry) (frame : Bytes)
  | answered (e : Entry) (frame : Bytes) (answer : Option Refusal)
  | ended (call : Call) (evicted : List SubscriberId)
  | entered (e : Entry)
  | removed (id : SubscriberId)

/-- Who is registered after some occurrences, of which the latest stands first, when
`entries` were registered before them. -/
def registeredAfter (entries : List Entry) : List Occurrence → List Entry
  | [] => entries
  | .entered e :: past => registeredAfter entries past ++ [e]
  | .removed id :: past => (registeredAfter entries past).filter (·.id != id)
  | .ended _ evicted :: past => (registeredAfter entries past).filter (!evicted.contains ·.id)
  | .began _ :: past | .called _ _ :: past | .answered .. :: past => registeredAfter entries past

/-- Who was ever registered. -/
def joined (entries : List Entry) : List Occurrence → List Entry
  | [] => entries
  | .entered e :: past => joined entries past ++ [e]
  | .began _ :: past | .called _ _ :: past | .answered .. :: past | .ended .. :: past
  | .removed _ :: past => joined entries past

/-- The broadcast that is under way. -/
def underway : List Occurrence → Option Call
  | [] => none
  | .began call :: _ => some call
  | .ended .. :: _ => none
  | .called _ _ :: past | .answered .. :: past | .entered _ :: past | .removed _ :: past => underway past

/-- Who was registered when the broadcast under way began. -/
def audience (entries : List Entry) : List Occurrence → List Entry
  | [] => []
  | .began _ :: past => registeredAfter entries past
  | .ended .. :: _ => []
  | .called _ _ :: past | .answered .. :: past | .entered _ :: past | .removed _ :: past =>
    audience entries past

/-- Whom the broadcast under way has called, in turn. -/
def reached : List Occurrence → List Entry
  | [] => []
  | .began _ :: _ | .ended .. :: _ => []
  | .called e _ :: past => reached past ++ [e]
  | .answered .. :: past | .entered _ :: past | .removed _ :: past => reached past

/-- The subscriber that was called and has not answered, and the frame. -/
def calling : List Occurrence → Option (Entry × Bytes)
  | [] => none
  | .began _ :: _ | .ended .. :: _ | .answered .. :: _ => none
  | .called e frame :: _ => some (e, frame)
  | .entered _ :: past | .removed _ :: past => calling past

/-- Those who have answered the broadcast under way that they are gone. -/
def lost : List Occurrence → List SubscriberId
  | [] => []
  | .began _ :: _ | .ended .. :: _ => []
  | .answered e _ answer :: past => if answer.any (·.isFinal) then lost past ++ [e.id] else lost past
  | .called _ _ :: past | .entered _ :: past | .removed _ :: past => lost past

/-- Nobody is left to call, and nobody has to answer. -/
def Settled (entries : List Entry) (past : List Occurrence) : Prop :=
  calling past = none ∧ reached past = audience entries past

/-- Whether an occurrence is one that may come after some others. -/
def Occurrence.Follows (entries : List Entry) (past : List Occurrence) : Occurrence → Prop
  | .began _ => underway past = none
  | .called e frame => calling past = none ∧ reached past ++ [e] <+: audience entries past ∧
      ∃ call, underway past = some call ∧ frame = Frame.encode call.message
  | .answered e frame _ => calling past = some (e, frame)
  | .ended call evicted => Settled entries past ∧ underway past = some call ∧ evicted = lost past
  | .entered e => Settled entries past ∧ e.id ∉ (joined entries past).map (·.id)
  | .removed _ => Settled entries past

/-- Every occurrence may come after those before it. -/
def Orderly (entries : List Entry) : List Occurrence → Prop
  | [] => True
  | x :: past => x.Follows entries past ∧ Orderly entries past

/-- Whether an occurrence ends the registration with a number, if there is one. -/
def Occurrence.Ends (id : SubscriberId) : Occurrence → Prop
  | .ended _ evicted => id ∈ evicted
  | .removed other => other = id
  | _ => False

/-- Whether the registration of an entry is the latest of some occurrences, or the entry was
registered before anything happened. -/
def Joins (entries : List Entry) (e : Entry) : List Occurrence → Prop
  | [] => e ∈ entries
  | x :: _ => x = .entered e

/-- The message of a broadcast that begins. -/
def Occurrence.sent? : Occurrence → Option Message
  | .began call => some call.message
  | _ => none

/-- The frame that the subscriber with a number is called with. -/
def Occurrence.heard? (id : SubscriberId) : Occurrence → Option Bytes
  | .called e frame => if e.id = id then some frame else none
  | _ => none

/-- The subscriber that is called. -/
def Occurrence.callee? : Occurrence → Option Entry
  | .called e _ => some e
  | _ => none

/-- What the subscriber that answers was given: its index and the frame. -/
def Occurrence.given? : Occurrence → Option (Nat × Bytes)
  | .answered e frame _ => some (e.subscriber, frame)
  | _ => none

/-- The messages in the order in which their broadcasts began. -/
def sent (past : List Occurrence) : List Message :=
  (past.filterMap Occurrence.sent?).reverse

/-- The frames that the subscriber with a number was called with, in turn. -/
def heard (id : SubscriberId) (past : List Occurrence) : List Bytes :=
  (past.filterMap (Occurrence.heard? id)).reverse

/-- What the subscribers were given, in turn. -/
def given (past : List Occurrence) : List (Nat × Bytes) :=
  (past.filterMap Occurrence.given?).reverse

/-- Who was called, in turn. -/
def callees (past : List Occurrence) : List Entry :=
  (past.filterMap Occurrence.callee?).reverse

/-- The frame of the broadcast under way, if that has not called the subscriber yet. -/
def awaited (entries : List Entry) (e : Entry) (past : List Occurrence) : List Bytes :=
  if e ∈ audience entries past ∧ e ∉ reached past then
    (underway past).toList.map fun call => Frame.encode call.message
  else []

variable {entries : List Entry} {past earlier during later : List Occurrence} {e : Entry}
  {id : SubscriberId}

theorem sent_cons (x : Occurrence) (past : List Occurrence) :
    sent (x :: past) = sent past ++ x.sent?.toList := by
  cases found : x.sent? <;> simp [sent, found]

theorem heard_cons (id : SubscriberId) (x : Occurrence) (past : List Occurrence) :
    heard id (x :: past) = heard id past ++ (x.heard? id).toList := by
  cases found : x.heard? id <;> simp [heard, found]

theorem given_append (later earlier : List Occurrence) :
    given (later ++ earlier) = given earlier ++ given later := by
  simp [given]

theorem heard_append (id : SubscriberId) (later earlier : List Occurrence) :
    heard id (later ++ earlier) = heard id earlier ++ heard id later := by
  simp [heard]

/-- What led to an orderly past was orderly. -/
theorem Orderly.of_append (orderly : Orderly entries (later ++ earlier)) : Orderly entries earlier := by
  induction later with
  | nil => exact orderly
  | cons x later ih => exact ih orderly.2

/-- Whoever has joined has joined for good. -/
theorem joined_grows (entries : List Entry) (later earlier : List Occurrence) :
    joined entries earlier <+: joined entries (later ++ earlier) := by
  induction later with
  | nil => exact List.prefix_refl _
  | cons x later ih =>
    cases x with
    | entered e => exact ih.trans (List.prefix_append _ _)
    | began | called | answered | ended | removed => exact ih

/-- Whoever has joined did so before, or entered since. -/
theorem mem_joined (member : e ∈ joined entries (later ++ earlier)) :
    e ∈ joined entries earlier ∨ .entered e ∈ later := by
  induction later with
  | nil => exact Or.inl member
  | cons x later ih =>
    cases x with
    | entered other =>
      rcases List.mem_append.mp member with old | same
      · exact (ih old).imp_right (List.mem_cons_of_mem _)
      · cases List.mem_singleton.mp same
        exact Or.inr (List.mem_cons_self ..)
    | began | called | answered | ended | removed => exact (ih member).imp_right (List.mem_cons_of_mem _)

theorem joined_mono (later : List Occurrence) (member : id ∈ (joined entries earlier).map (·.id)) :
    id ∈ (joined entries (later ++ earlier)).map (·.id) :=
  ((joined_grows entries later earlier).sublist.map _).subset member

/-- Only those who have joined are registered. -/
theorem registered_sublist (entries : List Entry) (past : List Occurrence) :
    (registeredAfter entries past).Sublist (joined entries past) := by
  induction past with
  | nil => exact List.Sublist.refl _
  | cons x past ih =>
    cases x with
    | entered e => exact ih.append_right [e]
    | ended | removed => exact List.filter_sublist.trans ih
    | began | called | answered => exact ih

/-- Only those who have joined are in the audience of a broadcast. -/
theorem audience_sublist (entries : List Entry) (past : List Occurrence) :
    (audience entries past).Sublist (joined entries past) := by
  induction past with
  | nil => exact List.nil_sublist _
  | cons x past ih =>
    cases x with
    | began => exact registered_sublist entries past
    | ended => exact List.nil_sublist _
    | entered => exact ih.trans (List.sublist_append_left _ _)
    | called | answered | removed => exact ih

/-- Whoever joins does so under a number of his own. -/
theorem joined_nodup (orderly : Orderly entries past) (distinct : (entries.map (·.id)).Nodup) :
    ((joined entries past).map (·.id)).Nodup := by
  induction past with
  | nil => exact distinct
  | cons x past ih =>
    have earlier := ih orderly.2
    cases x with
    | entered e =>
      have fresh : e.id ∉ (joined entries past).map (·.id) := orderly.1.2
      rw [joined, List.map_append, List.map_singleton]
      exact earlier.append (List.nodup_singleton _) (List.disjoint_singleton.mpr fresh)
    | began | called | answered | ended | removed => exact earlier

/-- A broadcast comes to its audience in turn. -/
theorem reached_first (orderly : Orderly entries past) : reached past <+: audience entries past := by
  induction past with
  | nil => exact List.prefix_refl _
  | cons x past ih =>
    cases x with
    | began => exact List.nil_prefix
    | ended => exact List.prefix_refl _
    | called => exact orderly.1.2.1
    | answered | entered | removed => exact ih orderly.2

theorem reached_idle (orderly : Orderly entries past) (idle : underway past = none) : reached past = [] := by
  induction past with
  | nil => rfl
  | cons x past ih =>
    cases x with
    | began => cases idle
    | ended => rfl
    | called =>
      obtain ⟨_, _, call, busy, _⟩ := orderly.1
      exact absurd (idle.symm.trans busy) (by simp)
    | answered | entered | removed => exact ih orderly.2 idle

theorem calling_reached {frame : Bytes} (waits : calling past = some (e, frame)) : e ∈ reached past := by
  induction past with
  | nil => cases waits
  | cons x past ih =>
    cases x with
    | called =>
      cases waits
      exact List.mem_append_right _ (List.mem_singleton_self _)
    | began | answered | ended => cases waits
    | entered | removed => exact ih waits

/-- Until a broadcast ends no other begins, and those who are called are called by it. -/
theorem pass_calls {call : Call} (orderly : Orderly entries (during ++ .began call :: earlier))
    (lasts : ∀ x ∈ during, ∀ c evicted, x ≠ .ended c evicted) :
    underway (during ++ .began call :: earlier) = some call ∧
      audience entries (during ++ .began call :: earlier) = registeredAfter entries earlier ∧
      reached (during ++ .began call :: earlier) = callees during ∧
      (∀ c, .began c ∉ during) ∧
      ∀ e frame, .called e frame ∈ during → frame = Frame.encode call.message := by
  induction during with
  | nil => exact ⟨rfl, rfl, rfl, by simp, by simp⟩
  | cons x during ih =>
    obtain ⟨busy, listeners, calls, single, frames⟩ :=
      ih orderly.2 fun y listed => lasts y (List.mem_cons_of_mem _ listed)
    cases x with
    | began =>
      have idle : underway (during ++ .began call :: earlier) = none := orderly.1
      exact absurd (idle.symm.trans busy) (by simp)
    | ended c evicted => exact absurd rfl (lasts _ (List.mem_cons_self ..) c evicted)
    | called e frame =>
      obtain ⟨_, _, c, under, same⟩ := orderly.1
      cases busy.symm.trans under
      have callsNow : callees during ++ [e] = callees (.called e frame :: during) := by
        simp [callees, Occurrence.callee?]
      refine ⟨busy, listeners, (congrArg (· ++ [e]) calls).trans callsNow, by simpa using single, ?_⟩
      rintro other _ (_ | ⟨_, old⟩)
      · exact same
      · exact frames other _ old
    | answered | entered | removed =>
      exact ⟨busy, listeners, calls, by simpa using single, by simpa using frames⟩

/-- As long as somebody is left to call or has to answer, nobody is registered and no
registration ends. -/
theorem audience_registered (orderly : Orderly entries past) :
    audience entries past = registeredAfter entries past ∨ Settled entries past := by
  induction past with
  | nil => exact Or.inr ⟨rfl, rfl⟩
  | cons x past ih =>
    cases x with
    | began => exact Or.inl rfl
    | called e frame =>
      obtain ⟨_, next, _⟩ := orderly.1
      -- Before a call somebody is left to call, so nothing was settled.
      refine Or.inl ((ih orderly.2).resolve_right fun settled => ?_)
      have longer := next.length_le
      rw [settled.2, List.length_append, List.length_singleton] at longer
      omega
    | answered e frame answer =>
      have waits : calling past = some (e, frame) := orderly.1
      refine Or.inl ((ih orderly.2).resolve_right fun settled => ?_)
      exact absurd (settled.1.symm.trans waits) (by simp)
    | ended => exact Or.inr ⟨rfl, rfl⟩
    | entered => exact Or.inr orderly.1.1
    | removed => exact Or.inr orderly.1

/-- Who is called is registered, and in the audience. -/
theorem called_registered {frame : Bytes} (orderly : Orderly entries (.called e frame :: past)) :
    e ∈ registeredAfter entries past ∧ e ∈ audience entries past := by
  have same : audience entries past = registeredAfter entries past :=
    (audience_registered orderly).resolve_right fun settled => nomatch settled.1
  have member : e ∈ audience entries past := orderly.1.2.1.subset (by simp)
  exact ⟨same ▸ member, member⟩

/-- Who answers is registered still. -/
theorem answered_registered {frame : Bytes} {answer : Option Refusal}
    (orderly : Orderly entries (.answered e frame answer :: past)) : e ∈ registeredAfter entries past := by
  have waits : calling past = some (e, frame) := orderly.1
  have same : audience entries past = registeredAfter entries past :=
    (audience_registered orderly.2).resolve_right fun settled => absurd (settled.1.symm.trans waits) (by simp)
  exact same ▸ (reached_first orderly.2).subset (calling_reached waits)

/-- A broadcast calls nobody twice. -/
theorem called_fresh {frame : Bytes} (orderly : Orderly entries (.called e frame :: past))
    (distinct : (entries.map (·.id)).Nodup) : e.id ∉ (reached past).map (·.id) := by
  have ids : ((audience entries past).map (·.id)).Nodup :=
    (joined_nodup orderly.2 distinct).sublist ((audience_sublist entries past).map _)
  have next : ((reached past ++ [e]).map (·.id)).Nodup :=
    ids.sublist (orderly.1.2.1.sublist.map _)
  rw [List.map_append] at next
  exact fun member => List.disjoint_of_nodup_append next member (List.mem_singleton_self _)

/-- Who is gone hears nothing, and does not come back. -/
theorem gone_step {x : Occurrence} (orderly : Orderly entries (x :: past))
    (known : id ∈ (joined entries past).map (·.id))
    (gone : id ∉ (registeredAfter entries past).map (·.id)) :
    x.heard? id = none ∧ id ∉ (registeredAfter entries (x :: past)).map (·.id) := by
  cases x with
  | began | answered => exact ⟨rfl, gone⟩
  | called e frame =>
    have other : e.id ≠ id := fun same => gone (same ▸ List.mem_map_of_mem (called_registered orderly).1)
    exact ⟨if_neg other, gone⟩
  | ended | removed => exact ⟨rfl, fun member => gone ((List.filter_sublist.map _).subset member)⟩
  | entered e =>
    have fresh : e.id ∉ (joined entries past).map (·.id) := orderly.1.2
    have other : id ≠ e.id := fun same => fresh (same ▸ known)
    refine ⟨rfl, fun member => ?_⟩
    rw [registeredAfter, List.map_append] at member
    exact (List.mem_append.mp member).elim gone fun last => other (List.mem_singleton.mp last)

/-- Who is not registered any more is not called and not registered again. -/
theorem silent_while_gone (orderly : Orderly entries (later ++ earlier))
    (known : id ∈ (joined entries earlier).map (·.id))
    (gone : id ∉ (registeredAfter entries earlier).map (·.id)) :
    heard id later = [] ∧ id ∉ (registeredAfter entries (later ++ earlier)).map (·.id) := by
  induction later with
  | nil => exact ⟨rfl, gone⟩
  | cons x later ih =>
    obtain ⟨silent, still⟩ := ih orderly.2
    obtain ⟨uncalled, after⟩ := gone_step orderly (joined_mono later known) still
    exact ⟨by rw [heard_cons, silent, uncalled]; rfl, after⟩

/-- Who has not joined has heard nothing. -/
theorem silent_before (orderly : Orderly entries past) (unknown : id ∉ (joined entries past).map (·.id)) :
    heard id past = [] := by
  induction past with
  | nil => rfl
  | cons x past ih =>
    have before : id ∉ (joined entries past).map (·.id) := fun member =>
      unknown (joined_mono [x] member)
    rw [heard_cons, ih orderly.2 before, List.nil_append]
    cases x with
    | began | answered | ended | entered | removed => rfl
    | called e frame =>
      have other : e.id ≠ id := fun same => before (same ▸ List.mem_map_of_mem
        ((registered_sublist entries past).subset (called_registered orderly).1))
      simp [Occurrence.heard?, other]

/-- A registration that has ended is gone. -/
theorem gone_of_ends {x : Occurrence} (ends : x.Ends id) :
    id ∉ (registeredAfter entries (x :: past)).map (·.id) := by
  cases x with
  | began | called | answered | entered => cases ends
  | ended call evicted =>
    have listed : id ∈ evicted := ends
    simp only [registeredAfter, List.mem_map, List.mem_filter, not_exists, not_and]
    rintro e ⟨_, stays⟩ rfl
    simp [listed] at stays
  | removed other =>
    have same : other = id := ends
    simp [registeredAfter, same]

/-- No registration ends while a broadcast is on its way. -/
theorem settled_of_ends {x : Occurrence} (follows : x.Follows entries past) (ends : x.Ends id) :
    Settled entries past := by
  cases x with
  | began | called | answered | entered => cases ends
  | ended => exact follows.1
  | removed => exact follows

theorem awaited_settled (settled : Settled entries past) : awaited entries e past = [] :=
  if_neg fun ⟨member, uncalled⟩ => uncalled (settled.2 ▸ member)

/-- Nothing is on its way to those who are gone. -/
theorem awaited_gone (orderly : Orderly entries past) (gone : e ∉ registeredAfter entries past) :
    awaited entries e past = [] := by
  rcases audience_registered orderly with same | settled
  · exact if_neg fun ⟨member, _⟩ => gone (same ▸ member)
  · exact awaited_settled settled

theorem awaited_joins (orderly : Orderly entries earlier) (joins : Joins entries e earlier) :
    awaited entries e earlier = [] := by
  cases earlier with
  | nil => exact if_neg fun ⟨member, _⟩ => nomatch member
  | cons x rest =>
    cases joins
    refine if_neg fun ⟨member, _⟩ => orderly.1.2 ?_
    exact List.mem_map_of_mem ((audience_sublist entries rest).subset member)

theorem registered_joins (joins : Joins entries e earlier) : e ∈ registeredAfter entries earlier := by
  cases earlier with
  | nil => exact joins
  | cons x rest =>
    cases joins
    exact List.mem_append_right _ (List.mem_singleton_self _)

/-- Only the end of a registration ends it. -/
theorem registered_stays {x : Occurrence} (member : e ∈ registeredAfter entries past)
    (stays : ¬x.Ends e.id) : e ∈ registeredAfter entries (x :: past) := by
  cases x with
  | began | called | answered => exact member
  | entered => exact List.mem_append_left _ member
  | ended call evicted =>
    have kept : e.id ∉ evicted := stays
    exact List.mem_filter.mpr ⟨member, by simpa using kept⟩
  | removed other =>
    have kept : other ≠ e.id := stays
    exact List.mem_filter.mpr ⟨member, by simpa using kept.symm⟩

/-- While a subscriber is registered, a broadcast that begins is awaited, and one that is
awaited is awaited until it calls the subscriber. -/
theorem awaited_step {x : Occurrence} (orderly : Orderly entries (x :: past))
    (distinct : (entries.map (·.id)).Nodup) (member : e ∈ registeredAfter entries past) :
    (x.heard? e.id).toList ++ awaited entries e (x :: past) =
      awaited entries e past ++ x.sent?.toList.map Frame.encode := by
  cases x with
  | answered | entered | removed => exact (List.append_nil _).symm
  | began call =>
    have idle : underway past = none := orderly.1
    simp [Occurrence.heard?, Occurrence.sent?, awaited, audience, reached, underway, member, idle]
  | ended call evicted =>
    rw [awaited_settled orderly.1.1]
    simp [Occurrence.heard?, Occurrence.sent?, awaited, audience]
  | called other frame =>
    obtain ⟨registered, included⟩ := called_registered orderly
    obtain ⟨_, _, call, busy, rfl⟩ := orderly.1
    -- The frame that was awaited is heard if it is this subscriber that is called.
    by_cases same : other.id = e.id
    · have ids : ((registeredAfter entries past).map (·.id)).Nodup :=
        (joined_nodup orderly.2 distinct).sublist ((registered_sublist entries past).map _)
      have itself : other = e := List.inj_on_of_nodup_map ids registered member same
      subst itself
      have uncalled : other ∉ reached past := fun old =>
        called_fresh orderly distinct (List.mem_map_of_mem old)
      simp [Occurrence.heard?, Occurrence.sent?, awaited, audience, reached, included, uncalled, busy]
    · have different : e ≠ other := fun h => same (h ▸ rfl)
      simp [Occurrence.heard?, Occurrence.sent?, awaited, audience, reached, underway, same, different]

/-- While a subscriber is registered, it is called with every message whose broadcast begins
meanwhile and with no other, in their order. -/
theorem heard_while_registered (orderly : Orderly entries (during ++ earlier))
    (distinct : (entries.map (·.id)).Nodup) (joins : Joins entries e earlier)
    (stays : ∀ x ∈ during, ¬x.Ends e.id) :
    e ∈ registeredAfter entries (during ++ earlier) ∧
      heard e.id during ++ awaited entries e (during ++ earlier) = (sent during).map Frame.encode := by
  induction during with
  | nil => exact ⟨registered_joins joins, awaited_joins orderly joins⟩
  | cons x during ih =>
    have whole : Orderly entries (x :: (during ++ earlier)) := orderly
    obtain ⟨member, same⟩ := ih whole.2 fun y listed => stays y (List.mem_cons_of_mem _ listed)
    refine ⟨registered_stays member (stays x (List.mem_cons_self ..)), ?_⟩
    calc heard e.id (x :: during) ++ awaited entries e (x :: during ++ earlier)
      _ = heard e.id during ++ ((x.heard? e.id).toList ++ awaited entries e (x :: (during ++ earlier))) := by
        rw [heard_cons, List.append_assoc, List.cons_append]
      _ = heard e.id during ++ awaited entries e (during ++ earlier) ++ x.sent?.toList.map Frame.encode := by
        rw [List.append_assoc, ← awaited_step whole distinct member]
      _ = (sent (x :: during)).map Frame.encode := by
        rw [same, sent_cons, List.map_append]

theorem joined_joins (joins : Joins entries e earlier) : e.id ∈ (joined entries earlier).map (·.id) :=
  List.mem_map_of_mem ((registered_sublist entries earlier).subset (registered_joins joins))

/-- Who joins has heard nothing yet. -/
theorem silent_before_joining (orderly : Orderly entries earlier) (joins : Joins entries e earlier) :
    heard e.id earlier = [] := by
  cases earlier with
  | nil => rfl
  | cons x rest =>
    cases joins
    rw [heard_cons, silent_before orderly.2 orderly.1.2]
    rfl

/-- What a subscriber is called with in all are the messages whose broadcasts begin between
its registration and the end of that, but for one that has not come to it yet. -/
theorem heard_stretch (orderly : Orderly entries (later ++ during ++ earlier))
    (distinct : (entries.map (·.id)).Nodup) (joins : Joins entries e earlier)
    (stays : ∀ x ∈ during, ¬x.Ends e.id) (leaves : ∀ x, later.getLast? = some x → x.Ends e.id) :
    heard e.id (later ++ during ++ earlier) ++ awaited entries e (later ++ during ++ earlier) =
      (sent during).map Frame.encode := by
  rcases List.eq_nil_or_concat later with rfl | ⟨more, x, rfl⟩
  · rw [List.nil_append] at orderly ⊢
    rw [heard_append, silent_before_joining orderly.of_append joins, List.nil_append]
    exact (heard_while_registered orderly distinct joins stays).2
  · -- When `x` ends the registration nothing is awaited, and nothing is heard after it.
    have ends : x.Ends e.id := leaves x (by simp)
    have shape : more ++ [x] ++ during ++ earlier = more ++ (x :: (during ++ earlier)) := by simp
    rw [List.concat_eq_append, shape] at orderly ⊢
    have atEnd := orderly.of_append
    have gone : e.id ∉ (registeredAfter entries (x :: (during ++ earlier))).map (·.id) := gone_of_ends ends
    have known : e.id ∈ (joined entries (x :: (during ++ earlier))).map (·.id) :=
      joined_mono (x :: during) (joined_joins joins)
    obtain ⟨silent, still⟩ := silent_while_gone orderly known gone
    have awaitsNone : awaited entries e (more ++ (x :: (during ++ earlier))) = [] :=
      awaited_gone orderly fun member => still (List.mem_map_of_mem member)
    have whole := (heard_while_registered atEnd.2 distinct joins stays).2
    rw [awaited_settled (settled_of_ends atEnd.1 ends), List.append_nil] at whole
    have quiet : (x.heard? e.id).toList = [] := by
      cases x with
      | called => cases ends
      | began | answered | ended | entered | removed => rfl
    have before := silent_before_joining atEnd.2.of_append joins
    simp only [awaitsNone, heard_append, silent, heard_cons, quiet, before, List.append_nil,
      List.nil_append, whole]

/-- Whose registration was ended is not called any more. -/
theorem silent_after_end {x : Occurrence} (orderly : Orderly entries (later ++ x :: earlier))
    (ends : x.Ends id) (known : id ∈ (joined entries earlier).map (·.id)) : heard id later = [] :=
  (silent_while_gone orderly (joined_mono [x] known) (gone_of_ends ends)).1

/-- The subscriber with a number is not registered any more, or it has told the broadcast
under way that it is gone. -/
def IsGone (entries : List Entry) (id : SubscriberId) (past : List Occurrence) : Prop :=
  id ∉ (registeredAfter entries past).map (·.id) ∨ id ∈ lost past ∧ id ∈ (reached past).map (·.id)

/-- The same holds of those who have left after a loss. -/
theorem isGone_step {x : Occurrence} (orderly : Orderly entries (x :: past))
    (distinct : (entries.map (·.id)).Nodup) (known : id ∈ (joined entries past).map (·.id))
    (gone : IsGone entries id past) : x.heard? id = none ∧ IsGone entries id (x :: past) := by
  rcases gone with gone | ⟨listed, answered⟩
  · exact (gone_step orderly known gone).imp_right Or.inl
  · cases x with
    | began call =>
      rw [reached_idle orderly.2 orderly.1] at answered
      cases answered
    | called e frame =>
      have other : e.id ≠ id := fun same => called_fresh orderly distinct (same ▸ answered)
      refine ⟨if_neg other, Or.inr ⟨listed, ?_⟩⟩
      rw [reached, List.map_append]
      exact List.mem_append_left _ answered
    | answered e frame answer =>
      refine ⟨rfl, Or.inr ⟨?_, answered⟩⟩
      unfold lost
      split
      · exact List.mem_append_left _ listed
      · exact listed
    | ended call evicted =>
      have ends : (Occurrence.ended call evicted).Ends id := orderly.1.2.2 ▸ listed
      exact ⟨rfl, Or.inl (gone_of_ends ends)⟩
    | entered | removed => exact ⟨rfl, Or.inr ⟨listed, answered⟩⟩

/-- Who has answered that it is gone is not called any more, neither by the same broadcast
nor by a later one. -/
theorem silent_after_loss {frame : Bytes} {refusal : Refusal}
    (orderly : Orderly entries (later ++ .answered e frame (some refusal) :: earlier))
    (distinct : (entries.map (·.id)).Nodup) (final : refusal.isFinal = true) : heard e.id later = [] := by
  have waits : calling earlier = some (e, frame) := orderly.of_append.1
  have answered : e ∈ reached earlier := calling_reached waits
  have known : e.id ∈ (joined entries earlier).map (·.id) := List.mem_map_of_mem
    ((audience_sublist entries earlier).subset ((reached_first orderly.of_append.2).subset answered))
  have both : heard e.id later = [] ∧
      IsGone entries e.id (later ++ .answered e frame (some refusal) :: earlier) := by
    induction later with
    | nil => exact ⟨rfl, Or.inr ⟨by simp [lost, final], List.mem_map_of_mem answered⟩⟩
    | cons x later ih =>
      obtain ⟨silent, gone⟩ := ih orderly.2
      have knownThen := joined_mono later (joined_mono [.answered e frame (some refusal)] known)
      obtain ⟨uncalled, after⟩ := isGone_step orderly distinct knownThen gone
      exact ⟨by rw [heard_cons, silent, uncalled]; rfl, after⟩
  exact both.1

end LiveTiming
