import LiveTiming.Proofs.CommandRecords
import LiveTiming.Proofs.ServiceTasks
import LiveTiming.Random.ChaCha

namespace LiveTiming

/-- A message without the names in it. -/
def Message.unnamed : Message → Message
  | .status _ stage => .status "" stage
  | .split record => .split { record with component := "", participant := "" }
  | .raw _ => .raw ""

/-- A cue without the names in its message. -/
def Cue.unnamed (cue : Cue) : Cue :=
  { cue with message := cue.message.unnamed }

/-- A draft without the names in its cues. -/
def Draft.unnamed (d : Draft) : Draft :=
  { d with cues := d.cues.map Cue.unnamed }

/-- A race in which nobody has a name. -/
def RaceRequest.unnamed (splits participants : Nat) : RaceRequest :=
  ⟨"", splits, List.replicate participants ""⟩

/-- What is asked of the random words: a race of so many splits and participants, or a split. -/
inductive Shape
  | race (splits participants : Nat)
  | split
deriving DecidableEq

/-- What comes of it apart from names: the cues of a race with their offsets, or the time, the rank and
the gap of a split. -/
inductive Figures
  | race (cues : List Cue)
  | split (elapsed : ClockTime) (rank : Nat) (delta : Option ClockTime)
deriving DecidableEq

/-- A race that was planned, or a split that was drawn. -/
inductive Drawing
  | race (request : RaceRequest) (rundown : Rundown)
  | split (record : SplitRecord)
deriving DecidableEq

namespace Drawing

def shape : Drawing → Shape
  | .race r _ => .race r.splits r.participants.length
  | .split _ => .split

def figures : Drawing → Figures
  | .race _ rundown => .race (rundown.cues.map Cue.unnamed)
  | .split record => .split record.elapsed record.rank record.delta

end Drawing

/-- The shape of what a command asks the random words for, if the race is accepted. -/
def Command.shape? (bounds : RaceBounds) : Command → Option Shape
  | .race r => if (r.rejection? bounds).isNone then some (.race r.splits r.participants.length) else none
  | .randomSplit .. => some .split
  | _ => none

/-- What a generator gives for a shape. -/
def Shape.draw (pacing : Pacing) : Shape → Generator → Figures × Generator
  | .race splits participants, g =>
    let planned := (RaceRequest.unnamed splits participants).plan pacing g
    (.race planned.1.cues, planned.2)
  | .split, g =>
    let drawn := SplitRecord.random "" "" 0 g
    (.split drawn.1.elapsed drawn.1.rank drawn.1.delta, drawn.2)

/-- What a generator gives for shapes, the latest first. -/
def Shape.drawAll (pacing : Pacing) (g : Generator) : List Shape → List Figures × Generator
  | [] => ([], g)
  | shape :: earlier =>
    let before := drawAll pacing g earlier
    let latest := shape.draw pacing before.2
    (latest.1 :: before.1, latest.2)

namespace Feed

/-- What a command draws, if it draws: a race that is accepted, or a split. -/
def drawn? (f : Feed) : Command → Option Drawing
  | .race r => (f.plan r).1.toOption.map (.race r)
  | .randomSplit component participant split =>
    some (.split (SplitRecord.random component participant split f.generator).1)
  | _ => none

/-- What can happen to a feed, with what was drawn, the latest first: commands are performed up to the
sending of a message, races are planned that are never held, and anything happens meanwhile to its
clock, events, subscribers and broadcasts, or it is told to stop. -/
inductive History (start : Feed) : List Drawing → Feed → Prop
  | start : History start [] start
  | react {past f} (c : Command) : History start past f →
      History start ((f.drawn? c).toList ++ past) (f.react c).2
  | plan {past f} (r : RaceRequest) : History start past f →
      History start ((f.drawn? (.race r)).toList ++ past) (f.plan r).2
  | aside {past f} (hub : Hub) (stopping : Bool) : History start past f →
      History start past { f with hub, stopping }

/-- From one feed to the other the figures of what was drawn are what the generator gives for its
shapes. -/
structure Draws (f : Feed) (past : List Drawing) (g : Feed) : Prop where
  config : g.config = f.config
  drawn : Shape.drawAll f.config.pacing f.generator (past.map Drawing.shape) =
    (past.map Drawing.figures, g.generator)

end Feed

namespace Draft

variable {pacing : Pacing} {component : String}

theorem passings_unnamed (split : Nat) (participants : List String) (rank : Nat) (delta : ClockTime) (d : Draft) :
    (passings pacing component split participants rank delta d).unnamed =
      passings pacing "" split (List.replicate participants.length "") rank delta d.unnamed := by
  induction participants generalizing rank delta d with
  | nil => rfl
  | cons participant later ih =>
    rw [List.length_cons, List.replicate_succ]
    unfold passings
    rw [ih]
    simp only [unnamed, Array.map_push, Cue.unnamed, Message.unnamed, SplitRecord.ranked]

theorem split_unnamed (participants : List String) (d : Draft) (number : Nat) :
    (split pacing component participants d number).unnamed =
      split pacing "" (List.replicate participants.length "") d.unnamed number :=
  passings_unnamed number participants 1 .zero _

theorem start_unnamed (g : Generator) : (start pacing component g).unnamed = start pacing "" g := by
  simp [unnamed, start, Cue.unnamed, Message.unnamed]

theorem finish_unnamed (d : Draft) :
    (finish pacing component d).cues.map Cue.unnamed = (finish pacing "" d.unnamed).cues := by
  simp [unnamed, finish, Cue.unnamed, Message.unnamed]

theorem splits_unnamed (participants : List String) (numbers : List Nat) (d : Draft) :
    (numbers.foldl (split pacing component participants) d).unnamed =
      numbers.foldl (split pacing "" (List.replicate participants.length "")) d.unnamed :=
  (List.foldl_hom unnamed fun d number => (split_unnamed participants d number).symm).symm

end Draft

/-- The names in a race change neither its cues but for the names, nor the words that it takes. -/
theorem RaceRequest.plan_unnamed (r : RaceRequest) (pacing : Pacing) (g : Generator) :
    let plain := (unnamed r.splits r.participants.length).plan pacing g
    (r.plan pacing g).1.cues.map Cue.unnamed = plain.1.cues ∧ (r.plan pacing g).2 = plain.2 := by
  intro plain
  have same := @Draft.splits_unnamed pacing r.component r.participants
    (List.range' 1 r.splits) (.start pacing r.component g)
  rw [Draft.start_unnamed] at same
  refine ⟨(Draft.finish_unnamed _).trans ?_, ?_⟩
  · rw [same]
    rfl
  · have words := congrArg Draft.generator same
    exact words

theorem SplitRecord.random_figures (g : Generator) : ∃ elapsed rank delta after,
    ∀ component participant split, random component participant split g =
      (.ranked component participant split elapsed rank delta, after) := by
  unfold random
  -- What the draws come to does not matter, and the kernel would run the generator.
  generalize Generator.uniform = draw
  exact ⟨_, _, _, _, fun _ _ _ => rfl⟩

theorem Shape.drawAll_append (pacing : Pacing) (g : Generator) (later earlier : List Shape) :
    drawAll pacing g (later ++ earlier) =
      let before := drawAll pacing g earlier
      let after := drawAll pacing before.2 later
      (after.1 ++ before.1, after.2) := by
  induction later with
  | nil => rfl
  | cons shape later ih =>
    simp only [List.cons_append, drawAll, ih]

namespace Feed

variable {f g start : Feed} {past later : List Drawing}

theorem Draws.refl (f : Feed) : f.Draws [] f :=
  ⟨rfl, rfl⟩

theorem Draws.trans (first : start.Draws past f) (second : f.Draws later g) : start.Draws (later ++ past) g where
  config := second.config.trans first.config
  drawn := by
    have drawn := second.drawn
    rw [first.config] at drawn
    rw [List.map_append, List.map_append, Shape.drawAll_append, first.drawn]
    simp only [drawn]

theorem drawn_race_iff (f : Feed) (r : RaceRequest) (rundown : Rundown) :
    f.drawn? (.race r) = some (.race r rundown) ↔ (f.plan r).1 = .ok rundown := by
  change (f.plan r).1.toOption.map _ = _ ↔ _
  cases (f.plan r).1 <;> simp [Except.toOption]

/-- Whether a command draws, and of which shape, is told without the random words. -/
theorem drawn_shape (f : Feed) (c : Command) : (f.drawn? c).map Drawing.shape = c.shape? f.config.bounds := by
  cases c with
  | race r =>
    change ((f.plan r).1.toOption.map (.race r)).map Drawing.shape =
      if (r.rejection? f.config.bounds).isNone then some (.race r.splits r.participants.length) else none
    unfold plan
    cases r.rejection? f.config.bounds <;> rfl
  | raw | announce | randomSplit | abort | report | help | quit => rfl

theorem shapes_drawn (f : Feed) (c : Command) (past : List Drawing) :
    ((f.drawn? c).toList ++ past).map Drawing.shape =
      (c.shape? f.config.bounds).toList ++ past.map Drawing.shape := by
  rw [List.map_append, ← drawn_shape, Option.toList_map]

/-- A race draws by its shape if it is accepted, and nothing if it is rejected. -/
theorem plan_draws (f : Feed) (r : RaceRequest) : f.Draws (f.drawn? (.race r)).toList (f.plan r).2 := by
  change f.Draws ((f.plan r).1.toOption.map (.race r)).toList (f.plan r).2
  unfold plan
  cases r.rejection? f.config.bounds with
  | some reason => exact .refl f
  | none =>
    obtain ⟨cues, generator⟩ := r.plan_unnamed f.config.pacing f.generator
    refine ⟨rfl, ?_⟩
    simp only [Except.toOption, Option.map_some, Option.toList_some, List.map_cons, List.map_nil,
      Shape.drawAll, Drawing.shape, Drawing.figures, Shape.draw, cues, generator]

theorem randomSplit_drawn (f : Feed) (component participant : String) (split : Nat) :
    ∃ elapsed rank delta after,
      (∀ c p k, SplitRecord.random c p k f.generator = (.ranked c p k elapsed rank delta, after)) ∧
      f.react (.randomSplit component participant split) =
        (.send (.split (.ranked component participant split elapsed rank delta)),
          { f with generator := after }) ∧
      f.drawn? (.randomSplit component participant split) =
        some (.split (.ranked component participant split elapsed rank delta)) := by
  obtain ⟨elapsed, rank, delta, after, drawn⟩ := SplitRecord.random_figures f.generator
  refine ⟨elapsed, rank, delta, after, drawn, ?_, ?_⟩
  · rw [react, drawn]
  · rw [drawn?, drawn]

theorem randomSplit_draws (f : Feed) (component participant : String) (split : Nat) :
    f.Draws (f.drawn? (.randomSplit component participant split)).toList
      (f.react (.randomSplit component participant split)).2 := by
  obtain ⟨elapsed, rank, delta, after, drawn, reacts, draws⟩ := f.randomSplit_drawn component participant split
  rw [reacts, draws]
  refine ⟨rfl, ?_⟩
  simp only [Option.toList_some, List.map_cons, List.map_nil, Shape.drawAll, Drawing.shape, Drawing.figures,
    Shape.draw, drawn, SplitRecord.ranked]

/-- Until a message is sent a race changes nothing that a plan does not change but the hub and the
book. -/
theorem react_race_generator (f : Feed) (r : RaceRequest) :
    (f.react (.race r)).2.generator = (f.plan r).2.generator := by
  unfold react
  rcases plan_cases f r with ⟨reason, refused⟩ | ⟨rundown, generator, planned⟩
  · simp [launch, refused]
  · simp [launch, planned, book, keep]

/-- A command draws by the shape of what it asks for, and by nothing else. -/
theorem react_draws (f : Feed) (c : Command) : f.Draws (f.drawn? c).toList (f.react c).2 := by
  cases c with
  | race r =>
    have plans := f.plan_draws r
    refine ⟨(f.react_keeps _).1, ?_⟩
    rw [plans.drawn, react_race_generator]
  | randomSplit component participant split =>
    exact f.randomSplit_draws component participant split
  | raw | announce | abort | report | help | quit => exact ⟨rfl, rfl⟩

theorem History.draws (history : start.History past f) : start.Draws past f := by
  induction history with
  | start => exact .refl start
  | react c _ ih => exact ih.trans (react_draws _ c)
  | plan r _ ih => exact ih.trans (plan_draws _ r)
  | aside hub stopping _ ih => exact ⟨ih.config, ih.drawn⟩

theorem History.trans (first : start.History past f) (second : f.History later g) :
    start.History (later ++ past) g := by
  induction second with
  | start => exact first
  | react c _ ih =>
    rw [List.append_assoc]
    exact ih.react c
  | plan r _ ih =>
    rw [List.append_assoc]
    exact ih.plan r
  | aside hub stopping _ ih => exact ih.aside hub stopping

theorem History.of_react (f : Feed) (c : Command) : f.History (f.drawn? c).toList (f.react c).2 := by
  simpa using History.start.react c

end Feed

/-- What an errand draws, if it is a command that draws. -/
def Errand.drawn? (f : Feed) : Errand → Option Drawing
  | .perform c => f.drawn? c
  | _ => none

/-- From one service to the other nothing is drawn. -/
def Service.Spares (s t : Service) : Prop :=
  s.feed.History [] t.feed

namespace Service

variable {s t u : Service} {fuel : Nat}

theorem Spares.refl (s : Service) : s.Spares s :=
  .start

theorem Spares.trans (first : s.Spares t) (second : t.Spares u) : s.Spares u :=
  Feed.History.trans first second

theorem Spares.withHub (s : Service) (hub : Hub) : s.Spares (s.withHub hub) :=
  Feed.History.start.aside hub s.feed.stopping

theorem step_spares {action : Action} (steps : s.step? action = some t) : s.Spares t := by
  cases steps_of steps with
  | begin | rest | stop | ring => exact .refl s
  | visit | send | look | plan | rouse | connection => exact .withHub s _
  | @conclude caller => cases caller <;> exact .withHub s _

theorem spares_upkeep : Upkeep Spares where
  refl := .refl
  trans := .trans
  step := step_spares
  clock s _ := .withHub s _
  ask s _ _ := .refl s
  takeDue s := .withHub s _
  tell _ _ := .withHub _ _
  post s _ _ := .withHub s _
  cancel s _ := .withHub s _
  aside s _ _ _ := .withHub s _
  connections s _ := .refl s

/-- A command that an operator performs draws what it draws at the feed. -/
theorem perform_history {c : Command} {result : Except Failure Outcome}
    (performs : (perform fuel c).run s = some (result, t)) : s.feed.History (s.feed.drawn? c).toList t.feed := by
  have reacted := Feed.History.of_react s.feed c
  rcases reacts : s.feed.react c with ⟨answer | m, g⟩
  · rw [perform_answers reacts] at performs
    cases performs
    rwa [reacts] at reacted
  · rw [perform_sends reacts] at performs
    obtain ⟨⟨_, _⟩, sends, same⟩ := Option.map_eq_some_iff.mp performs
    cases same
    rw [reacts] at reacted
    exact reacted.trans (spares_upkeep.broadcast fuel m _ _ _ sends)

/-- An operator draws by performing a command, and by nothing else. -/
theorem does_history {errand : Errand} {reply : Reply} (does : s.Does errand reply t) :
    s.feed.History (errand.drawn? s.feed).toList t.feed := by
  cases errand with
  | perform c =>
    obtain ⟨fuel, result, performs, _⟩ := does_perform.mp does
    exact perform_history performs
  | broadcast | post | postAt | cancel | sendDue | register | remove | receive | close | jump | sleep =>
    exact spares_upkeep.does does nofun fun _ _ _ => .withHub s _

/-- Any number of drawings from one service to the other. -/
theorem history_course : Course fun s t => ∃ past, s.feed.History past t.feed where
  refl _ := ⟨[], .start⟩
  trans := fun ⟨_, first⟩ ⟨_, second⟩ => ⟨_, first.trans second⟩
  step steps := ⟨[], step_spares steps⟩
  clock s _ := ⟨[], Spares.withHub s _⟩

theorem console_history {inputs : List Console.Input} {out written : Console.Output}
    (ends : (console fuel inputs out).run s = some (written, t)) : ∃ past, s.feed.History past t.feed :=
  history_course.console (fun _ _ _ _ performs => ⟨_, perform_history performs⟩) inputs out _ _ _ ends

end Service

namespace Feed

/-- Two feeds begin with the same generator and pace their races alike. Whatever else happens to each of
them, if what they draw has the same shapes, one drawing after the other, then it has the same figures,
and the generators end in the same state: the figures are a function of the shapes.

A race is drawn when it is accepted, with the cues that are scheduled as its events, and a split when it
is asked for, with the record that is sent. Whatever a service does by itself, and whatever an operator
does but for commands, draws nothing. -/
theorem seeded_feeds_draw_alike {config config' : Config} {subscribers subscribers' : List Subscriber}
    {generator : Generator} {f f' : Feed} {past past' : List Drawing} (paced : config.pacing = config'.pacing)
    (history : (Feed.start config subscribers generator).History past f)
    (other : (Feed.start config' subscribers' generator).History past' f')
    (shapes : past.map Drawing.shape = past'.map Drawing.shape) :
    (past.map Drawing.figures = past'.map Drawing.figures ∧ f.generator = f'.generator) ∧
    (past.map Drawing.figures, f.generator) =
      Shape.drawAll config.pacing generator (past.map Drawing.shape) ∧
    (∀ c, (f.drawn? c).map Drawing.shape = c.shape? config.bounds) ∧
    (∀ r race, (f.perform (.race r)).1 = .ok (.scheduled race) → ∃ rundown,
      f.drawn? (.race r) = some (.race r rundown) ∧
      let events := rundown.events f.config.timeUnit f.hub.clock f.hub.timeline.nextId
      race.events = events.map Event.id ∧
        Hub.Run f.hub (events.map .posted).reverse (f.perform (.race r)).2.hub) ∧
    (∀ component participant split, ∃ record,
      f.drawn? (.randomSplit component participant split) = some (.split record) ∧
        (f.react (.randomSplit component participant split)).1 = .send (.split record)) ∧
    (∀ (s t : Service) action, s.step? action = some t → s.feed.History [] t.feed) ∧
    (∀ (s t : Service) errand reply, s.Does errand reply t →
      s.feed.History (errand.drawn? s.feed).toList t.feed) ∧
    ∀ (s t : Service) fuel inputs out written, (Service.console fuel inputs out).run s = some (written, t) →
      ∃ drawn, s.feed.History drawn t.feed := by
  have drawn := history.draws.drawn
  have drawn' := other.draws.drawn
  refine ⟨?_, drawn.symm, fun c => ?_, fun r race accepted => ?_, fun component participant split => ?_,
    fun s t action => Service.step_spares, fun s t errand reply => Service.does_history,
    fun s t fuel inputs out written => Service.console_history⟩
  · have same : (past.map Drawing.figures, f.generator) = (past'.map Drawing.figures, f'.generator) := by
      rw [← drawn, ← drawn', shapes]
      exact congrArg (Shape.drawAll · generator _) paced
    exact ⟨congrArg Prod.fst same, congrArg Prod.snd same⟩
  · rw [drawn_shape, history.draws.config]
    rfl
  · obtain ⟨rundown, planned, _, numbers, run, _⟩ := perform_race accepted
    exact ⟨rundown, (drawn_race_iff f r rundown).mpr planned, numbers, run⟩
  · obtain ⟨_, _, _, _, _, reacts, draws⟩ := f.randomSplit_drawn component participant split
    exact ⟨_, draws, congrArg Prod.fst reacts⟩

/-- A feed that has rejected a race, moved its clock and aborted a race draws the same figures for other
names as a feed that has not. -/
theorem other_names_draw_alike :
    let one := Feed.start {} [] (ChaCha.generator 7)
    let other := Feed.start { echo := true } [.log] (ChaCha.generator 7)
    ∃ past f past' f', one.History past f ∧ other.History past' f' ∧
      f = ((one.react (.race ⟨"A", 2, ["x"]⟩)).2.react (.randomSplit "A" "x" 3)).2 ∧
      past.map Drawing.shape = [.split, .race 2 1] ∧ past'.map Drawing.shape = [.split, .race 2 1] ∧
      past.map Drawing.figures = past'.map Drawing.figures ∧ f.generator = f'.generator := by
  intro one other
  have keeps (f : Feed) (c : Command) : (f.react c).2.config = f.config := (f.react_keeps c).1
  have plans (f : Feed) (r : RaceRequest) : (f.plan r).2.config = f.config := (f.plan_draws r).config
  obtain ⟨past, history, shapes⟩ : ∃ past, one.History past
      ((one.react (.race ⟨"A", 2, ["x"]⟩)).2.react (.randomSplit "A" "x" 3)).2 ∧
        past.map Drawing.shape = [.split, .race 2 1] := by
    refine ⟨_, (History.start.react _).react _, ?_⟩
    simp only [shapes_drawn, keeps]
    decide
  obtain ⟨past', f', later, shapes'⟩ : ∃ past' f', other.History past' f' ∧
      past'.map Drawing.shape = [.split, .race 2 1] := by
    refine ⟨_, _, ((((History.start.react (.race ⟨"", 1, ["y"]⟩)).aside (other.hub.moveClock 5) false).plan
      ⟨"B", 2, ["y"]⟩).react (.abort "B")).react (.randomSplit "B" "y" 0), ?_⟩
    simp only [shapes_drawn, keeps, plans]
    decide
  have paced : ({} : Config).pacing = ({ echo := true } : Config).pacing := rfl
  obtain ⟨⟨figures, generators⟩, _⟩ := seeded_feeds_draw_alike paced history later (shapes.trans shapes'.symm)
  exact ⟨past, _, past', f', history, later, rfl, shapes, shapes', figures, generators⟩

end Feed

end LiveTiming
