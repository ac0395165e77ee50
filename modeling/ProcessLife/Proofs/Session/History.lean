import ProcessLife.Proofs.Session.Interleaving

/-!
# Histories

A run lists the turns. A history lists the steps: of each the session that it found and the one it
left, so that it is known who slept meanwhile, whether the turn was that of a new call or of a
sleeper, and whether anybody was notified. `Step.cases` says all that a step can be. Every run has a
history, and of what is claimed about sleepers most is claimed about those who have tried since the
last notification: `CaughtUp`.
-/

namespace ProcessLife

variable {σ ρ ε α : Type} {service : Service σ ρ ε α}

deriving instance DecidableEq for Sleeper

structure Step (service : Service σ ρ ε α) where
  first : Session σ ρ
  move : Move ρ
  turn : Turn σ ρ
  next : Session σ ρ
  moved : first.move service move = some (turn, next)

abbrev Turn.call (t : Turn σ ρ) : Nat × ρ :=
  (t.id, t.request)

abbrev Sleeper.call (w : Sleeper ρ) : Nat × ρ :=
  (w.id, w.request)

/-- Whoever fell asleep in a turn is its caller, and has seen the last notification. -/
theorem Turn.of_mem_asleep (t : Turn σ ρ) {wakeups : Nat} {w : Sleeper ρ}
    (slept : w ∈ t.asleep service wakeups) :
    (t.reply service).result = .error .asleep ∧ w.call = t.call ∧
      w.seen = service.signal (t.reply service).state := by
  by_cases asleep : (t.reply service).result = .error .asleep
  · rw [asleep_of_slept asleep, List.mem_singleton] at slept
    subst slept
    exact ⟨asleep, rfl, rfl⟩
  · rw [asleep_of_ended asleep] at slept
    cases slept

namespace Step

def arrival (service : Service σ ρ ε α) (session : Session σ ρ) (id : Nat) (request : ρ) :
    Step service :=
  ⟨session, .call id request, ⟨id, request, session.state⟩, _, rfl⟩

def Calls (s : Step service) (id : Nat) : Prop :=
  ∃ request, s.move = .call id request

def Wakes (s : Step service) : Prop :=
  ∃ place, s.move = .wake place

def Notifies (s : Step service) : Prop :=
  service.signal s.next.state ≠ service.signal s.first.state

instance (s : Step service) : Decidable s.Notifies :=
  inferInstanceAs (Decidable (_ ≠ _))

/-- The caller as it stands among the sleepers, if the step has put it there. -/
def asleep (s : Step service) : List (Sleeper ρ) :=
  match s.move with
  | .call _ _ => s.turn.asleep service 0
  | .wake place => s.turn.asleep service (s.first.sleepers[place]?.elim 0 (·.wakeups + 1))

variable (s : Step service) {w : Sleeper ρ} {id : Nat} {request : ρ}

theorem before_turn : s.turn.before = s.first.state :=
  (Session.move_state s.moved).1

/-- A step tells whose turn it was, and the turn found what the step found. -/
theorem turn_eq : s.turn = ⟨s.turn.id, s.turn.request, s.first.state⟩ := by
  rw [← s.before_turn]

theorem state_next : s.next.state = (s.turn.reply service).state :=
  (Session.move_state s.moved).2

/-- A step is the arrival of a call, which stands last if it falls asleep, or the turn of a notified
sleeper, which keeps its place if it falls asleep again. -/
theorem cases :
    (∃ id request, s.move = .call id request ∧ s.turn = ⟨id, request, s.first.state⟩ ∧
      s.asleep = s.turn.asleep service 0 ∧ s.next.sleepers = s.first.sleepers ++ s.asleep) ∨
    ∃ front w back, s.move = .wake front.length ∧ s.first.sleepers = front ++ w :: back ∧
      w.seen ≠ service.signal s.first.state ∧ s.turn = ⟨w.id, w.request, s.first.state⟩ ∧
      s.asleep = s.turn.asleep service (w.wakeups + 1) ∧
      s.next.sleepers = front ++ (s.asleep ++ back) := by
  obtain ⟨first, move, turn, next, moved⟩ := s
  cases move with
  | call id request =>
    cases moved
    exact Or.inl ⟨id, request, rfl, rfl, rfl, rfl⟩
  | wake place =>
    simp only [Session.move] at moved
    cases at' : first.sleepers[place]? with
    | none => simp [at'] at moved
    | some w =>
      rw [at'] at moved
      by_cases seen : w.seen = service.signal first.state
      · simp [seen] at moved
      · simp only [seen, if_false, Option.some.injEq, Prod.mk.injEq] at moved
        obtain ⟨rfl, rfl⟩ := moved
        obtain ⟨inside, rfl⟩ := List.getElem?_eq_some_iff.mp at'
        refine Or.inr ⟨first.sleepers.take place, first.sleepers[place],
          first.sleepers.drop (place + 1), ?_, ?_, seen, rfl, ?_, ?_⟩
        · rw [List.length_take, Nat.min_eq_left (Nat.le_of_lt inside)]
        · rw [List.getElem_cons_drop, List.take_append_drop]
        · simp [asleep, at']
        · simp [asleep, at']

theorem of_call {s : Step service} (arrives : s.move = .call id request) :
    s.turn = ⟨id, request, s.first.state⟩ ∧ s.asleep = s.turn.asleep service 0 ∧
      s.next.sleepers = s.first.sleepers ++ s.asleep := by
  rcases s.cases with ⟨_, _, call, turn, asleep, next⟩ | ⟨_, _, _, wake, -⟩
  · rw [arrives, Move.call.injEq] at call
    obtain ⟨rfl, rfl⟩ := call
    exact ⟨turn, asleep, next⟩
  · simp [arrives] at wake

theorem of_wakes {s : Step service} (wakes : s.Wakes) :
    ∃ front w back, s.first.sleepers = front ++ w :: back ∧
      w.seen ≠ service.signal s.first.state ∧ s.turn = ⟨w.id, w.request, s.first.state⟩ ∧
      s.asleep = s.turn.asleep service (w.wakeups + 1) ∧
      s.next.sleepers = front ++ (s.asleep ++ back) := by
  rcases s.cases with ⟨_, _, call, -⟩ | ⟨front, w, back, -, found⟩
  · obtain ⟨place, wake⟩ := wakes
    simp [wake] at call
  · exact ⟨front, w, back, found⟩

theorem exists_asleep : ∃ wakeups, s.asleep = s.turn.asleep service wakeups := by
  rcases s.cases with ⟨_, _, -, -, found, -⟩ | ⟨_, _, _, -, -, -, -, found, -⟩
  · exact ⟨_, found⟩
  · exact ⟨_, found⟩

/-- Where somebody sleeps who was notified, a step can be made. -/
theorem exists_wake {session : Session σ ρ} (member : w ∈ session.sleepers)
    (notified : w.seen ≠ service.signal session.state) :
    ∃ s : Step service, s.first = session ∧ s.Wakes ∧ s.turn.call = w.call := by
  obtain ⟨place, inside, rfl⟩ := List.getElem_of_mem member
  cases moved : session.move service (.wake place) with
  | none => simp [Session.move, inside, notified] at moved
  | some made =>
    obtain ⟨turn, next⟩ := made
    refine ⟨⟨session, .wake place, turn, next, moved⟩, rfl, ⟨place, rfl⟩, ?_⟩
    simp only [Session.move, List.getElem?_eq_getElem inside, notified, if_false,
      Option.some.injEq, Prod.mk.injEq] at moved
    exact congrArg Turn.call moved.1.symm

theorem of_mem_asleep (member : w ∈ s.asleep) :
    (s.turn.reply service).result = .error .asleep ∧ w.call = s.turn.call ∧
      w.seen = service.signal s.next.state := by
  obtain ⟨wakeups, found⟩ := s.exists_asleep
  rw [found] at member
  rw [s.state_next]
  exact s.turn.of_mem_asleep member

theorem asleep_of_ended {s : Step service}
    (ended : (s.turn.reply service).result ≠ .error .asleep) : s.asleep = [] :=
  List.eq_nil_iff_forall_not_mem.mpr fun _ slept => ended (s.of_mem_asleep slept).1

theorem sleepers_of_ended {s : Step service} (arrives : s.move = .call id request)
    (ended : (s.turn.reply service).result ≠ .error .asleep) :
    s.next.sleepers = s.first.sleepers := by
  rw [(of_call arrives).2.2, asleep_of_ended ended, List.append_nil]

theorem mem_next (member : w ∈ s.next.sleepers) : w ∈ s.first.sleepers ∨ w ∈ s.asleep := by
  rcases s.cases with ⟨_, _, -, -, -, next⟩ | ⟨front, v, back, -, sleepers, -, -, -, next⟩
  · rwa [next, List.mem_append] at member
  · rw [next, List.mem_append, List.mem_append] at member
    rw [sleepers, List.mem_append]
    rcases member with before | again | behind
    · exact Or.inl (Or.inl before)
    · exact Or.inr again
    · exact Or.inl (Or.inr (List.mem_cons_of_mem _ behind))

theorem asleep_mem_next (member : w ∈ s.asleep) : w ∈ s.next.sleepers := by
  rcases s.cases with ⟨_, _, -, -, -, next⟩ | ⟨front, v, back, -, -, -, -, -, next⟩
  · exact next ▸ List.mem_append_right _ member
  · exact next ▸ List.mem_append_right _ (List.mem_append_left _ member)

/-- Whoever was not notified sleeps on. -/
theorem mem_next_of_seen (member : w ∈ s.first.sleepers)
    (seen : w.seen = service.signal s.first.state) : w ∈ s.next.sleepers := by
  rcases s.cases with ⟨_, _, -, -, -, next⟩ | ⟨front, v, back, -, sleepers, notified, -, -, next⟩
  · exact next ▸ List.mem_append_left _ member
  · rw [sleepers, List.mem_append, List.mem_cons] at member
    rw [next, List.mem_append, List.mem_append]
    rcases member with before | rfl | behind
    · exact Or.inl before
    · exact absurd seen notified
    · exact Or.inr (Or.inr behind)

end Step

/-- The steps from one session to another. -/
inductive History (service : Service σ ρ ε α) :
    Session σ ρ → List (Step service) → Session σ ρ → Prop
  | stay (session : Session σ ρ) : History service session [] session
  | step (s : Step service) {steps : List (Step service)} {last : Session σ ρ}
      (rest : History service s.next steps last) : History service s.first (s :: steps) last

/-- From some moment on nobody was notified, and whoever sleeps has fallen asleep since. -/
def CaughtUp (steps : List (Step service)) (sleepers : List (Sleeper ρ)) : Prop :=
  ∃ front back, steps = front ++ back ∧ (∀ s ∈ back, ¬ s.Notifies) ∧
    ∀ w ∈ sleepers, ∃ s ∈ back, w ∈ s.asleep

/-- Makes the moves one after the other, as `Session.play` does, and keeps the steps. -/
def Session.record (service : Service σ ρ ε α) :
    List (Move ρ) → Session σ ρ → List (Step service) × Session σ ρ
  | [], session => ([], session)
  | m :: moves, session =>
    match moved : session.move service m with
    | none => record service moves session
    | some (turn, next) =>
      let (steps, last) := record service moves next
      (⟨session, m, turn, next, moved⟩ :: steps, last)

theorem Session.record_of_stuck {session : Session σ ρ} {m : Move ρ} {moves : List (Move ρ)}
    (stuck : session.move service m = none) :
    session.record service (m :: moves) = session.record service moves := by
  rw [record]
  split
  · rfl
  · rename_i turn next moved
    cases stuck.symm.trans moved

theorem Session.record_of_moved {session next : Session σ ρ} {m : Move ρ} {moves : List (Move ρ)}
    {turn : Turn σ ρ} (moved : session.move service m = some (turn, next)) :
    session.record service (m :: moves) =
      (⟨session, m, turn, next, moved⟩ :: (next.record service moves).1,
        (next.record service moves).2) := by
  rw [record]
  split
  · rename_i stuck
    cases stuck.symm.trans moved
  · rename_i turn next moved'
    cases moved.symm.trans moved'
    rfl

theorem Session.play_eq_record (moves : List (Move ρ)) (session : Session σ ρ) :
    session.play service moves =
      ((session.record service moves).1.map (·.turn), (session.record service moves).2) := by
  induction moves generalizing session with
  | nil => rfl
  | cons m moves ih =>
    cases moved : session.move service m with
    | none => simp only [play, moved, record_of_stuck moved, ih]
    | some made => simp only [play, moved, record_of_moved moved, ih, List.map_cons]

namespace History

variable {first next last : Session σ ρ} {steps before after : List (Step service)}
  {s : Step service}

theorem run (history : History service first steps last) :
    Session.Run service first (steps.map (·.turn)) last := by
  induction history with
  | stay session => exact .stay session
  | step s _ ih => exact .move s.moved ih

theorem of_record (service : Service σ ρ ε α) (moves : List (Move ρ)) (session : Session σ ρ) :
    History service session (session.record service moves).1 (session.record service moves).2 := by
  induction moves generalizing session with
  | nil => exact .stay session
  | cons m moves ih =>
    unfold Session.record
    split
    · exact ih session
    · rename_i turn next moved
      exact .step ⟨session, m, turn, next, moved⟩ (ih next)

theorem of_record_eq {moves : List (Move ρ)} {session : Session σ ρ}
    (recorded : session.record service moves = (steps, last)) :
    History service session steps last := by
  have history := of_record service moves session
  rwa [recorded] at history

theorem cons {session : Session σ ρ} (starts : s.first = session) (ends : s.next = next)
    (rest : History service next steps last) : History service session (s :: steps) last := by
  subst starts ends
  exact .step s rest

theorem append (front : History service first before next)
    (back : History service next after last) : History service first (before ++ after) last := by
  induction front with
  | stay => exact back
  | step s _ ih => exact .step s (ih back)

theorem split (history : History service first (before ++ after) last) :
    ∃ next, History service first before next ∧ History service next after last := by
  induction before generalizing first with
  | nil => exact ⟨first, .stay first, history⟩
  | cons s before ih =>
    cases history with
    | step _ rest =>
      obtain ⟨next, front, back⟩ := ih rest
      exact ⟨next, .step s front, back⟩

theorem cut (history : History service first (before ++ s :: after) last) :
    History service first before s.first ∧ History service s.next after last := by
  obtain ⟨next, front, back⟩ := history.split
  cases back with
  | step _ rest => exact ⟨front, rest⟩

theorem invariant (holds : Session σ ρ → Prop) (history : History service first steps last)
    (start : holds first) (keeps : ∀ s ∈ steps, holds s.first → holds s.next) :
    (∀ s ∈ steps, holds s.first) ∧ holds last := by
  induction history with
  | stay => exact ⟨fun _ h => (List.not_mem_nil h).elim, start⟩
  | step s _ ih =>
    rw [List.forall_mem_cons] at keeps
    obtain ⟨throughout, done⟩ := ih (keeps.1 start) keeps.2
    exact ⟨List.forall_mem_cons.mpr ⟨start, throughout⟩, done⟩

end History

/-- Makes the moves in a session that starts out new, if one can, and keeps the steps. -/
def Service.record {φ : Type} (service : Service σ ρ ε α) (new : Except φ σ)
    (moves : List (Move ρ)) : Except φ (List (Step service) × Session σ ρ) := do
  let state ← new
  return Session.record service moves { state }

theorem Service.history_of_record {φ : Type} {new : Except φ σ} {moves : List (Move ρ)}
    {steps : List (Step service)} {last : Session σ ρ}
    (recorded : service.record new moves = .ok (steps, last)) :
    ∃ state, new = .ok state ∧ History service { state } steps last := by
  obtain ⟨state, made, ended⟩ := exists_of_bind_eq_ok recorded
  exact ⟨state, made, .of_record_eq (Except.ok.inj ended)⟩

end ProcessLife
