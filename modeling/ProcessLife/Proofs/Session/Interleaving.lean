import ProcessLife.Session.Basic

/-!
# Interleavings

A session serves one call at a time, but in which order it serves them is left open here: new calls
come in at any moment, and those who were notified get their turns in any order, between new calls
as well. `Run` lists the turns of such a run. Serving requests one by one, with everyone who was
notified let in before the next, is one of these runs: `Session.submit_run`.
-/

namespace ProcessLife

variable {σ ρ ε α : Type} {service : Service σ ρ ε α}

/-- What can happen next: a call comes in, or a sleeper gets its turn. -/
inductive Move (ρ : Type) where
  | call (id : Nat) (request : ρ)
  | wake (place : Nat)

/-- One hold of the lock: a call, as it came in or as it woke, and the state it found. -/
structure Turn (σ ρ : Type) where
  id : Nat
  request : ρ
  before : σ

namespace Turn

def reply (service : Service σ ρ ε α) (t : Turn σ ρ) : Reply σ ε α :=
  (service.attempt t.request).run t.before

/-- The call among the sleepers, if its turn has put it there. -/
def asleep (service : Service σ ρ ε α) (t : Turn σ ρ) (wakeups : Nat) : List (Sleeper ρ) :=
  match (t.reply service).result with
  | .error .asleep => [⟨t.id, t.request, service.signal (t.reply service).state, wakeups⟩]
  | _ => []

theorem asleep_of_slept {t : Turn σ ρ} {wakeups : Nat}
    (slept : (t.reply service).result = .error .asleep) :
    t.asleep service wakeups =
      [⟨t.id, t.request, service.signal (t.reply service).state, wakeups⟩] := by
  rw [asleep, slept]

theorem asleep_of_ended {t : Turn σ ρ} {wakeups : Nat}
    (ended : (t.reply service).result ≠ .error .asleep) : t.asleep service wakeups = [] := by
  unfold asleep
  split
  · rename_i slept
    exact absurd slept ended
  · rfl

end Turn

namespace Session

/-- Only a sleeper that was notified can have a turn. -/
def move (service : Service σ ρ ε α) (session : Session σ ρ) :
    Move ρ → Option (Turn σ ρ × Session σ ρ)
  | .call id request =>
    let turn : Turn σ ρ := ⟨id, request, session.state⟩
    some (turn, ⟨(turn.reply service).state, session.sleepers ++ turn.asleep service 0⟩)
  | .wake place =>
    match session.sleepers[place]? with
    | none => none
    | some w =>
      if w.seen = service.signal session.state then none
      else
        let turn : Turn σ ρ := ⟨w.id, w.request, session.state⟩
        some (turn, ⟨(turn.reply service).state, session.sleepers.take place ++
          (turn.asleep service (w.wakeups + 1) ++ session.sleepers.drop (place + 1))⟩)

/-- Makes the moves one after the other. One that is not possible is left out. -/
def play (service : Service σ ρ ε α) :
    List (Move ρ) → Session σ ρ → List (Turn σ ρ) × Session σ ρ
  | [], session => ([], session)
  | m :: moves, session =>
    match session.move service m with
    | none => play service moves session
    | some (turn, next) =>
      let (turns, last) := play service moves next
      (turn :: turns, last)

/-- A run from one session to another, with its turns. -/
inductive Run (service : Service σ ρ ε α) : Session σ ρ → List (Turn σ ρ) → Session σ ρ → Prop
  | stay (session : Session σ ρ) : Run service session [] session
  | move {first next last : Session σ ρ} {m : Move ρ} {turn : Turn σ ρ} {turns : List (Turn σ ρ)}
      (moved : first.move service m = some (turn, next)) (rest : Run service next turns last) :
      Run service first (turn :: turns) last

variable {first next last : Session σ ρ} {m : Move ρ} {turn : Turn σ ρ}
  {turns before after : List (Turn σ ρ)}

theorem move_state (moved : first.move service m = some (turn, next)) :
    turn.before = first.state ∧ next.state = (turn.reply service).state := by
  cases m with
  | call id request =>
    cases moved
    exact ⟨rfl, rfl⟩
  | wake place =>
    simp only [move] at moved
    cases at' : first.sleepers[place]? with
    | none => simp [at'] at moved
    | some w =>
      rw [at'] at moved
      by_cases seen : w.seen = service.signal first.state
      · simp [seen] at moved
      · simp only [seen, if_false, Option.some.injEq, Prod.mk.injEq] at moved
        obtain ⟨rfl, rfl⟩ := moved
        exact ⟨rfl, rfl⟩

/-- Whatever moves are played, the turns that come of them are a run. -/
theorem play_run (service : Service σ ρ ε α) (moves : List (Move ρ)) (session : Session σ ρ) :
    Run service session (session.play service moves).1 (session.play service moves).2 := by
  induction moves generalizing session with
  | nil => exact .stay session
  | cons m moves ih =>
    cases moved : session.move service m with
    | none =>
      rw [play, moved]
      exact ih session
    | some made =>
      rw [play, moved]
      exact .move moved (ih made.2)

theorem Run.append (front : Run service first before next) (back : Run service next after last) :
    Run service first (before ++ after) last := by
  induction front with
  | stay => exact back
  | move moved _ ih => exact .move moved (ih back)

theorem Run.split (run : Run service first (before ++ after) last) :
    ∃ next, Run service first before next ∧ Run service next after last := by
  induction before generalizing first with
  | nil => exact ⟨first, .stay first, run⟩
  | cons turn before ih =>
    cases run with
    | move moved rest =>
      obtain ⟨next, front, back⟩ := ih rest
      exact ⟨next, .move moved front, back⟩

/-- A run can be cut at one of its turns. -/
theorem Run.cut (run : Run service first (before ++ turn :: after) last) :
    ∃ here next, Run service first before here ∧ turn.before = here.state ∧
      next.state = (turn.reply service).state ∧ Run service next after last := by
  obtain ⟨here, front, back⟩ := run.split
  cases back with
  | move moved rest =>
    obtain ⟨found, left⟩ := move_state moved
    exact ⟨here, _, front, found, left, rest⟩

/-- What every turn of a run keeps holds throughout the run. -/
theorem Run.invariant (holds : σ → Prop) (run : Run service first turns last)
    (start : holds first.state)
    (keeps : ∀ t ∈ turns, holds t.before → holds (t.reply service).state) :
    (∀ t ∈ turns, holds t.before) ∧ holds last.state := by
  induction run with
  | stay => exact ⟨fun _ h => (List.not_mem_nil h).elim, start⟩
  | move moved _ ih =>
    obtain ⟨found, left⟩ := move_state moved
    rw [List.forall_mem_cons] at keeps
    rw [← found] at start
    obtain ⟨throughout, done⟩ := ih (left ▸ keeps.1 start) keeps.2
    exact ⟨List.forall_mem_cons.mpr ⟨start, throughout⟩, done⟩

/-- What no turn of a run can bring about has held throughout the run if it holds at the end. -/
theorem Run.always (holds : σ → Prop) (run : Run service first turns last)
    (needs : ∀ t ∈ turns, holds (t.reply service).state → holds t.before)
    (done : holds last.state) : holds first.state ∧ ∀ t ∈ turns, holds t.before := by
  induction run with
  | stay => exact ⟨done, fun _ h => (List.not_mem_nil h).elim⟩
  | move moved _ ih =>
    obtain ⟨found, left⟩ := move_state moved
    rw [List.forall_mem_cons] at needs
    obtain ⟨next, throughout⟩ := ih needs.2 done
    have here := needs.1 (left ▸ next)
    exact ⟨found ▸ here, List.forall_mem_cons.mpr ⟨here, throughout⟩⟩

end Session
end ProcessLife
