import ProcessLife.Proofs.Session.Course
import ProcessLife.Proofs.Session.Round

/-!
# How calls end

A call ends in the report of its own request or in that of a later one that wakes it. `endings`
lists for each request the calls under one number that it brings to an end. In a round in which
nobody changes anything each sleeper fares as it would alone: `wake_idle`.
-/

namespace ProcessLife

variable {σ ρ ε α : Type} {service : Service σ ρ ε α}

/-- The caller as it is reported, if its turn has ended the call. -/
def Turn.ended (service : Service σ ρ ε α) (t : Turn σ ρ) (wakeups : Nat) : List (Woken α) :=
  match (t.reply service).result with
  | .error .asleep => []
  | result => [⟨t.id, wakeups, result⟩]

def Sleeper.turn (w : Sleeper ρ) (s : σ) : Turn σ ρ :=
  ⟨w.id, w.request, s⟩

namespace Turn

variable {t : Turn σ ρ} {wakeups : Nat}

theorem ended_of_slept (slept : (t.reply service).result = .error .asleep) :
    t.ended service wakeups = [] := by
  rw [ended, slept]

theorem ended_of_ended (ended : (t.reply service).result ≠ .error .asleep) :
    t.ended service wakeups = [⟨t.id, wakeups, (t.reply service).result⟩] := by
  unfold Turn.ended
  split
  · rename_i slept
    exact absurd slept ended
  · rfl

theorem id_of_mem_ended {w : Woken α} (member : w ∈ t.ended service wakeups) : w.id = t.id := by
  by_cases slept : (t.reply service).result = .error .asleep
  · simp [ended_of_slept slept] at member
  · rw [ended_of_ended slept, List.mem_singleton] at member
    rw [member]

end Turn

/-- A round in which nobody changes anything: all find the same state, and each of them ends or
sleeps on as it would alone. -/
theorem Service.wake_idle {sleepers : List (Sleeper ρ)} {s : σ}
    (notified : ∀ w ∈ sleepers, w.seen ≠ service.signal s)
    (idle : ∀ w ∈ sleepers, ((service.attempt w.request).run s).state = s) :
    (service.wake sleepers s).state = s ∧
      (service.wake sleepers s).woken =
        sleepers.flatMap (fun w => (w.turn s).ended service (w.wakeups + 1)) ∧
      (service.wake sleepers s).sleepers =
        sleepers.flatMap (fun w => (w.turn s).asleep service (w.wakeups + 1)) := by
  induction sleepers with
  | nil => exact ⟨rfl, rfl, rfl⟩
  | cons w others ih =>
    rw [List.forall_mem_cons] at notified idle
    obtain ⟨state, woken, rest⟩ := ih notified.2 idle.2
    simp only [Service.wake, notified.1, if_false, List.flatMap_cons, Turn.ended, Turn.asleep,
      Turn.reply, Sleeper.turn, idle.1] at woken rest ⊢
    split <;> simp_all

/-- If those who stand before a notified sleeper change nothing, its turn finds the state as it was,
and those behind it find what it leaves. -/
theorem Service.wake_answered {front : List (Sleeper ρ)} (back : List (Sleeper ρ))
    {w : Sleeper ρ} {s : σ}
    {result : Except Stop α} (before : (service.wake front s).state = s)
    (notified : w.seen ≠ service.signal s)
    (answered : ((w.turn s).reply service).result = result) (awake : result ≠ .error .asleep) :
    (service.wake (front ++ w :: back) s).state =
        (service.wake back ((w.turn s).reply service).state).state ∧
      ⟨w.id, w.wakeups + 1, result⟩ ∈ (service.wake (front ++ w :: back) s).woken := by
  have own := Session.wake_singleton notified (rfl : w.turn s = _) (answered ▸ awake)
  obtain ⟨state, woken, -⟩ := Session.wake_append service front (w :: back) s
  obtain ⟨state', woken', -⟩ := Session.wake_append service [w] back s
  rw [before] at state woken
  rw [own, answered] at woken'
  rw [own] at state'
  refine ⟨state.trans state', ?_⟩
  rw [woken, show w :: back = [w] ++ back from rfl, woken']
  simp

/-- Of what comes of the sleepers, that under one number comes of those under the number. -/
theorem Session.filter_flatMap_sleepers {β : Type} {key : β → Nat} {f : Sleeper ρ → List β}
    (own : ∀ w, ∀ v ∈ f w, key v = w.id) (session : Session σ ρ) (id : Nat) :
    (session.sleepers.flatMap f).filter (fun v => key v = id) =
      (session.numbered id).flatMap f := by
  unfold Session.numbered
  induction session.sleepers with
  | nil => rfl
  | cons w others ih =>
    rw [List.flatMap_cons, List.filter_append, ih, List.filter_cons]
    split
    · rename_i same
      have all : (f w).filter (fun v => key v = id) = f w :=
        List.filter_eq_self.mpr fun v member => by simpa [own w v member] using same
      rw [all, List.flatMap_cons]
    · rename_i other
      have none : (f w).filter (fun v => key v = id) = [] :=
        List.filter_eq_nil_iff.mpr fun v member => by simpa [own w v member] using other
      rw [none, List.nil_append]

/-- The calls that a request brings to an end: itself, if it does not fall asleep, and those it
wakes. -/
def Report.endings (report : Report σ ρ ε α α) (id : Nat) : List (Woken α) :=
  match report.result with
  | .error .asleep => report.woken
  | result => ⟨id, 0, result⟩ :: report.woken

theorem Session.endings_submit (session : Session σ ρ) (turn : Turn σ ρ)
    (found : turn.before = session.state) :
    (session.submit service turn.id turn.request).endings turn.id =
      turn.ended service 0 ++ (session.submit service turn.id turn.request).woken := by
  obtain ⟨result, -⟩ := Session.submit_report service session turn found
  rw [Report.endings, Turn.ended, result]
  split <;> rfl

/-- Which calls under the number `id` are brought to an end by each of the requests, served one by
one. -/
def Session.endings (service : Service σ ρ ε α) (id : Nat) (requests : List (Nat × ρ))
    (session : Session σ ρ) : List (List (Woken α)) :=
  requests.zipWith (fun call report => (report.endings call.1).filter (·.id = id))
    (session.run service requests).1

theorem Session.endings_cons (id i : Nat) (q : ρ) (others : List (Nat × ρ))
    (session : Session σ ρ) :
    session.endings service id ((i, q) :: others) =
      ((session.submit service i q).endings i).filter (·.id = id) ::
        (session.submit service i q).session.endings service id others :=
  rfl

theorem Session.length_run (requests : List (Nat × ρ)) (session : Session σ ρ) :
    (session.run service requests).1.length = requests.length := by
  induction requests generalizing session with
  | nil => rfl
  | cons call others ih => simp [Session.run, ih]

theorem Session.endings_append (id : Nat) (first others : List (Nat × ρ))
    (session : Session σ ρ) :
    session.endings service id (first ++ others) =
      session.endings service id first ++
        (session.run service first).2.endings service id others := by
  simp only [Session.endings, Session.run_append]
  exact List.zipWith_append (Session.length_run first session).symm

end ProcessLife
