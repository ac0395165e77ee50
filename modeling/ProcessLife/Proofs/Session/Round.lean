import ProcessLife.Proofs.Session.History
import Mathlib.Data.List.Basic

/-!
# Rounds

After a notification everybody who was notified tries again. `LetsIn` is such a round, in whatever
order they come; `Service.wake` is the round in which they come in the order of their calls. If
nobody is notified within the round, then each of them has exactly one turn, any order is possible
(`exists_letsIn`), and who sleeps afterwards, and in which place, depends only on which requests
fall asleep again (`LetsIn.sleepers`).
-/

namespace ProcessLife

variable {σ ρ ε α : Type} {service : Service σ ρ ε α}

namespace Session

def notified (service : Service σ ρ ε α) (session : Session σ ρ) : List (Sleeper ρ) :=
  session.sleepers.filter (·.seen ≠ service.signal session.state)

/-- Those who were notified try again, one after the other and nobody in between, until none of them
is left. -/
structure LetsIn (service : Service σ ρ ε α) (first : Session σ ρ) (steps : List (Step service))
    (last : Session σ ρ) : Prop where
  history : History service first steps last
  wakes : ∀ s ∈ steps, s.Wakes
  done : ∀ w ∈ last.sleepers, w.seen = service.signal last.state

end Session

def Sleeper.again (signal : Signal) (w : Sleeper ρ) : Sleeper ρ :=
  { w with seen := signal, wakeups := w.wakeups + 1 }

/-- What becomes of a sleeper in a round in which the requests that `stays` picks fall asleep
again. -/
def Sleeper.fate (signal : Signal) (stays : ρ → Bool) (w : Sleeper ρ) : Option (Sleeper ρ) :=
  if w.seen = signal then some w else if stays w.request then some (w.again signal) else none

variable {first last : Session σ ρ} {steps : List (Step service)} {s : Step service}
  {w : Sleeper ρ} {stays : ρ → Bool}

/-- One of the notified has had its turn, and the others are still to come. -/
theorem Step.notified_of_wakes (wakes : s.Wakes) (quiet : ¬ s.Notifies) :
    ∃ w, s.turn.call = w.call ∧
      (s.first.notified service).Perm (w :: s.next.notified service) := by
  have same : service.signal s.next.state = service.signal s.first.state :=
    Classical.not_not.mp quiet
  obtain ⟨front, w, back, sleepers, notified, turn, -, next⟩ := Step.of_wakes wakes
  have fresh : s.asleep.filter (·.seen ≠ service.signal s.first.state) = [] := by
    rw [List.filter_eq_nil_iff]
    intro v slept
    simp [(s.of_mem_asleep slept).2.2, same]
  refine ⟨w, by rw [turn], ?_⟩
  simp only [Session.notified, sleepers, next, same, List.filter_append, fresh, List.nil_append,
    List.filter_cons_of_pos (p := fun v : Sleeper ρ => decide (v.seen ≠ _))
      (decide_eq_true notified)]
  exact List.perm_middle

/-- Each of the notified tries once. -/
theorem Step.fate_next (wakes : s.Wakes) (quiet : ¬ s.Notifies)
    (verdict : (s.turn.reply service).result = .error .asleep ↔ stays s.turn.request = true) :
    s.next.sleepers.filterMap (·.fate (service.signal s.first.state) stays) =
      s.first.sleepers.filterMap (·.fate (service.signal s.first.state) stays) := by
  have same : service.signal s.next.state = service.signal s.first.state :=
    Classical.not_not.mp quiet
  obtain ⟨front, w, back, sleepers, notified, turn, slept, next⟩ := Step.of_wakes wakes
  have own : s.asleep.filterMap (·.fate (service.signal s.first.state) stays) =
      [w].filterMap (·.fate (service.signal s.first.state) stays) := by
    have request : s.turn.request = w.request := by rw [turn]
    have id : s.turn.id = w.id := by rw [turn]
    rw [s.state_next] at same
    by_cases asleep : (s.turn.reply service).result = .error .asleep
    · have stays := verdict.mp asleep
      rw [request] at stays
      rw [slept, Turn.asleep_of_slept asleep]
      simp [Sleeper.fate, Sleeper.again, notified, stays, same, request, id]
    · have leaves : stays w.request = false := by
        rw [← request, Bool.eq_false_iff]
        exact fun h => asleep (verdict.mpr h)
      rw [slept, Turn.asleep_of_ended asleep]
      simp [Sleeper.fate, notified, leaves]
  rw [next, sleepers, List.filterMap_append, List.filterMap_append, own,
    ← List.filterMap_append, ← List.filterMap_append]
  rfl

namespace History

theorem signal_of_quiet (history : History service first steps last)
    (quiet : ∀ s ∈ steps, ¬ s.Notifies) :
    service.signal last.state = service.signal first.state := by
  refine (history.invariant (fun session =>
    service.signal session.state = service.signal first.state) rfl fun s member same => ?_).2
  exact (Classical.not_not.mp (quiet s member)).trans same

theorem notified_of_wakes (history : History service first steps last)
    (wakes : ∀ s ∈ steps, s.Wakes) (quiet : ∀ s ∈ steps, ¬ s.Notifies) :
    ((first.notified service).map (·.call)).Perm
      (steps.map (·.turn.call) ++ (last.notified service).map (·.call)) := by
  induction history with
  | stay => exact .refl _
  | step s _ ih =>
    rw [List.forall_mem_cons] at wakes quiet
    obtain ⟨w, call, perm⟩ := Step.notified_of_wakes wakes.1 quiet.1
    refine (perm.map _).trans ?_
    rw [List.map_cons, List.map_cons, List.cons_append, call]
    exact (ih wakes.2 quiet.2).cons _

theorem fate_of_wakes (history : History service first steps last)
    (wakes : ∀ s ∈ steps, s.Wakes) (quiet : ∀ s ∈ steps, ¬ s.Notifies)
    (verdict : ∀ s ∈ steps,
      (s.turn.reply service).result = .error .asleep ↔ stays s.turn.request = true) :
    last.sleepers.filterMap (·.fate (service.signal first.state) stays) =
      first.sleepers.filterMap (·.fate (service.signal first.state) stays) := by
  induction history with
  | stay => rfl
  | step s _ ih =>
    rw [List.forall_mem_cons] at wakes quiet verdict
    have same : service.signal s.next.state = service.signal s.first.state :=
      Classical.not_not.mp quiet.1
    rw [← Step.fate_next wakes.1 quiet.1 verdict.1, ← same]
    exact ih wakes.2 quiet.2 verdict.2

end History

namespace Session

/-- In a round each of the notified has one turn. -/
theorem LetsIn.perm_turns (round : LetsIn service first steps last)
    (quiet : ∀ s ∈ steps, ¬ s.Notifies) :
    (steps.map (·.turn.call)).Perm ((first.notified service).map (·.call)) := by
  have none : last.notified service = [] := by
    rw [notified, List.filter_eq_nil_iff]
    intro w member
    simp [round.done w member]
  have perm := round.history.notified_of_wakes round.wakes quiet
  rw [none, List.map_nil, List.append_nil] at perm
  exact perm.symm

/-- Who sleeps after a round does not depend on the order of the turns. -/
theorem LetsIn.sleepers (stays : ρ → Bool) (round : LetsIn service first steps last)
    (quiet : ∀ s ∈ steps, ¬ s.Notifies)
    (verdict : ∀ s ∈ steps,
      (s.turn.reply service).result = .error .asleep ↔ stays s.turn.request = true) :
    last.sleepers = first.sleepers.filterMap (·.fate (service.signal first.state) stays) := by
  rw [← round.history.fate_of_wakes round.wakes quiet verdict,
    ← round.history.signal_of_quiet quiet]
  have kept : ∀ w ∈ last.sleepers, w.fate (service.signal last.state) stays = some w := by
    intro w member
    rw [Sleeper.fate, if_pos (round.done w member)]
  rw [List.filterMap_congr kept, List.filterMap_some]

/-- Every order in which the notified may come is that of a round. -/
theorem exists_letsIn (holds : Session σ ρ → Prop)
    (keeps : ∀ s : Step service, s.Wakes → holds s.first → holds s.next ∧ ¬ s.Notifies)
    (start : holds first) {order : List (Nat × ρ)}
    (perm : order.Perm ((first.notified service).map (·.call))) :
    ∃ steps last, LetsIn service first steps last ∧ steps.map (·.turn.call) = order := by
  induction order generalizing first with
  | nil =>
    have none : first.notified service = [] := List.map_eq_nil_iff.mp perm.nil_eq.symm
    refine ⟨[], first, ⟨.stay first, fun _ h => (List.not_mem_nil h).elim, fun w member => ?_⟩, rfl⟩
    simpa using List.filter_eq_nil_iff.mp none w member
  | cons call others ih =>
    obtain ⟨w, member, rfl⟩ := List.mem_map.mp (perm.subset List.mem_cons_self)
    obtain ⟨member, seen⟩ := List.mem_filter.mp member
    obtain ⟨s, rfl, wakes, turn⟩ := Step.exists_wake member (of_decide_eq_true seen)
    obtain ⟨start, quiet⟩ := keeps s wakes start
    obtain ⟨v, same, rest⟩ := Step.notified_of_wakes wakes quiet
    have tail : others.Perm ((s.next.notified service).map (·.call)) := by
      have both := perm.trans (rest.map _)
      rw [List.map_cons, ← same, turn] at both
      exact both.cons_inv
    obtain ⟨steps, last, round, calls⟩ := ih start tail
    refine ⟨s :: steps, last, ⟨.step s round.history, ?_, round.done⟩, ?_⟩
    · exact List.forall_mem_cons.mpr ⟨wakes, round.wakes⟩
    · rw [List.map_cons, turn, calls]

/-- A notified sleeper has its turn and then the others have theirs. -/
theorem wake_cons (service : Service σ ρ ε α) (w : Sleeper ρ) (others : List (Sleeper ρ)) (s : σ)
    (notified : w.seen ≠ service.signal s) :
    (service.wake (w :: others) s).state =
        (service.wake others (Turn.reply service ⟨w.id, w.request, s⟩).state).state ∧
      (service.wake (w :: others) s).sleepers =
        Turn.asleep service ⟨w.id, w.request, s⟩ (w.wakeups + 1) ++
          (service.wake others (Turn.reply service ⟨w.id, w.request, s⟩).state).sleepers := by
  simp only [Service.wake, notified, if_false, Turn.asleep, Turn.reply]
  split <;> simp_all

/-- Letting the notified sleepers try one after the other is a history of wakeups. Those in `front`
had their chance already, and those in `back` get none. -/
theorem wake_history (service : Service σ ρ ε α) (front sleepers back : List (Sleeper ρ)) (s : σ) :
    ∃ steps, History service ⟨s, front ++ (sleepers ++ back)⟩ steps
        ⟨(service.wake sleepers s).state, front ++ ((service.wake sleepers s).sleepers ++ back)⟩ ∧
      ∀ u ∈ steps, u.Wakes := by
  induction sleepers generalizing front s with
  | nil => exact ⟨[], .stay _, fun _ h => (List.not_mem_nil h).elim⟩
  | cons w others ih =>
    by_cases seen : w.seen = service.signal s
    · obtain ⟨steps, history, wakes⟩ := ih (front ++ [w]) s
      exact ⟨steps, by simpa [Service.wake, seen] using history, wakes⟩
    · let turn : Turn σ ρ := ⟨w.id, w.request, s⟩
      let again := turn.asleep service (w.wakeups + 1)
      let step : Step service :=
        ⟨⟨s, front ++ (w :: others ++ back)⟩, .wake front.length, turn,
          ⟨(turn.reply service).state, front ++ (again ++ (others ++ back))⟩,
          by simp [move, seen, turn, again]⟩
      obtain ⟨steps, history, wakes⟩ := ih (front ++ again) (turn.reply service).state
      obtain ⟨state, sleepers⟩ := wake_cons service w others s seen
      refine ⟨step :: steps, .step step ?_, List.forall_mem_cons.mpr ⟨⟨_, rfl⟩, wakes⟩⟩
      rw [state, sleepers]
      simpa only [List.append_assoc] using history

/-- Those who come later do not matter to those who come first. -/
theorem wake_append (service : Service σ ρ ε α) (front back : List (Sleeper ρ)) (s : σ) :
    (service.wake (front ++ back) s).state =
        (service.wake back (service.wake front s).state).state ∧
      (service.wake (front ++ back) s).woken = (service.wake front s).woken ++
        (service.wake back (service.wake front s).state).woken ∧
      (service.wake (front ++ back) s).sleepers = (service.wake front s).sleepers ++
        (service.wake back (service.wake front s).state).sleepers := by
  induction front generalizing s with
  | nil => exact ⟨rfl, rfl, rfl⟩
  | cons w others ih =>
    by_cases seen : w.seen = service.signal s
    · obtain ⟨state, woken, sleepers⟩ := ih s
      simp [Service.wake, seen, state, woken, sleepers]
    · obtain ⟨state, woken, sleepers⟩ := ih ((service.attempt w.request).run s).state
      simp only [List.cons_append, Service.wake, seen, if_false]
      split <;> simp [state, woken, sleepers]

/-- The round of a single sleeper that was notified and is answered. -/
theorem wake_singleton {service : Service σ ρ ε α} {w : Sleeper ρ} {s : σ}
    (notified : w.seen ≠ service.signal s) {turn : Turn σ ρ}
    (own : turn = ⟨w.id, w.request, s⟩) (ended : (turn.reply service).result ≠ .error .asleep) :
    service.wake [w] s = ⟨(turn.reply service).state,
      [⟨w.id, w.wakeups + 1, (turn.reply service).result⟩], [], (turn.reply service).events⟩ := by
  subst own
  simp only [Turn.reply] at ended
  simp only [Service.wake, notified, if_false, Turn.reply, List.append_nil]

/-- A request is answered by its own attempt, and lets in those who slept before. -/
theorem submit_report (service : Service σ ρ ε α) (session : Session σ ρ) (turn : Turn σ ρ)
    (found : turn.before = session.state) :
    (session.submit service turn.id turn.request).result = (turn.reply service).result ∧
      (session.submit service turn.id turn.request).woken =
        (service.wake session.sleepers (turn.reply service).state).woken := by
  simp only [submit, perform, Operation.run_bind, Operation.run_tell, Reply.andThen_ok,
    Reply.result_after, Reply.state_after, Turn.reply, found]
  cases ended : ((service.attempt turn.request).run session.state).result with
  | ok answer => simp
  | error why => cases why <;> simp

/-- What serving a request leaves: those who slept before it have been let in, and the call itself
stands last if it fell asleep. It has then seen the last notification, provided that letting the
others in did not notify anybody. -/
theorem submit_session (service : Service σ ρ ε α) (session : Session σ ρ) (turn : Turn σ ρ)
    (found : turn.before = session.state)
    (steady : (turn.reply service).result = .error .asleep →
      service.signal (service.wake session.sleepers (turn.reply service).state).state =
        service.signal (turn.reply service).state) :
    (session.submit service turn.id turn.request).session =
      ⟨(service.wake session.sleepers (turn.reply service).state).state,
        (service.wake session.sleepers (turn.reply service).state).sleepers ++
          turn.asleep service 0⟩ := by
  simp only [Turn.reply, found] at steady
  simp only [submit, perform, Operation.run_bind, Operation.run_tell, Reply.andThen_ok,
    Reply.result_after, Reply.state_after, Turn.asleep, Turn.reply, found]
  cases ended : ((service.attempt turn.request).run session.state).result with
  | ok answer => simp
  | error why =>
    cases why with
    | asleep => simp [steady ended]
    | failed | broken | exited => simp

theorem submit_run (service : Service σ ρ ε α) (id : Nat) (request : ρ) (session : Session σ ρ)
    (steady : ((service.attempt request).run session.state).result = .error .asleep →
      service.signal (service.wake session.sleepers
          ((service.attempt request).run session.state).state).state =
        service.signal ((service.attempt request).run session.state).state) :
    ∃ turns, Run service session turns (session.submit service id request).session := by
  let turn : Turn σ ρ := ⟨id, request, session.state⟩
  have moved : session.move service (.call id request) =
      some (turn, ⟨(turn.reply service).state, session.sleepers ++ turn.asleep service 0⟩) :=
    rfl
  obtain ⟨steps, history, -⟩ :=
    wake_history service [] session.sleepers (turn.asleep service 0) (turn.reply service).state
  have served := submit_session service session turn rfl steady
  exact ⟨turn :: _, .move moved (served ▸ history.run)⟩

end Session
end ProcessLife
