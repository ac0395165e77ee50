import ProcessLife.Proofs.Session.Round

/-!
# What serving keeps

Serving a request is the arrival of the call and then a round of wakeups, so what each of these
steps keeps is kept by serving: `submit_history`. If the wakeups notify nobody, then all who sleep
afterwards have seen the last notification.
-/

namespace ProcessLife

variable {σ ρ ε α : Type} {service : Service σ ρ ε α} {sleepers : List (Sleeper ρ)} {s : σ}

theorem Step.Wakes.ne_call {step : Step service} (wakes : step.Wakes) (id : Nat) (request : ρ) :
    step.move ≠ .call id request := by
  obtain ⟨place, wake⟩ := wakes
  simp [wake]

/-- In a round in which no turn notifies, what each turn keeps holds at the end, and whoever sleeps
then has seen the last notification. -/
theorem Service.wake_steady (holds : σ → Prop)
    (steady : ∀ w ∈ sleepers, ∀ s, holds s → holds ((service.attempt w.request).run s).state ∧
      service.signal ((service.attempt w.request).run s).state = service.signal s)
    (start : holds s) :
    holds (service.wake sleepers s).state ∧
      service.signal (service.wake sleepers s).state = service.signal s ∧
      ∀ w ∈ (service.wake sleepers s).sleepers, w.seen = service.signal s := by
  induction sleepers generalizing s with
  | nil => exact ⟨start, rfl, fun _ h => (List.not_mem_nil h).elim⟩
  | cons w others ih =>
    rw [List.forall_mem_cons] at steady
    by_cases seen : w.seen = service.signal s
    · obtain ⟨done, same, rest⟩ := ih steady.2 start
      simp only [Service.wake, seen, if_true]
      exact ⟨done, same, List.forall_mem_cons.mpr ⟨seen, rest⟩⟩
    · obtain ⟨next, quiet⟩ := steady.1 s start
      obtain ⟨done, same, rest⟩ := ih steady.2 next
      obtain ⟨state, sleepers⟩ := Session.wake_cons service w others s seen
      rw [state, sleepers]
      refine ⟨done, same.trans quiet, List.forall_mem_append.mpr ⟨fun v slept => ?_, ?_⟩⟩
      · exact (Turn.of_mem_asleep _ slept).2.2.trans quiet
      · exact fun v member => (rest v member).trans quiet

namespace Session

/-- Serving a request is the arrival of the call, followed by wakeups. -/
theorem submit_history (service : Service σ ρ ε α) (id : Nat) (request : ρ) (session : Session σ ρ)
    (steady : ((service.attempt request).run session.state).result = .error .asleep →
      service.signal (service.wake session.sleepers
          ((service.attempt request).run session.state).state).state =
        service.signal ((service.attempt request).run session.state).state) :
    ∃ steps, History service (Step.arrival service session id request).next steps
        (session.submit service id request).session ∧ ∀ s ∈ steps, s.Wakes := by
  let turn : Turn σ ρ := ⟨id, request, session.state⟩
  obtain ⟨steps, history, wakes⟩ :=
    wake_history service [] session.sleepers (turn.asleep service 0) (turn.reply service).state
  have served := submit_session service session turn rfl steady
  exact ⟨steps, served ▸ history, wakes⟩

/-- If none of the sleepers is notified, serving a request is its own turn and nothing else. -/
theorem submit_quiet (session : Session σ ρ) (turn : Turn σ ρ) (found : turn.before = session.state)
    (seen : ∀ w ∈ session.sleepers, w.seen = service.signal (turn.reply service).state) :
    (session.submit service turn.id turn.request).session =
      ⟨(turn.reply service).state, session.sleepers ++ turn.asleep service 0⟩ := by
  have round := Service.wake_of_seen seen
  rw [submit_session service session turn found fun _ => by rw [round], round]

/-- What serving each of the requests keeps holds when all are served. -/
theorem run_invariant (service : Service σ ρ ε α) (holds : Session σ ρ → Prop)
    {requests : List (Nat × ρ)} {session : Session σ ρ} (start : holds session)
    (keeps : ∀ call ∈ requests, ∀ session, holds session →
      holds (session.submit service call.1 call.2).session) :
    holds (session.run service requests).2 := by
  induction requests generalizing session with
  | nil => exact start
  | cons call others ih =>
    rw [List.forall_mem_cons] at keeps
    exact ih (keeps.1 session start) keeps.2

end Session
end ProcessLife
