import ProcessLife.Proofs.Registry.Broadcast

/-!
# A wait before or after the exit

A parent may ask for the status of a child before the child has exited, and sleep, or afterwards,
and be answered at once. When requests are served one by one, with the sleepers let in by the order
of their calls, the two ways lead to the same answers and to the same session: the wait that came
early comes last in the round after the exit, and finds there what the late one finds.
-/

namespace ProcessLife.Registry

variable {config : Config} {r : Registry} {session : Session Registry Request} {x parent : Pid}
  {status : ExitStatus} {sleepers : List (Sleeper Request)}

/-- The round in which the sleepers come by the order of their calls is one of the rounds. -/
theorem wake_aftermath (sound : r.Sound)
    (meets : ∀ w ∈ sleepers, w.seen ≠ r.childExit ∧ r.Meets x status w.request) :
    (⟨(service.wake sleepers r).state, (service.wake sleepers r).sleepers⟩ :
      Session Registry Request) = aftermath x ⟨r, sleepers⟩ := by
  have patient := patient_of_meets meets
  obtain ⟨-, quiet, -, tried⟩ := wake_patient sound patient
  obtain ⟨steps, history, wakes⟩ := Session.wake_history service [] sleepers [] r
  simp only [List.nil_append, List.append_nil] at history
  have round : Session.LetsIn service ⟨r, sleepers⟩ steps
      ⟨(service.wake sleepers r).state, (service.wake sleepers r).sleepers⟩ :=
    ⟨history, wakes, fun w member => (tried w member).trans quiet.symm⟩
  exact (round_verdicts sound meets round).1

/-- What serving a request comes to, by what its attempt comes to. -/
theorem submit_serve {q : Request} {result : Except Stop Answer} {r' : Registry}
    {events : List Event} (run : (serve q).run r = ⟨result, r', events⟩) (sound : r'.Sound)
    (patient : Patient sleepers) (id : Nat) :
    (Session.submit service id q ⟨r, sleepers⟩).result = result ∧
      (Session.submit service id q ⟨r, sleepers⟩).woken = (service.wake sleepers r').woken ∧
      (Session.submit service id q ⟨r, sleepers⟩).session =
        ⟨(service.wake sleepers r').state, (service.wake sleepers r').sleepers ++
          if result = .error .asleep then [⟨id, q, r'.childExit, 0⟩] else []⟩ := by
  let session : Session Registry Request := ⟨r, sleepers⟩
  let turn : Turn := ⟨id, q, r⟩
  have reply : turn.reply service = ⟨result, r', events⟩ := run
  obtain ⟨-, steady, -, -⟩ := wake_patient sound patient
  obtain ⟨done, woken⟩ := Session.submit_report service session turn rfl
  have left := Session.submit_session service session turn rfl
  rw [reply] at done woken left
  replace left := left fun _ => steady
  refine ⟨done, woken, left.trans ?_⟩
  congr 2
  split
  · rename_i slept
    rw [ProcessLife.Turn.asleep_of_slept (by rw [reply, slept]), reply]
    rfl
  · rename_i ended
    exact ProcessLife.Turn.asleep_of_ended (by rw [reply]; exact ended)

theorem submit_wait_live {p : Record} (sound : r.Sound) (found : r.table.get? x = some p)
    (live : p.status = none) (owned : p.parent ≠ noParent) (patient : Patient sleepers)
    (seen : ∀ w ∈ sleepers, w.seen = r.childExit) (id : Nat) :
    (Session.submit service id (.wait p.parent x) ⟨r, sleepers⟩).result = .error .asleep ∧
      (Session.submit service id (.wait p.parent x) ⟨r, sleepers⟩).woken = [] ∧
      (Session.submit service id (.wait p.parent x) ⟨r, sleepers⟩).session =
        ⟨r, sleepers ++ [⟨id, .wait p.parent x, r.childExit, 0⟩]⟩ := by
  have run : (serve (.wait p.parent x)).run r = ⟨.error .asleep, r, []⟩ :=
    run_serve (run_wait_live found owned live)
  have nobody : service.wake sleepers r = ⟨r, [], sleepers, []⟩ := Service.wake_of_seen seen
  simpa [nobody] using submit_serve run sound patient id

section round

/-! After the exit of `x` and the round that follows, its parent gets a turn. -/

variable {id : Nat} {turn : Turn} (sound : r.Sound)
  (meets : ∀ w ∈ sleepers, w.seen ≠ r.childExit ∧ r.Meets x status w.request)
  (own : r.Meets x status (.wait parent x))
  (turns : turn = ⟨id, .wait parent x, (service.wake sleepers r).state⟩)

include sound meets own turns

/-- The wait is answered: with the status, or, if somebody else has waited for `x`, with the error
that there is no such process. -/
theorem wait_after_round :
    (turn.result = if sleepers.any (·.request.awaits x) then .error (.failed .esrch)
      else .ok (.reaped status)) ∧
      turn.result ≠ .error .asleep ∧ turn.after.Sound ∧ turn.after.childExit = r.childExit := by
  have request : turn.request = .wait parent x := by rw [turns]
  have before : turn.before = (service.wake sleepers r).state := by rw [turns]
  have patient := patient_of_meets meets
  obtain ⟨sound', steady, -, -⟩ := wake_patient sound patient
  have after := wake_aftermath sound meets
  simp only [aftermath, Session.mk.injEq] at after
  obtain ⟨result, -⟩ := Turn.verdict sound (before.trans after.1) (request ▸ own)
  rw [← before] at sound' steady
  have outcome := turn.outcome sound'
  rw [request, verdict, if_pos rfl] at result
  refine ⟨result, ?_, outcome.sound sound', ?_⟩
  · rw [result]
    split <;> simp
  · rw [request] at outcome
    exact outcome.childExit_wait.trans steady

/-- If the wait slept before the exit, behind all others, then it has its turn after theirs. -/
theorem wake_with_own {seen : Signal} (notified : seen ≠ r.childExit) :
    let round := service.wake (sleepers ++ [⟨id, .wait parent x, seen, 0⟩]) r
    round.state = turn.after ∧
      round.woken = (service.wake sleepers r).woken ++ [⟨id, 1, turn.result⟩] ∧
      round.sleepers = (service.wake sleepers r).sleepers := by
  intro round
  obtain ⟨-, answered, -⟩ := wait_after_round sound meets own turns
  have patient := patient_of_meets meets
  obtain ⟨-, steady, -⟩ := wake_patient sound patient
  have alone := Session.wake_singleton (w := ⟨id, .wait parent x, seen, 0⟩)
    (fun same => notified (same.trans steady)) turns answered
  obtain ⟨state, woken, rest⟩ :=
    Session.wake_append service sleepers [⟨id, .wait parent x, seen, 0⟩] r
  rw [alone] at state woken rest
  exact ⟨state, woken, rest.trans (List.append_nil _)⟩

/-- If the wait comes in when the exit and the round are over, it is answered at once, and nobody
else is. -/
theorem submit_after_round :
    let round := service.wake sleepers r
    let late := Session.submit service id (.wait parent x) ⟨round.state, round.sleepers⟩
    late.result = turn.result ∧ late.woken = [] ∧
      late.session = ⟨turn.after, round.sleepers⟩ := by
  intro round late
  obtain ⟨-, answered, sound', steady⟩ := wait_after_round sound meets own turns
  have patient := patient_of_meets meets
  obtain ⟨-, -, patient', tried⟩ := wake_patient sound patient
  have served : (serve (.wait parent x)).run round.state =
      ⟨turn.result, turn.after, (turn.reply service).events⟩ := by
    rw [turns]
    rfl
  have nobody : service.wake round.sleepers turn.after = ⟨turn.after, [], round.sleepers, []⟩ :=
    Service.wake_of_seen fun w member => (tried w member).trans steady.symm
  obtain ⟨result, woken, left⟩ := submit_serve served sound' patient' id
  rw [nobody] at woken left
  rw [if_neg answered, List.append_nil] at left
  exact ⟨result, woken, left⟩

end round

/-- A wait for a live child of the caller can be exchanged with the exit of the child. Whether it
comes first and sleeps, or comes when the exit is over and everybody else has been let in, it gets
the same answer: the status, or that there is no such process if somebody else has waited for it.
All others get the same answers as well, and the same session is left. -/
theorem wait_exit_exchange (settled : Settled config session)
    (alive : session.state.table.isAlive x = true)
    (child : session.state.table.parentOf x = some parent) (named : parent ≠ noParent)
    (other : parent ≠ x) (i j : Nat) (code : Int32) :
    let parked := session.submit service i (.wait parent x)
    let early := parked.session.submit service j (.exit x code)
    let ended := session.submit service j (.exit x code)
    let late := ended.session.submit service i (.wait parent x)
    parked.result = .error .asleep ∧ parked.woken = [] ∧
      early.result = .ok .done ∧ ended.result = .ok .done ∧
      early.woken = ended.woken ++ [⟨i, 1, late.result⟩] ∧ late.woken = [] ∧
      early.session = late.session ∧
      late.result = if session.sleepers.any (·.request.awaits x) then .error (.failed .esrch)
        else .ok (.reaped (.ofCode code)) := by
  obtain ⟨r, sleepers⟩ := session
  intro parked early ended late
  obtain ⟨sound, pending⟩ := settled.pending
  obtain ⟨p, found, live⟩ := Table.isAlive_iff.mp alive
  obtain rfl : p.parent = parent := by
    rw [Table.parentOf_of_get? found] at child
    exact Option.some.inj child
  have waiting : r.Pending (.wait p.parent x) := ⟨p.parent, x, p, rfl, named, found, live, rfl⟩
  have stranger : r.table.parentOf x ≠ some x := by
    rw [child]
    exact fun same => other (Option.some.inj same)
  obtain ⟨r', events, run, sound', moved, meets⟩ := sound.serve_exit alive stranger code
  have notified : r.childExit ≠ r'.childExit := by
    rw [moved]
    exact (Signal.notify_ne _).symm
  have faced : ∀ w ∈ sleepers, w.seen ≠ r'.childExit ∧ r'.Meets x (.ofCode code) w.request := by
    intro w member
    obtain ⟨seen, waits⟩ := pending w member
    exact ⟨seen ▸ notified, meets _ waits⟩
  have patient := patient_of_meets faced
  have own : Patient [⟨i, .wait p.parent x, r.childExit, 0⟩] := by simp [Patient]
  -- The wait has its turn after all others, whether it slept before or has just come in.
  let turn : Turn := ⟨i, .wait p.parent x, (service.wake sleepers r').state⟩
  obtain ⟨slept, nobody, asleep⟩ := submit_wait_live sound found live named patient
    (fun w member => (pending w member).1) i
  obtain ⟨done, woken, left⟩ := submit_serve run sound' patient j
  obtain ⟨done', woken', left'⟩ := submit_serve run sound' (patient.append own) j
  obtain ⟨answer, -⟩ := wait_after_round sound' faced (meets _ waiting) (rfl : turn = _)
  obtain ⟨state, joined, others⟩ :=
    wake_with_own sound' faced (meets _ waiting) (rfl : turn = _) notified
  obtain ⟨result, none, same⟩ :=
    submit_after_round sound' faced (meets _ waiting) (rfl : turn = _)
  have early_eq : early = _ := congrArg (Session.submit service j (.exit x code)) asleep
  have late_eq : late = _ := congrArg (Session.submit service i (.wait p.parent x))
    (left.trans (congrArg _ (List.append_nil _)))
  rw [early_eq, late_eq]
  refine ⟨slept, nobody, done', done, ?_, none, ?_, result.trans answer⟩
  · rw [result, woken', joined]
    exact congrArg (· ++ _) woken.symm
  · rw [left', same, state, others]
    exact congrArg _ (List.append_nil _)

/-- Somebody else waits for the child already, so the wait comes too late either way. -/
theorem wait_exit_exchange_behind_another :
    ∃ session : Session Registry Request, Settled {} session ∧
      session.sleepers.map (·.call) = [(4, .wait 1 2), (5, .wait 2 3), (6, .wait 1 4)] ∧
      let early :=
        (session.submit service 7 (.wait 1 2)).session.submit service 8 (.exit 2 7)
      let ended := session.submit service 8 (.exit 2 7)
      let late := ended.session.submit service 7 (.wait 1 2)
      early.woken = ended.woken ++ [⟨7, 1, .error (.failed .esrch)⟩] ∧
        early.session = late.session ∧ late.result = .error (.failed .esrch) := by
  have recorded : service.record (Registry.new {}) [.call 0 (.addRoot 1), .call 1 (.fork 1),
    .call 2 (.fork 2), .call 3 (.fork 1), .call 4 (.wait 1 2), .call 5 (.wait 2 3),
    .call 6 (.wait 1 4)] = .ok ([] ++ [_, _, _, _, _, _, _], _) := rfl
  obtain ⟨r₀, new, history⟩ := service.history_of_record recorded
  have settled : Settled {} _ :=
    ⟨r₀, _, new, history, by decide, by decide, _, _, rfl, by decide, by decide⟩
  obtain ⟨-, -, -, -, woken, -, same, late⟩ :=
    wait_exit_exchange (x := 2) settled rfl (rfl : _ = some (1 : Pid)) (by decide) (by decide) 7 8 7
  have missed := late.trans (if_pos rfl)
  exact ⟨_, settled, rfl, missed ▸ woken, same, missed⟩

end ProcessLife.Registry
