import ProcessLife.Proofs.Session.Ending
import ProcessLife.Session.Monitor

/-!
# Waiting for a threshold

A call that waits until the value of a monitor is large enough looks at it when it comes in and at
every notification, and at no other time. So it ends at the first notification that finds the value
large enough, and by then it has been woken once for each notification. Who else waits, and for how
much, makes no difference: `ends_at_notification`.
-/

namespace ProcessLife

namespace Monitor

def Request.notifies : Request → Bool
  | .waitFor _ => false
  | .set _ told => told
  | .add _ told => told
  | .notify => true

def Request.writes (value : Int64) : Request → Int64
  | .set new _ => new
  | .add amount _ => value + amount
  | _ => value

def valueAfter (value : Int64) (requests : List (Nat × Request)) : Int64 :=
  requests.foldl (fun value call => call.2.writes value) value

def notifications (requests : List (Nat × Request)) : Nat :=
  requests.countP (·.2.notifies)

def Request.Opens (least value : Int64) (q : Request) : Prop :=
  q.notifies = true ∧ least ≤ q.writes value

/-- None of the requests both notifies and leaves a value that is large enough. -/
def Shut (least value : Int64) (requests : List (Nat × Request)) : Prop :=
  ∀ front i q back, requests = front ++ (i, q) :: back → ¬ q.Opens least (valueAfter value front)

/-- All who sleep wait for a value, and have seen the last notification. -/
def Settled (session : Session Monitor Request) : Prop :=
  ∀ w ∈ session.sleepers, w.seen = session.state.changed ∧ ∃ least, w.request = .waitFor least

variable {m : Monitor} {session : Session Monitor Request} {w : Sleeper Request}
  {past rest others : List (Nat × Request)} {q : Request} {id i wakeups : Nat} {least value : Int64}

theorem valueAfter_concat (front : List (Nat × Request)) :
    valueAfter value (front ++ [(i, q)]) = q.writes (valueAfter value front) := by
  simp [valueAfter]

theorem notifications_concat (front : List (Nat × Request)) (notifies : q.notifies = true) :
    notifications (front ++ [(i, q)]) = notifications front + 1 := by
  simp [notifications, notifies]

theorem shut_nil : Shut least value [] := by
  intro front i q back parts
  simp at parts

theorem shut_cons :
    Shut least value ((i, q) :: others) ↔
      ¬ q.Opens least value ∧ Shut least (q.writes value) others := by
  constructor
  · intro shut
    refine ⟨shut [] i q others rfl, fun front j p back parts => ?_⟩
    exact shut ((i, q) :: front) j p back (by rw [parts, List.cons_append])
  · rintro ⟨first, shut⟩ front j p back parts
    cases front with
    | nil =>
      cases parts
      exact first
    | cons call front =>
      cases parts
      exact shut front j p back rfl

instance (least value : Int64) (q : Request) : Decidable (q.Opens least value) :=
  inferInstanceAs (Decidable (_ ∧ _))

instance decidableShut (least : Int64) :
    (value : Int64) → (requests : List (Nat × Request)) → Decidable (Shut least value requests)
  | _, [] => .isTrue shut_nil
  | value, (_, q) :: others =>
    have := decidableShut least (q.writes value) others
    decidable_of_iff _ shut_cons.symm

section attempt

def Request.leaves (m : Monitor) (q : Request) : Monitor :=
  ⟨q.writes m.value, if q.notifies then m.changed.notify else m.changed⟩

theorem state_attempt : ((service.attempt q).run m).state = q.leaves m := by
  cases q with
  | waitFor least =>
    simp only [service, Monitor.attempt, Operation.run_bind, Operation.run_current,
      Reply.andThen_ok, Operation.run_ite]
    split <;> rfl
  | set value told => cases told <;> rfl
  | add amount told => cases told <;> rfl
  | notify => rfl

theorem result_waitFor :
    ((service.attempt (.waitFor least)).run m).result =
      if m.value < least then .error .asleep else .ok (some m.value) := by
  simp only [service, Monitor.attempt, Operation.run_bind, Operation.run_current,
    Reply.andThen_ok, Operation.run_ite]
  split <;> rfl

theorem not_asleep (other : ∀ least, q ≠ .waitFor least) :
    ((service.attempt q).run m).result ≠ .error .asleep := by
  cases q with
  | waitFor least => exact absurd rfl (other least)
  | _ => exact fun h => nomatch h

end attempt

theorem of_mem_asleep {t : Turn Monitor Request} (slept : w ∈ t.asleep service wakeups) :
    w.seen = (t.request.leaves t.before).changed ∧ ∃ least, w.request = .waitFor least := by
  obtain ⟨asleep, call, seen⟩ := t.of_mem_asleep slept
  have request : w.request = t.request := congrArg Prod.snd call
  refine ⟨seen.trans (congrArg Monitor.changed state_attempt), Classical.byContradiction ?_⟩
  intro other
  rw [request] at other
  exact not_asleep (not_exists.mp other) asleep

/-- Letting in those who sleep, after a request that may notify. Nobody changes anything, so each
fares as it would alone. -/
theorem wake_settled (settled : Settled session) (q : Request) :
    let m := q.leaves session.state
    let round := service.wake session.sleepers m
    round.state = m ∧
      (round.woken = if q.notifies
        then session.sleepers.flatMap fun w => (w.turn m).ended service (w.wakeups + 1)
        else []) ∧
      round.sleepers = if q.notifies
        then session.sleepers.flatMap fun w => (w.turn m).asleep service (w.wakeups + 1)
        else session.sleepers := by
  intro m round
  cases notifies : q.notifies with
  | false =>
    have seen : ∀ w ∈ session.sleepers, w.seen = service.signal m := by
      intro w member
      rw [(settled w member).1]
      simp [service, m, Request.leaves, notifies]
    simp [round, Service.wake_of_seen seen]
  | true =>
    have notified : ∀ w ∈ session.sleepers, w.seen ≠ service.signal m := by
      intro w member
      rw [(settled w member).1]
      simpa [service, m, Request.leaves, notifies] using (Signal.notify_ne _).symm
    have idle : ∀ w ∈ session.sleepers, ((service.attempt w.request).run m).state = m := by
      intro w member
      obtain ⟨least, waits⟩ := (settled w member).2
      rw [state_attempt, waits]
      rfl
    simpa [round] using Service.wake_idle notified idle

theorem submit_settled (settled : Settled session) (i : Nat) (q : Request) :
    let m := q.leaves session.state
    let turn : Turn Monitor Request := ⟨i, q, session.state⟩
    let report := session.submit service i q
    report.endings i =
        turn.ended service 0 ++ (service.wake session.sleepers m).woken ∧
      report.session =
        ⟨m, (service.wake session.sleepers m).sleepers ++ turn.asleep service 0⟩ := by
  intro m turn report
  have after : (turn.reply service).state = m := state_attempt
  obtain ⟨state, -, -⟩ := wake_settled settled q
  obtain ⟨-, woken⟩ := Session.submit_report service session turn rfl
  have left := Session.submit_session service session turn rfl
  rw [after] at woken left
  refine ⟨woken ▸ Session.endings_submit session turn rfl, ?_⟩
  rw [left fun _ => congrArg _ state, state]

theorem settled_submit (settled : Settled session) (i : Nat) (q : Request) :
    Settled (session.submit service i q).session := by
  obtain ⟨-, left⟩ := submit_settled settled i q
  obtain ⟨-, -, sleepers⟩ := wake_settled settled q
  rw [left, sleepers]
  intro w member
  rcases List.mem_append.mp member with earlier | own
  · split at earlier
    · obtain ⟨v, member, again⟩ := List.mem_flatMap.mp earlier
      obtain ⟨least, waits⟩ := (settled v member).2
      obtain ⟨seen, same⟩ := of_mem_asleep again
      rw [Sleeper.turn, waits] at seen
      exact ⟨seen, same⟩
    · rename_i quiet
      obtain ⟨seen, waits⟩ := settled w earlier
      exact ⟨by simp [seen, Request.leaves, quiet], waits⟩
  · exact of_mem_asleep own

/-- What a request under another number means to the calls under a number. -/
theorem submit_other (settled : Settled session) (other : i ≠ id) (q : Request) :
    let m := q.leaves session.state
    let report := session.submit service i q
    (report.endings i).filter (·.id = id) = (if q.notifies
        then (session.numbered id).flatMap fun w => (w.turn m).ended service (w.wakeups + 1)
        else []) ∧
      report.session.numbered id = if q.notifies
        then (session.numbered id).flatMap fun w => (w.turn m).asleep service (w.wakeups + 1)
        else session.numbered id := by
  intro m report
  obtain ⟨ends, left⟩ := submit_settled settled i q
  obtain ⟨-, woken, sleepers⟩ := wake_settled settled q
  constructor
  · have own : (Turn.ended service ⟨i, q, session.state⟩ 0).filter (·.id = id) = [] := by
      rw [List.filter_eq_nil_iff]
      intro w ended
      simpa [Turn.id_of_mem_ended ended] using other
    rw [ends, woken, List.filter_append, own, List.nil_append]
    split
    · exact Session.filter_flatMap_sleepers (fun w v => Turn.id_of_mem_ended) session id
    · rfl
  · have own : (Turn.asleep service ⟨i, q, session.state⟩ 0).filter (·.id = id) = [] := by
      rw [List.filter_eq_nil_iff]
      intro w slept
      have same : w.id = i := congrArg Prod.fst (Turn.of_mem_asleep _ slept).2.1
      simpa [same] using other
    rw [Session.numbered, left, sleepers, List.filter_append, own, List.append_nil]
    split
    · exact Session.filter_flatMap_sleepers
        (fun w v slept => congrArg Prod.fst (Turn.of_mem_asleep _ slept).2.1) session id
    · rfl

def silence (requests : List (Nat × Request)) : List (List (Woken (Option Int64))) :=
  requests.map fun _ => []

theorem endings_other (settled : Settled session) (other : i ≠ id) :
    session.endings service id ((i, q) :: others) =
      (if q.notifies
        then (session.numbered id).flatMap fun w =>
          (w.turn (q.leaves session.state)).ended service (w.wakeups + 1)
        else []) ::
      (session.submit service i q).session.endings service id others := by
  rw [Session.endings_cons, (submit_other settled other q).1]

theorem result_turn (waits : w.request = .waitFor least) (m : Monitor) :
    ((w.turn m).reply service).result =
      if m.value < least then .error .asleep else .ok (some m.value) := by
  rw [Turn.reply, Sleeper.turn, waits, result_waitFor]

theorem value_submit (settled : Settled session) (i : Nat) (q : Request) :
    (session.submit service i q).session.state.value = q.writes session.state.value := by
  rw [(submit_settled settled i q).2]
  rfl

theorem settled_run (settled : Settled session) (requests : List (Nat × Request)) :
    Settled (session.run service requests).2 ∧
      (session.run service requests).2.state.value = valueAfter session.state.value requests := by
  induction requests generalizing session with
  | nil => exact ⟨settled, rfl⟩
  | cons call others ih =>
    obtain ⟨i, q⟩ := call
    obtain ⟨last, value⟩ := ih (settled_submit settled i q)
    exact ⟨last, value.trans (congrArg (valueAfter · others) (value_submit settled i q))⟩

/-- Under a number under which nobody sleeps or calls nothing happens. -/
theorem silent (settled : Settled session) (none : session.numbered id = [])
    (foreign : ∀ call ∈ others, call.1 ≠ id) :
    session.endings service id others = silence others ∧
      (session.run service others).2.numbered id = [] := by
  induction others generalizing session with
  | nil => exact ⟨rfl, none⟩
  | cons call others ih =>
    obtain ⟨i, q⟩ := call
    rw [List.forall_mem_cons] at foreign
    have next := (submit_other settled foreign.1 q).2
    simp only [none, List.flatMap_nil, ite_self] at next
    obtain ⟨ended, last⟩ := ih (settled_submit settled i q) next foreign.2
    refine ⟨?_, last⟩
    rw [endings_other settled foreign.1, ended, none]
    simp [silence]

/-- As long as no notification finds the value large enough, the call sleeps, and is woken by each
of them. -/
theorem sleeps_on (settled : Settled session) (own : session.numbered id = [w])
    (waits : w.request = .waitFor least) (foreign : ∀ call ∈ others, call.1 ≠ id)
    (shut : Shut least session.state.value others) :
    session.endings service id others = silence others ∧
      ∃ v, (session.run service others).2.numbered id = [v] ∧
        v.request = .waitFor least ∧ v.wakeups = w.wakeups + notifications others := by
  induction others generalizing session w with
  | nil => exact ⟨rfl, w, own, waits, rfl⟩
  | cons call others ih =>
    obtain ⟨i, q⟩ := call
    rw [List.forall_mem_cons] at foreign
    obtain ⟨closed, shut⟩ := shut_cons.mp shut
    have next := (submit_other settled foreign.1 q).2
    have settled' := settled_submit settled i q
    rw [← value_submit settled i q] at shut
    rw [endings_other settled foreign.1]
    simp only [own, List.flatMap_singleton] at next ⊢
    cases notifies : q.notifies with
    | false =>
      simp only [notifies, Bool.false_eq_true, if_false] at next ⊢
      obtain ⟨ended, v, last, asks, count⟩ := ih settled' next waits foreign.2 shut
      refine ⟨by rw [ended]; rfl, v, last, asks, count.trans ?_⟩
      simp [notifications, notifies]
    | true =>
      have low : q.writes session.state.value < least :=
        Int64.not_le.mp fun high => closed ⟨notifies, high⟩
      have asleep : ((w.turn (q.leaves session.state)).reply service).result = .error .asleep :=
        (result_turn waits _).trans (if_pos low)
      simp only [notifies, if_true, Turn.ended_of_slept asleep, Turn.asleep_of_slept asleep]
        at next ⊢
      obtain ⟨ended, v, last, asks, count⟩ := ih settled' next waits foreign.2 shut
      refine ⟨by rw [ended]; rfl, v, last, asks, count.trans ?_⟩
      simp [notifications, notifies, Nat.add_assoc, Nat.add_comm]

/-- A notification that finds the value large enough ends the call. -/
theorem ends_when_opened (settled : Settled session) (own : session.numbered id = [w])
    (waits : w.request = .waitFor least) (foreign : ∀ call ∈ (i, q) :: others, call.1 ≠ id)
    (opens : q.Opens least session.state.value) :
    session.endings service id ((i, q) :: others) =
        [⟨id, w.wakeups + 1, .ok (some (q.writes session.state.value))⟩] ::
          silence others ∧
      (session.run service ((i, q) :: others)).2.numbered id = [] := by
  obtain ⟨notifies, high⟩ := opens
  rw [List.forall_mem_cons] at foreign
  have same : w.id = id := by
    have member : w ∈ session.numbered id := by simp [own]
    simpa using (List.mem_filter.mp member).2
  have answered : ((w.turn (q.leaves session.state)).reply service).result =
      .ok (some (q.writes session.state.value)) :=
    (result_turn waits _).trans (if_neg (Int64.not_lt.mpr high))
  have next := (submit_other settled foreign.1 q).2
  have gone : (w.turn (q.leaves session.state)).asleep service (w.wakeups + 1) = [] :=
    Turn.asleep_of_ended (by simp [answered])
  simp only [own, notifies, if_true, List.flatMap_singleton, gone] at next
  obtain ⟨ended, last⟩ := silent (settled_submit settled i q) next foreign.2
  refine ⟨?_, last⟩
  rw [endings_other settled foreign.1, ended, own, if_pos notifies, List.flatMap_singleton,
    Turn.ended_of_ended (by simp [answered]), answered, Sleeper.turn, same]

/-- A call that comes in is answered at once if it finds the value large enough, and falls asleep
otherwise. -/
theorem submit_waitFor (settled : Settled session) (none : session.numbered id = [])
    (least : Int64) :
    let report := session.submit service id (.waitFor least)
    (report.endings id).filter (·.id = id) = (if session.state.value < least
        then [] else [⟨id, 0, .ok (some session.state.value)⟩]) ∧
      report.session.numbered id = if session.state.value < least
        then [⟨id, .waitFor least, session.state.changed, 0⟩] else [] := by
  intro report
  let turn : Turn Monitor Request := ⟨id, .waitFor least, session.state⟩
  obtain ⟨ends, left⟩ := submit_settled settled id (.waitFor least)
  obtain ⟨-, nobody, sleepers⟩ := wake_settled settled (.waitFor least)
  have quiet : (Request.waitFor least).notifies = false := rfl
  simp only [quiet, Bool.false_eq_true, if_false] at nobody sleepers
  have result : (turn.reply service).result = _ := result_waitFor
  rw [Session.numbered] at none ⊢
  rw [ends, nobody, left, sleepers, List.append_nil, List.filter_append, none, List.nil_append]
  by_cases low : session.state.value < least
  · have slept : (turn.reply service).result = .error .asleep := result.trans (if_pos low)
    have seen : service.signal (turn.reply service).state = session.state.changed :=
      congrArg Monitor.changed state_attempt
    rw [Turn.ended_of_slept slept, Turn.asleep_of_slept slept, seen]
    simp [low, turn]
  · have answered : (turn.reply service).result = .ok _ := result.trans (if_neg low)
    have ended : (turn.reply service).result ≠ .error .asleep := by simp [answered]
    rw [Turn.ended_of_ended ended, Turn.asleep_of_ended ended]
    simp [low, answered, turn]

/-- A call that waits for a value is answered at once if the value is large enough already, without
having been woken. Otherwise it ends at the first notification after which the value is large
enough, with that value, and has then been woken once for each notification since it came in; if
there is none, it sleeps at the end. What comes before and in between is arbitrary: other calls that
wait, and changes with and without a notification. -/
theorem ends_at_notification (m : Monitor) (past rest : List (Nat × Request))
    (own : ∀ call ∈ past ++ rest, call.1 ≠ id) :
    let requests := past ++ (id, .waitFor least) :: rest
    let endings := Session.endings service id requests { state := m }
    let last := (Session.run service requests { state := m }).2
    let found := valueAfter m.value past
    (least ≤ found →
      endings = silence past ++ [⟨id, 0, .ok (some found)⟩] :: silence rest ∧
        last.numbered id = []) ∧
    (found < least →
      (∀ front i q back, rest = front ++ (i, q) :: back → Shut least found front →
        q.Opens least (valueAfter found front) →
        endings = silence past ++ [] :: (silence front ++
          [⟨id, notifications (front ++ [(i, q)]),
            .ok (some (valueAfter found (front ++ [(i, q)])))⟩] :: silence back) ∧
          last.numbered id = []) ∧
      (Shut least found rest →
        endings = silence past ++ [] :: silence rest ∧
          ∃ w, last.numbered id = [w] ∧ w.request = .waitFor least ∧
            w.wakeups = notifications rest)) := by
  intro requests endings last found
  obtain ⟨before, after⟩ := List.forall_mem_append.mp own
  let start : Session Monitor Request := { state := m }
  have settled : Settled start := fun w member => (List.not_mem_nil member).elim
  obtain ⟨quiet, absent⟩ := silent settled rfl before
  obtain ⟨settled, value⟩ := settled_run settled past
  obtain ⟨ended, parked⟩ := submit_waitFor settled absent least
  have same : _ = found := (value_submit settled id (.waitFor least)).trans value
  have settled' := settled_submit settled id (.waitFor least)
  have parts : endings = silence past ++ _ :: _ :=
    (Session.endings_append id past _ start).trans (by rw [quiet, Session.endings_cons, ended])
  have ends : last = _ := congrArg Prod.snd (Session.run_append service past _ start)
  simp only [Session.run] at ends
  rw [value] at parts parked
  refine ⟨fun high => ?_, fun low => ⟨?_, fun shut => ?_⟩⟩
  · rw [if_neg (Int64.not_lt.mpr high)] at parts parked
    obtain ⟨later, none⟩ := silent settled' parked after
    exact ⟨by rw [parts, later], by rw [ends, none]⟩
  · rintro front i q back rfl shut opens
    obtain ⟨foreign, later⟩ := List.forall_mem_append.mp after
    rw [if_pos low] at parts parked
    rw [← same] at shut opens
    obtain ⟨slept, w, waiting, waits, count⟩ := sleeps_on settled' parked rfl foreign shut
    obtain ⟨settled, value⟩ := settled_run settled' front
    rw [← value] at opens
    obtain ⟨answered, none⟩ := ends_when_opened settled waiting waits later opens
    rw [value, same, count, Nat.zero_add] at answered
    refine ⟨?_, by rw [ends, Session.run_append, none]⟩
    rw [parts, Session.endings_append, slept, answered, notifications_concat front opens.1,
      valueAfter_concat]
  · rw [if_pos low] at parts parked
    rw [← same] at shut
    obtain ⟨slept, w, waiting, waits, count⟩ := sleeps_on settled' parked rfl after shut
    refine ⟨by rw [parts, slept], w, by rw [ends, waiting], waits, ?_⟩
    rw [count, Nat.zero_add]

/-- The value is large enough once without a notification, and again at the second one. -/
theorem ends_at_second_notification :
    let requests : List (Nat × Request) := [(0, .waitFor 5), (1, .waitFor 1), (2, .waitFor 3),
      (3, .set 4 false), (4, .set 1 true), (5, .add 3 true), (6, .set 9 false)]
    Session.endings service 2 requests { state := {} } =
        [[], [], [], [], [], [⟨2, 2, .ok (some 4)⟩], []] ∧
      (Session.run service requests { state := {} }).2.numbered 2 = [] :=
  ((ends_at_notification {} [(0, .waitFor 5), (1, .waitFor 1)]
    [(3, .set 4 false), (4, .set 1 true), (5, .add 3 true), (6, .set 9 false)] (by decide)).2
    (by decide)).1 [(3, .set 4 false), (4, .set 1 true)] 5 (.add 3 true) _ rfl (by decide)
    (by decide)

end Monitor
end ProcessLife
