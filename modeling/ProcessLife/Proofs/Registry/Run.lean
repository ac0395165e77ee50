import ProcessLife.Proofs.Registry.Sound
import ProcessLife.Proofs.Session.Round

/-!
# Runs of a registry

A registry is reachable if it can be left behind by a run that began with a new one: any requests,
with any arguments, also such as break rules, and with the sleepers waking in any order. Reachable
registries are sound. Requests that are served one by one make up such a run.
-/

namespace ProcessLife.Registry

abbrev Turn := ProcessLife.Turn Registry Request

namespace Turn

def result (t : Turn) : Except Stop Answer :=
  (t.reply service).result

def after (t : Turn) : Registry :=
  (t.reply service).state

theorem served {t : Turn} {q : Request} {result : Except Stop Answer} {r' : Registry}
    {events : List Event} (request : t.request = q)
    (run : (serve q).run t.before = ⟨result, r', events⟩) : t.result = result ∧ t.after = r' := by
  subst request
  have reply : t.reply service = ⟨result, r', events⟩ := run
  exact ⟨congrArg Reply.result reply, congrArg Reply.state reply⟩

theorem of_move {first next : Session Registry Request} {m : Move Request} {t : Turn}
    (moved : first.move service m = some (t, next)) :
    t.before = first.state ∧ next.state = t.after :=
  Session.move_state moved

theorem of_run {first last : Session Registry Request} {past rest : List Turn} {t : Turn}
    (run : Session.Run service first (past ++ t :: rest) last) :
    ∃ here next, Session.Run service first past here ∧ t.before = here.state ∧
      next.state = t.after ∧ Session.Run service next rest last :=
  run.cut

theorem outcome (t : Turn) (sound : t.before.Sound) :
    Outcome t.before t.request t.result t.after := by
  obtain ⟨result, r', events, run, outcome⟩ := sound.outcome t.request
  obtain ⟨rfl, rfl⟩ := served rfl run
  exact outcome

end Turn

/-- The registries that can come about under a configuration. -/
def Reachable (config : Config) (r : Registry) : Prop :=
  ∃ r₀ turns last, Registry.new config = .ok r₀ ∧
    Session.Run service { state := r₀ } turns last ∧ last.state = r

def play (config : Config) (moves : List (Move Request)) :
    Except Fault (List Turn × Session Registry Request) := do
  let r₀ ← Registry.new config
  return Session.play service moves { state := r₀ }

variable {config : Config} {r r₀ : Registry} {first last : Session Registry Request}
  {turns : List Turn}

theorem run_of_play {moves : List (Move Request)} (played : play config moves = .ok (turns, last)) :
    ∃ r₀, Registry.new config = .ok r₀ ∧ Session.Run service { state := r₀ } turns last := by
  obtain ⟨r₀, new, ended⟩ := exists_of_bind_eq_ok played
  have run := Session.play_run service moves { state := r₀ }
  rw [Except.ok.inj ended] at run
  exact ⟨r₀, new, run⟩

theorem sound_of_run (run : Session.Run service first turns last) (sound : first.state.Sound) :
    last.state.Sound :=
  (run.invariant Sound sound fun (t : Turn) _ sound => (t.outcome sound).sound sound).2

theorem Reachable.sound (h : Reachable config r) : r.Sound := by
  obtain ⟨r₀, turns, last, new, run, rfl⟩ := h
  exact sound_of_run run (sound_new new)

theorem reachable_before (new : Registry.new config = .ok r₀)
    (run : Session.Run service { state := r₀ } turns last) {t : Turn} (member : t ∈ turns) :
    Reachable config t.before := by
  obtain ⟨before, after, rfl⟩ := List.append_of_mem member
  obtain ⟨here, next, front, found, -⟩ := Turn.of_run run
  exact ⟨r₀, before, here, new, front, found.symm⟩

theorem Reachable.follows (h : Reachable config r) : r.Follows config := by
  obtain ⟨r₀, turns, last, new, run, rfl⟩ := h
  have start : r₀.Sound ∧ r₀.Follows config := ⟨sound_new new, follows_new new⟩
  refine (run.invariant (fun r => r.Sound ∧ r.Follows config) start ?_).2.2
  rintro (t : Turn) - ⟨sound, follows⟩
  have outcome := t.outcome sound
  exact ⟨outcome.sound sound, outcome.follows follows⟩

theorem Reachable.reaper (h : Reachable config r) : r.reaper = config.reaper :=
  h.follows.reaper

/-- Only waiting calls sleep. -/
def Patient (sleepers : List (Sleeper Request)) : Prop :=
  ∀ w ∈ sleepers, ∃ parent child, w.request = .wait parent child

variable {sleepers : List (Sleeper Request)}

theorem Outcome.childExit_wait {parent child : Pid} {result : Except Stop Answer} {r' : Registry}
    (outcome : Outcome r (.wait parent child) result r') : r'.childExit = r.childExit := by
  cases outcome <;> rfl

theorem Outcome.wait_of_asleep {q : Request} {r' : Registry}
    (outcome : Outcome r q (.error .asleep) r') : ∃ parent child, q = .wait parent child := by
  cases outcome with
  | refused awake => exact absurd rfl awake
  | slept => exact ⟨_, _, rfl⟩

theorem Turn.patient_asleep (t : Turn) (sound : t.before.Sound) (wakeups : Nat) :
    Patient (t.asleep service wakeups) := by
  intro w member
  obtain ⟨slept, call, -⟩ := t.of_mem_asleep member
  have outcome := t.outcome sound
  have result : t.result = .error .asleep := slept
  have request : w.request = t.request := congrArg Prod.snd call
  rw [result] at outcome
  exact request ▸ outcome.wait_of_asleep

theorem Patient.append {others : List (Sleeper Request)} (patient : Patient sleepers)
    (rest : Patient others) : Patient (sleepers ++ others) :=
  List.forall_mem_append.mpr ⟨patient, rest⟩

/-- Waiting calls that try again do not notify anybody, so they all have seen the last notification
when the round is over. -/
theorem wake_patient (sound : r.Sound) (patient : Patient sleepers) :
    (service.wake sleepers r).state.Sound ∧
      (service.wake sleepers r).state.childExit = r.childExit ∧
      Patient (service.wake sleepers r).sleepers ∧
      ∀ w ∈ (service.wake sleepers r).sleepers, w.seen = r.childExit := by
  induction sleepers generalizing r with
  | nil => exact ⟨sound, rfl, patient, fun _ h => (List.not_mem_nil h).elim⟩
  | cons w others ih =>
    obtain ⟨waits, patient⟩ := List.forall_mem_cons.mp patient
    by_cases seen : w.seen = service.signal r
    · obtain ⟨sound, same, rest, tried⟩ := ih sound patient
      simp only [Service.wake, seen, if_true]
      exact ⟨sound, same, List.forall_mem_cons.mpr ⟨waits, rest⟩,
        List.forall_mem_cons.mpr ⟨seen, tried⟩⟩
    · let turn : Turn := ⟨w.id, w.request, r⟩
      have outcome := turn.outcome sound
      obtain ⟨state, sleepers⟩ := Session.wake_cons service w others r seen
      obtain ⟨sound', same, rest, tried⟩ := ih (outcome.sound sound) patient
      obtain ⟨parent, child, waits⟩ := waits
      have request : turn.request = .wait parent child := waits
      rw [request] at outcome
      have quiet : turn.after.childExit = r.childExit := outcome.childExit_wait
      rw [state, sleepers]
      refine ⟨sound', same.trans quiet, (turn.patient_asleep sound _).append rest, ?_⟩
      refine List.forall_mem_append.mpr ⟨fun v slept => ?_, fun v member => ?_⟩
      · exact (turn.of_mem_asleep slept).2.2.trans quiet
      · exact (tried v member).trans quiet

/-- One request more is a few turns more. -/
theorem submit_run (sound : first.state.Sound) (patient : Patient first.sleepers) (id : Nat)
    (q : Request) :
    (∃ turns, Session.Run service first turns (first.submit service id q).session) ∧
      Patient (first.submit service id q).session.sleepers := by
  let turn : Turn := ⟨id, q, first.state⟩
  obtain ⟨-, same, rest, -⟩ := wake_patient ((turn.outcome sound).sound sound) patient
  refine ⟨Session.submit_run service id q first fun _ => same, ?_⟩
  rw [Session.submit_session service first turn rfl fun _ => same]
  exact rest.append (turn.patient_asleep sound 0)

/-- Requests that are served one by one, as a program would, make up a run. -/
theorem run_requests (requests : List (Nat × Request)) (sound : first.state.Sound)
    (patient : Patient first.sleepers) :
    ∃ turns, Session.Run service first turns (first.run service requests).2 := by
  induction requests generalizing first with
  | nil => exact ⟨[], .stay first⟩
  | cons request others ih =>
    obtain ⟨id, q⟩ := request
    obtain ⟨⟨front, served⟩, patient⟩ := submit_run sound patient id q
    obtain ⟨back, rest⟩ := ih (sound_of_run served sound) patient
    exact ⟨front ++ back, served.append rest⟩

/-- What requests leave behind on a new registry is reachable. -/
theorem reachable_run (new : Registry.new config = .ok r₀) (requests : List (Nat × Request)) :
    Reachable config (Session.run service requests { state := r₀ }).2.state := by
  let start : Session Registry Request := { state := r₀ }
  have sound : start.state.Sound := sound_new new
  obtain ⟨turns, run⟩ := run_requests requests sound fun _ h => (List.not_mem_nil h).elim
  exact ⟨r₀, turns, _, new, run, rfl⟩

end ProcessLife.Registry
