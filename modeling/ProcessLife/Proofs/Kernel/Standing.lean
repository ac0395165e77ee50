import ProcessLife.Proofs.Kernel.Run
import ProcessLife.Proofs.Registry.Standing
import ProcessLife.Proofs.Session.Upkeep

/-!
# What sleepers wait for

Of the system calls only waits sleep, and a wait notifies nobody. So when a request has been served
and all whom it woke have tried again, whoever still sleeps has seen the last exit and has to go on
waiting: `run_orderly`. In particular nobody waits for an identifier that is still to be given out.
-/

namespace ProcessLife.Kernel

def Request.awaited? (q : Request) : Option (Pid × Pid) :=
  match q.call? with
  | some (caller, .waitpid child _ options) | some (caller, .wait4 child _ options _) =>
    if options = 0 ∧ 0 < child then some (caller, child.toUInt32) else none
  | _ => none

variable {k k' : Kernel} {session : Session Kernel Request} {q : Request}
  {result : Except Stop Answer} {caller caller' pid pid' : Pid} {w : Sleeper Request}

namespace Request

theorem awaits_iff : q.Awaits caller pid ↔ q.awaited? = some (caller, pid) := by
  constructor
  · rintro ⟨c, child, status, makes, rfl | ⟨rusage, rfl⟩, positive, rfl⟩ <;>
      simp [awaited?, makes, positive]
  · intro awaited
    unfold awaited? at awaited
    split at awaited
    · rename_i child status options makes
      simp only [Option.ite_none_right_eq_some, Option.some.injEq, Prod.mk.injEq] at awaited
      obtain ⟨⟨rfl, positive⟩, rfl, rfl⟩ := awaited
      exact ⟨_, child, status, makes, Or.inl rfl, positive, rfl⟩
    · rename_i child status options rusage makes
      simp only [Option.ite_none_right_eq_some, Option.some.injEq, Prod.mk.injEq] at awaited
      obtain ⟨⟨rfl, positive⟩, rfl, rfl⟩ := awaited
      exact ⟨_, child, status, makes, Or.inr ⟨rusage, rfl⟩, positive, rfl⟩
    · cases awaited

instance : Decidable (q.Awaits caller pid) :=
  decidable_of_iff _ awaits_iff.symm

theorem Awaits.unique (awaits : q.Awaits caller pid) (awaits' : q.Awaits caller' pid') :
    caller = caller' ∧ pid = pid' := by
  rw [awaits_iff] at awaits awaits'
  simpa [awaits] using awaits'

theorem Awaits.system (awaits : q.Awaits caller pid) : q.System := by
  obtain ⟨c, child, status, makes, -⟩ := awaits
  exact system_of_call makes

end Request

/-- A wait notifies nobody. -/
theorem Outcome.childExit_of_awaits (outcome : Outcome k q result k')
    (awaits : q.Awaits caller pid) : k'.registry.childExit = k.registry.childExit := by
  obtain ⟨c, child, status, makes, waits, -⟩ := awaits
  obtain ⟨found, waited, -⟩ := outcome.waited makes waits
  cases waited with
  | unsupported | unnamed | unregistered | stranger | slept => rfl
  | fetched _ _ fetch => exact fetch.childExit_wait
  | lost _ _ fetch => exact fetch.childExit_wait

/-- A wait that finds nothing to fetch changes nothing. -/
theorem Outcome.idle (outcome : Outcome k q result k') (awaits : q.Awaits caller pid)
    (sound : k.registry.Sound) (nothing : ¬ k.registry.Fetchable caller pid) : k' = k := by
  obtain ⟨c, child, status, makes, waits, -, rfl⟩ := awaits
  obtain ⟨found, waited, -⟩ := outcome.waited makes waits
  cases waited with
  | unsupported | unnamed | unregistered | stranger | slept => rfl
  | fetched _ _ fetch | lost _ _ fetch =>
    obtain ⟨⟨d, present, dead, parent⟩, -⟩ := fetch.fetches sound
    exact absurd ⟨d, present, by simp [Record.isZombie, dead], parent⟩ nothing

/-- Whoever has to go on waiting has to until somebody is notified. -/
theorem Outcome.stands (outcome : Outcome k q result k') (system : q.System)
    (sound : k.registry.Sound) (quiet : k'.registry.childExit = k.registry.childExit)
    (stands : k.registry.Stands caller pid) : k'.registry.Stands caller pid := by
  obtain ⟨p, result, same | asks, outcome⟩ := outcome.onRegistry
  · exact absurd same (system p)
  · refine outcome.stands sound quiet ?_ stands
    rintro rfl
    exact asks

/-- Whoever sleeps waits for somebody, and has to go on waiting unless it was notified since it last
tried. -/
structure Heeded (session : Session Kernel Request) : Prop where
  sound : session.state.registry.Sound
  stands : ∀ w ∈ session.sleepers, ∃ caller pid, w.request.Awaits caller pid ∧
    (w.seen = session.state.registry.childExit → session.state.registry.Stands caller pid)

structure Orderly (session : Session Kernel Request) : Prop extends Heeded session where
  seen : ∀ w ∈ session.sleepers, w.seen = session.state.registry.childExit

theorem Heeded.patient (heeded : Heeded session) : Patient session.sleepers := by
  intro w member
  obtain ⟨caller, pid, awaits, -⟩ := heeded.stands w member
  exact ⟨caller, pid, awaits⟩

/-- Nobody sleeps for what can be fetched. -/
theorem Orderly.standing (orderly : Orderly session) (member : w ∈ session.sleepers)
    (awaits : w.request.Awaits caller pid) : session.state.registry.Stands caller pid := by
  obtain ⟨caller', pid', awaits', stands⟩ := orderly.stands w member
  obtain ⟨rfl, rfl⟩ := awaits.unique awaits'
  exact stands (orderly.seen w member)

/-- A step leaves nobody waiting in vain who is not notified in it. -/
theorem Step.heeded_next (s : Step) (heeded : Heeded s.first) (system : s.System)
    (fresh : ∀ w ∈ s.first.sleepers, w.seen = s.next.state.registry.childExit →
      w.seen = s.first.state.registry.childExit) : Heeded s.next := by
  have outcome := s.outcome heeded.sound
  have allowed : s.turn.request.System := by
    rcases s.arrives_or_awaits heeded.patient with ⟨id, arrives⟩ | ⟨_, _, awaits⟩
    · exact system id _ arrives
    · exact awaits.system
  refine ⟨outcome.sound heeded.sound, fun w member => ?_⟩
  rcases s.mem_next member with earlier | slept
  · obtain ⟨caller, pid, awaits, stands⟩ := heeded.stands w earlier
    refine ⟨caller, pid, awaits, fun seen => ?_⟩
    have before := fresh w earlier seen
    exact outcome.stands allowed heeded.sound (seen.symm.trans before) (stands before)
  · obtain ⟨asleep, call, -⟩ := s.of_mem_asleep slept
    have request : w.request = s.turn.request := congrArg Prod.snd call
    obtain ⟨same, caller, pid, awaits, live⟩ := outcome.of_asleep allowed asleep
    refine ⟨caller, pid, request ▸ awaits, fun _ => ?_⟩
    obtain ⟨d, found, live, parent⟩ := live.of_asleep
    rw [same]
    exact Or.inr ⟨Table.isAlive_iff.mpr ⟨d, found, live⟩,
      Or.inl (parent ▸ Table.parentOf_of_get? found)⟩

theorem Step.range (s : Step) (sound : s.first.state.registry.Sound) :
    s.next.state.registry.pids.range = s.first.state.registry.pids.range := by
  obtain ⟨_, _, -, outcome⟩ := (s.outcome sound).onRegistry
  exact outcome.range

/-- The turn of a sleeper is that of a wait. -/
theorem Step.awaits_of_wakes (s : Step) (wakes : s.Wakes) (heeded : Heeded s.first) :
    ∃ caller pid, s.turn.request.Awaits caller pid := by
  rcases s.arrives_or_awaits heeded.patient with ⟨id, arrives⟩ | awaits
  · exact absurd arrives (wakes.ne_call id _)
  · exact awaits

theorem wake_steady {sleepers : List (Sleeper Request)} (patient : Patient sleepers)
    (sound : k.registry.Sound) :
    (service.wake sleepers k).state.registry.Sound ∧
      (service.wake sleepers k).state.registry.childExit = k.registry.childExit ∧
      ∀ w ∈ (service.wake sleepers k).sleepers, w.seen = k.registry.childExit := by
  have steady (w) (member : w ∈ sleepers) (s : Kernel) (sound : s.registry.Sound) :
      ((service.attempt w.request).run s).state.registry.Sound ∧
        service.signal ((service.attempt w.request).run s).state = service.signal s := by
    obtain ⟨_, _, awaits⟩ := patient w member
    have outcome := Turn.outcome ⟨w.id, w.request, s⟩ sound
    exact ⟨outcome.sound sound, outcome.childExit_of_awaits awaits⟩
  exact Service.wake_steady (fun s : Kernel => s.registry.Sound) steady sound

/-- Serving a system call leaves everything in order. It is the arrival of the call, and then
the turns of those whom it notified. -/
theorem submit_orderly (orderly : Orderly session) (system : q.System) (id : Nat) :
    Orderly (session.submit service id q).session ∧
      ∃ steps, History service (Step.arrival service session id q).next steps
          (session.submit service id q).session ∧ ∀ s ∈ steps, s.Wakes ∧ Heeded s.first := by
  let arrival := Step.arrival service session id q
  have arrived : Heeded arrival.next :=
    Step.heeded_next arrival orderly.toHeeded (fun _ _ call => by cases call; exact system)
      fun w member _ => orderly.seen w member
  have sound : arrival.next.state.registry.Sound := arrived.sound
  obtain ⟨-, same, tried⟩ := wake_steady orderly.patient sound
  have steady (_ : ((service.attempt q).run session.state).result = .error .asleep) := same
  obtain ⟨steps, history, wakes⟩ := Session.submit_history service id q session steady
  have kept := history.invariant Heeded arrived fun s member heeded => by
    obtain ⟨_, _, awaits⟩ := Step.awaits_of_wakes s (wakes s member) heeded
    have quiet := (Step.outcome s heeded.sound).childExit_of_awaits awaits
    exact Step.heeded_next s heeded
      (fun id q arrives => absurd arrives ((wakes s member).ne_call id q))
      fun w _ seen => seen.trans quiet
  refine ⟨⟨kept.2, ?_⟩, steps, history, fun s member => ⟨wakes s member, kept.1 s member⟩⟩
  have served : (session.submit service id q).session =
      ⟨(service.wake session.sleepers arrival.next.state).state,
        (service.wake session.sleepers arrival.next.state).sleepers ++
          arrival.turn.asleep service 0⟩ :=
    Session.submit_session service session arrival.turn rfl steady
  rw [served]
  intro w member
  rcases List.mem_append.mp member with earlier | slept
  · exact (tried w earlier).trans same.symm
  · exact (Turn.of_mem_asleep _ slept).2.2.trans same.symm

/-- What the arrival of a call and the turns of sleepers keep is kept by serving the call. -/
theorem submit_keeps (orderly : Orderly session) (system : q.System) {id : Nat}
    (holds : Session Kernel Request → Prop)
    (arrives : holds (Step.arrival service session id q).next)
    (keeps : ∀ s : Step, s.Wakes → Heeded s.first → holds s.first → holds s.next) :
    holds (session.submit service id q).session := by
  obtain ⟨-, steps, history, wakes⟩ := submit_orderly orderly system id
  exact (history.invariant holds arrives fun s member =>
    keeps s (wakes s member).1 (wakes s member).2).2

/-- If a call notifies nobody, then serving it is its own turn and nothing else. -/
theorem Orderly.submit_quiet (orderly : Orderly session) (id : Nat)
    (quiet : (Turn.after ⟨id, q, session.state⟩).registry.childExit =
      session.state.registry.childExit) :
    (session.submit service id q).session = ⟨Turn.after ⟨id, q, session.state⟩,
      session.sleepers ++ Turn.asleep service ⟨id, q, session.state⟩ 0⟩ :=
  Session.submit_quiet session ⟨id, q, session.state⟩ rfl fun w member =>
    (orderly.seen w member).trans quiet.symm

theorem orderly_new {config : Config} (new : Kernel.new config = .ok k) :
    Orderly { state := k } where
  sound := Registry.sound_new (new_eq_ok new).1
  stands _ member := (List.not_mem_nil member).elim
  seen _ member := (List.not_mem_nil member).elim

/-- Requests that do not go past the kernel leave everything in order. -/
theorem run_orderly {requests : List (Nat × Request)} (orderly : Orderly session)
    (system : ∀ call ∈ requests, call.2.System) : Orderly (session.run service requests).2 :=
  Session.run_invariant service Orderly orderly fun call member _ orderly =>
    (submit_orderly orderly (system call member) call.1).1

/-- From which identifiers forks draw is never changed. -/
theorem run_range {requests : List (Nat × Request)} (orderly : Orderly session)
    (system : ∀ call ∈ requests, call.2.System) :
    (session.run service requests).2.state.registry.pids.range =
      session.state.registry.pids.range := by
  let same (later : Session Kernel Request) : Prop :=
    later.state.registry.pids.range = session.state.registry.pids.range
  refine (Session.run_invariant service (fun later => Orderly later ∧ same later) ⟨orderly, rfl⟩
    fun call member before ⟨orderly, found⟩ => ?_).2
  refine ⟨(submit_orderly orderly (system call member) call.1).1,
    submit_keeps orderly (system call member) same ?_ ?_⟩
  · exact (Step.range (Step.arrival service before call.1 call.2) orderly.sound).trans found
  · exact fun s _ heeded found => (Step.range s heeded.sound).trans found

end ProcessLife.Kernel
