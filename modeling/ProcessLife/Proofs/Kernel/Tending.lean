import ProcessLife.Proofs.Kernel.Standing

/-!
# A child until its status is fetched

Between a fork and the wait for the child a lot can be asked of the kernel. Whatever it is, as long
as neither the child nor its parent exits by it and the parent does not wait for the child, the
record of the child stays as it is, and so do the calls that sleep for it: `run_tended`. Once the
status has been fetched the identifier is vacant, until it is given out again: `run_vacant`.
-/

namespace ProcessLife.Kernel

/-- The request leaves the child `c` to its parent `p`: neither of them exits by it, and it is not
the wait of the parent for the child. -/
structure Request.Spares (q : Request) (p c : Pid) : Prop where
  system : q.System
  stays : ∀ {caller call code}, q.call? = some (caller, call) → call.Ends code →
    caller ≠ p ∧ caller ≠ c
  leaves : ¬ q.Awaits p c

def waiters (p c : Pid) (session : Session Kernel Request) : List (Nat × Request) :=
  (session.sleepers.map Sleeper.call).filter (·.2.Awaits p c)

/-- The process `c` is a child of `p` with this status, and the calls are those that wait for it.
There are none any more once it has exited. -/
structure Tended (p c : Pid) (status : Option ExitStatus) (calls : List (Nat × Request))
    (session : Session Kernel Request) : Prop where
  record : session.state.registry.table.get? c = some ⟨c, p, status⟩
  waiting : waiters p c session = calls
  pending : calls ≠ [] → status = none

def Request.Begets (q : Request) (result : Except Stop Answer) (c : Pid) : Prop :=
  (∃ frame space, q = .launch frame space) ∧ result = .ok (.launched c) ∨
    (∃ caller call, q.call? = some (caller, call) ∧ call.Forks) ∧
      result = .ok (.value (ofPid c))

variable {k k' : Kernel} {session : Session Kernel Request} {q : Request}
  {result : Except Stop Answer} {caller p c pid : Pid} {status : Option ExitStatus}
  {calls : List (Nat × Request)} {requests : List (Nat × Request)} {call : Syscall}

section tended

theorem Request.Awaits.spares (awaits : q.Awaits caller pid) (other : ¬ q.Awaits p c) :
    q.Spares p c where
  system := awaits.system
  stays makes ends := by
    obtain ⟨call, child, status, makes', waits, -⟩ := awaits
    rw [makes] at makes'
    cases makes'
    exact absurd ends waits.not_ends
  leaves := other

/-- A request that spares a child leaves its record as it is. -/
theorem Outcome.get?_of_spares (outcome : Outcome k q result k') (spares : q.Spares p c)
    (found : k.registry.table.get? c = some ⟨c, p, status⟩) :
    k'.registry.table.get? c = some ⟨c, p, status⟩ := by
  obtain ⟨request, result, same | asks, outcome⟩ := outcome.onRegistry
  · exact absurd same (spares.system request)
  refine outcome.get?_of_spared found ?_ ?_ ?_
  · rintro rfl
    exact asks
  · rintro pid code rfl
    obtain ⟨call, makes, ends⟩ := asks
    exact (spares.stays makes ends).symm
  · rintro rfl
    exact spares.leaves asks

/-- As long as the child lives, its parent waits. -/
theorem Outcome.sleeps (outcome : Outcome k q result k') (awaits : q.Awaits p c)
    (found : k.registry.table.get? c = some ⟨c, p, none⟩) (owned : p ≠ noParent)
    (sound : k.registry.Sound) : result = .error .asleep ∧ k' = k := by
  obtain ⟨call, child, place, makes, waits, positive, rfl⟩ := awaits
  obtain ⟨answer, waited, same⟩ := outcome.waited makes waits
  cases waited with
  | unsupported extra => exact absurd rfl extra
  | unnamed _ negative => exact absurd positive (Int32.not_lt.mpr negative)
  | unregistered _ _ missing => simp [found] at missing
  | stranger _ _ found' stranger =>
    rw [found] at found'
    cases found'
    simp [owned] at stranger
  | slept => exact ⟨same.elim id id, rfl⟩
  | fetched _ _ fetch | lost _ _ fetch =>
    obtain ⟨⟨d, found', dead, -⟩, -⟩ := fetch.fetches sound
    rw [found] at found'
    cases found'
    cases dead

/-- A request that spares the child is not one that waits for it. -/
theorem Step.filter_asleep (s : Step) (spares : s.turn.request.Spares p c) :
    (s.asleep.map Sleeper.call).filter (·.2.Awaits p c) = [] := by
  rw [List.filter_eq_nil_iff]
  intro call member
  obtain ⟨w, slept, rfl⟩ := List.mem_map.mp member
  rw [(s.of_mem_asleep slept).2.1, decide_eq_true_eq]
  exact spares.leaves

/-- A child is tended from one step to the next, as long as the calls that come in spare it. If it
is alive, those who wait for it and try again fall asleep again. -/
theorem Step.tended_next (s : Step) (tended : Tended p c status calls s.first)
    (owned : p ≠ noParent) (heeded : Heeded s.first)
    (spares : ∀ id q, s.move = .call id q → q.Spares p c) : Tended p c status calls s.next := by
  have outcome := s.outcome heeded.sound
  have waiting := tended.waiting
  rcases s.cases with
    ⟨id, q, call, turn, -, next⟩ | ⟨front, w, back, -, sleepers, -, turn, slept, next⟩
  · have spared : s.turn.request.Spares p c := turn ▸ spares id q call
    refine ⟨outcome.get?_of_spares spared tended.record, ?_, tended.pending⟩
    rw [waiters, next, List.map_append, List.filter_append, s.filter_asleep spared, List.append_nil]
    exact waiting
  simp only [waiters, sleepers, List.map_append, List.map_cons, List.filter_append,
    List.filter_cons] at waiting
  have request : s.turn.request = w.request := by rw [turn]
  by_cases own : w.request.Awaits p c
  · obtain rfl : status = none := tended.pending (by simp [← waiting, own])
    obtain ⟨asleep, same⟩ := outcome.sleeps (request ▸ own) tended.record owned heeded.sound
    refine ⟨same ▸ tended.record, ?_, tended.pending⟩
    have again : s.asleep.map Sleeper.call = [w.call] := by
      rw [slept, Turn.asleep_of_slept asleep, turn, List.map_singleton]
    simpa [waiters, next, again, own] using waiting
  · obtain ⟨_, _, awaits, -⟩ := heeded.stands w (by simp [sleepers])
    have spared : s.turn.request.Spares p c := request ▸ awaits.spares own
    refine ⟨outcome.get?_of_spares spared tended.record, ?_, tended.pending⟩
    simpa [waiters, next, s.filter_asleep spared, own] using waiting

theorem submit_tended (orderly : Orderly session) (tended : Tended p c status calls session)
    (owned : p ≠ noParent) (spares : q.Spares p c) (id : Nat) :
    Tended p c status calls (session.submit service id q).session := by
  refine submit_keeps orderly spares.system _ ?_ fun s wakes heeded tended =>
    Step.tended_next s tended owned heeded fun i p call => absurd call (wakes.ne_call i p)
  exact Step.tended_next (Step.arrival service session id q) tended owned orderly.toHeeded
    fun _ _ call => by cases call; exact spares

/-- A child is tended as long as it is spared. -/
theorem run_tended (orderly : Orderly session) (tended : Tended p c status calls session)
    (owned : p ≠ noParent) (spares : ∀ call ∈ requests, call.2.Spares p c) :
    Orderly (session.run service requests).2 ∧
      Tended p c status calls (session.run service requests).2 :=
  Session.run_invariant service (fun session => Orderly session ∧ Tended p c status calls session)
    ⟨orderly, tended⟩ fun call member _ ⟨orderly, tended⟩ =>
      ⟨(submit_orderly orderly (spares call member).system call.1).1,
        submit_tended orderly tended owned (spares call member) call.1⟩

end tended

section vacant

theorem ofPid_inj {pid pid' : Pid} (same : ofPid pid = ofPid pid') : pid = pid' := by
  simpa [ofPid] using congrArg (·.toUInt64.toUInt32) same

/-- Nobody gets an identifier that is vacant without being told. -/
theorem Started.vacant {request : Registry.Request} {task : Task} {result : Except Stop Pid}
    (started : Started k request task result k') (vacant : k.registry.Vacant c)
    (named : c ≠ noParent) : k'.registry.Vacant c ∨ result = .ok c := by
  cases started with
  | started _ outcome registers =>
    rcases outcome.vacant vacant named with still | ⟨answer, same, registers'⟩
    · exact Or.inl still
    · exact Or.inr (congrArg Except.ok (registers.unique (same ▸ registers')))
  | undone => exact Or.inl vacant
  | stuck _ outcome registers child =>
    rcases outcome.vacant vacant named with still | ⟨answer, same, registers'⟩
    · exact Or.inl still
    · exact absurd (registers.unique (same ▸ registers') ▸ child) (vacant.2 _)

theorem Forked.vacant {result : Except Stop Pid} (forked : Forked k caller result k')
    (vacant : k.registry.Vacant c) (named : c ≠ noParent) :
    k'.registry.Vacant c ∨ result = .ok c := by
  cases forked with
  | unregistered | full | short | exhausted => exact Or.inl vacant
  | begun started => exact started.vacant vacant named

theorem Performed.vacant {result : Except Stop Int64}
    (performed : Performed k caller call result k') (vacant : k.registry.Vacant c)
    (named : c ≠ noParent) :
    k'.registry.Vacant c ∨ call.Forks ∧ result = .ok (ofPid c) := by
  have exits {code answer r'}
      (outcome : Registry.Outcome k.registry (.exit caller code) answer r') : r'.Vacant c := by
    simpa [Registry.Request.Registers] using outcome.vacant vacant named
  have waits {pid answer r'}
      (outcome : Registry.Outcome k.registry (.wait caller pid) answer r') : r'.Vacant c := by
    simpa [Registry.Request.Registers] using outcome.vacant vacant named
  cases performed with
  | told | refused => exact Or.inl vacant
  | forked forks forked =>
    refine (forked.vacant vacant named).imp_right fun same => ⟨forks, ?_⟩
    rw [same, Except.map]
  | ended _ ended =>
    cases ended with
    | exited _ outcome | stranded _ outcome | brokenOff _ outcome => exact Or.inl (exits outcome)
  | waited _ waited =>
    cases waited with
    | unsupported | unnamed | unregistered | stranger | slept => exact Or.inl vacant
    | fetched _ _ outcome | lost _ _ outcome => exact Or.inl (waits outcome)

/-- A vacant identifier stays vacant until it is given out. -/
theorem Outcome.vacant (outcome : Outcome k q result k') (system : q.System)
    (vacant : k.registry.Vacant c) (named : c ≠ noParent) :
    k'.registry.Vacant c ∨ q.Begets result c := by
  cases outcome with
  | @registry p => exact absurd rfl (system p)
  | launched launched =>
    cases launched with
    | refused => exact Or.inl vacant
    | begun started =>
      refine (started.vacant vacant named).imp_right fun same => Or.inl ⟨⟨_, _, rfl⟩, ?_⟩
      rw [same, Except.map]
  | called performed =>
    refine (performed.vacant vacant named).imp_right fun ⟨forks, same⟩ => Or.inr ?_
    exact ⟨⟨_, _, rfl, forks⟩, by rw [same, Except.map]⟩
  | trapped decoded performed =>
    refine (performed.vacant vacant named).imp_right fun ⟨forks, same⟩ => Or.inr ?_
    exact ⟨⟨_, _, by rw [Request.call?, decoded, Option.map_some], forks⟩,
      by simp [same, returned, Except.map]⟩
  | unprovided | armed => exact Or.inl vacant

theorem Request.Awaits.not_begets (awaits : q.Awaits caller pid) : ¬ q.Begets result c := by
  obtain ⟨call, child, place, makes, waits, -⟩ := awaits
  rintro (⟨⟨frame, space, rfl⟩, -⟩ | ⟨⟨caller', call', makes', forks⟩, -⟩)
  · cases makes
  · rw [makes] at makes'
    cases makes'
    exact waits.not_forks forks

theorem submit_vacant (orderly : Orderly session) (vacant : session.state.registry.Vacant c)
    (named : c ≠ noParent) (system : q.System) (id : Nat)
    (unborn : ¬ q.Begets (session.submit service id q).result c) :
    (session.submit service id q).session.state.registry.Vacant c := by
  let arrival := Step.arrival service session id q
  have result : (session.submit service id q).result = Turn.result arrival.turn :=
    (Session.submit_report service session arrival.turn rfl).1
  refine submit_keeps orderly system (·.state.registry.Vacant c) ?_ fun s wakes heeded vacant => ?_
  · exact ((Step.outcome arrival orderly.sound).vacant system vacant named).resolve_right
      (result ▸ unborn)
  · obtain ⟨_, _, awaits⟩ := s.awaits_of_wakes wakes heeded
    exact ((s.outcome heeded.sound).vacant awaits.system vacant named).resolve_right
      awaits.not_begets

/-- An identifier that was fetched stays vacant until some request has given it out. -/
theorem run_vacant (orderly : Orderly session) (vacant : session.state.registry.Vacant c)
    (named : c ≠ noParent) (system : ∀ call ∈ requests, call.2.System)
    (unborn : ∀ served ∈ requests.zip (session.run service requests).1,
      ¬ served.1.2.Begets served.2.result c) :
    (session.run service requests).2.state.registry.Vacant c := by
  induction requests generalizing session with
  | nil => exact vacant
  | cons call others ih =>
    rw [List.forall_mem_cons] at system
    simp only [Session.run, List.zip_cons_cons, List.forall_mem_cons] at unborn
    have first := submit_vacant orderly vacant named system.1 call.1 unborn.1
    exact ih (submit_orderly orderly system.1 call.1).1 first system.2 unborn.2

end vacant
end ProcessLife.Kernel
