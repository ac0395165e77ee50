import ProcessLife.Proofs.Kernel.Run

/-!
# Failed calls leave no trace

A call by number answers with a negative value just if it failed, and the value tells why. A failed
call has changed nothing that its caller or anybody else can see: what was begun is taken back. One
failure comes too late for that. If the status of a zombie cannot be stored at the address given,
the zombie is gone by then: `failed_calls_leave_no_trace`.
-/

namespace ProcessLife.Kernel

open Operation

/-- What the two states have in common is all but the ring of identifiers, the count of exits and
the arming. -/
structure SameRecords (k k' : Kernel) : Prop where
  table : k'.registry.table = k.registry.table
  tasks : k'.host.tasks = k.host.tasks
  released : k'.host.released = k.host.released
  memory : k'.host.memory = k.host.memory

def callErrors : List Errno :=
  [.esrch, .echild, .eagain, .enomem, .einval, .efault, .enospc, .enosys]

def FailsWith (k : Kernel) (caller : Pid) (number : UInt64) (args : Vector UInt64 6)
    (e : Errno) : Prop :=
  Syscall.decode? number args = none ∧ e = .enosys ∨
    ∃ c, Syscall.decode? number args = some c ∧
      ((call caller c).run k).result = .error (.failed e)

structure Reaps (k k' : Kernel) (caller pid : Pid) : Prop where
  zombie : ∃ p status, k.registry.table.get? pid = some p ∧ p.status = some status ∧
    p.parent = caller
  look : ∀ q, k'.registry.table.get? q = if q = pid then none else k.registry.table.get? q
  children : ∀ q c, c ∈ k'.registry.table.children q ↔
    c ≠ pid ∧ c ∈ k.registry.table.children q
  host : k'.host = k.host

variable {config : Config} {k k₀ k' : Kernel} {first last : Session Kernel Request}
  {turns : List Turn} {caller pid : Pid} {c : Syscall} {e : Errno} {number : UInt64}
  {args : Vector UInt64 6}

/-- Identifiers are never mistaken for errors. -/
theorem ofPid_nonneg (pid : Pid) : 0 ≤ ofPid pid := by
  have small := pid.toNat_lt
  have value : (ofPid pid).toInt = pid.toNat := by
    show (pid.toUInt64.toBitVec).toInt = _
    rw [BitVec.toInt_eq_toNat_of_lt]
    · simp
    · simp
      omega
  rw [Int64.le_iff_toInt_le, value]
  exact Int.natCast_nonneg _

theorem SameRecords.refl (k : Kernel) : SameRecords k k :=
  ⟨rfl, rfl, rfl, rfl⟩

theorem Started.failed {q : Registry.Request} {task : Task} {result : Except Stop Pid}
    (started : Started k q task result k') (failed : result = .error (.failed e)) :
    e = .eagain ∧ SameRecords k k' := by
  cases started with
  | started | stuck => cases failed
  | undone =>
    cases failed
    exact ⟨rfl, rfl, rfl, rfl, rfl⟩

/-- A fork fails without a trace. -/
theorem Forked.failed {result : Except Stop Pid} (forked : Forked k caller result k')
    (failed : result = .error (.failed e)) :
    (e = .esrch ∨ e = .eagain ∨ e = .enomem ∨ e = .enospc) ∧ SameRecords k k' := by
  cases forked with
  | begun started =>
    obtain ⟨rfl, same⟩ := started.failed failed
    exact ⟨by simp, same⟩
  | unregistered | full | short | exhausted =>
    cases failed
    exact ⟨by simp, rfl, rfl, rfl, rfl⟩

/-- A wait that is answered takes out a zombie child of the caller, and nothing else. -/
theorem reaps_of_outcome {found : ExitStatus} {r' : Registry} (sound : k.registry.Sound)
    (outcome : Registry.Outcome k.registry (.wait caller pid) (.ok (.reaped found)) r') :
    Reaps k { k with registry := r' } caller pid := by
  have sound' := outcome.sound sound
  cases outcome with
  | registered _ registers => simp [Registry.Request.Registers] at registers
  | @reaped _ p status t zombie dead owned _ look =>
    refine ⟨⟨p, found, zombie, dead, rfl⟩, look, fun q c => ?_, rfl⟩
    rw [sound'.consistent.toInStep.mem_children, sound.consistent.toInStep.mem_children,
      Table.parentOf, Table.parentOf, look]
    by_cases own : c = pid <;> simp [own]

/-- A wait fails without a trace, or it loses the status. -/
theorem Waited.failed {child : Int32} {status : UserPtr} {options : UInt32}
    {result : Except Stop Pid} (waited : Waited k caller child status options result k')
    (sound : k.registry.Sound) (failed : result = .error (.failed e)) :
    (e = .esrch ∨ e = .echild ∨ e = .einval) ∧ k' = k ∨
      e = .efault ∧ options = 0 ∧ ¬ Host.Writable status ∧
        Reaps k k' caller child.toUInt32 := by
  cases waited with
  | slept | fetched => cases failed
  | unsupported | unnamed | unregistered | stranger =>
    cases failed
    simp
  | lost plain _ outcome illegal =>
    cases failed
    exact Or.inr ⟨rfl, plain, illegal, reaps_of_outcome sound outcome⟩

/-- A call that succeeds answers with an identifier. -/
theorem Performed.answer {v : Int64} {result : Except Stop Int64}
    (performed : Performed k caller c result k') (answered : result = .ok v) : 0 ≤ v := by
  have wrapped {found : Except Stop Pid} (same : found.map ofPid = .ok v) : 0 ≤ v := by
    cases found with
    | error => cases same
    | ok pid =>
      cases same
      exact ofPid_nonneg pid
  cases performed with
  | told =>
    cases answered
    exact ofPid_nonneg _
  | refused | ended => cases answered
  | forked => exact wrapped answered
  | waited => exact wrapped answered

/-- A call that fails leaves no trace, unless it has lost a status. -/
theorem Performed.failed {result : Except Stop Int64}
    (performed : Performed k caller c result k') (sound : k.registry.Sound)
    (failed : result = .error (.failed e)) :
    e ∈ callErrors ∧ (e ≠ .efault → SameRecords k k') ∧
      (e = .efault → ∃ child status, c.Waits child status 0 ∧ ¬ Host.Writable status ∧
        Reaps k k' caller child.toUInt32) := by
  cases performed with
  | told => cases failed
  | refused =>
    cases failed
    exact ⟨by decide, fun _ => .refl k, fun fault => nomatch fault⟩
  | forked _ forked =>
    obtain ⟨cause, same⟩ := forked.failed (map_eq_error.mp failed)
    rcases cause with rfl | rfl | rfl | rfl <;>
      exact ⟨by decide, fun _ => same, fun fault => nomatch fault⟩
  | ended _ ended => cases ended <;> cases failed
  | waited waits waited =>
    rw [map_eq_error] at failed
    rcases waited.failed sound failed with ⟨cause, rfl⟩ | ⟨rfl, plain, illegal, reaps⟩
    · rcases cause with rfl | rfl | rfl <;>
        exact ⟨by decide, fun _ => .refl _, fun fault => nomatch fault⟩
    · subst plain
      exact ⟨by decide, fun other => absurd rfl other, fun _ => ⟨_, _, waits, illegal, reaps⟩⟩

/-- The only number that stands for a wait. -/
theorem decode_waits {child : Int32} {status : UserPtr} {options : UInt32}
    (decoded : Syscall.decode? number args = some c) (waits : c.Waits child status options) :
    number = 61 ∧ child.toUInt32 = (args.get 0).toUInt32 ∧ status.address = args.get 1 := by
  unfold Syscall.decode? at decoded
  split at decoded <;> cases decoded <;> rcases waits with waits | ⟨_, waits⟩ <;> cases waits
  exact ⟨rfl, UInt32.toUInt32_toInt32 _, rfl⟩

/-- What a call by number comes to, told by what its call comes to. -/
theorem trap_cases (sound : k.registry.Sound) (caller : Pid) (number : UInt64)
    (args : Vector UInt64 6) :
    (Syscall.decode? number args = none ∧
      (trap caller number args).Leads k (.ok Errno.enosys.returnValue) k) ∨
    ∃ c result k', Syscall.decode? number args = some c ∧ (call caller c).Leads k result k' ∧
      (trap caller number args).Leads k (returned result) k' ∧ Performed k caller c result k' := by
  cases decoded : Syscall.decode? number args with
  | none => exact Or.inl ⟨rfl, leads_trap_unprovided decoded⟩
  | some c =>
    obtain ⟨result, k', run, performed⟩ := exists_performed sound caller c
    exact Or.inr ⟨c, result, k', rfl, leads_call run, leads_trap decoded run, performed⟩

/-- What is left by the turn of a call by number that failed. -/
theorem trap_failed (sound : k.registry.Sound) (fails : FailsWith k caller number args e) :
    ((trap caller number args).run k).result = .ok e.returnValue ∧ e ∈ callErrors ∧
      (e ≠ .efault → SameRecords k ((trap caller number args).run k).state) ∧
      (e = .efault → number = 61 ∧ 0 < args.get 1 ∧ args.get 1 < Host.leastUserAddress ∧
        Reaps k ((trap caller number args).run k).state caller (args.get 0).toUInt32) := by
  rcases trap_cases sound caller number args with
    ⟨unprovided, events, run⟩ | ⟨c, result, k', decoded, ⟨_, called⟩, ⟨_, run⟩, performed⟩
  · rcases fails with ⟨-, rfl⟩ | ⟨c, decoded, -⟩
    · rw [run]
      exact ⟨rfl, by decide, fun _ => .refl k, fun fault => nomatch fault⟩
    · simp [unprovided] at decoded
  · obtain rfl : result = .error (.failed e) := by
      rcases fails with ⟨unprovided, -⟩ | ⟨c', decoded', failed⟩
      · simp [unprovided] at decoded
      · rw [decoded] at decoded'
        cases decoded'
        rw [called] at failed
        exact failed
    obtain ⟨listed, same, lost⟩ := performed.failed sound rfl
    rw [run]
    refine ⟨rfl, listed, same, fun fault => ?_⟩
    obtain ⟨child, status, waits, illegal, reaps⟩ := lost fault
    obtain ⟨number, named, address⟩ := decode_waits decoded waits
    rw [Host.Writable, not_or, UInt64.not_le, address] at illegal
    refine ⟨number, ?_, illegal.2, named ▸ reaps⟩
    have given : args.get 1 ≠ 0 := by
      simpa [UserPtr.isNull, address] using illegal.1
    exact UInt64.lt_of_le_of_ne UInt64.zero_le given.symm

/-- A call by number returns a negative value just if it failed. -/
theorem trap_neg_iff (sound : k.registry.Sound) {v : Int64}
    (returns : ((trap caller number args).run k).result = .ok v) :
    v < 0 ↔ ∃ e, FailsWith k caller number args e := by
  constructor
  · intro negative
    rcases trap_cases sound caller number args with
      ⟨unprovided, -⟩ | ⟨c, result, k', decoded, ⟨_, called⟩, ⟨_, run⟩, performed⟩
    · exact ⟨.enosys, Or.inl ⟨unprovided, rfl⟩⟩
    · rw [run] at returns
      match result with
      | .ok value =>
        cases returns
        exact absurd negative (Int64.not_lt.mpr (performed.answer rfl))
      | .error (.failed e) => exact ⟨e, Or.inr ⟨c, decoded, by rw [called]⟩⟩
  · rintro ⟨e, fails⟩
    obtain ⟨value, -⟩ := trap_failed sound fails
    rw [value] at returns
    cases returns
    exact e.returnValue_neg

theorem sound_of_run (run : Session.Run service first turns last)
    (sound : first.state.registry.Sound) : ∀ t ∈ turns, t.before.registry.Sound :=
  (run.invariant (·.registry.Sound) sound fun (t : Turn) _ sound =>
    (t.outcome sound).sound sound).1

theorem Turn.of_trap {t : Turn} (request : t.request = .trap caller number args) :
    t.result = ((trap caller number args).run t.before).result.map .value ∧
      t.after = ((trap caller number args).run t.before).state := by
  have served : (serve (.trap caller number args)).Leads t.before _ _ :=
    (leads_run (trap caller number args) t.before).wrap Answer.value
  rw [← request] at served
  obtain ⟨result, after⟩ := served.unique (leads_run _ _)
  exact ⟨result.symm, after.symm⟩

/-- Failed calls leave no trace. Whatever has happened to a kernel, consider any turn of a call by
number, with any arguments, and with any failure armed. If the call falls asleep, nothing has
changed. If it returns, then it returns a negative value just if it failed, and the value is that of
one of eight errors; and except for `efault`, a failed call has changed neither the records and the
index of children, nor the tasks, the address spaces given back, or the memory of users. An `efault`
comes only of a wait whose status was to be stored below the least address of a user, and of all
this just the record of the zombie waited for is gone. -/
theorem failed_calls_leave_no_trace (new : Kernel.new config = .ok k₀)
    (run : Session.Run service { state := k₀ } turns last) {t : Turn} (member : t ∈ turns)
    (request : t.request = .trap caller number args) :
    (t.result = .error .asleep → t.after = t.before) ∧
    ∀ answer, t.result = .ok answer → ∃ v, answer = .value v ∧
      (v < 0 ↔ ∃ e, FailsWith t.before caller number args e) ∧
      ∀ e, FailsWith t.before caller number args e →
        v = -e.code ∧
        e ∈ [.esrch, .echild, .eagain, .enomem, .einval, .efault, .enospc, .enosys] ∧
        (e ≠ .efault → SameRecords t.before t.after) ∧
        (e = .efault → number = 61 ∧ 0 < args.get 1 ∧ args.get 1 < 0x1000 ∧
          Reaps t.before t.after caller (args.get 0).toUInt32) := by
  have sound := sound_of_run run (Registry.sound_new (new_eq_ok new).1) t member
  obtain ⟨result, after⟩ := Turn.of_trap request
  constructor
  · intro slept
    exact ((t.outcome sound).of_asleep (by simp [request, Request.System]) slept).1
  intro answer answered
  rw [result] at answered
  cases returns : ((trap caller number args).run t.before).result with
  | error => simp [returns, Except.map] at answered
  | ok v =>
    rw [returns] at answered
    refine ⟨v, (Except.ok.inj answered).symm, trap_neg_iff sound returns, fun e fails => ?_⟩
    obtain ⟨value, listed, same, lost⟩ := trap_failed sound fails
    rw [returns] at value
    rw [after]
    exact ⟨Except.ok.inj value, listed, same, lost⟩

/-- A wait that loses the status of a child. -/
theorem failed_calls_leave_no_trace_lost_status :
    ∃ k₀ turns last, Kernel.new {} = .ok k₀ ∧ Session.Run service { state := k₀ } turns last ∧
      ∃ t ∈ turns, t.request = .trap 1 61 #v[2, 8, 0, 0, 0, 0] ∧
        Turn.result t = .ok (.value (-14)) ∧ Reaps t.before (Turn.after t) 1 2 := by
  have recorded : service.record (Kernel.new {}) [.call 0 (.launch .zero ⟨1⟩),
    .call 1 (.trap 1 57 #v[0, 0, 0, 0, 0, 0]), .call 2 (.trap 2 60 #v[7, 0, 0, 0, 0, 0]),
    .call 3 (.trap 1 61 #v[2, 8, 0, 0, 0, 0])] = .ok ([_, _, _, _], _) := rfl
  obtain ⟨k₀, new, history⟩ := service.history_of_record recorded
  have after := failed_calls_leave_no_trace new history.run
    (.tail _ (.tail _ (.tail _ (.head _)))) rfl
  obtain ⟨v, -, -, failed⟩ := after.2 (.value (-14)) (by decide +kernel)
  obtain ⟨-, -, -, lost⟩ := failed .efault (Or.inr ⟨_, rfl, by decide +kernel⟩)
  exact ⟨k₀, _, _, new, history.run, _, .tail _ (.tail _ (.tail _ (.head _))), rfl,
    by decide +kernel, (lost rfl).2.2.2⟩

end ProcessLife.Kernel
