import ProcessLife.Proofs.Kernel.Tending
import ProcessLife.Proofs.Session.Ending

/-!
# From the fork to the wait

A child leaves a status, and its parent is to get it: at once if the child has exited before the
parent asks, and otherwise in the round after the exit. What else is asked of the kernel in the
meantime, and by whom, makes no difference: `status_reaches_parent`. After the fork nobody waits for
the child, until it exits its parent sleeps for it, after the exit its parent is the only one that
has something to fetch, and then the identifier is vacant.
-/

namespace ProcessLife

/-- Of an exit code that was given in a whole register a status has the low byte. -/
theorem ExitStatus.raw_ofCode (a : UInt64) :
    (ofCode a.toUInt32.toInt32).raw = Int32.ofNat (a.toNat % 256 * 256) := by
  apply Int32.toBitVec_inj.1
  simp only [ofCode, Int32.toBitVec_and, Int32.toBitVec_shiftLeft]
  show (a.toUInt32.toBitVec &&& 255#32) <<< 8 = BitVec.ofNat 32 _
  have low : (a.toUInt32.toBitVec &&& 255#32).toNat = a.toNat % 256 := by
    rw [BitVec.toNat_and, show (255#32).toNat = 2 ^ 8 - 1 from rfl, Nat.and_two_pow_sub_one_eq_mod]
    show a.toUInt32.toNat % 2 ^ 8 = _
    rw [UInt64.toNat_toUInt32]
    omega
  apply BitVec.eq_of_toNat_eq
  rw [BitVec.toNat_shiftLeft, low, Nat.shiftLeft_eq, BitVec.toNat_ofNat]

theorem Host.memory_stored {h h' : Host} (same : h'.memory = h.memory) {place : UserPtr}
    {word : Int32} : (h'.stored place word).memory = (h.stored place word).memory := by
  unfold Host.stored
  split <;> simp [same]

namespace Kernel

/-- The request is a wait of `p` for `c` that is accepted and wants the status at a place where it
can be stored, or nowhere. -/
def Request.Fetches (q : Request) (p c : Pid) (place : UserPtr) : Prop :=
  ∃ call child, q.call? = some (p, call) ∧ call.Waits child place 0 ∧ 0 < child ∧
    child.toUInt32 = c ∧ Host.Writable place

variable {config : Config} {k k₀ k' : Kernel} {session : Session Kernel Request} {q : Request}
  {result : Except Stop Answer} {caller p c pid : Pid} {status : ExitStatus} {place : UserPtr}
  {number : UInt64} {args : Vector UInt64 6} {call : Syscall} {code : Int32} {v : Int64}
  {past : List (Nat × Request)} {l i : Nat}

theorem Request.Fetches.awaits (fetches : q.Fetches p c place) : q.Awaits p c := by
  obtain ⟨call, child, makes, waits, positive, named, -⟩ := fetches
  exact ⟨call, child, place, makes, waits, positive, named⟩

theorem returned_eq_ok {x : Except Stop Int64} :
    returned x = .ok v ↔ x = .ok v ∨ ∃ e, x = .error (.failed e) ∧ v = e.returnValue := by
  match x with
  | .ok _ | .error (.failed e) | .error (.broken _) | .error (.exited _) | .error .asleep =>
    simp [returned, eq_comm]

/-- A fork that is answered has registered a child. -/
theorem Forked.child {result : Except Stop Pid} (forked : Forked k p result k')
    (answered : result = .ok c) :
    c ∈ k.registry.pids.range ∧ k.registry.table.isAlive p = true ∧
      k.registry.table.get? c = none ∧ k'.registry.table.get? c = some ⟨c, p, none⟩ ∧
      k'.registry.childExit = k.registry.childExit := by
  cases forked with
  | unregistered | full | short | exhausted => cases answered
  | begun started =>
    cases started with
    | started _ outcome registers =>
      cases answered
      exact outcome.forks registers
    | undone | stuck => cases answered

/-- A call by number that asks for a child gets one, unless it is answered with an error. -/
theorem Outcome.forks (outcome : Outcome k (.trap p number args) result k')
    (asks : number = 57 ∨ number = 56) (answered : result = .ok (.value v)) (nonneg : 0 ≤ v) :
    ∃ c, v = ofPid c ∧ c ∈ k.registry.pids.range ∧ k.registry.table.isAlive p = true ∧
      k.registry.table.get? c = none ∧ k'.registry.table.get? c = some ⟨c, p, none⟩ ∧
      k'.registry.childExit = k.registry.childExit := by
  have decode : ∃ call, Syscall.decode? number args = some call ∧ call.Forks := by
    rcases asks with rfl | rfl
    · exact ⟨_, rfl, Or.inl rfl⟩
    · exact ⟨_, rfl, Or.inr ⟨_, _, rfl⟩⟩
  obtain ⟨call, decoded, forks⟩ := decode
  cases outcome with
  | unprovided unprovided => simp [decoded] at unprovided
  | @trapped _ _ _ call' x _ decoded' performed =>
    rw [decoded] at decoded'
    cases decoded'
    obtain ⟨w, same, wrapped⟩ := map_eq_ok.mp answered
    cases wrapped
    rcases returned_eq_ok.mp same with done | ⟨e, -, rfl⟩
    · cases performed with
      | told asks => rcases asks with ⟨rfl, -⟩ | ⟨rfl, -⟩ <;> simp [Syscall.Forks] at forks
      | refused => cases done
      | forked _ forked =>
        obtain ⟨c, found, rfl⟩ := map_eq_ok.mp done
        exact ⟨c, rfl, forked.child found⟩
      | ended => cases done
      | waited waits => exact absurd forks waits.not_forks
    · exact absurd nonneg (Int64.not_le.mpr e.returnValue_neg)

/-- A wait for a zombie of one's own is answered, and stores the status. -/
theorem Outcome.fetched (outcome : Outcome k q result k') (fetches : q.Fetches p c place)
    (found : k.registry.table.get? c = some ⟨c, p, some status⟩) (owned : p ≠ noParent)
    (sound : k.registry.Sound) :
    result = .ok (.value (ofPid c)) ∧ k'.host = k.host.stored place status.raw ∧
      k'.registry.childExit = k.registry.childExit ∧ k'.registry.Vacant c ∧
      ∀ q x, k'.registry.Fetchable q x → x ≠ c ∧ k.registry.Fetchable q x := by
  obtain ⟨call, child, makes, waits, positive, rfl, writable⟩ := fetches
  obtain ⟨answer, waited, same⟩ := outcome.waited makes waits
  cases waited with
  | unsupported extra => exact absurd rfl extra
  | unnamed _ negative => exact absurd positive (Int32.not_lt.mpr negative)
  | unregistered _ _ missing => simp [found] at missing
  | stranger _ _ found' stranger =>
    rw [found] at found'
    cases found'
    simp [owned] at stranger
  | slept _ _ slept =>
    obtain ⟨d, found', live, -⟩ := slept.of_asleep
    rw [found] at found'
    cases found'
    cases live
  | lost _ _ _ illegal => exact absurd writable illegal
  | fetched _ _ fetch =>
    obtain ⟨⟨d, found', dead, -⟩, same', vacant, fewer⟩ := fetch.fetches sound
    rw [found] at found'
    cases found'
    cases dead
    exact ⟨same.elim id id, rfl, same', vacant, fewer⟩

/-- The exit of a child is never refused. Its parent can fetch the status whether or not the address
space could be given back. -/
theorem Outcome.exits (outcome : Outcome k q result k') (makes : q.call? = some (c, call))
    (ends : call.Ends code) (found : k.registry.table.get? c = some ⟨c, p, none⟩)
    (owned : p ≠ noParent) (other : p ≠ c) :
    result = .error (if k.host.armed = some .releaseSpace then .broken (.spaceNotReleased c .eio)
        else .exited code) ∧
      k'.host.memory = k.host.memory ∧
      k'.registry.childExit = k.registry.childExit.notify ∧
      k'.registry.table.get? c = some ⟨c, p, some (.ofCode code)⟩ ∧
      ∀ q x, k.registry.Stands q x → k'.registry.Fetchable q x → q = p ∧ x = c := by
  obtain ⟨answer, performed, same⟩ := outcome.performed makes
  obtain ⟨why, rfl, ended⟩ := performed.ended_of ends
  cases ended with
  | exited ready exit =>
    obtain ⟨-, facts⟩ := exit.child_exits found rfl owned other
    rw [if_neg ready]
    exact ⟨same.elim id id, rfl, facts⟩
  | stranded armed exit =>
    obtain ⟨-, facts⟩ := exit.child_exits found rfl owned other
    rw [if_pos armed]
    exact ⟨same.elim id id, rfl, facts⟩
  | brokenOff _ exit => cases (exit.child_exits found rfl owned other).1

/-- Among the sleepers one waits for the child, and the others do not. -/
theorem exists_split_of_waiters {call : Nat × Request} (waiting : waiters p c session = [call]) :
    ∃ front w back, session.sleepers = front ++ w :: back ∧ w.call = call ∧
      (∀ v ∈ front, ¬ v.request.Awaits p c) ∧ ∀ v ∈ back, ¬ v.request.Awaits p c := by
  rw [waiters, List.filter_map, List.map_eq_singleton_iff] at waiting
  obtain ⟨w, only, same⟩ := waiting
  obtain ⟨front, back, sleepers, before, -, behind⟩ := List.filter_eq_cons_iff.mp only
  rw [List.filter_eq_nil_iff] at behind
  exact ⟨front, w, back, sleepers, same, by simpa using before, by simpa using behind⟩

/-- Whoever is notified and finds nothing to fetch changes nothing. -/
theorem wake_idle {sleepers : List (Sleeper Request)} (sound : k.registry.Sound)
    (notified : ∀ w ∈ sleepers, w.seen ≠ k.registry.childExit)
    (nothing : ∀ w ∈ sleepers, ∃ caller pid, w.request.Awaits caller pid ∧
      ¬ k.registry.Fetchable caller pid) : (service.wake sleepers k).state = k := by
  have idle (w) (member : w ∈ sleepers) : ((service.attempt w.request).run k).state = k := by
    obtain ⟨caller, pid, awaits, nothing⟩ := nothing w member
    exact (Turn.outcome (w.turn k) sound).idle awaits sound nothing
  exact (Service.wake_idle notified idle).1

/-- When a fork returns, nobody waits for the child yet. -/
theorem submit_forked (orderly : Orderly session) (asks : number = 57 ∨ number = 56)
    (answered : (session.submit service i (.trap p number args)).result = .ok (.value v))
    (nonneg : 0 ≤ v) :
    ∃ c, v = ofPid c ∧ c ∈ session.state.registry.pids.range ∧ p ≠ noParent ∧ p ≠ c ∧
      Orderly (session.submit service i (.trap p number args)).session ∧
      Tended p c none [] (session.submit service i (.trap p number args)).session := by
  let turn : Turn := ⟨i, .trap p number args, session.state⟩
  have sound : turn.before.registry.Sound := orderly.sound
  have result : turn.result = .ok (.value v) :=
    (Session.submit_report service session turn rfl).1.symm.trans answered
  obtain ⟨c, same, drawn, alive, free, record, quiet⟩ :=
    (turn.outcome sound).forks asks result nonneg
  have served : (session.submit service i (.trap p number args)).session =
      ⟨turn.after, session.sleepers ++ turn.asleep service 0⟩ := orderly.submit_quiet i quiet
  have ended : (turn.reply service).result ≠ .error .asleep := by
    rw [show (turn.reply service).result = _ from result]
    simp
  refine ⟨c, same, drawn, sound.ne_of_isAlive alive, ?_,
    (submit_orderly orderly (by simp [Request.System]) i).1, ?_⟩
  · rintro rfl
    simp [Table.isAlive, free] at alive
  rw [served, Turn.asleep_of_ended ended, List.append_nil]
  refine ⟨record, ?_, fun some => absurd rfl some⟩
  simp only [waiters, List.filter_eq_nil_iff, List.mem_map, decide_eq_true_eq]
  rintro _ ⟨w, member, rfl⟩ awaits
  have stands : turn.before.registry.Stands p c := orderly.standing member awaits
  rcases stands with ⟨rfl, -⟩ | ⟨live, -⟩
  · simp [Table.isAlive, free] at alive
  · simp [Table.isAlive, free] at live

/-- A child that exits while nobody waits for it stays for its parent. -/
theorem submit_exit (orderly : Orderly session) (tended : Tended p c none [] session)
    (owned : p ≠ noParent) (other : p ≠ c) (makes : q.call? = some (c, call))
    (ends : call.Ends code) (i : Nat) :
    Orderly (session.submit service i q).session ∧
      Tended p c (some (.ofCode code)) [] (session.submit service i q).session := by
  let arrival := Step.arrival service session i q
  have system := Request.system_of_call makes
  obtain ⟨result, -, -, record, -⟩ :=
    (Step.outcome arrival orderly.sound).exits makes ends tended.record owned other
  have ended : (arrival.turn.reply service).result ≠ .error .asleep := by
    rw [show (arrival.turn.reply service).result = _ from result]
    split <;> simp
  refine ⟨(submit_orderly orderly system i).1, submit_keeps orderly system _ ?_
    fun s wakes heeded tended => Step.tended_next s tended owned heeded
      fun i p call => absurd call (wakes.ne_call i p)⟩
  refine ⟨record, ?_, fun some => absurd rfl some⟩
  have next : arrival.next.sleepers = session.sleepers ++ arrival.turn.asleep service 0 := rfl
  rw [waiters, next, Turn.asleep_of_ended ended, List.append_nil]
  exact tended.waiting

/-- The parent of a zombie gets its status at once. -/
theorem submit_fetch (orderly : Orderly session)
    (tended : Tended p c (some status) [] session) (owned : p ≠ noParent)
    (fetches : q.Fetches p c place) (l : Nat) :
    (session.submit service l q).result = .ok (.value (ofPid c)) ∧
      (session.submit service l q).session.state.host =
        session.state.host.stored place status.raw ∧
      (session.submit service l q).session.state.registry.Vacant c := by
  let turn : Turn := ⟨l, q, session.state⟩
  obtain ⟨result, host, quiet, vacant, -⟩ :=
    (turn.outcome orderly.sound).fetched fetches tended.record owned orderly.sound
  rw [orderly.submit_quiet l quiet]
  exact ⟨(Session.submit_report service session turn rfl).1.trans result, host, vacant⟩

/-- The parent of a live child falls asleep. -/
theorem submit_asleep (orderly : Orderly session) (tended : Tended p c none [] session)
    (owned : p ≠ noParent) (awaits : q.Awaits p c) (l : Nat) :
    (session.submit service l q).result = .error .asleep ∧
      Tended p c none [(l, q)] (session.submit service l q).session := by
  let turn : Turn := ⟨l, q, session.state⟩
  obtain ⟨asleep, same⟩ :=
    (turn.outcome orderly.sound).sleeps awaits tended.record owned orderly.sound
  refine ⟨(Session.submit_report service session turn rfl).1.trans asleep, ?_⟩
  rw [orderly.submit_quiet l (congrArg (·.registry.childExit) same), Turn.asleep_of_slept asleep]
  refine ⟨(congrArg (·.registry.table.get? c) same).trans tended.record, ?_, fun _ => rfl⟩
  have waiting := tended.waiting
  rw [waiters] at waiting ⊢
  rw [List.map_append, List.filter_append, waiting]
  simp [turn, Sleeper.call, awaits]

/-- A wait that sleeps is answered in the round after the exit of the child. Of all who were
notified it is the only one that finds anything to fetch. -/
theorem submit_exit_round (orderly : Orderly session) {request : Request}
    (tended : Tended p c none [(l, request)] session) (owned : p ≠ noParent) (other : p ≠ c)
    (fetches : request.Fetches p c place) (makes : q.call? = some (c, call))
    (ends : call.Ends code) (i : Nat) :
    (session.submit service i q).result = .error
        (if session.state.host.armed = some .releaseSpace then .broken (.spaceNotReleased c .eio)
        else .exited code) ∧
      (∃ wakeups, ⟨l, wakeups, .ok (.value (ofPid c))⟩ ∈ (session.submit service i q).woken) ∧
      (session.submit service i q).session.state.host.memory =
        (session.state.host.stored place (ExitStatus.ofCode code).raw).memory ∧
      (session.submit service i q).session.state.registry.Vacant c := by
  obtain ⟨front, w, back, sleepers, same, before, behind⟩ := exists_split_of_waiters tended.waiting
  -- First the exit itself, which notifies all who sleep.
  let exit : Turn := ⟨i, q, session.state⟩
  have exited := exit.outcome orderly.sound
  obtain ⟨result, memory, notified, record, fetchable⟩ :=
    exited.exits makes ends tended.record owned other
  have sound := exited.sound orderly.sound
  have seen (v) (member : v ∈ session.sleepers) : v.seen ≠ exit.after.registry.childExit := by
    rw [orderly.seen v member, notified]
    exact (Signal.notify_ne _).symm
  have nothing (v) (member : v ∈ session.sleepers) (foreign : ¬ v.request.Awaits p c) :
      ∃ caller pid, v.request.Awaits caller pid ∧
        ¬ exit.after.registry.Fetchable caller pid := by
    obtain ⟨caller, pid, awaits, -⟩ := orderly.stands v member
    refine ⟨caller, pid, awaits, fun found => foreign ?_⟩
    obtain ⟨rfl, rfl⟩ := fetchable caller pid (orderly.standing member awaits) found
    exact awaits
  -- Those before the parent find nothing, the parent fetches the status, the others find nothing.
  let fetch : Turn := w.turn exit.after
  obtain ⟨rfl, rfl⟩ := Prod.mk.inj same
  obtain ⟨answer, host, quiet, vacant, fewer⟩ :=
    (fetch.outcome sound).fetched fetches record owned sound
  have first : (service.wake front exit.after).state = exit.after :=
    wake_idle sound (fun v member => seen v (by simp [sleepers, member]))
      fun v member => nothing v (by simp [sleepers, member]) (before v member)
  have last : (service.wake back fetch.after).state = fetch.after :=
    wake_idle ((fetch.outcome sound).sound sound)
      (fun v member => quiet ▸ seen v (by simp [sleepers, member])) fun v member => by
        obtain ⟨caller, pid, awaits, nothing⟩ :=
          nothing v (by simp [sleepers, member]) (behind v member)
        exact ⟨caller, pid, awaits, fun found => nothing (fewer caller pid found).2⟩
  obtain ⟨state, woken⟩ :=
    Service.wake_answered back first (seen w (by simp [sleepers])) answer (by simp)
  have ended : (exit.reply service).result ≠ .error .asleep := by
    rw [show (exit.reply service).result = _ from result]
    split <;> simp
  have served : (session.submit service i q).session.state = fetch.after := by
    have served := Session.submit_session service session exit rfl fun slept => absurd slept ended
    rw [sleepers] at served
    exact (congrArg Session.state served).trans (state.trans last)
  obtain ⟨reported, woke⟩ := Session.submit_report service session exit rfl
  rw [sleepers] at woke
  refine ⟨reported.trans result, ⟨w.wakeups + 1, woke.symm ▸ woken⟩, ?_, served.symm ▸ vacant⟩
  rw [served, host]
  exact Host.memory_stored memory

/-- The registers of a call that waits for `c`: the number is in half a register, no options are
given in the half that is looked at, and the status is wanted nowhere or at an address of a user. -/
structure WaitsFor (args : Vector UInt64 6) (c : Pid) : Prop where
  child : (args.get 0).toUInt32 = c
  options : (args.get 2).toUInt32 = 0
  place : args.get 1 = 0 ∨ 0x1000 ≤ args.get 1

def statusLeft (address a : UInt64) (memory : Std.ExtTreeMap UInt64 Int32) :
    Std.ExtTreeMap UInt64 Int32 :=
  if address = 0 then memory else memory.insert address (Int32.ofNat (a.toNat % 256 * 256))

/-- Whatever is asked then, to `p` there is no process `c` until the identifier is given out
again. -/
def Forgotten (p c : Pid) (session : Session Kernel Request) : Prop :=
  ∀ (tail : List (Nat × Request)) (l : Nat) (args : Vector UInt64 6),
    (∀ call ∈ tail, call.2.System) →
    (∀ served ∈ tail.zip (session.run service tail).1, ¬ served.1.2.Begets served.2.result c) →
    WaitsFor args c →
    ((session.run service tail).2.submit service l (.trap p 61 args)).result = .ok (.value (-3))

section numbers

theorem memory_statusLeft (h : Host) (address a : UInt64) :
    (h.stored ⟨address⟩ (ExitStatus.ofCode a.toUInt32.toInt32).raw).memory =
      statusLeft address a h.memory := by
  rw [ExitStatus.raw_ofCode, Host.stored, statusLeft, UserPtr.isNull]
  by_cases null : address = 0 <;> simp [null]

/-- A number that fits is positive for the call, too. -/
theorem toInt32_pos (named : c ≠ noParent) (small : c ≤ 2147483647) : 0 < c.toInt32 := by
  have bound : c.toNat ≤ 2147483647 := UInt32.le_iff_toNat_le.mp small
  have positive : c.toNat ≠ 0 := fun zero => named (UInt32.toNat_inj.mp zero)
  have value : c.toInt32.toInt = c.toNat := by
    show c.toBitVec.toInt = _
    rw [BitVec.toInt_eq_toNat_of_lt]
    · rfl
    · rw [UInt32.toNat_toBitVec]
      omega
  rw [Int32.lt_iff_toInt_lt, value]
  show (0 : Int) < _
  omega

theorem WaitsFor.fetches (waits : WaitsFor args c) (named : c ≠ noParent)
    (small : c ≤ 2147483647) : (Request.trap p 61 args).Fetches p c ⟨args.get 1⟩ := by
  have calls : Syscall.wait4 (args.get 0).toUInt32.toInt32 ⟨args.get 1⟩ (args.get 2).toUInt32
      (args.get 3) = .wait4 (args.get 0).toUInt32.toInt32 ⟨args.get 1⟩ 0 (args.get 3) := by
    rw [waits.options]
  refine ⟨_, (args.get 0).toUInt32.toInt32, rfl, Or.inr ⟨args.get 3, calls⟩, ?_, ?_, ?_⟩
  · rw [waits.child]
    exact toInt32_pos named small
  · rw [UInt32.toUInt32_toInt32, waits.child]
  · exact waits.place.imp_left fun null => by simp [UserPtr.isNull, null]

/-- A wait by number for an identifier that nobody has fails. -/
theorem Outcome.missed (outcome : Outcome k (.trap p 61 args) result k') (waits : WaitsFor args c)
    (named : c ≠ noParent) (small : c ≤ 2147483647) (free : k.registry.table.get? c = none)
    (sound : k.registry.Sound) : result = .ok (.value (-3)) := by
  obtain ⟨call, child, makes, calls, positive, rfl, -⟩ := waits.fetches (p := p) named small
  cases outcome with
  | unprovided unprovided => cases unprovided
  | trapped decoded performed =>
    simp only [Request.call?, decoded, Option.map_some, Option.some.injEq, Prod.mk.injEq] at makes
    obtain ⟨-, rfl⟩ := makes
    obtain ⟨found, rfl, waited⟩ := performed.waited_of calls
    cases waited with
    | unsupported extra => exact absurd rfl extra
    | unnamed _ negative => exact absurd positive (Int32.not_lt.mpr negative)
    | unregistered => rfl
    | stranger _ _ found => cases free.symm.trans found
    | slept _ _ slept =>
      obtain ⟨d, found, -⟩ := slept.of_asleep
      cases free.symm.trans found
    | fetched _ _ fetch | lost _ _ fetch =>
      obtain ⟨⟨d, found, -⟩, -⟩ := fetch.fetches sound
      cases free.symm.trans found

theorem call?_exit (c : Pid) (args : Vector UInt64 6) (asks : number = 60 ∨ number = 231) :
    ∃ call, (Request.trap c number args).call? = some (c, call) ∧
      call.Ends (args.get 0).toUInt32.toInt32 := by
  rcases asks with rfl | rfl
  · exact ⟨_, rfl, Or.inl rfl⟩
  · exact ⟨_, rfl, Or.inr rfl⟩

theorem Orderly.forgotten (orderly : Orderly session) (vacant : session.state.registry.Vacant c)
    (named : c ≠ noParent) (small : c ≤ 2147483647) : Forgotten p c session := by
  intro tail l args system unborn waits
  have later := run_orderly orderly system
  have still := run_vacant orderly vacant named system unborn
  let turn : Turn := ⟨l, .trap p 61 args, (session.run service tail).2.state⟩
  exact (Session.submit_report service _ turn rfl).1.trans
    ((turn.outcome later.sound).missed waits named small still.1 later.sound)

end numbers

/-- The status of a child reaches its parent. Let a fork by `p` return a number that is not
negative. It is the identifier of the child `c`, and whatever is asked that spares `c`, however `c`
exits, and wherever `p` wants the status: if `p` waits after the exit, the call returns `c` at once.
If it waits before, it sleeps and returns `c` in the round after the exit, even if the address space
of `c` is not given back. In both cases just the low byte of the code is stored, one byte up, and
then there is no process `c` for `p` until the identifier is given out again. -/
theorem status_reaches_parent (new : Kernel.new config = .ok k₀)
    (small : config.limits.lastPid ≤ 2147483647) (system : ∀ call ∈ past, call.2.System)
    (asks : number = 57 ∨ number = 56)
    (answered : ((Session.run service past { state := k₀ }).2.submit service i
      (.trap p number args)).result = .ok (.value v)) (nonneg : 0 ≤ v)
    {forked : Session Kernel Request} (after : forked =
      ((Session.run service past { state := k₀ }).2.submit service i
        (.trap p number args)).session) :
    ∃ c, v = ofPid c ∧
      (∀ (mid later : List (Nat × Request)) (j l : Nat) (ending : UInt64)
          (exitArgs waitArgs : Vector UInt64 6),
        (∀ call ∈ mid, call.2.Spares p c) → ending = 60 ∨ ending = 231 →
        (∀ call ∈ later, call.2.Spares p c) → WaitsFor waitArgs c →
        let exit := (forked.run service mid).2.submit service j (.trap c ending exitArgs)
        let ready := (exit.session.run service later).2
        let wait := ready.submit service l (.trap p 61 waitArgs)
        wait.result = .ok (.value v) ∧
          wait.session.state.host.memory =
            statusLeft (waitArgs.get 1) (exitArgs.get 0) ready.state.host.memory ∧
          Forgotten p c wait.session) ∧
      ∀ (mid later : List (Nat × Request)) (j l : Nat) (ending : UInt64)
          (exitArgs waitArgs : Vector UInt64 6),
        (∀ call ∈ mid, call.2.Spares p c) → WaitsFor waitArgs c →
        (∀ call ∈ later, call.2.Spares p c) → ending = 60 ∨ ending = 231 →
        let wait := (forked.run service mid).2.submit service l (.trap p 61 waitArgs)
        let ready := (wait.session.run service later).2
        let exit := ready.submit service j (.trap c ending exitArgs)
        wait.result = .error .asleep ∧
          exit.result = .error (if ready.state.host.armed = some .releaseSpace then
              .broken (.spaceNotReleased c .eio) else .exited (exitArgs.get 0).toUInt32.toInt32) ∧
          (∃ wakeups, ⟨l, wakeups, .ok (.value v)⟩ ∈ exit.woken) ∧
          exit.session.state.host.memory =
            statusLeft (waitArgs.get 1) (exitArgs.get 0) ready.state.host.memory ∧
          Forgotten p c exit.session := by
  subst after
  have start := orderly_new new
  have orderly := run_orderly start system
  obtain ⟨c, rfl, drawn, owned, other, orderly', tended⟩ :=
    submit_forked orderly asks answered nonneg
  have inside : c ∈ k₀.registry.pids.range := run_range start system ▸ drawn
  have named : c ≠ noParent := PidRange.ne_noParent_of_mem inside
  have fits : c ≤ 2147483647 := by
    have last := (Registry.follows_new (new_eq_ok new).1).last
    exact UInt32.le_trans inside.2 (last ▸ small)
  refine ⟨c, rfl, ?_, ?_⟩
  · intro mid later j l ending exitArgs waitArgs spares ends spares' waits
    obtain ⟨orderly, tended⟩ := run_tended orderly' tended owned spares
    obtain ⟨call, makes, ends⟩ := call?_exit c exitArgs ends
    obtain ⟨orderly, tended⟩ := submit_exit orderly tended owned other makes ends j
    obtain ⟨orderly, tended⟩ := run_tended orderly tended owned spares'
    have fetches := waits.fetches (p := p) named fits
    obtain ⟨result, host, vacant⟩ := submit_fetch orderly tended owned fetches l
    have last := (submit_orderly orderly fetches.awaits.system l).1
    refine ⟨result, ?_, last.forgotten vacant named fits⟩
    rw [host, memory_statusLeft]
  · intro mid later j l ending exitArgs waitArgs spares waits spares' ends
    obtain ⟨orderly, tended⟩ := run_tended orderly' tended owned spares
    have fetches := waits.fetches (p := p) named fits
    obtain ⟨asleep, tended⟩ := submit_asleep orderly tended owned fetches.awaits l
    have orderly := (submit_orderly orderly fetches.awaits.system l).1
    obtain ⟨orderly, tended⟩ := run_tended orderly tended owned spares'
    obtain ⟨call, makes, ends⟩ := call?_exit c exitArgs ends
    obtain ⟨result, woken, memory, vacant⟩ :=
      submit_exit_round orderly tended owned other fetches makes ends j
    have last := (submit_orderly orderly (Request.system_of_call makes) j).1
    refine ⟨asleep, result, woken, ?_, last.forgotten vacant named fits⟩
    rw [memory, memory_statusLeft]

/-- A parent that sleeps is told of a child whose address space could not be given back. -/
theorem status_reaches_parent_teardown_fault :
    ∃ k₀, Kernel.new {} = .ok k₀ ∧
      let forked := ((Session.run service [(0, .launch .zero ⟨1⟩)] { state := k₀ }).2.submit
        service 1 (.trap 1 57 #v[0, 0, 0, 0, 0, 0])).session
      let before := (forked.run service [(2, .trap 2 39 #v[0, 0, 0, 0, 0, 0])]).2
      let wait := before.submit service 3 (.trap 1 61 #v[2, 0x4000, 0, 0, 0, 0])
      let ready := (wait.session.run service [(4, .arm .releaseSpace)]).2
      let exit := ready.submit service 5 (.trap 2 231 #v[0x180, 0, 0, 0, 0, 0])
      wait.result = .error .asleep ∧
        exit.result = .error (.broken (.spaceNotReleased 2 .eio)) ∧
        (∃ wakeups, ⟨3, wakeups, .ok (.value 2)⟩ ∈ exit.woken) ∧
        exit.session.state.host.memory =
          statusLeft 0x4000 0x180 ready.state.host.memory ∧
        Forgotten 1 2 exit.session := by
  have new : Kernel.new {} = .ok _ := rfl
  have system : ∀ call ∈ [(0, Request.launch .zero ⟨1⟩)], call.2.System := by decide
  obtain ⟨c, same, -, asleep⟩ := status_reaches_parent new (by decide) system (Or.inl rfl)
    (show (Session.submit service 1 (.trap 1 57 #v[0, 0, 0, 0, 0, 0]) _).result =
      .ok (.value 2) by decide +kernel) (by decide) rfl
  obtain rfl : 2 = c := ofPid_inj same
  have asks : ∀ call ∈ [(2, Request.trap 2 39 #v[0, 0, 0, 0, 0, 0])], call.2.Spares 1 2 := by
    simp only [List.mem_singleton, forall_eq]
    refine ⟨by decide, fun makes ends => ?_, by decide⟩
    cases makes
    simp [Syscall.Ends] at ends
  have arms : ∀ call ∈ [(4, Request.arm .releaseSpace)], call.2.Spares 1 2 := by
    simp only [List.mem_singleton, forall_eq]
    exact ⟨by decide, by simp [Request.call?], by decide⟩
  obtain ⟨slept, exited, told⟩ := asleep _ _ 5 3 231 #v[0x180, 0, 0, 0, 0, 0]
    #v[2, 0x4000, 0, 0, 0, 0] asks ⟨by decide, by decide, by decide⟩ arms (Or.inr rfl)
  exact ⟨_, new, slept, exited.trans (by decide +kernel), told⟩

end Kernel
end ProcessLife
