import ProcessLife.Proofs.Registry.Admission
import ProcessLife.Proofs.Registry.Apart
import ProcessLife.Proofs.Registry.Waiting
import ProcessLife.Proofs.Session.Lockstep

/-!
# A fork taken back

Between a fork and its rollback the lock is open, and others get their turns. They find one live
process more than they would have found without the fork, and it may be orphaned or handed over by
them. But it is nobody's parent, and as long as nobody asks for it, nothing that is answered depends
on it. So the two registries go side by side, the one with the process and the one without it,
until the fork is taken back: `retracted_unnoticed`.
-/

namespace ProcessLife.Registry

open Operation

/-- The request is an exit or a wait, and is not about the process `c`. -/
def Request.Bypasses (c : Pid) : Request → Prop
  | .exit pid _ => pid ≠ c
  | .wait _ child => child ≠ c
  | _ => False

instance (c : Pid) : (q : Request) → Decidable (q.Bypasses c)
  | .exit pid _ => inferInstanceAs (Decidable (pid ≠ c))
  | .wait _ child => inferInstanceAs (Decidable (child ≠ c))
  | .addRoot _ => .isFalse id
  | .fork _ => .isFalse id
  | .rollBack _ => .isFalse id

def LeavesAlone (c : Pid) : Move Request → Prop
  | .call _ q => q.Bypasses c
  | .wake _ => True

instance (c : Pid) : (m : Move Request) → Decidable (LeavesAlone c m)
  | .call _ q => inferInstanceAs (Decidable (q.Bypasses c))
  | .wake _ => .isTrue trivial

/-- The registry `r'` is `r` with one live process more, and perhaps with another ring. -/
structure Beside (c : Pid) (r r' : Registry) : Prop where
  missing : r.table.get? c = none
  pending : r'.table.isAlive c = true
  others : ∀ {q}, q ≠ c → r'.table.get? q = r.table.get? q
  childExit : r'.childExit = r.childExit
  capacity : r'.capacity = r.capacity
  reaper : r'.reaper = r.reaper
  stranger : r.reaper ≠ some c

variable {config : Config} {r r' r₀ : Registry} {c pid parent : Pid} {q : Request}

theorem Admission.beside (admission : Admission r parent (.ok c) r') (apart : r.Apart) :
    Beside c r r' := by
  cases admission with
  | admitted _ _ inside done =>
    have enters := Table.enters_of_insert done
    exact {
      missing := enters.free
      pending := Table.isAlive_iff.mpr ⟨_, (enters.look c).trans (if_pos rfl), rfl⟩
      others := fun other => (enters.look _).trans (if_neg other)
      childExit := rfl
      capacity := rfl
      reaper := rfl
      stranger := fun same => apart.outside same inside }

namespace Beside

theorem isAlive (beside : Beside c r r') (other : pid ≠ c) :
    r'.table.isAlive pid = r.table.isAlive pid := by
  rw [Table.isAlive, Table.isAlive, beside.others other]

/-- The process more is not the reaper, so the heirs are the same. -/
theorem heirOf (beside : Beside c r r') : r'.heirOf pid = r.heirOf pid := by
  apply Option.ext
  intro reaper
  rw [heirOf_eq_some_iff, heirOf_eq_some_iff, beside.reaper]
  refine and_congr_right fun same => ?_
  have other : reaper ≠ c := by
    rintro rfl
    exact beside.stranger same
  rw [beside.isAlive other]

/-- Whoever else exits, the process more lives on, whatever its parent is then. -/
theorem exit (beside : Beside c r r') (apart : r.Apart) (apart' : r'.Apart)
    (other : pid ≠ c) (alive : r.table.isAlive pid = true) (code : Int32) :
    ∃ s s' events events', (Registry.exit pid code).run r = ⟨.ok (), s, events⟩ ∧
      (Registry.exit pid code).run r' = ⟨.ok (), s', events'⟩ ∧ Beside c s s' := by
  obtain ⟨t, events, run, -, look⟩ := apart.run_exit alive code
  obtain ⟨t', events', run', -, look'⟩ :=
    apart'.run_exit ((beside.isAlive other).trans alive) code
  refine ⟨_, _, events, events', run, run', ?_⟩
  exact { beside with
    missing := by rw [look, Table.exited, beside.missing, Option.bind_none]
    pending := isAlive_of_exited other.symm look' beside.pending
    others := fun {q} same => by
      rw [look, look', beside.heirOf, Table.exited, Table.exited, beside.others same]
    childExit := congrArg Signal.notify beside.childExit }

theorem remove (beside : Beside c r r') (other : pid ≠ c) :
    Beside c { r with table := (r.table.remove pid).2 }
      { r' with table := (r'.table.remove pid).2 } :=
  { beside with
    missing := by rw [Table.get?_remove, if_neg other.symm, beside.missing]
    pending := by
      rw [Table.isAlive, Table.get?_remove, if_neg other.symm]
      exact beside.pending
    others := fun {q} same => by rw [Table.get?_remove, Table.get?_remove, beside.others same] }

/-- What bypasses the process more is answered alike, and leaves the two side by side. -/
theorem serve (beside : Beside c r r') (apart : r.Apart) (apart' : r'.Apart)
    (bypasses : q.Bypasses c) :
    ∃ result s s' events events', (Registry.serve q).run r = ⟨result, s, events⟩ ∧
      (Registry.serve q).run r' = ⟨result, s', events'⟩ ∧ Beside c s s' := by
  cases q with
  | exit pid code =>
    have look := beside.others bypasses
    cases found : r.table.get? pid with
    | none =>
      exact ⟨_, _, _, _, _, run_serve (run_exit_unregistered found),
        run_serve (run_exit_unregistered (look.trans found)), beside⟩
    | some p =>
      by_cases dead : p.isZombie = true
      · exact ⟨_, _, _, _, _, run_serve (run_exit_zombie found dead),
          run_serve (run_exit_zombie (look.trans found) dead), beside⟩
      · have live : p.status = none := by simpa [Record.isZombie] using dead
        obtain ⟨s, s', events, events', run, run', next⟩ :=
          beside.exit apart apart' bypasses (Table.isAlive_iff.mpr ⟨p, found, live⟩) code
        exact ⟨_, s, s', events, events', run_serve run, run_serve run', next⟩
  | wait parent child =>
    have look := beside.others bypasses
    cases found : r.table.get? child with
    | none =>
      exact ⟨_, _, _, _, _, run_serve (run_wait_unregistered found),
        run_serve (run_wait_unregistered (look.trans found)), beside⟩
    | some p =>
      by_cases stranger : parent = noParent ∨ p.parent ≠ parent
      · exact ⟨_, _, _, _, _, run_serve (run_wait_stranger found stranger),
          run_serve (run_wait_stranger (look.trans found) stranger), beside⟩
      obtain ⟨owned, same⟩ := not_or.mp stranger
      cases Classical.not_not.mp same
      cases status : p.status with
      | none =>
        exact ⟨_, _, _, _, _, run_serve (run_wait_live found owned status),
          run_serve (run_wait_live (look.trans found) owned status), beside⟩
      | some s =>
        exact ⟨_, _, _, _, _, run_serve (apart.sound.run_wait_zombie found status),
          run_serve (apart'.sound.run_wait_zombie (look.trans found) status),
          beside.remove bypasses⟩
  | addRoot => exact bypasses.elim
  | fork => exact bypasses.elim
  | rollBack => exact bypasses.elim

/-- Nobody names the process more as the parent: such a child would be there without it, too, and
would have a parent that is not registered. -/
theorem childless (beside : Beside c r r') (apart : r.Apart) (apart' : r'.Apart) (d : Pid) :
    r'.table.parentOf d ≠ some c := by
  intro child
  have named := apart'.sound.ne_of_isAlive beside.pending
  have other : d ≠ c := apart'.ne_parent child
  have kept : r.table.parentOf d = some c := by
    rw [Table.parentOf, ← beside.others other]
    exact child
  obtain ⟨p, found, -⟩ := Table.isAlive_iff.mp (apart.attended.alive kept named)
  simp [beside.missing] at found

/-- Once its fork is taken back, only the ring is different. -/
theorem rollBack (beside : Beside c r r') (apart : r.Apart) (apart' : r'.Apart) :
    (Registry.rollBack c).run r' =
      ⟨.ok (), { r with pids := r'.pids }, [.forkRolledBack c]⟩ := by
  obtain ⟨p, found, live⟩ := Table.isAlive_iff.mp beside.pending
  have named := apart'.sound.consistent.ne_noParent found
  obtain ⟨-, run⟩ := apart'.sound.run_rollBack found live
    ((apart'.sound.consistent.leastChild?_eq_none_iff named).mpr (beside.childless apart apart'))
  have table : (r'.table.remove c).2 = r.table := by
    apply apart'.sound.consistent.remove.toInStep.ext apart.sound.consistent.toInStep
    intro q
    rw [Table.get?_remove]
    split
    · rename_i same
      rw [same, beside.missing]
    · rename_i other
      exact beside.others other
  rw [run, table, beside.childExit, beside.capacity, beside.reaper]

end Beside

/-- What everybody can see of a turn: who asked for what, and the answer. -/
def Turn.account (t : Turn) : (Nat × Request) × Except Stop Answer :=
  (t.call, t.result)

/-- A turn of the same call on both registries, if it bypasses the process more. -/
theorem Beside.turn (beside : Beside c r r') (apart : r.Apart) (apart' : r'.Apart) (id : Nat)
    (bypasses : q.Bypasses c) :
    let t : Turn := ⟨id, q, r⟩
    let t' : Turn := ⟨id, q, r'⟩
    t'.result = t.result ∧ Beside c t.after t'.after ∧ t.after.Apart ∧ t'.after.Apart := by
  intro t t'
  obtain ⟨result, s, s', events, events', run, run', next⟩ := beside.serve apart apart' bypasses
  obtain ⟨answer, after⟩ := Turn.served (t := t) rfl run
  obtain ⟨answer', after'⟩ := Turn.served (t := t') rfl run'
  refine ⟨answer'.trans answer.symm, ?_, (t.outcome apart.sound).apart apart,
    (t'.outcome apart'.sound).apart apart'⟩
  rw [after, after']
  exact next

def SideBySide (c : Pid) (r r' : Registry) : Prop :=
  Beside c r r' ∧ r.Apart ∧ r'.Apart

def SameBypass (c : Pid) (call call' : Nat × Request) : Prop :=
  call' = call ∧ call.2.Bypasses c

theorem lockstep_bypass (c : Pid) : Lockstep service (SideBySide c) (SameBypass c) where
  signal sides := sides.1.childExit
  parks := by
    rintro r r' i j q q' ⟨beside, apart, apart'⟩ ⟨same, bypasses⟩
    cases same
    have result := (beside.turn apart apart' i bypasses).1
    exact iff_of_eq (congrArg (· = _) result)
  state := by
    rintro r r' i j q q' ⟨beside, apart, apart'⟩ ⟨same, bypasses⟩
    cases same
    exact (beside.turn apart apart' i bypasses).2

structure Abreast (c : Pid) (s s' : Session Registry Request) : Prop where
  beside : Beside c s.state s'.state
  apart : s.state.Apart
  apart' : s'.state.Apart
  sleepers : s'.sleepers = s.sleepers
  bypassing : ∀ w ∈ s.sleepers, w.request.Bypasses c

namespace Abreast

variable {s s' : Session Registry Request}

theorem paired (abreast : Abreast c s s') :
    Session.Paired (SideBySide c) (SameBypass c) s s' where
  state := ⟨abreast.beside, abreast.apart, abreast.apart'⟩
  sleepers := by
    rw [abreast.sleepers]
    exact List.forall₂_same.mpr fun w member => ⟨⟨rfl, abreast.bypassing w member⟩, rfl, rfl⟩

theorem of_paired (paired : Session.Paired (SideBySide c) (SameBypass c) s s') :
    Abreast c s s' := by
  obtain ⟨⟨beside, apart, apart'⟩, sleepers⟩ := paired
  have same : List.Forall₂ (fun w w' => w' = w ∧ w.request.Bypasses c) s.sleepers s'.sleepers := by
    refine sleepers.imp ?_
    rintro ⟨_, _, _, _⟩ ⟨_, _, _, _⟩ ⟨⟨call, bypasses⟩, seen, wakeups⟩
    cases call
    cases seen
    cases wakeups
    exact ⟨rfl, bypasses⟩
  have equal : s.sleepers = s'.sleepers := by
    rw [← List.forall₂_eq_eq_eq]
    exact same.imp fun _ _ pair => pair.1.symm
  exact {
    beside, apart, apart'
    sleepers := equal.symm
    bypassing := fun w member => by
      obtain ⟨place, inside, rfl⟩ := List.getElem_of_mem member
      exact (same.get inside (same.length_eq ▸ inside)).2 }

theorem play (abreast : Abreast c s s') (moves : List (Move Request))
    (alone : ∀ m ∈ moves, LeavesAlone c m) :
    (s'.play service moves).1.map Turn.account = (s.play service moves).1.map Turn.account ∧
      Abreast c (s.play service moves).2 (s'.play service moves).2 := by
  have same : List.Forall₂ (Move.Paired (SameBypass c)) moves moves := by
    refine Move.forall₂_paired ?_
    rintro _ member i q rfl
    exact ⟨rfl, alone _ member⟩
  obtain ⟨steps, last⟩ := (lockstep_bypass c).record abreast.paired same
  rw [Session.play_eq_record, Session.play_eq_record, List.map_map, List.map_map]
  refine ⟨?_, of_paired last⟩
  rw [← List.forall₂_eq_eq_eq, List.forall₂_map_left_iff, List.forall₂_map_right_iff]
  refine steps.flip.imp fun t' t pair => ?_
  obtain ⟨⟨beside, apart, apart'⟩, -⟩ := pair.first
  obtain ⟨call, bypasses⟩ := pair.turn
  obtain ⟨id, request⟩ := Prod.mk.inj call
  have turn' := t'.turn_eq
  rw [id, request] at turn'
  show Turn.account t'.turn = Turn.account t.turn
  rw [t.turn_eq, turn']
  exact Prod.ext rfl (beside.turn apart apart' t.turn.id bypasses).1

end Abreast

variable {here : Session Registry Request} {past : List Step}

theorem abreast_of_forked (apart : here.state.Apart) (patient : Patient here.sleepers) {i : Nat}
    (forked : Turn.result (Step.arrival service here i (.fork parent)).turn = .ok (.forked c))
    (unawaited : ∀ w ∈ here.sleepers, w.request.awaits c = false) :
    Abreast c here (Step.arrival service here i (.fork parent)).next := by
  let fork := Step.arrival service here i (.fork parent)
  obtain ⟨result, r', events, run, admission⟩ := apart.sound.admission parent
  obtain ⟨answer, after⟩ := Turn.served (t := fork.turn) rfl (run_serve run)
  have outcome := Turn.outcome fork.turn apart.sound
  obtain rfl : result = .ok c := by
    rw [forked] at answer
    cases result <;> cases answer
    rfl
  have beside : Beside c here.state (Turn.after fork.turn) := after ▸ admission.beside apart
  refine ⟨fork.state_next ▸ beside, apart, fork.state_next ▸ outcome.apart apart, ?_,
    fun w member => ?_⟩
  · exact Step.sleepers_of_ended rfl fun slept => by cases forked.symm.trans slept
  · obtain ⟨q, child, waits⟩ := patient w member
    have spared := unawaited w member
    rw [waits] at spared ⊢
    simpa [Request.awaits, Request.Bypasses] using spared

/-- A fork that is taken back has not been noticed. If the reaper stands apart, then in whatever
session a process is forked that nobody waits for, whatever the moves between the fork and the
rollback, as long as they are no forks and leave the child alone, all who have a turn get the
answers that they would have got without the fork. The rollback succeeds; the same calls sleep, and
but for the ring the registry is the one that would be there without the two. -/
theorem retracted_unnoticed (new : Registry.new config = .ok r₀)
    (standsApart : config.ReaperApart) (history : History service { state := r₀ } past here)
    {i : Nat}
    (forked : Turn.result (Step.arrival service here i (.fork parent)).turn = .ok (.forked c))
    (unawaited : ∀ w ∈ here.sleepers, w.request.awaits c = false)
    (moves : List (Move Request)) (alone : ∀ m ∈ moves, LeavesAlone c m)
    (j : Nat) :
    let pending := (Step.arrival service here i (.fork parent)).next
    let long := pending.play service moves
    let short := here.play service moves
    let retraction := Step.arrival service long.2 j (.rollBack c)
    long.1.map Turn.account = short.1.map Turn.account ∧
      Turn.result retraction.turn = .ok .done ∧
      retraction.next.sleepers = short.2.sleepers ∧
      retraction.next.state = { short.2.state with pids := long.2.state.pids } := by
  intro pending long short retraction
  have start := apart_new new standsApart
  have apart := (apart_run history.run start).2
  have patient := patient_of_history history start.sound fun _ h => (List.not_mem_nil h).elim
  obtain ⟨accounts, abreast⟩ :=
    (abreast_of_forked apart patient forked unawaited).play moves alone
  have run : (serve (.rollBack c)).run long.2.state =
      ⟨.ok .done, { short.2.state with pids := long.2.state.pids }, [.forkRolledBack c]⟩ :=
    run_serve (abreast.beside.rollBack abreast.apart abreast.apart')
  obtain ⟨done, after⟩ := Turn.served (t := retraction.turn) rfl run
  have stay : retraction.next.sleepers = long.2.sleepers :=
    Step.sleepers_of_ended rfl fun slept => by cases done.symm.trans slept
  exact ⟨accounts, done, stay.trans abreast.sleepers, retraction.state_next.trans after⟩

/-- While the fork is pending, somebody fetches the status of a sibling of the child, the parent
exits, twice, and the child is handed over to the reaper, who fetches the status of the parent. -/
theorem retracted_unnoticed_handed_over :
    ∃ (r₀ : Registry) (past : List Step) (here : Session Registry Request),
      Registry.new { reaper := some 1 } = .ok r₀ ∧ History service { state := r₀ } past here ∧
      let moves : List (Move Request) := [.call 5 (.exit 3 7), .wake 0, .call 6 (.exit 2 5),
        .call 7 (.exit 2 5), .call 8 (.wait 1 2)]
      let long := (Step.arrival service here 4 (.fork 2)).next.play service moves
      let short := here.play service moves
      let retraction := Step.arrival service long.2 9 (.rollBack 4)
      long.2.state.table.parentOf 4 = some 1 ∧
        long.1.map Turn.result = [.ok .done, .ok (.reaped (.ofCode 7)), .ok .done,
          .error (.broken (.alreadyExited 2)), .ok (.reaped (.ofCode 5))] ∧
        long.1.map Turn.account = short.1.map Turn.account ∧
        Turn.result retraction.turn = .ok .done ∧
        retraction.next.state = { short.2.state with pids := long.2.state.pids } := by
  have recorded : service.record (Registry.new { reaper := some 1 }) [.call 0 (.addRoot 1),
    .call 1 (.fork 1), .call 2 (.fork 2), .call 3 (.wait 2 3)] = .ok ([_, _, _, _], _) := rfl
  obtain ⟨r₀, new, history⟩ := service.history_of_record recorded
  have standsApart : Config.ReaperApart { reaper := some 1 } := by
    rintro _ ⟨⟩
    decide
  obtain ⟨accounts, done, -, left⟩ := retracted_unnoticed new standsApart history
    (rfl : Turn.result (Step.arrival service _ 4 (.fork 2)).turn = .ok (.forked 4)) (by decide)
    [.call 5 (.exit 3 7), .wake 0, .call 6 (.exit 2 5), .call 7 (.exit 2 5), .call 8 (.wait 1 2)]
    (by decide) 9
  exact ⟨r₀, _, _, new, history, rfl, rfl, accounts, done, left⟩

end ProcessLife.Registry
