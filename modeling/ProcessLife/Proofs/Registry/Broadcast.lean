import ProcessLife.Proofs.Registry.Waiting

/-!
# What an exit tells the sleepers

An exit notifies everybody. In a settled session each sleeper waits for a live child of its own, so
after the exit of `x` it meets one of three things (`Meets`): the zombie of `x`, a child that `x`
has just lost, or a child that still lives. The first who comes for the zombie takes it out, which
changes nothing for those who do not wait for `x`; hence the answer of each depends only on whether
somebody came for the zombie before (`verdict`), and what is left in the end (`aftermath`) does not
depend on the order at all.
-/

namespace ProcessLife.Registry

def fetch (r : Registry) (x : Pid) : Registry :=
  { r with table := (r.table.remove x).2 }

/-- What a waiting call finds once `x` has exited. -/
inductive Meets (r : Registry) (x : Pid) (status : ExitStatus) : Request → Prop
  | zombie {p : Record} (found : r.table.get? x = some p) (dead : p.status = some status)
      (other : p.parent ≠ x) : Meets r x status (.wait p.parent x)
  | lost {c : Pid} {p : Record} (found : r.table.get? c = some p) (other : c ≠ x)
      (moved : p.parent ≠ x) : Meets r x status (.wait x c)
  | living {c : Pid} {p : Record} (found : r.table.get? c = some p) (live : p.status = none)
      (owned : p.parent ≠ noParent) (other : c ≠ x) (kept : p.parent ≠ x) :
      Meets r x status (.wait p.parent c)

/-- How a wait ends after the exit of `x`, by whether the zombie has been fetched. -/
def verdict (x : Pid) (status : ExitStatus) (fetched : Bool) : Request → Except Stop Answer
  | .wait parent child =>
    if child = x then if fetched then .error (.failed .esrch) else .ok (.reaped status)
    else if parent = x then .error (.failed .echild)
    else .error .asleep
  | _ => .ok .done

/-- Waits that have to do with `x` neither as parent nor as child. -/
def Request.spares (x : Pid) : Request → Bool
  | .wait parent child => parent ≠ x && child ≠ x
  | _ => false

/-- What is left when all who were notified have tried again: the zombie has been fetched if anybody
waited for it, and those who have nothing to do with `x` sleep on. -/
def aftermath (x : Pid) (session : Session Registry Request) : Session Registry Request where
  state := if session.sleepers.any (·.request.awaits x) then session.state.fetch x
    else session.state
  sleepers := session.sleepers.filterMap
    (·.fate session.state.childExit (Request.spares x))

variable {config : Config} {r : Registry} {x c : Pid} {status : ExitStatus} {q : Request}
  {fetched : Bool} {first last : Session Registry Request} {steps : List Step}

theorem Sound.fetch (sound : r.Sound) : (r.fetch x).Sound :=
  sound.takeOut sound.consistent.remove (Table.get?_remove r.table x)

theorem get?_fetch (other : c ≠ x) : (r.fetch x).table.get? c = r.table.get? c :=
  (Table.get?_remove r.table x c).trans (if_neg other)

/-- Those who do not wait for `x` meet the same, whether the zombie is there or not. -/
theorem Meets.fetch (meets : r.Meets x status q) (spared : q.awaits x = false) :
    (r.fetch x).Meets x status q := by
  cases meets with
  | zombie => simp [Request.awaits] at spared
  | lost found other moved => exact .lost ((get?_fetch other).trans found) other moved
  | living found live owned other kept =>
    exact .living ((get?_fetch other).trans found) live owned other kept

theorem verdict_asleep_iff :
    verdict x status fetched q = .error .asleep ↔ q.spares x = true := by
  cases q with
  | wait parent child =>
    by_cases own : child = x <;> by_cases lost : parent = x <;> cases fetched <;>
      simp [verdict, Request.spares, own, lost]
  | _ => simp [verdict, Request.spares]

/-- Whether the zombie was fetched matters only to those who wait for it. -/
theorem verdict_of_spared {sooner later : Bool} (spared : q.awaits x = false) :
    verdict x status sooner q = verdict x status later q := by
  cases q with
  | wait parent child =>
    have other : child ≠ x := fun same => by simp [Request.awaits, same] at spared
    simp [verdict, other]
  | _ => rfl

theorem Meets.waits (meets : r.Meets x status q) : ∃ parent child, q = .wait parent child := by
  cases meets <;> exact ⟨_, _, rfl⟩

theorem patient_of_meets {sleepers : List (Sleeper Request)}
    (meets : ∀ w ∈ sleepers, w.seen ≠ r.childExit ∧ r.Meets x status w.request) :
    Patient sleepers :=
  fun w member => (meets w member).2.waits

theorem Meets.ne_of_lost (meets : r.Meets x status (.wait x c)) : c ≠ x := by
  generalize request : Request.wait x c = q at meets
  cases meets with
  | zombie found dead other =>
    cases request
    exact absurd rfl other
  | lost found other moved =>
    cases request
    exact other
  | living found live owned other kept =>
    cases request
    exact other

/-- As long as the zombie is there, whoever comes for it takes it out. -/
theorem Turn.meets {t : Turn} (sound : t.before.Sound)
    (meets : t.before.Meets x status t.request) :
    t.result = verdict x status false t.request ∧
      t.after = if t.request.awaits x then t.before.fetch x else t.before := by
  generalize request : t.request = q at meets ⊢
  cases meets with
  | zombie found dead other =>
    simpa [verdict, Request.awaits, Except.map, Registry.fetch] using
      Turn.served request (run_serve (sound.run_wait_zombie found dead))
  | lost found other moved =>
    simpa [verdict, Request.awaits, other, Except.map] using
      Turn.served request (run_serve (run_wait_stranger found (Or.inr moved)))
  | living found live owned other kept =>
    simpa [verdict, Request.awaits, other, kept, Except.map] using
      Turn.served request (run_serve (run_wait_live found owned live))

/-- Once the zombie is gone, whoever comes for it finds nobody, and the others meet the same. -/
theorem Turn.meets_fetched {t : Turn} (sound : r.Sound) (before : t.before = r.fetch x)
    (meets : r.Meets x status t.request) :
    t.result = verdict x status true t.request ∧ t.after = r.fetch x := by
  by_cases own : t.request.awaits x = true
  · cases request : t.request with
    | wait parent child =>
      rw [request] at own
      have gone : t.before.table.get? child = none := by
        rw [before, Registry.fetch, Table.get?_remove, if_pos (Request.awaits_wait.mp own)]
      have served := Turn.served request (run_serve (run_wait_unregistered gone))
      simpa [verdict, Request.awaits_wait.mp own, before, Except.map] using served
    | _ => simp [Request.awaits, request] at own
  · have spared := Bool.eq_false_iff.mpr own
    have served := Turn.meets (t := t) (before ▸ sound.fetch) (before ▸ meets.fetch spared)
    rw [served.1, served.2, if_neg own, before]
    exact ⟨verdict_of_spared spared, rfl⟩

theorem Turn.verdict {t : Turn} (sound : r.Sound)
    (before : t.before = if fetched then r.fetch x else r)
    (meets : r.Meets x status t.request) :
    t.result = verdict x status fetched t.request ∧
      t.after = if fetched || t.request.awaits x then r.fetch x else r := by
  cases fetched with
  | false =>
    have same : t.before = r := before
    subst same
    exact Turn.meets sound meets
  | true => exact Turn.meets_fetched sound before meets

/-- Each turn of a round is judged by whether somebody came for the zombie before. -/
theorem verdicts_of_wakes (fetched : Bool) (sound : r.Sound)
    (history : History service first steps last) (wakes : ∀ s ∈ steps, s.Wakes)
    (state : first.state = if fetched then r.fetch x else r)
    (meets : ∀ w ∈ first.sleepers, w.seen ≠ r.childExit → r.Meets x status w.request) :
    (last.state = if fetched || steps.any (·.turn.request.awaits x) then r.fetch x else r) ∧
      (∀ s ∈ steps, ¬ s.Notifies) ∧
      ∀ front s back, steps = front ++ s :: back →
        r.Meets x status s.turn.request ∧
          Turn.result s.turn =
            verdict x status (fetched || front.any (·.turn.request.awaits x)) s.turn.request := by
  have signal (b : Bool) : (if b then r.fetch x else r).childExit = r.childExit := by
    cases b <;> rfl
  induction history generalizing fetched with
  | stay => exact ⟨by simpa using state, by simp, by simp⟩
  | step s rest ih =>
    rw [List.forall_mem_cons] at wakes
    obtain ⟨before, w, behind, sleepers, notified, turn, -, -⟩ := Step.of_wakes wakes.1
    have seen : w.seen ≠ r.childExit := by
      rw [← signal fetched, ← state]
      exact notified
    have met : r.Meets x status s.turn.request := by
      rw [turn]
      exact meets w (by simp [sleepers]) seen
    obtain ⟨result, after⟩ := Turn.verdict sound (s.before_turn.trans state) met
    have state' : s.next.state = _ := s.state_next.trans after
    have quiet : s.next.state.childExit = s.first.state.childExit := by
      rw [state', state, signal, signal]
    -- Whoever falls asleep again has seen the notification and is not let in again.
    have meets' : ∀ v ∈ s.next.sleepers, v.seen ≠ r.childExit → r.Meets x status v.request := by
      intro v member unseen
      rcases s.mem_next member with old | slept
      · exact meets v old unseen
      · refine absurd ?_ unseen
        rw [(s.of_mem_asleep slept).2.2, ← signal fetched, ← state]
        exact quiet
    obtain ⟨done, hush, judged⟩ := ih _ wakes.2 state' meets'
    refine ⟨?_, List.forall_mem_cons.mpr ⟨fun h => h quiet, hush⟩, ?_⟩
    · rw [done, List.any_cons, Bool.or_assoc]
    · intro front u back parts
      cases front with
      | nil =>
        cases parts
        simpa using ⟨met, result⟩
      | cons _ front =>
        cases parts
        rw [List.any_cons, ← Bool.or_assoc]
        exact judged front u back rfl

/-- A round after an exit, in whatever order the sleepers come. -/
theorem round_verdicts (sound : first.state.Sound)
    (meets : ∀ w ∈ first.sleepers,
      w.seen ≠ first.state.childExit ∧ first.state.Meets x status w.request)
    (round : Session.LetsIn service first steps last) :
    last = aftermath x first ∧
      (steps.map (·.turn.call)).Perm (first.sleepers.map (·.call)) ∧
      ∀ front s back, steps = front ++ s :: back →
        first.state.Meets x status s.turn.request ∧
          Turn.result s.turn =
            verdict x status (front.any (·.turn.request.awaits x)) s.turn.request := by
  obtain ⟨state, quiet, judged⟩ := verdicts_of_wakes false sound round.history
    round.wakes rfl fun w member _ => (meets w member).2
  have perm := round.perm_turns quiet
  have everybody : first.notified service = first.sleepers :=
    List.filter_eq_self.mpr fun w member => decide_eq_true (meets w member).1
  rw [everybody] at perm
  have came : steps.any (·.turn.request.awaits x) =
      first.sleepers.any (·.request.awaits x) := by
    have same := perm.any_eq (f := fun call => call.2.awaits x)
    simpa [List.any_map, Function.comp_def] using same
  have sleepers := round.sleepers (Request.spares x) quiet fun s member => by
    obtain ⟨front, back, parts⟩ := List.append_of_mem member
    have result : (s.turn.reply service).result = _ := (judged front s back parts).2
    rw [result, verdict_asleep_iff]
  refine ⟨?_, perm, by simpa using judged⟩
  obtain ⟨last_state, last_sleepers⟩ := last
  simp only [aftermath, Session.mk.injEq]
  exact ⟨by simpa [came] using state, sleepers⟩

/-- After the exit of `x` those who waited for live children of their own meet one of the three
things. -/
theorem Pending.meets {t : Table} {p : Record} {childExit : Signal} (named : x ≠ noParent)
    (found : r.table.get? x = some p) (other : p.parent ≠ x)
    (look : ∀ q, t.get? q = r.table.exited (r.heirOf x) x status q) (pending : r.Pending q) :
    { r with table := t, childExit }.Meets x status q := by
  obtain ⟨parent, child, c, rfl, owned, found', live, rfl⟩ := pending
  by_cases own : child = x
  · subst own
    rw [found] at found'
    cases found'
    have zombie : t.get? child = some { p with status := some status } := by
      simp [look, Table.exited, found, other, owned]
    exact Meets.zombie (p := { p with status := some status }) zombie rfl other
  · have fate := look child
    rw [Table.exited_of_ne found' own] at fate
    by_cases lost : c.parent = x
    · obtain ⟨s, released, -⟩ : ∃ s, c.released (r.heirOf x) = some s ∧ s.status = none :=
        live_released live
      rw [if_pos lost, released] at fate
      rw [lost]
      exact .lost fate own (parent_ne_of_released named r.heirOf_ne (by rw [if_pos lost, released]))
    · rw [if_neg lost] at fate
      exact .living fate live owned own lost

/-- The exit of a live process that is not its own parent ends well, and notifies. -/
theorem Sound.serve_exit (sound : r.Sound) (alive : r.table.isAlive x = true)
    (other : r.table.parentOf x ≠ some x) (code : Int32) :
    ∃ r' events, (serve (.exit x code)).run r = ⟨.ok .done, r', events⟩ ∧ r'.Sound ∧
      r'.childExit = r.childExit.notify ∧ ∀ q, r.Pending q → r'.Meets x (.ofCode code) q := by
  obtain ⟨p, found, live⟩ := Table.isAlive_iff.mp alive
  have free : ¬ r.table.Knotted x := fun knot => other knot.1
  obtain ⟨t, events, run, consistent, look⟩ := sound.run_exit code found live free
  refine ⟨_, events, run_serve run, sound.exit found consistent look _, rfl, fun q pending => ?_⟩
  rw [Table.parentOf_of_get? found, ne_eq, Option.some.injEq] at other
  exact pending.meets (sound.consistent.ne_noParent found) found other look

theorem Step.quiet_of_wakes (s : Step) (wakes : s.Wakes) (sound : s.first.state.Sound)
    (patient : Patient s.first.sleepers) :
    (s.next.state.Sound ∧ Patient s.next.sleepers) ∧ ¬ s.Notifies := by
  obtain ⟨_, w, _, sleepers, -, turn, -⟩ := Step.of_wakes wakes
  refine ⟨⟨s.sound_next sound, s.patient_next sound patient⟩, fun notifies => notifies ?_⟩
  obtain ⟨parent, child, waits⟩ := patient w (by simp [sleepers])
  have request : s.turn.request = .wait parent child := by rw [turn, waits]
  have outcome := s.outcome sound
  rw [request] at outcome
  exact outcome.childExit_wait

/-- In a settled session such an exit leaves the sleepers where they are, all notified. -/
theorem Settled.exit {exit : Step} (settled : Settled config exit.first) {id : Nat} {code : Int32}
    (arrives : exit.move = .call id (.exit x code))
    (alive : exit.first.state.table.isAlive x = true)
    (other : exit.first.state.table.parentOf x ≠ some x) :
    Turn.result exit.turn = .ok .done ∧ exit.next.sleepers = exit.first.sleepers ∧
      exit.next.state.Sound ∧ Patient exit.next.sleepers ∧
      ∀ w ∈ exit.next.sleepers, w.seen ≠ exit.next.state.childExit ∧
        exit.next.state.Meets x (.ofCode code) w.request := by
  obtain ⟨sound, pending⟩ := settled.pending
  obtain ⟨r', events, run, sound', notified, meets⟩ := sound.serve_exit alive other code
  have request : exit.turn.request = .exit x code := by rw [(Step.of_call arrives).1]
  obtain ⟨done, left⟩ := Turn.served request (exit.before_turn ▸ run)
  have state : exit.next.state = r' := exit.state_next.trans left
  have same : exit.next.sleepers = exit.first.sleepers :=
    Step.sleepers_of_ended arrives fun h => by cases done.symm.trans h
  rw [same, state, notified]
  refine ⟨done, rfl, sound', fun w member => ?_, fun w member => ?_⟩
  · obtain ⟨-, parent, child, -, waits, -⟩ := pending w member
    exact ⟨parent, child, waits⟩
  · obtain ⟨seen, pending⟩ := pending w member
    rw [seen]
    exact ⟨(Signal.notify_ne _).symm, meets _ pending⟩

/-- Of those who come for the zombie the first gets the status, and the others find nobody. -/
theorem one_fetches (judged : ∀ front s back, steps = front ++ s :: back →
      Turn.result s.turn =
        verdict x status (front.any (·.turn.request.awaits x)) s.turn.request)
    (came : ∃ s ∈ steps, s.turn.request.awaits x = true) :
    ∃ front one back, steps = front ++ one :: back ∧
      (∃ parent, one.turn.request = .wait parent x) ∧
      Turn.result one.turn = .ok (.reaped status) ∧
      ∀ s ∈ front ++ back, ∀ parent, s.turn.request = .wait parent x →
        Turn.result s.turn = .error (.failed .esrch) := by
  obtain ⟨one, first⟩ := Option.isSome_iff_exists.mp (List.find?_isSome
    (p := fun s : ProcessLife.Step service => s.turn.request.awaits x) |>.mpr came)
  obtain ⟨own, front, back, rfl, fresh⟩ := List.find?_eq_some_iff_append.mp first
  have none : front.any (·.turn.request.awaits x) = false := by
    simpa [List.any_eq_false] using fresh
  obtain ⟨parent, waits⟩ := Request.awaits_iff.mp own
  refine ⟨front, one, back, rfl, ⟨parent, waits⟩, ?_, fun s member parent waits => ?_⟩
  · rw [judged front one back rfl, none, waits]
    simp [verdict]
  · rcases List.mem_append.mp member with before | behind
    · have spared := List.any_eq_false.mp none s before
      simp [waits, Request.awaits] at spared
    · obtain ⟨middle, rest, rfl⟩ := List.append_of_mem behind
      rw [judged (front ++ one :: middle) s rest (by simp), waits]
      simp [verdict, own]

/-- The exit of a live process that is not its own parent, in a settled session, with the sleepers
getting their turns in any order afterwards. Each of them has one turn. If anybody waited for the
process, exactly one of those gets its status and the others find nobody; whoever waited as its
parent has lost the child; all others sleep again. The session that is left is the same for every
order, and every order is possible. -/
theorem broadcast_in_any_order {exit : Step} (settled : Settled config exit.first) {id : Nat}
    {code : Int32} (arrives : exit.move = .call id (.exit x code))
    (alive : exit.first.state.table.isAlive x = true)
    (other : exit.first.state.table.parentOf x ≠ some x) :
    Turn.result exit.turn = .ok .done ∧ exit.next.sleepers = exit.first.sleepers ∧
    (∀ order, order.Perm (exit.first.sleepers.map (·.call)) →
      ∃ steps last, Session.LetsIn service exit.next steps last ∧
        steps.map (·.turn.call) = order) ∧
    ∀ steps last, Session.LetsIn service exit.next steps last →
      last = aftermath x exit.next ∧
      (steps.map (·.turn.call)).Perm (exit.first.sleepers.map (·.call)) ∧
      ((∃ w ∈ exit.first.sleepers, ∃ parent, w.request = .wait parent x) →
        ∃ front one back, steps = front ++ one :: back ∧
          (∃ parent, one.turn.request = .wait parent x) ∧
          Turn.result one.turn = .ok (.reaped (.ofCode code)) ∧
          ∀ s ∈ front ++ back, ∀ parent, s.turn.request = .wait parent x →
            Turn.result s.turn = .error (.failed .esrch)) ∧
      (∀ s ∈ steps, ∀ child, s.turn.request = .wait x child →
        Turn.result s.turn = .error (.failed .echild)) ∧
      ∀ s ∈ steps, ∀ parent child, s.turn.request = .wait parent child → parent ≠ x → child ≠ x →
        Turn.result s.turn = .error .asleep := by
  obtain ⟨done, same, sound, patient, meets⟩ := settled.exit arrives alive other
  refine ⟨done, same, fun order perm => ?_, fun steps last round => ?_⟩
  · have everybody : exit.next.notified service = exit.first.sleepers := by
      rw [← same]
      exact List.filter_eq_self.mpr fun w member => decide_eq_true (meets w member).1
    exact Session.exists_letsIn
      (fun session => session.state.Sound ∧ Patient session.sleepers)
      (fun s wakes holds => Step.quiet_of_wakes s wakes holds.1 holds.2) ⟨sound, patient⟩
      (everybody ▸ perm)
  · obtain ⟨final, perm, judged⟩ := round_verdicts sound meets round
    rw [same] at perm
    refine ⟨final, perm, ?_, ?_, ?_⟩
    · rintro ⟨w, member, parent, waits⟩
      obtain ⟨s, came, call⟩ := List.mem_map.mp (perm.symm.subset (List.mem_map_of_mem member))
      have request : s.turn.request = .wait parent x := (congrArg Prod.snd call).trans waits
      exact one_fetches (fun front u back parts => (judged front u back parts).2)
        ⟨s, came, Request.awaits_iff.mpr ⟨parent, request⟩⟩
    · intro s member child waits
      obtain ⟨front, back, parts⟩ := List.append_of_mem member
      obtain ⟨met, result⟩ := judged front s back parts
      rw [waits] at met
      rw [result, waits, verdict, if_neg met.ne_of_lost, if_pos rfl]
    · intro s member parent child waits stranger spared
      obtain ⟨front, back, parts⟩ := List.append_of_mem member
      rw [(judged front s back parts).2, waits, verdict, if_neg spared, if_neg stranger]

/-- Two wait for the process that exits, one for a child that it loses, and one for somebody else.
They come in the reverse order. -/
theorem broadcast_in_reverse :
    ∃ (exit : Step) (steps : List Step) (last : Session Registry Request),
      Settled {} exit.first ∧ exit.move = .call 8 (.exit 2 7) ∧
      Turn.result exit.turn = .ok .done ∧ Session.LetsIn service exit.next steps last ∧
      steps.map (·.turn.call) =
        [(7, .wait 1 4), (6, .wait 2 3), (5, .wait 1 2), (4, .wait 1 2)] ∧
      last = aftermath 2 exit.next ∧
      ∃ front one back, steps = front ++ one :: back ∧
        Turn.result one.turn = .ok (.reaped (.ofCode 7)) ∧
        ∀ s ∈ front ++ back, ∀ parent, s.turn.request = .wait parent 2 →
          Turn.result s.turn = .error (.failed .esrch) := by
  have recorded : service.record (Registry.new {}) [.call 0 (.addRoot 1), .call 1 (.fork 1),
    .call 2 (.fork 2), .call 3 (.fork 1), .call 4 (.wait 1 2), .call 5 (.wait 1 2),
    .call 6 (.wait 2 3), .call 7 (.wait 1 4)] = .ok ([] ++ [_, _, _, _, _, _, _, _], _) := rfl
  obtain ⟨r₀, new, history⟩ := service.history_of_record recorded
  have settled : Settled {} (Step.arrival service _ 8 (.exit 2 7)).first :=
    ⟨r₀, _, new, history, by decide, by decide, _, _, rfl, by decide, by decide⟩
  obtain ⟨done, -, possible, outcome⟩ := broadcast_in_any_order settled rfl rfl (by decide)
  obtain ⟨steps, last, round, order⟩ := possible
    [(7, .wait 1 4), (6, .wait 2 3), (5, .wait 1 2), (4, .wait 1 2)] (by decide)
  obtain ⟨final, -, one, -⟩ := outcome steps last round
  obtain ⟨front, s, back, parts, -, fetched, others⟩ := one ⟨_, .head _, 1, rfl⟩
  exact ⟨_, steps, last, settled, rfl, done, round, order, final, front, s, back, parts, fetched,
    others⟩

end ProcessLife.Registry
