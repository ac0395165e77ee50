import ProcessLife.Proofs.Registry.Parents

/-!
# Nobody sleeps in vain

A wait looks at the child once, and from then on it relies on whoever changes something about the
child to notify. An exit does, whether the child itself exits or loses its parent. A fork that is
taken back does not, so it must not be that of a process somebody waits for; and an exit that breaks
off does not either. Short of these two, all who sleep and were not notified since they last tried
wait for live children of their own.
-/

namespace ProcessLife.Registry

abbrev Step := ProcessLife.Step service

def Request.awaits (pid : Pid) : Request → Bool
  | .wait _ child => child == pid
  | _ => false

@[simp]
theorem Request.awaits_wait {pid parent child : Pid} :
    (Request.wait parent child).awaits pid = true ↔ child = pid :=
  beq_iff_eq

theorem Request.awaits_iff {pid : Pid} {q : Request} :
    q.awaits pid = true ↔ ∃ parent, q = .wait parent pid := by
  cases q <;> simp [Request.awaits]

/-- The request is a wait for a live child of the caller. -/
def Pending (r : Registry) (q : Request) : Prop :=
  ∃ parent child p, q = .wait parent child ∧ parent ≠ noParent ∧ r.table.get? child = some p ∧
    p.status = none ∧ p.parent = parent

variable {config : Config} {r r' : Registry} {first last : Session Registry Request}
  {steps : List Step} {c : Pid} {p : Record} {q : Request} {result : Except Stop Answer}
  {w : Sleeper Request}

namespace Step

theorem outcome (s : Step) (sound : s.first.state.Sound) :
    Outcome s.first.state s.turn.request (Turn.result s.turn) s.next.state := by
  have before := s.before_turn
  rw [← before] at sound ⊢
  rw [s.state_next]
  exact Turn.outcome s.turn sound

theorem sound_next (s : Step) (sound : s.first.state.Sound) : s.next.state.Sound :=
  (s.outcome sound).sound sound

theorem patient_next (s : Step) (sound : s.first.state.Sound) (patient : Patient s.first.sleepers) :
    Patient s.next.sleepers := by
  intro w member
  rcases s.mem_next member with old | new
  · exact patient w old
  · obtain ⟨wakeups, slept⟩ := s.exists_asleep
    exact Turn.patient_asleep s.turn (s.before_turn ▸ sound) wakeups w (slept ▸ new)

/-- A fork is taken back only if nobody waits for the process; those who were notified and have yet
to try again do not count. -/
def Gentle (s : Step) : Prop :=
  ∀ pid, s.turn.request = .rollBack pid → ∀ w ∈ s.first.sleepers,
    w.seen = s.first.state.childExit → w.request.awaits pid = false

instance (s : Step) : Decidable s.Gentle :=
  match request : s.turn.request with
  | .rollBack pid =>
    decidable_of_iff (∀ w ∈ s.first.sleepers, w.seen = s.first.state.childExit →
      w.request.awaits pid = false) (by grind [Gentle])
  | .addRoot _ => .isTrue (by simp [Gentle, request])
  | .fork _ => .isTrue (by simp [Gentle, request])
  | .exit _ _ => .isTrue (by simp [Gentle, request])
  | .wait _ _ => .isTrue (by simp [Gentle, request])

end Step

theorem sound_of_history (history : History service first steps last) (sound : first.state.Sound) :
    (∀ s ∈ steps, s.first.state.Sound) ∧ last.state.Sound :=
  history.invariant (fun session => session.state.Sound) sound fun s _ => Step.sound_next s

theorem patient_of_history (history : History service first steps last)
    (sound : first.state.Sound) (patient : Patient first.sleepers) : Patient last.sleepers :=
  (history.invariant (fun session => session.state.Sound ∧ Patient session.sleepers)
    ⟨sound, patient⟩ fun s _ holds =>
      ⟨Step.sound_next s holds.1, Step.patient_next s holds.1 holds.2⟩).2.2

/-- Of a live process nothing changes, unless its fork is taken back or somebody exits. An exit
notifies or breaks off, and leaves all others alive. -/
theorem Outcome.live_fate (outcome : Outcome r q result r') (found : r.table.get? c = some p)
    (live : p.status = none) :
    r'.table.get? c = some p ∨ q = .rollBack c ∨
      ∃ pid code, q = .exit pid code ∧
        (r'.childExit = r.childExit.notify ∨ r.table.Knotted pid) ∧
        (c ≠ pid → r'.table.isAlive c = true) := by
  have alive : r.table.isAlive c = true := Table.isAlive_iff.mpr ⟨p, found, live⟩
  cases outcome with
  | refused => exact Or.inl found
  | slept => exact Or.inl found
  | exhausted => exact Or.inl found
  | untracked => exact Or.inl found
  | registered _ _ _ free _ _ _ look =>
    refine Or.inl ?_
    rw [look, if_neg, found]
    rintro rfl
    simp [found] at free
  | @rolledBack pid _ _ _ _ _ _ look =>
    by_cases own : c = pid
    · exact Or.inr (Or.inl (own ▸ rfl))
    · exact Or.inl (by rw [look, if_neg own, found])
  | reaped found' dead _ _ look =>
    refine Or.inl ?_
    rw [look, if_neg, found]
    rintro rfl
    rw [found] at found'
    cases found'
    simp [live] at dead
  | exited _ _ _ _ look =>
    exact Or.inr (Or.inr ⟨_, _, rfl, Or.inl rfl, fun other => isAlive_of_exited other look alive⟩)
  | brokenOff _ _ knot _ look =>
    exact Or.inr (Or.inr ⟨_, _, rfl, Or.inr knot,
      fun other => isAlive_of_brokenOff other look alive⟩)

/-- No request ends the life of a process but the rollback of its fork and its own exit. -/
theorem Outcome.isAlive_of_spared (outcome : Outcome r q result r') (kept : q ≠ .rollBack c)
    (spared : ∀ code, q ≠ .exit c code) (alive : r.table.isAlive c = true) :
    r'.table.isAlive c = true := by
  obtain ⟨p, found, live⟩ := Table.isAlive_iff.mp alive
  rcases outcome.live_fate found live with same | taken | ⟨pid, code, exit, -, others⟩
  · exact Table.isAlive_iff.mpr ⟨p, same, live⟩
  · exact absurd taken kept
  · apply others
    rintro rfl
    exact spared code exit

/-- Without a notification nothing changes about a live process, unless its fork is taken back or an
exit breaks off. -/
theorem Outcome.get?_of_quiet (outcome : Outcome r q result r')
    (quiet : r'.childExit = r.childExit) (kept : q ≠ .rollBack c)
    (free : ∀ pid code, q = .exit pid code → ¬ r.table.Knotted pid)
    (found : r.table.get? c = some p) (live : p.status = none) : r'.table.get? c = some p := by
  rcases outcome.live_fate found live with same | taken | ⟨pid, code, exit, ended, -⟩
  · exact same
  · exact absurd taken kept
  · rcases ended with notified | knot
    · exact absurd (notified.symm.trans quiet) r.childExit.notify_ne
    · exact absurd knot (free pid code exit)

/-- Whoever sleeps for a live child of its own goes on to do so until somebody is notified. -/
theorem pending_of_quiet (history : History service first steps last)
    (sound : first.state.Sound) (quiet : ∀ s ∈ steps, ¬ s.Notifies)
    (calm : ∀ s ∈ steps, Turn.Calm s.turn) (gentle : ∀ s ∈ steps, Step.Gentle s)
    (member : w ∈ first.sleepers) (seen : w.seen = first.state.childExit)
    (pending : first.state.Pending w.request) :
    w.seen = last.state.childExit ∧ last.state.Pending w.request := by
  obtain ⟨parent, child, p, request, named, found, live, owned⟩ := pending
  suffices w.seen = last.state.childExit ∧ last.state.table.get? child = some p from
    ⟨this.1, parent, child, p, request, named, this.2, live, owned⟩
  induction history with
  | stay => exact ⟨seen, found⟩
  | step s rest ih =>
    rw [List.forall_mem_cons] at quiet calm gentle
    have same : s.next.state.childExit = s.first.state.childExit := Classical.not_not.mp quiet.1
    have kept : s.turn.request ≠ .rollBack child := by
      intro taken
      have spared := gentle.1 child taken w member seen
      simp [request, Request.awaits] at spared
    have free := calm.1.free (s.before_turn ▸ sound)
    rw [s.before_turn] at free
    exact ih (Step.sound_next s sound) quiet.2 calm.2 gentle.2 (s.mem_next_of_seen member seen)
      (seen.trans same.symm)
      ((Step.outcome s sound).get?_of_quiet same kept free found live)

theorem Step.pending_of_asleep (s : Step) (sound : s.first.state.Sound) (slept : w ∈ s.asleep) :
    s.next.state.Pending w.request := by
  obtain ⟨asleep, call, -⟩ := s.of_mem_asleep slept
  have outcome := s.outcome sound
  have result : Turn.result s.turn = .error .asleep := asleep
  have request : w.request = s.turn.request := congrArg Prod.snd call
  rw [result, ← request] at outcome
  generalize w.request = q, s.next.state = r' at outcome ⊢
  cases outcome with
  | refused awake => exact absurd rfl awake
  | slept found live owned => exact ⟨_, _, _, rfl, owned, found, live, rfl⟩

/-- A session that came about without an exit that broke off and without a fork taken back from
those who waited for it, and in which all who were notified have had a turn since. -/
def Settled (config : Config) (session : Session Registry Request) : Prop :=
  ∃ r₀ steps, Registry.new config = .ok r₀ ∧ History service { state := r₀ } steps session ∧
    (∀ s ∈ steps, Turn.Calm s.turn) ∧ (∀ s ∈ steps, Step.Gentle s) ∧
    CaughtUp steps session.sleepers

/-- In a settled session nobody is notified, and all who sleep have something to wait for. -/
theorem Settled.pending (settled : Settled config last) :
    last.state.Sound ∧
      ∀ w ∈ last.sleepers, w.seen = last.state.childExit ∧ last.state.Pending w.request := by
  obtain ⟨r₀, steps, new, history, calm, gentle, front, back, rfl, quiet, since⟩ := settled
  have sound := sound_of_history history (sound_new new)
  refine ⟨sound.2, fun w member => ?_⟩
  obtain ⟨s, member, slept⟩ := since w member
  obtain ⟨before, after, rfl⟩ := List.append_of_mem member
  -- The last attempt of `w` is in the quiet part; from there on nothing happened to its child.
  rw [← List.append_assoc] at history
  obtain ⟨-, rest⟩ := history.cut
  have sound' := sound.1 s (by simp)
  have later {holds : ProcessLife.Step service → Prop}
      (all : ∀ u ∈ front ++ (before ++ s :: after), holds u) : ∀ u ∈ after, holds u :=
    fun u hu => all u (by simp [hu])
  exact pending_of_quiet rest (Step.sound_next s sound')
    (fun u hu => quiet u (by simp [hu])) (later calm) (later gentle)
    (s.asleep_mem_next slept) (s.of_mem_asleep slept).2.2
    (Step.pending_of_asleep s sound' slept)

/-- No sleeper is left behind. As long as no exit of a live process breaks off and no fork is taken
back from those who wait for the process, then whenever all who were notified have had their turns,
everybody who still sleeps waits for a live child of its own. -/
theorem sleepers_attended (settled : Settled config last) (member : w ∈ last.sleepers) :
    ∃ parent child, w.request = .wait parent child ∧ parent ≠ noParent ∧
      last.state.table.isAlive child = true ∧ last.state.table.parentOf child = some parent := by
  obtain ⟨-, pending⟩ := settled.pending
  obtain ⟨-, parent, child, p, request, named, found, live, rfl⟩ := pending w member
  exact ⟨p.parent, child, request, named, Table.isAlive_iff.mpr ⟨p, found, live⟩,
    Table.parentOf_of_get? found⟩

/-- Of two who wait, one is answered, and the other has tried in vain and sleeps on. -/
theorem sleepers_attended_after_exit :
    ∃ session, Settled {} session ∧ session.sleepers.length = 1 ∧
      ∃ w ∈ session.sleepers, ∃ parent child, w.request = .wait parent child ∧ parent ≠ noParent ∧
        session.state.table.isAlive child = true ∧
        session.state.table.parentOf child = some parent := by
  have recorded : service.record (Registry.new {}) [.call 0 (.addRoot 1), .call 1 (.fork 1),
    .call 2 (.fork 1), .call 3 (.wait 1 2), .call 4 (.wait 1 3), .call 5 (.exit 3 7), .wake 0,
    .wake 1] = .ok ([_, _, _, _, _, _] ++ [_, _], _) := rfl
  obtain ⟨r₀, new, history⟩ := service.history_of_record recorded
  have settled : Settled {} _ :=
    ⟨r₀, _, new, history, by decide, by decide, _, _, rfl, by decide, by decide⟩
  exact ⟨_, settled, rfl, _, .head _, sleepers_attended settled (.head _)⟩

end ProcessLife.Registry
