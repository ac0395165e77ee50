import ProcessLife.Proofs.Registry.Apart
import ProcessLife.Proofs.Registry.Reaping

/-!
# Whose child it is

A child knows its parent by the identifier only, and an identifier can be given to another process
once its holder is out of the table. But whoever exits leaves all its children to the same one, the
reaper or nobody, before it can be out. So a parent that is not this one is the parent from birth,
and still the process that forked the child. Without a reaper, nobody but that process can ever
fetch the status of the child, and nobody at all once it has exited, even if there is another
process under its identifier.
-/

namespace ProcessLife.Registry

variable {config : Config} {r r₀ : Registry} {first last : Session Registry Request}
  {turns : List Turn} {t : Turn} {c p a top : Pid}

namespace Turn

def Registers (t : Turn) (c : Pid) : Prop :=
  t.request.Registers t.result c

instance (t : Turn) (c : Pid) : Decidable (t.Registers c) :=
  inferInstanceAs (Decidable (t.request.Registers t.result c))

def Exits (t : Turn) (p : Pid) : Prop :=
  ∃ code, t.request = .exit p code ∧ t.before.table.isAlive p = true

/-- Whoever exits leaves its children to `top`, which may stand for nobody. -/
def LeavesTo (t : Turn) (top : Pid) : Prop :=
  ∀ p, t.Exits p → (t.before.heirOf p).getD noParent = top

theorem linkSource (apart : t.before.Apart) (link : t.after.table.Link c a) :
    LinkSource t.before t.request t.result c a :=
  (t.outcome apart.sound).linkSource apart.forest link

theorem not_registers (sound : t.before.Sound) (alive : t.before.table.isAlive p = true) :
    ¬ t.Registers p := by
  intro registers
  have free := (t.outcome sound).free_of_registers registers
  simp [Table.isAlive, Table.stage_eq_gone.mp free] at alive

theorem isAlive_before (sound : t.before.Sound) (other : ¬ t.Registers p)
    (alive : t.after.table.isAlive p = true) : t.before.table.isAlive p = true := by
  rw [Table.isAlive_iff, ← Table.stage_eq_alive] at alive ⊢
  cases (t.outcome sound).passage p with
  | keeps kept => exact kept.symm.trans alive
  | leaves gone => simp [gone] at alive
  | ends lived => exact lived
  | begins _ registers => exact absurd registers other

theorem isAlive_of_forked (sound : t.before.Sound) (fork : t.request = .fork p)
    (forked : t.result = .ok (.forked c)) : t.before.table.isAlive p = true := by
  have outcome := t.outcome sound
  rw [fork, forked] at outcome
  generalize t.after = r' at outcome
  cases outcome with
  | registered _ _ _ _ _ _ _ _ _ origin =>
    rcases origin with ⟨root, -⟩ | ⟨same, alive, -⟩
    · cases root
    · exact Request.fork.inj same ▸ alive

/-- Unless a child is registered in a turn, it has the same parent afterwards, who has not exited,
or it was left to `top` by a parent who has. -/
theorem parent_after (apart : t.before.Apart) (leaves : t.LeavesTo top) (other : ¬ t.Registers c)
    (link : t.after.table.Link c a) :
    t.before.table.Link c a ∧ ¬ t.Exits a ∨ a = top ∧ ∃ p, t.Exits p ∧ t.before.table.Link c p := by
  cases t.linkSource apart link with
  | kept old spared =>
    refine Or.inl ⟨old, ?_⟩
    rintro ⟨code, exit, alive⟩
    simp [spared code exit] at alive
  | rooted root answered => exact absurd (Or.inl ⟨root, answered⟩) other
  | forked fork answered => exact absurd (Or.inr ⟨a, fork, answered⟩) other
  | @released pid code exit alive child heir =>
    have exits : t.Exits pid := ⟨code, exit, alive⟩
    exact Or.inr ⟨heir.trans (leaves pid exits), pid, exits, child⟩

end Turn

theorem stage_ne_gone_iff {t : Table} : t.stage c ≠ .gone ↔ ∃ a, t.Link c a := by
  rw [Ne, Table.stage_eq_gone]
  cases found : t.get? c with
  | none => simp [Table.Link, Table.parentOf, found]
  | some p => simp [Table.Link, Table.parentOf, found]

theorem stage_ne_gone_of_isAlive {t : Table} (alive : t.isAlive p = true) : t.stage p ≠ .gone := by
  intro gone
  simp [Table.isAlive, Table.stage_eq_gone.mp gone] at alive

/-- The parent of a child is who it was at first, until that one exits, and `top` afterwards. -/
theorem parent_run (run : Session.Run service first turns last) (apart : first.state.Apart)
    (leaves : ∀ t ∈ turns, t.LeavesTo top) (alone : ∀ t ∈ turns, ¬ t.Registers c)
    (child : ∀ a, first.state.table.Link c a → a = p) (link : last.state.table.Link c a) :
    (∀ t ∈ turns, ¬ t.Exits p) ∧ a = p ∨ (∃ t ∈ turns, t.Exits p) ∧ a = top := by
  induction run generalizing p with
  | stay => exact Or.inl ⟨fun _ h => (List.not_mem_nil h).elim, child a link⟩
  | @move first next last m turn turns moved rest ih =>
    obtain ⟨found, left⟩ := Turn.of_move moved
    rw [← found] at apart child
    rw [List.forall_mem_cons] at leaves alone
    have apart' : next.state.Apart := left ▸ (Turn.outcome turn apart.sound).apart apart
    have after (a) (link : next.state.table.Link c a) :=
      Turn.parent_after apart leaves.1 alone.1 (left ▸ link)
    by_cases exits : Turn.Exits turn p
    · -- The child has been left to `top`, and whether that one exits or not, it keeps it.
      have fostered : ∀ a, next.state.table.Link c a → a = top := by
        intro a link
        rcases after a link with ⟨old, stays⟩ | ⟨same, -⟩
        · exact absurd (child a old ▸ exits) stays
        · exact same
      refine Or.inr ⟨⟨turn, List.mem_cons_self, exits⟩, ?_⟩
      rcases ih apart' leaves.2 alone.2 fostered link with ⟨-, same⟩ | ⟨-, same⟩
      · exact same
      · exact same
    · have kept : ∀ a, next.state.table.Link c a → a = p := by
        intro a link
        rcases after a link with ⟨old, -⟩ | ⟨-, pid, leaving, old⟩
        · exact child a old
        · exact absurd (child pid old ▸ leaving) exits
      rcases ih apart' leaves.2 alone.2 kept link with ⟨none, same⟩ | ⟨⟨t, member, exits⟩, same⟩
      · exact Or.inl ⟨List.forall_mem_cons.mpr ⟨exits, none⟩, same⟩
      · exact Or.inr ⟨⟨t, List.mem_cons_of_mem _ member, exits⟩, same⟩

/-- The parent of a child that was forked is the process that forked it, until that one exits, and
`top` afterwards. -/
theorem parent_of_forked {birth : Turn} (apart : birth.before.Apart)
    (fork : birth.request = .fork p) (answered : birth.result = .ok (.forked c))
    (run : Session.Run service first turns last) (born : first.state = birth.after)
    (leaves : ∀ t ∈ turns, t.LeavesTo top) (alone : ∀ t ∈ turns, ¬ t.Registers c)
    (link : last.state.table.Link c a) :
    (∀ t ∈ turns, ¬ t.Exits p) ∧ a = p ∨ (∃ t ∈ turns, t.Exits p) ∧ a = top := by
  have outcome := birth.outcome apart.sound
  have free := outcome.free_of_registers (Or.inr ⟨p, fork, answered⟩)
  have apart' : first.state.Apart := born ▸ outcome.apart apart
  refine parent_run run apart' leaves alone (fun a link => ?_) link
  cases birth.linkSource apart (born ▸ link) with
  | kept old => exact absurd free (stage_ne_gone_iff.mpr ⟨_, old⟩)
  | rooted root => cases fork.symm.trans root
  | forked fork' => exact (Request.fork.inj (fork.symm.trans fork')).symm
  | released exit => cases fork.symm.trans exit

/-- Who has another parent than `top` was registered under it and has had it ever since. -/
theorem birth_of_link (run : Session.Run service first turns last) (apart : first.state.Apart)
    (free : first.state.table.stage c = .gone) (leaves : ∀ t ∈ turns, t.LeavesTo top)
    (own : a ≠ top) (link : last.state.table.Link c a) :
    ∃ before birth after, turns = before ++ birth :: after ∧
      (birth.request = .addRoot c ∧ birth.result = .ok .done ∧ a = noParent ∨
        birth.request = .fork a ∧ birth.result = .ok (.forked c) ∧
          birth.before.table.isAlive a = true) ∧
      ∀ t ∈ after, ¬ t.Registers c ∧ t.before.table.Link c a := by
  obtain ⟨before, birth, after, rfl, registers, alone⟩ :=
    registered_since run apart.sound free (stage_ne_gone_iff.mpr ⟨a, link⟩)
  have aparts := (apart_run run apart).1
  obtain ⟨here, next, -, -, left, rest⟩ := Turn.of_run run
  have kept : ∀ t ∈ after, t.after.table.Link c a → t.before.table.Link c a := by
    intro t member link
    have back := t.parent_after (aparts t (by simp [member])) (leaves t (by simp [member]))
      (alone t member) link
    exact (back.resolve_right fun left => own left.1).1
  obtain ⟨born, held⟩ := rest.always (fun r => r.table.Link c a) kept link
  have apart' := aparts birth (by simp)
  refine ⟨before, birth, after, rfl, ?_, fun t member => ⟨alone t member, held t member⟩⟩
  cases birth.linkSource apart' (left ▸ born) with
  | kept old =>
    have free := (birth.outcome apart'.sound).free_of_registers registers
    exact absurd free (stage_ne_gone_iff.mpr ⟨_, old⟩)
  | rooted root answered nobody => exact Or.inl ⟨root, answered, nobody⟩
  | forked fork answered alive => exact Or.inr ⟨fork, answered, alive⟩
  | @released pid code exit => exact absurd exit (registers.ne_exit pid code)

/-- The process that has the identifier `p` has forked the one that has the identifier `c`, and it
has lived ever since it was registered itself. -/
def Forked (turns : List Turn) (p c : Pid) : Prop :=
  ∃ before start between birth after, turns = before ++ start :: (between ++ birth :: after) ∧
    start.Registers p ∧ birth.request = .fork p ∧ birth.result = .ok (.forked c) ∧
    (∀ t ∈ between ++ birth :: after, t.before.table.isAlive p = true ∧ ¬ t.Registers p) ∧
    ∀ t ∈ after, ¬ t.Registers c

/-- Somebody who lives has been registered and has lived since. -/
theorem living_run (run : Session.Run service first turns last) (apart : first.state.Apart)
    (free : first.state.table.stage p = .gone) (alive : last.state.table.isAlive p = true) :
    ∃ before start between, turns = before ++ start :: between ∧ start.Registers p ∧
      ∀ t ∈ between, t.before.table.isAlive p = true := by
  obtain ⟨before, start, between, rfl, registers, alone⟩ :=
    registered_since run apart.sound free (stage_ne_gone_of_isAlive alive)
  have aparts := (apart_run run apart).1
  obtain ⟨here, next, -, -, -, rest⟩ := Turn.of_run run
  refine ⟨before, start, between, rfl, registers, ?_⟩
  refine (rest.always (fun r => r.table.isAlive p = true) (fun t member => ?_) alive).2
  exact Turn.isAlive_before (aparts t (by simp [member])).sound (alone t member)

/-- A parent is alive and has forked its child, unless the child was left to it. -/
theorem forked_of_link (run : Session.Run service first turns last) (apart : first.state.Apart)
    (empty : ∀ c, first.state.table.stage c = .gone) (leaves : ∀ t ∈ turns, t.LeavesTo top)
    (own : p ≠ top) (named : p ≠ noParent) (link : last.state.table.Link c p) :
    last.state.table.isAlive p = true ∧ Forked turns p c := by
  refine ⟨(apart_run run apart).2.attended.alive link named, ?_⟩
  obtain ⟨past, birth, after, rfl, ⟨-, -, nobody⟩ | ⟨fork, answered, alive⟩, held⟩ :=
    birth_of_link run apart (empty c) leaves own link
  · exact absurd nobody named
  have aparts := (apart_run run apart).1
  obtain ⟨here, next, front, found, -, -⟩ := Turn.of_run run
  obtain ⟨before, start, between, rfl, registers, lived⟩ :=
    living_run front apart (empty p) (found ▸ alive)
  have living : ∀ t ∈ between ++ birth :: after, t.before.table.isAlive p = true := by
    intro t member
    rcases List.mem_append.mp member with early | late
    · exact lived t early
    rcases List.mem_cons.mp late with rfl | later
    · exact alive
    · exact (aparts t (by simp [later])).attended.alive (held t later).2 named
  refine ⟨before, start, between, birth, after, by simp, registers, fork, answered, ?_,
    fun t member => (held t member).1⟩
  intro t member
  have mem : t ∈ (before ++ start :: between) ++ birth :: after := by
    rw [List.append_assoc, List.cons_append]
    exact List.mem_append_right _ (List.mem_cons_of_mem _ member)
  exact ⟨living t member, Turn.not_registers (aparts t mem).sound (living t member)⟩

/-- Without a reaper a parent that is named is alive, and it is the very process that has forked
the child, not another one under the same identifier. So only the process that forked a child can
fetch its status, and nobody can once it has exited, even if its identifier was given away again. -/
theorem parents_never_recycled (alone : config.reaper = none)
    (new : Registry.new config = .ok r₀)
    (run : Session.Run service { state := r₀ } turns last) :
    (∀ c p, last.state.table.parentOf c = some p → p ≠ noParent →
      last.state.table.isAlive p = true ∧ Forked turns p c) ∧
    (∀ past w rest p c answer, turns = past ++ w :: rest → w.request = .wait p c →
      w.result = .ok answer → w.before.table.isAlive p = true ∧ Forked past p c) ∧
    ∀ past birth life exit later w rest p c q,
      turns = past ++ birth :: (life ++ exit :: (later ++ w :: rest)) →
      birth.request = .fork p → birth.result = .ok (.forked c) → exit.Exits p →
      (∀ t ∈ life ++ exit :: later, ¬ t.Registers c) → w.request = .wait q c →
      ∀ answer, w.result ≠ .ok answer := by
  have apart : r₀.Apart := apart_new new fun reaper same => by simp [alone] at same
  have aparts := (apart_run run apart).1
  have leaves : ∀ t ∈ turns, t.LeavesTo noParent := by
    intro t member p _
    simp [heirOf, (reachable_before new run member).reaper, alone]
  have empty : ∀ c, r₀.table.stage c = .gone := fun _ => gone_new new
  refine ⟨?_, ?_, ?_⟩
  · intro c p child named
    exact forked_of_link run apart empty leaves named named child
  · rintro past w rest p c answer rfl wait answered
    obtain ⟨here, next, front, found, -, -⟩ := Turn.of_run run
    obtain ⟨status, -, -, named, child, -⟩ :=
      w.fetched (aparts w (by simp)).sound wait answered
    rw [found] at child ⊢
    exact forked_of_link front apart empty (fun t member => leaves t (by simp [member])) named
      named child
  · rintro past birth life exit later w rest p c q rfl fork forked exits quiet wait answer answered
    obtain ⟨-, start, -, -, born, lives⟩ := Turn.of_run run
    rw [← List.cons_append, ← List.append_assoc] at lives
    obtain ⟨here, -, living, found, -, -⟩ := Turn.of_run lives
    obtain ⟨status, -, -, named, child, -⟩ :=
      w.fetched (aparts w (by simp)).sound wait answered
    rcases parent_of_forked (aparts birth (by simp)) fork forked living born
      (fun t member => leaves t (by simp at member ⊢; tauto)) quiet (found ▸ child)
      with ⟨none, -⟩ | ⟨-, nobody⟩
    · exact none exit (by simp) exits
    · exact named nobody

/-- The identifier of a parent that has exited is given to another process, for which the child is
a stranger. -/
theorem parents_never_recycled_second_holder :
    ∃ root fork birth exit reap again late last, play { firstPid := 2, lastPid := 3 }
        [.call 0 (.addRoot 1), .call 1 (.fork 1), .call 2 (.fork 2), .call 3 (.exit 2 0),
          .call 4 (.wait 1 2), .call 5 (.fork 1), .call 6 (.wait 2 3)] =
            .ok ([root, fork] ++ birth :: ([] ++ exit :: ([reap, again] ++ late :: [])), last) ∧
      fork.result = .ok (.forked 2) ∧ birth.result = .ok (.forked 3) ∧
      again.result = .ok (.forked 2) ∧ late.before.table.isAlive 2 = true ∧
      Forked [root, fork, birth, exit] 1 2 ∧
      Forked [root, fork, birth, exit, reap, again, late] 1 2 ∧
      ∀ answer, late.result ≠ .ok answer := by
  have played : play { firstPid := 2, lastPid := 3 } [.call 0 (.addRoot 1), .call 1 (.fork 1),
    .call 2 (.fork 2), .call 3 (.exit 2 0), .call 4 (.wait 1 2), .call 5 (.fork 1),
    .call 6 (.wait 2 3)] = .ok ([_, _] ++ _ :: ([] ++ _ :: ([_, _] ++ _ :: [])), _) := rfl
  obtain ⟨r₀, new, run⟩ := run_of_play played
  obtain ⟨links, waits, never⟩ := parents_never_recycled rfl new run
  refine ⟨_, _, _, _, _, _, _, _, played, rfl, rfl, rfl, rfl, ?_, ?_, ?_⟩
  · exact (waits [_, _, _, _] _ [_, _] 1 2 _ rfl rfl rfl).2
  · exact (links 2 1 rfl (by decide)).2
  · exact never _ _ _ _ _ _ _ 2 3 2 rfl rfl rfl ⟨0, rfl, rfl⟩ (by decide) rfl

end ProcessLife.Registry
