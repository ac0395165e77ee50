import ProcessLife.Proofs.Registry.Parents
import ProcessLife.Proofs.Registry.Reaping

/-!
# One child and its parent

What a wait by `q` for `x` depends on is the record of `x` alone. Here is how long that record stays
as it is, when it becomes one that can be fetched, and how long it stays away once it was. A call
that sleeps has seen a live child of its own; the registry may break that off without a word to
anybody, but it does not give such a sleeper anything to fetch before the next notification.
-/

namespace ProcessLife.Registry

/-- As far as one can see, whoever waits for `x` in the name of `q` has to go on: `x` is alive, and
is a child of `q`, or of nobody by now. Or it is `q` itself, whatever became of it short of an
exit. -/
def Stands (r : Registry) (q x : Pid) : Prop :=
  x = q ∧ r.table.isZombie x = false ∨
    r.table.isAlive x = true ∧ (r.table.parentOf x = some q ∨ r.table.parentOf x = some noParent)

def Fetchable (r : Registry) (q x : Pid) : Prop :=
  ∃ p, r.table.get? x = some p ∧ p.isZombie = true ∧ p.parent = q

/-- Nobody is registered as `x`, and nobody has `x` for a parent. -/
def Vacant (r : Registry) (x : Pid) : Prop :=
  r.table.get? x = none ∧ ∀ c, r.table.parentOf c ≠ some x

variable {r r' : Registry} {q x pid c parent : Pid} {p d : Record} {t : Table}
  {request : Request} {result : Except Stop Answer} {code : Int32} {status : ExitStatus}

theorem Stands.not_zombie (stands : r.Stands q x) : r.table.isZombie x = false := by
  rcases stands with ⟨-, other⟩ | ⟨alive, -⟩
  · exact other
  · obtain ⟨p, found, live⟩ := Table.isAlive_iff.mp alive
    simp [Table.isZombie, found, Record.isZombie, live]

/-- Whether a wait has to go on is read off one record. -/
theorem Stands.congr (stands : r.Stands q x) (same : r'.table.get? x = r.table.get? x) :
    r'.Stands q x := by
  simpa only [Stands, Table.isZombie, Table.isAlive, Table.parentOf, same] using stands

/-- An exit that breaks off may orphan whom somebody waits for, or take out one that waits for
itself. -/
theorem Stands.brokenOff (sound : r.Sound) (stands : r.Stands q x)
    (found : r.table.get? pid = some p) (knot : r.table.Knotted pid)
    (look : ∀ q, t.get? q = r.table.brokenOff pid q) : { r with table := t }.Stands q x := by
  by_cases own : x = pid
  · refine Or.inl ⟨?_, by simp [Table.isZombie, look, Table.brokenOff, own]⟩
    rcases stands with ⟨self, -⟩ | ⟨-, parent⟩
    · exact self
    · rw [own, knot.1] at parent
      rcases parent with self | orphan
      · exact own.trans (Option.some.inj self)
      · exact absurd (Option.some.inj orphan) (sound.consistent.ne_noParent found)
  · rcases stands with ⟨self, other⟩ | ⟨alive, parent⟩
    · refine Or.inl ⟨self, Bool.eq_false_iff.mpr fun zombie => ?_⟩
      obtain ⟨d, s, found, dead⟩ := Table.isZombie_iff.mp zombie
      rw [look] at found
      obtain ⟨c, before, -, same, -⟩ := Table.brokenOff_eq_some found
      simp [Table.isZombie_iff.mpr ⟨c, s, before, same ▸ dead⟩] at other
    · have still := isAlive_of_brokenOff own look alive
      obtain ⟨d, found, -⟩ := Table.isAlive_iff.mp still
      refine Or.inr ⟨still, ?_⟩
      rw [Table.parentOf_of_get? found]
      rw [look] at found
      obtain ⟨c, before, -, -, ⟨-, -, orphan, -⟩ | ⟨-, same⟩⟩ := Table.brokenOff_eq_some found
      · exact Or.inr (congrArg some orphan)
      · rwa [same, ← Table.parentOf_of_get? before]

/-- Whoever has to go on waiting has to until somebody is notified. -/
theorem Outcome.stands (sound : r.Sound) (outcome : Outcome r request result r')
    (quiet : r'.childExit = r.childExit) (kept : request ≠ .rollBack x) (stands : r.Stands q x) :
    r'.Stands q x := by
  cases outcome with
  | refused | slept | exhausted | untracked => exact stands.congr rfl
  | @registered _ _ p _ _ _ _ _ free live _ _ look =>
    by_cases new : x = p.pid
    · rcases stands with ⟨self, -⟩ | ⟨alive, -⟩
      · exact Or.inl ⟨self, by simp [Table.isZombie, look, new, Record.isZombie, live]⟩
      · simp [new, Table.isAlive, free] at alive
    · exact stands.congr (by rw [look, if_neg new])
  | @rolledBack pid _ _ _ _ _ _ look =>
    have other : x ≠ pid := fun same => kept (same ▸ rfl)
    exact stands.congr (by rw [look, if_neg other])
  | @reaped pid _ _ _ found dead _ _ look =>
    have other : x ≠ pid := by
      rintro rfl
      have zombie := Table.isZombie_iff.mpr ⟨_, _, found, dead⟩
      rw [stands.not_zombie] at zombie
      cases zombie
    exact stands.congr (by rw [look, if_neg other])
  | exited => exact absurd quiet r.childExit.notify_ne
  | brokenOff found _ knot _ look => exact stands.brokenOff sound found knot look

/-- Of a child nothing changes as long as neither it nor its parent exits, its fork is not taken
back, and its parent does not wait for it. -/
theorem Outcome.get?_of_spared (outcome : Outcome r request result r')
    (found : r.table.get? c = some d) (kept : request ≠ .rollBack c)
    (stays : ∀ pid code, request = .exit pid code → pid ≠ c ∧ pid ≠ d.parent)
    (left : request ≠ .wait d.parent c) : r'.table.get? c = some d := by
  cases outcome with
  | refused | slept | exhausted | untracked => exact found
  | @registered _ _ p _ _ _ _ _ free _ _ _ look =>
    rw [look, if_neg, found]
    rintro rfl
    simp [found] at free
  | rolledBack _ _ _ _ look =>
    rw [look, if_neg, found]
    rintro rfl
    exact kept rfl
  | reaped found' _ _ _ look =>
    rw [look, if_neg, found]
    rintro rfl
    rw [found] at found'
    cases found'
    exact left rfl
  | exited _ _ _ _ look =>
    obtain ⟨other, upper⟩ := stays _ _ rfl
    rw [look, Table.exited_of_ne found other.symm, if_neg upper.symm]
  | brokenOff _ _ _ _ look =>
    obtain ⟨other, upper⟩ := stays _ _ rfl
    simp [look, Table.brokenOff, found, other.symm, upper.symm]

theorem Outcome.of_asleep (outcome : Outcome r (.wait parent c) (.error .asleep) r') :
    ∃ d, r.table.get? c = some d ∧ d.status = none ∧ d.parent = parent := by
  cases outcome with
  | refused awake => exact absurd rfl awake
  | slept found live => exact ⟨_, found, live, rfl⟩

theorem Outcome.forks {answer : Answer} (outcome : Outcome r (.fork parent) (.ok answer) r')
    (registers : (Request.fork parent).Registers (.ok answer) c) :
    c ∈ r.pids.range ∧ r.table.isAlive parent = true ∧ r.table.get? c = none ∧
      r'.table.get? c = some ⟨c, parent, none⟩ ∧ r'.childExit = r.childExit := by
  cases outcome with
  | @registered _ _ p _ _ _ registers' _ free live _ _ look _ origin =>
    obtain rfl := registers.unique registers'
    rcases origin with ⟨root, -⟩ | ⟨fork, alive, drawn⟩
    · cases root
    · cases fork
      obtain ⟨pid, parent, status⟩ := p
      cases live
      exact ⟨drawn, alive, free, by rw [look, if_pos rfl], rfl⟩

/-- A child that exits stays for its parent, everybody is notified, and of those who wait the parent
is the only one that has something to fetch now. -/
theorem Outcome.child_exits (outcome : Outcome r (.exit c code) result r')
    (found : r.table.get? c = some d) (live : d.status = none) (owned : d.parent ≠ noParent)
    (other : d.parent ≠ c) :
    result = .ok .done ∧ r'.childExit = r.childExit.notify ∧
      r'.table.get? c = some { d with status := some (.ofCode code) } ∧
      ∀ q x, r.Stands q x → r'.Fetchable q x → q = d.parent ∧ x = c := by
  cases outcome with
  | refused _ spared =>
    have dead := spared c code rfl
    simp [Table.isAlive_iff.mpr ⟨d, found, live⟩] at dead
  | untracked missing => simp [found] at missing
  | registered _ registers => simp [Request.Registers] at registers
  | brokenOff _ _ knot =>
    have own := knot.1
    rw [Table.parentOf_of_get? found] at own
    exact absurd (Option.some.inj own) other
  | @exited _ _ _ t _ _ _ _ look =>
    have zombie : t.get? c = some { d with status := some (.ofCode code) } := by
      simp [look, Table.exited, found, owned, other]
    refine ⟨rfl, rfl, zombie, fun q x stands fetchable => ?_⟩
    obtain ⟨p, present, dead, parent⟩ := fetchable
    by_cases own : x = c
    · subst own
      rw [show t.get? x = _ from zombie] at present
      cases present
      exact ⟨parent.symm, rfl⟩
    · rw [show t.get? x = _ from look x] at present
      obtain ⟨p', before, same, -⟩ := Table.exited_eq_some present
      rw [if_neg own] at same
      have other := stands.not_zombie
      simp [Table.isZombie, before, Record.isZombie, ← same] at other
      simp [Record.isZombie, other] at dead

/-- A wait that is answered takes out the zombie it names, and nobody has it for a parent. -/
theorem Outcome.fetches (sound : r.Sound)
    (outcome : Outcome r (.wait parent c) (.ok (.reaped status)) r') :
    (∃ d, r.table.get? c = some d ∧ d.status = some status ∧ d.parent = parent) ∧
      r'.childExit = r.childExit ∧ r'.Vacant c ∧
      ∀ q x, r'.Fetchable q x → x ≠ c ∧ r.Fetchable q x := by
  cases outcome with
  | registered _ registers => simp [Request.Registers] at registers
  | @reaped _ p _ t found dead owned consistent look =>
    refine ⟨⟨p, found, dead, rfl⟩, rfl, ⟨?_, fun x child => ?_⟩, fun q x fetchable => ?_⟩
    · simp [look]
    · have zombie : p.isZombie = true := by simp [Record.isZombie, dead]
      apply sound.childless found zombie x
      rw [Table.parentOf, look] at child
      split at child
      · cases child
      · exact child
    · obtain ⟨d, present, dead, parent⟩ := fetchable
      rw [show t.get? x = _ from look x] at present
      split at present
      · cases present
      · exact ⟨‹_›, d, present, dead, parent⟩

/-- An identifier that nobody has and nobody names as a parent stays so until it is given out. -/
theorem Outcome.vacant (outcome : Outcome r request result r') (vacant : r.Vacant c)
    (named : c ≠ noParent) : r'.Vacant c ∨ ∃ answer, result = .ok answer ∧
      request.Registers (.ok answer) c := by
  obtain ⟨free, childless⟩ := vacant
  have dead : r.table.isAlive c = false := by simp [Table.isAlive, free]
  have fewer {t : Table} {pid : Pid}
      (look : ∀ q, t.get? q = if q = pid then none else r.table.get? q) :
      t.get? c = none ∧ ∀ x, t.parentOf x ≠ some c := by
    refine ⟨by rw [look, free, ite_self], fun x child => childless x ?_⟩
    rw [Table.parentOf, look] at child
    split at child
    · cases child
    · exact child
  cases outcome with
  | refused | slept | exhausted | untracked => exact Or.inl ⟨free, childless⟩
  | @registered _ _ p _ _ _ registers _ _ _ parent _ look =>
    by_cases own : c = p.pid
    · exact Or.inr ⟨_, rfl, own ▸ registers⟩
    refine Or.inl ⟨by rw [look, if_neg own, free], fun x child => ?_⟩
    rw [Table.parentOf, look] at child
    split at child
    · obtain rfl : p.parent = c := by simpa using child
      rcases parent with orphan | alive
      · exact named orphan
      · simp [dead] at alive
    · exact childless x child
  | rolledBack _ _ _ _ look => exact Or.inl (fewer look)
  | reaped _ _ _ _ look => exact Or.inl (fewer look)
  | @exited pid _ _ _ _ _ _ _ look =>
    refine Or.inl ⟨by simp [look, Table.exited, free], fun x child => ?_⟩
    obtain ⟨s, present, parent⟩ := Table.get?_of_parentOf child
    rw [look] at present
    obtain ⟨s', before, -, ⟨-, moved, -⟩ | ⟨-, moved, -⟩⟩ := Table.exited_eq_some present
    · cases heir : r.heirOf pid with
      | none => exact named (by rw [← parent, moved, heir, Option.getD_none])
      | some reaper =>
        obtain ⟨-, -, alive⟩ := heirOf_eq_some_iff.mp heir
        obtain rfl : reaper = c := by rw [← parent, moved, heir, Option.getD_some]
        simp [dead] at alive
    · exact childless x (by rw [Table.parentOf_of_get? before, ← moved, parent])
  | brokenOff _ _ _ _ look =>
    refine Or.inl ⟨by simp [look, Table.brokenOff, free], fun x child => ?_⟩
    obtain ⟨s, present, parent⟩ := Table.get?_of_parentOf child
    rw [look] at present
    obtain ⟨s', before, -, -, ⟨-, -, orphan, -⟩ | ⟨-, moved⟩⟩ := Table.brokenOff_eq_some present
    · exact named (by rw [← parent, orphan])
    · exact childless x (by rw [Table.parentOf_of_get? before, ← moved, parent])

end ProcessLife.Registry
