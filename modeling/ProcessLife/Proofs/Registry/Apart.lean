import Mathlib.Data.FinEnum
import ProcessLife.Proofs.Registry.Forest

/-!
# A reaper apart

What goes wrong around a reaper goes wrong because it was forked: then it has a parent, and it may
be handed over to itself or to one of its descendants. If no fork can give its identifier, it can
only have been registered without a parent, and it stays without one. Then no exit breaks off, all
parents are alive, and going up from parent to parent one comes to somebody who has none. The same
holds if there is no reaper at all.
-/

namespace ProcessLife.Registry

open Relation

/-- No fork gives the identifier of the reaper, if there is one. -/
def Config.ReaperApart (config : Config) : Prop :=
  ∀ reaper, config.reaper = some reaper → ¬ (config.firstPid ≤ reaper ∧ reaper ≤ config.lastPid)

/-- What holds at all times of a registry whose reaper cannot be forked. -/
structure Apart (r : Registry) : Prop where
  sound : r.Sound
  attended : r.table.Attended none
  forest : r.table.Forest
  outside : ∀ {reaper}, r.reaper = some reaper → reaper ∉ r.pids.range
  top : ∀ {reaper parent}, r.reaper = some reaper → r.table.Link reaper parent → parent = noParent

/-- Where a link comes from that is there after a request. -/
inductive LinkSource (r : Registry) (q : Request) (result : Except Stop Answer) (c a : Pid) : Prop
  | kept (old : r.table.Link c a) (spared : ∀ code, q = .exit a code → r.table.isAlive a = false)
  | rooted (root : q = .addRoot c) (answered : result = .ok .done) (alone : a = noParent)
  | forked (fork : q = .fork a) (answered : result = .ok (.forked c))
      (alive : r.table.isAlive a = true) (drawn : c ∈ r.pids.range)
  | released {pid : Pid} {code : Int32} (exit : q = .exit pid code)
      (alive : r.table.isAlive pid = true) (child : r.table.Link c pid)
      (heir : a = (r.heirOf pid).getD noParent)

variable {config : Config} {r r₀ r' : Registry} {first last : Session Registry Request}
  {turns : List Turn} {pid c a : Pid} {q : Request} {result : Except Stop Answer}

theorem Outcome.linkSource (forest : r.table.Forest) (outcome : Outcome r q result r')
    (link : r'.table.Link c a) : LinkSource r q result c a := by
  cases outcome with
  | refused _ spared => exact .kept link fun code exit => spared a code exit
  | slept => exact .kept link (by simp)
  | exhausted => exact .kept link (by simp)
  | untracked missing =>
    apply LinkSource.kept link
    rintro code ⟨⟩
    simp [Table.isAlive, missing]
  | @registered _ _ p _ _ _ registers _ _ _ _ _ look _ origin =>
    by_cases new : c = p.pid
    · subst new
      obtain rfl : p.parent = a := by simpa [Table.Link, Table.parentOf, look] using link
      rcases registers with ⟨root, answered⟩ | ⟨parent, fork, answered⟩
      · rcases origin with ⟨-, alone⟩ | ⟨fork, -⟩
        · exact .rooted root answered alone
        · cases root.symm.trans fork
      · rcases origin with ⟨root, -⟩ | ⟨fork', alive, drawn⟩
        · cases root.symm.trans fork
        · exact .forked fork' answered alive drawn
    · exact .kept (link_of_enter look new link)
        fun code exit => absurd exit (registers.ne_exit a code)
  | rolledBack _ _ _ _ look => exact .kept (link_of_takeOut look c a link) (by simp)
  | reaped _ _ _ _ look => exact .kept (link_of_takeOut look c a link) (by simp)
  | exited found live _ _ look =>
    rcases link_of_exited look link with ⟨other, old⟩ | ⟨child, heir⟩
    · apply LinkSource.kept old
      rintro code ⟨⟩
      exact absurd rfl other
    · exact .released rfl (Table.isAlive_iff.mpr ⟨_, found, live⟩) child heir
  | brokenOff _ _ knot => exact absurd knot forest.free

theorem Sound.ne_of_isAlive (sound : r.Sound) (alive : r.table.isAlive pid = true) :
    pid ≠ noParent := by
  obtain ⟨p, found, -⟩ := Table.isAlive_iff.mp alive
  exact sound.consistent.ne_noParent found

namespace Apart

theorem ne_parent (apart : r.Apart) (link : r.table.Link c a) : c ≠ a := by
  rintro rfl
  exact apart.forest c (.single link)

/-- Nobody is above the reaper. -/
theorem reaper_descends (apart : r.Apart) (same : r.reaper = some c)
    (path : r.table.Descends c a) : a = noParent := by
  induction path with
  | single link => exact apart.top same link
  | tail _ link ih => exact absurd ih (ne_noParent_of_link apart.sound.consistent link)

theorem run_exit (apart : r.Apart) (alive : r.table.isAlive pid = true) (code : Int32) :
    ∃ t events, (exit pid code).run r =
        ⟨.ok (), { r with table := t, childExit := r.childExit.notify }, events⟩ ∧
      t.Consistent ∧ ∀ q, t.get? q = r.table.exited (r.heirOf pid) pid (.ofCode code) q := by
  obtain ⟨p, found, live⟩ := Table.isAlive_iff.mp alive
  exact apart.sound.run_exit code found live apart.forest.free

/-- Going up from parent to parent one comes to somebody who has none. -/
theorem exists_root (apart : r.Apart) (c : Pid) (present : r.table.parentOf c ≠ none) :
    ∃ root, ReflTransGen r.table.Link c root ∧ r.table.Link root noParent := by
  have irrefl : Std.Irrefl fun a b => r.table.Descends b a := ⟨apart.forest⟩
  have trans : IsTrans Pid fun a b => r.table.Descends b a := ⟨fun _ _ _ h h' => h'.trans h⟩
  have wellFounded := Finite.wellFounded_of_trans_of_irrefl fun a b => r.table.Descends b a
  induction c using wellFounded.induction with
  | _ c ih =>
    obtain ⟨a, link⟩ := Option.ne_none_iff_exists'.mp present
    by_cases orphan : a = noParent
    · exact ⟨c, .refl, orphan ▸ link⟩
    · obtain ⟨p, found, -⟩ := Table.isAlive_iff.mp (apart.attended.alive link orphan)
      obtain ⟨root, path, top⟩ := ih a (.single link) (by simp [Table.parentOf, found])
      exact ⟨root, path.head link, top⟩

end Apart

theorem Outcome.apart (apart : r.Apart) (outcome : Outcome r q result r') : r'.Apart where
  sound := outcome.sound apart.sound
  attended := outcome.attended apart.sound apart.attended fun _ _ _ knot =>
    absurd knot apart.forest.free
  forest := by
    rw [outcome.forest_iff apart.attended apart.forest]
    rintro ⟨pid, code, heir, -, alive, heirs, above⟩
    have same := (heirOf_eq_some_iff.mp heirs).1
    exact apart.sound.ne_of_isAlive alive (apart.reaper_descends same above)
  outside := by
    intro reaper same
    rw [outcome.reaper] at same
    rw [outcome.range]
    exact apart.outside same
  top := by
    intro reaper parent same link
    rw [outcome.reaper] at same
    cases outcome.linkSource apart.forest link with
    | kept old => exact apart.top same old
    | rooted _ _ alone => exact alone
    | forked _ _ _ drawn => exact absurd drawn (apart.outside same)
    | released _ alive child =>
      exact absurd (apart.top same child) (apart.sound.ne_of_isAlive alive)

theorem apart_new (new : Registry.new config = .ok r) (apart : config.ReaperApart) : r.Apart := by
  have table := (new_eq_ok new).1
  obtain ⟨first, last, -, reaper⟩ := follows_new new
  constructor
  · exact sound_new new
  · exact table ▸ attended_empty
  · exact table ▸ forest_empty
  · intro reaper' same inside
    rw [reaper] at same
    rw [PidRange.mem_iff, first, last] at inside
    exact apart reaper' same inside
  · intro reaper' parent _ link
    simp [Table.Link, Table.parentOf, table] at link

theorem apart_run (run : Session.Run service first turns last) (apart : first.state.Apart) :
    (∀ t ∈ turns, t.before.Apart) ∧ last.state.Apart :=
  run.invariant Apart apart fun (t : Turn) _ apart => (t.outcome apart.sound).apart apart

theorem Reachable.apart (h : Reachable config r) (apart : config.ReaperApart) : r.Apart := by
  obtain ⟨r₀, turns, last, new, run, rfl⟩ := h
  exact (apart_run run (apart_new new apart)).2

end ProcessLife.Registry
