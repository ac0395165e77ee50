import Mathlib.Logic.Relation
import ProcessLife.Proofs.Registry.Parents

/-!
# Lineage

A process descends from its parent, and from whomever that one descends from. Processes are
expected to form a forest, in which nobody descends from itself. A fork keeps it that way. So does
an exit that leaves the children to themselves, for links only get lost. But an exit that hands
them to the reaper closes a cycle if the reaper is among the descendants, and it is the only thing
that does. Once there are cycles, all of them go through the reaper.
-/

namespace ProcessLife

open Relation

def Table.Link (t : Table) (c p : Pid) : Prop :=
  t.parentOf c = some p

/-- Following the parents from `c` one comes to `a`. -/
abbrev Table.Descends (t : Table) : Pid → Pid → Prop :=
  TransGen t.Link

/-- Nobody descends from itself. -/
def Table.Forest (t : Table) : Prop :=
  ∀ pid, ¬ t.Descends pid pid

/-- The parent of `c` is `p`, and `c` is not the one whose link is left out. -/
def Table.LinkBelow (t : Table) (top : Option Pid) (c p : Pid) : Prop :=
  t.Link c p ∧ top ≠ some c

theorem Table.Forest.mono {t u : Table} (forest : t.Forest)
    (fewer : ∀ c p, u.Link c p → t.Link c p) : u.Forest :=
  fun pid cycle => forest pid (TransGen.mono fewer _ _ cycle)

theorem Table.Forest.free {t : Table} (forest : t.Forest) {pid : Pid} : ¬ t.Knotted pid :=
  fun knot => forest pid (.single knot.1)

section acyclic

variable {R S : Pid → Pid → Prop}

/-- Nothing goes round through a leaf, which nobody links to. -/
theorem acyclic_leaf {leaf : Pid} (acyclic : ∀ a, ¬ TransGen R a a)
    (old : ∀ {c a}, c ≠ leaf → S c a → R c a) (barren : ∀ {c a}, S c a → a ≠ leaf) (a : Pid) :
    ¬ TransGen S a a := by
  have path {c a} (other : c ≠ leaf) (path : TransGen S c a) : TransGen R c a := by
    induction path with
    | single link => exact .single (old other link)
    | tail path link ih =>
      obtain ⟨b, -, above⟩ := TransGen.tail'_iff.mp path
      exact ih.tail (old (barren above) link)
  intro cycle
  obtain ⟨b, -, above⟩ := TransGen.tail'_iff.mp cycle
  exact acyclic a (path (barren above) cycle)

/-- Nothing goes round through those who link to nobody. -/
theorem acyclic_sink (sink : Pid → Prop) (acyclic : ∀ a, ¬ TransGen R a a)
    (old : ∀ {c a}, S c a → R c a ∨ sink a) (dry : ∀ {c a}, S c a → ¬ sink c) (a : Pid) :
    ¬ TransGen S a a := by
  have path {c a} (wet : ¬ sink a) (path : TransGen S c a) : TransGen R c a := by
    induction path with
    | single link => exact .single ((old link).resolve_right wet)
    | tail path link ih => exact (ih (dry link)).tail ((old link).resolve_right wet)
  intro cycle
  obtain ⟨b, link, -⟩ := TransGen.head'_iff.mp cycle
  exact acyclic a (path (dry link) cycle)

end acyclic

namespace Registry

variable {config : Config} {r r₀ r' : Registry} {first last : Session Registry Request}
  {turns : List Turn} {t : Table} {pid heir a c : Pid} {missing : Option Pid} {p : Record}
  {status : ExitStatus} {q : Request} {result : Except Stop Answer}

theorem forest_empty : Table.empty.Forest := by
  intro pid cycle
  obtain ⟨p, child, -⟩ := TransGen.head'_iff.mp cycle
  simp [Table.Link, Table.parentOf] at child

theorem link_of_takeOut (look : ∀ q, t.get? q = if q = pid then none else r.table.get? q)
    (c a : Pid) (link : t.Link c a) : r.table.Link c a := by
  obtain ⟨s, found, parent⟩ := Table.get?_of_parentOf link
  rw [look] at found
  split at found
  · cases found
  · exact parent ▸ Table.parentOf_of_get? found

theorem link_of_enter (look : ∀ q, t.get? q = if q = p.pid then some p else r.table.get? q)
    (other : c ≠ p.pid) (link : t.Link c a) : r.table.Link c a := by
  simpa [Table.Link, Table.parentOf, look, other] using link

/-- A new process is nobody's parent, unless it takes the place of a missing one. -/
theorem ne_of_link_enter (attended : r.table.Attended missing) (named : p.pid ≠ noParent)
    (free : r.table.get? p.pid = none)
    (parent : p.parent = noParent ∨ r.table.isAlive p.parent = true)
    (look : ∀ q, t.get? q = if q = p.pid then some p else r.table.get? q)
    (known : missing ≠ some p.pid) (link : t.Link c a) : a ≠ p.pid := by
  rintro rfl
  have dead : ¬ r.table.isAlive p.pid = true := by simp [Table.isAlive, free]
  by_cases new : c = p.pid
  · have same : p.parent = p.pid := by simpa [Table.Link, Table.parentOf, look, new] using link
    rw [same] at parent
    exact parent.elim named dead
  · rcases attended c p.pid (link_of_enter look new link) with orphan | alive | gone
    · exact named orphan
    · exact dead alive
    · exact known gone

theorem ne_noParent_of_link (consistent : t.Consistent) (link : t.Link c a) : c ≠ noParent := by
  obtain ⟨s, found, -⟩ := Table.get?_of_parentOf link
  exact consistent.ne_noParent found

/-- The links after an exit are old ones, or lead from a child to the heir, or to nobody. -/
theorem link_of_exited (look : ∀ q, t.get? q = r.table.exited (r.heirOf pid) pid status q)
    (link : t.Link c a) :
    a ≠ pid ∧ r.table.Link c a ∨ r.table.Link c pid ∧ a = (r.heirOf pid).getD noParent := by
  obtain ⟨p, found, parent⟩ := Table.get?_of_parentOf link
  rw [look] at found
  obtain ⟨p₀, before, -, ⟨child, moved, -⟩ | ⟨other, kept, -⟩⟩ := Table.exited_eq_some found
  · exact Or.inr ⟨child ▸ Table.parentOf_of_get? before, parent.symm.trans moved⟩
  · have same : p₀.parent = a := kept.symm.trans parent
    exact Or.inl ⟨same ▸ other, same ▸ Table.parentOf_of_get? before⟩

/-- If the children are left to themselves, nobody gains an ancestor. -/
theorem forest_exit_alone (forest : r.table.Forest) (consistent : t.Consistent)
    (heir : r.heirOf pid = none)
    (look : ∀ q, t.get? q = r.table.exited (r.heirOf pid) pid status q) : t.Forest := by
  refine acyclic_sink (· = noParent) forest ?_ (ne_noParent_of_link consistent)
  intro c a link
  rcases link_of_exited look link with ⟨-, old⟩ | ⟨-, orphan⟩
  · exact Or.inl old
  · exact Or.inr (by simpa [heir] using orphan)

/-- A path to an ancestor that uses a new link goes through the heir. -/
theorem descends_of_exited (heirs : r.heirOf pid = some heir)
    (look : ∀ q, t.get? q = r.table.exited (r.heirOf pid) pid status q)
    (path : t.Descends c a) :
    r.table.Descends c a ∨ t.Descends c heir ∧ ReflTransGen t.Link heir a := by
  induction path with
  | single link =>
    rcases link_of_exited look link with ⟨-, old⟩ | ⟨-, new⟩
    · exact Or.inl (.single old)
    · have same := by simpa [heirs] using new
      exact Or.inr ⟨same ▸ .single link, same ▸ .refl⟩
  | tail path link ih =>
    rcases link_of_exited look link with ⟨-, old⟩ | ⟨-, new⟩
    · rcases ih with above | ⟨before, behind⟩
      · exact Or.inl (above.tail old)
      · exact Or.inr ⟨before, behind.tail link⟩
    · have same := by simpa [heirs] using new
      exact Or.inr ⟨same ▸ path.tail link, same ▸ .refl⟩

/-- The heir does not gain an ancestor as long as it does not descend from the process. -/
theorem descends_heir_of_exited
    (look : ∀ q, t.get? q = r.table.exited (r.heirOf pid) pid status q)
    (apart : ¬ r.table.Descends heir pid) (path : t.Descends heir a) :
    r.table.Descends heir a := by
  induction path with
  | single link =>
    rcases link_of_exited look link with ⟨-, old⟩ | ⟨child, -⟩
    · exact .single old
    · exact absurd (.single child) apart
  | tail _ link ih =>
    rcases link_of_exited look link with ⟨-, old⟩ | ⟨child, -⟩
    · exact ih.tail old
    · exact absurd (ih.tail child) apart

/-- The way up from the heir to a child of the process is still there, for it does not touch the
process itself. -/
theorem climb_exited (forest : r.table.Forest)
    (look : ∀ q, t.get? q = r.table.exited (r.heirOf pid) pid status q)
    (child : r.table.Link c pid) (path : ReflTransGen r.table.Link a c) :
    ReflTransGen t.Link a c := by
  induction path using ReflTransGen.head_induction_on with
  | refl => exact .refl
  | @head b d link path ih =>
    have up : r.table.Descends d pid := TransGen.tail' path child
    have below : b ≠ pid := by
      rintro rfl
      exact forest b (up.head link)
    have other : d ≠ pid := by
      rintro rfl
      exact forest d up
    obtain ⟨s, found, parent⟩ := Table.get?_of_parentOf link
    have kept := look b
    rw [Table.exited_of_ne found below, parent, if_neg other] at kept
    exact ih.head (parent ▸ Table.parentOf_of_get? kept)

/-- Handing the children to an heir keeps the forest exactly if the heir does not descend from the
process. -/
theorem forest_exit_iff (forest : r.table.Forest) (heirs : r.heirOf pid = some heir)
    (look : ∀ q, t.get? q = r.table.exited (r.heirOf pid) pid status q) :
    t.Forest ↔ ¬ r.table.Descends heir pid := by
  constructor
  · intro after above
    obtain ⟨c, path, child⟩ := TransGen.tail'_iff.mp above
    obtain ⟨s, found, parent⟩ := Table.get?_of_parentOf child
    have ne : c ≠ pid := by
      rintro rfl
      exact forest c (.single child)
    have moved := look c
    rw [Table.exited_of_ne found ne, parent, if_pos rfl, heirs] at moved
    have link : t.Link c heir := Table.parentOf_of_get? moved
    exact after heir (TransGen.tail' (climb_exited forest look child path) link)
  · intro apart a cycle
    rcases descends_of_exited heirs look cycle with old | ⟨before, behind⟩
    · exact forest a old
    · have around : t.Descends heir heir := TransGen.trans_right behind before
      exact forest heir (descends_heir_of_exited look apart around)

/-- The request is an exit that hands the children to one of the descendants. -/
def Entangles (r : Registry) (q : Request) : Prop :=
  ∃ pid code heir, q = .exit pid code ∧ r.table.isAlive pid = true ∧ r.heirOf pid = some heir ∧
    r.table.Descends heir pid

/-- A forest stays one under every request but those that entangle. -/
theorem Outcome.forest_iff (attended : r.table.Attended none) (forest : r.table.Forest)
    (outcome : Outcome r q result r') : r'.table.Forest ↔ ¬ r.Entangles q := by
  have rest (kept : r'.table.Forest)
      (other : ∀ pid code heir, q = .exit pid code → r.table.isAlive pid = true →
        r.heirOf pid ≠ some heir) : r'.table.Forest ↔ ¬ r.Entangles q := by
    refine iff_of_true kept ?_
    rintro ⟨pid, code, heir, exit, alive, heirs, -⟩
    exact other pid code heir exit alive heirs
  cases outcome with
  | refused _ spared =>
    refine rest forest fun pid code _ exit alive _ => ?_
    simp [spared pid code exit] at alive
  | slept => exact rest forest (by simp)
  | untracked missing =>
    refine rest forest fun pid code heir exit alive _ => ?_
    cases exit
    simp [Table.isAlive, missing] at alive
  | exhausted => exact rest forest (by simp)
  | rolledBack _ _ _ _ look => exact rest (forest.mono (link_of_takeOut look)) (by simp)
  | reaped _ _ _ _ look => exact rest (forest.mono (link_of_takeOut look)) (by simp)
  | registered _ registers named free _ parent _ look =>
    refine rest ?_ fun pid code _ exit => absurd exit (registers.ne_exit pid code)
    exact acyclic_leaf forest (link_of_enter look)
      (ne_of_link_enter attended named free parent look (by simp))
  | @exited pid code _ _ found live _ consistent look =>
    cases heirs : r.heirOf pid with
    | none =>
      refine rest (forest_exit_alone forest consistent heirs look) ?_
      rintro _ _ heir ⟨⟩ - some
      simp [heirs] at some
    | some heir =>
      rw [forest_exit_iff forest heirs look, not_iff_not]
      constructor
      · have alive := Table.isAlive_iff.mpr ⟨_, found, live⟩
        exact fun above => ⟨pid, code, heir, rfl, alive, heirs, above⟩
      · rintro ⟨_, _, heir', ⟨⟩, -, same, above⟩
        rw [heirs, Option.some.injEq] at same
        exact same ▸ above
  | brokenOff _ _ knot => exact absurd knot forest.free

/-- From a forest on, a run goes through forests as long as nothing entangles, and no longer. -/
theorem forest_run_iff (run : Session.Run service first turns last) (sound : first.state.Sound)
    (attended : first.state.table.Attended none) (forest : first.state.table.Forest) :
    (∀ t ∈ turns, t.after.table.Forest) ↔ ∀ t ∈ turns, ¬ t.before.Entangles t.request := by
  induction run with
  | stay => simp
  | @move first next last m turn turns moved _ ih =>
    obtain ⟨found, left⟩ := Turn.of_move moved
    rw [← found] at sound attended forest
    have outcome := Turn.outcome turn sound
    have step := outcome.forest_iff attended forest
    rw [List.forall_mem_cons, List.forall_mem_cons, step]
    refine and_congr_right fun calm => ih ?_ ?_ ?_
    · exact left ▸ outcome.sound sound
    · exact left ▸ outcome.attended sound attended fun _ _ _ knot => absurd knot forest.free
    · exact left ▸ step.mpr calm

/-- The processes form a forest throughout a run if and only if no process exits while the reaper
is among its descendants. -/
theorem forest_iff_no_entangling_exit (new : Registry.new config = .ok r₀)
    (run : Session.Run service { state := r₀ } turns last) :
    (∀ t ∈ turns, t.after.table.Forest) ↔
      ∀ t ∈ turns, ∀ pid code heir, t.request = .exit pid code →
        t.before.table.isAlive pid = true → t.before.heirOf pid = some heir →
        ¬ t.before.table.Descends heir pid := by
  have table := (new_eq_ok new).1
  rw [forest_run_iff run (sound_new new) (table ▸ attended_empty) (table ▸ forest_empty)]
  refine forall₂_congr fun t _ => ?_
  constructor
  · exact fun free pid code heir exit alive heirs above =>
      free ⟨pid, code, heir, exit, alive, heirs, above⟩
  · rintro free ⟨pid, code, heir, exit, alive, heirs, above⟩
    exact free pid code heir exit alive heirs above

/-- The reaper is the grandchild of the process that exits: it becomes the parent of its parent. -/
theorem not_forest_reaper_grandchild :
    ∃ root fork₁ fork₂ exit last, play { reaper := some 3 } [.call 0 (.addRoot 1),
        .call 1 (.fork 1), .call 2 (.fork 2), .call 3 (.exit 1 0)] =
          .ok ([root, fork₁, fork₂, exit], last) ∧
      last.state.table.parentOf 2 = some 3 ∧ last.state.table.parentOf 3 = some 2 ∧
      ¬ ∀ t ∈ [root, fork₁, fork₂, exit], t.after.table.Forest := by
  have played : play { reaper := some 3 } [.call 0 (.addRoot 1), .call 1 (.fork 1),
    .call 2 (.fork 2), .call 3 (.exit 1 0)] = .ok ([_, _, _, _], _) := rfl
  obtain ⟨r₀, new, run⟩ := run_of_play played
  refine ⟨_, _, _, _, _, played, rfl, rfl, ?_⟩
  rw [forest_iff_no_entangling_exit new run]
  intro free
  exact free _ (.tail _ (.tail _ (.tail _ (.head _)))) 1 0 3 rfl rfl rfl (.tail (.single rfl) rfl)

section reaper

structure Moored (r : Registry) : Prop where
  attended : r.table.Attended r.reaper
  acyclic : ∀ a, ¬ TransGen (r.table.LinkBelow r.reaper) a a

theorem moored_new (new : Registry.new config = .ok r) : r.Moored := by
  have table := (new_eq_ok new).1
  refine ⟨table ▸ attended_empty, fun a cycle => ?_⟩
  exact forest_empty a (TransGen.mono (fun c p link => table ▸ link.1) _ _ cycle)

/-- Whatever comes of a request, it closes no cycle that avoids the reaper. -/
theorem Outcome.acyclic_below (attended : r.table.Attended r.reaper)
    (acyclic : ∀ a, ¬ TransGen (r.table.LinkBelow r.reaper) a a)
    (outcome : Outcome r q result r') :
    ∀ a, ¬ TransGen (r'.table.LinkBelow r.reaper) a a := by
  have fewer {t : Table} (old : ∀ c p, t.LinkBelow r.reaper c p → r.table.Link c p) (a) :
      ¬ TransGen (t.LinkBelow r.reaper) a a :=
    fun cycle => acyclic a (TransGen.mono (fun c p link => ⟨old c p link, link.2⟩) _ _ cycle)
  have drained {t : Table} (consistent : t.Consistent)
      (old : ∀ c p, t.Link c p → r.table.Link c p ∨ p = noParent ∨ r.reaper = some p) :
      ∀ a, ¬ TransGen (t.LinkBelow r.reaper) a a := by
    refine acyclic_sink (fun p => p = noParent ∨ r.reaper = some p) acyclic ?_ ?_
    · intro c p link
      exact (old c p link.1).imp_left fun old => ⟨old, link.2⟩
    · rintro c p link (nobody | top)
      · exact ne_noParent_of_link consistent link.1 nobody
      · exact link.2 top
  cases outcome with
  | refused => exact acyclic
  | slept => exact acyclic
  | untracked => exact acyclic
  | exhausted => exact acyclic
  | rolledBack _ _ _ _ look => exact fewer fun c p link => link_of_takeOut look c p link.1
  | reaped _ _ _ _ look => exact fewer fun c p link => link_of_takeOut look c p link.1
  | @registered _ _ p _ _ _ _ named free _ parent _ look =>
    by_cases known : r.reaper = some p.pid
    · refine fewer fun c a link => link_of_enter look ?_ link.1
      rintro rfl
      exact link.2 known
    · exact acyclic_leaf acyclic (fun other link => ⟨link_of_enter look other link.1, link.2⟩)
        fun link => ne_of_link_enter attended named free parent look known link.1
  | @exited pid _ _ _ _ _ _ consistent look =>
    refine drained consistent fun c p link => ?_
    rcases link_of_exited look link with ⟨-, old⟩ | ⟨-, moved⟩
    · exact Or.inl old
    · cases heirs : r.heirOf pid with
      | none => exact Or.inr (Or.inl (by simpa [heirs] using moved))
      | some heir =>
        have same : p = heir := by simpa [heirs] using moved
        exact Or.inr (Or.inr (same ▸ (heirOf_eq_some_iff.mp heirs).1))
  | brokenOff _ _ _ consistent look =>
    refine drained consistent fun c p link => ?_
    obtain ⟨s, found, parent⟩ := Table.get?_of_parentOf link
    rw [look] at found
    obtain ⟨s₀, before, -, -, ⟨-, -, orphan, -⟩ | ⟨-, kept⟩⟩ := Table.brokenOff_eq_some found
    · exact Or.inr (Or.inl (parent.symm.trans orphan))
    · exact Or.inl (parent ▸ kept ▸ Table.parentOf_of_get? before)

theorem Outcome.moored (sound : r.Sound) (moored : r.Moored) (outcome : Outcome r q result r') :
    r'.Moored := by
  refine ⟨outcome.reaper ▸ outcome.attended sound moored.attended ?_,
    outcome.reaper ▸ outcome.acyclic_below moored.attended moored.acyclic⟩
  exact fun pid _ _ knot => sound.ownParent knot.1

/-- A way up either keeps below the reaper or leads past it. -/
theorem climb_below {top : Option Pid} (path : t.Descends c a) :
    TransGen (t.LinkBelow top) c a ∨
      ∃ reaper, top = some reaper ∧ ReflTransGen t.Link c reaper ∧ t.Descends reaper a := by
  induction path using TransGen.head_induction_on with
  | @single c link =>
    by_cases same : top = some c
    · exact Or.inr ⟨c, same, .refl, .single link⟩
    · exact Or.inl (.single ⟨link, same⟩)
  | @head c b link path ih =>
    by_cases same : top = some c
    · exact Or.inr ⟨c, same, .refl, path.head link⟩
    rcases ih with below | ⟨reaper, same, up, above⟩
    · exact Or.inl (below.head ⟨link, same⟩)
    · exact Or.inr ⟨reaper, same, up.head link, above⟩

/-- In whatever state, a process descends from itself only if it does so by way of the reaper. -/
theorem Reachable.reaper_of_cycle (h : Reachable config r) (cycle : r.table.Descends a a) :
    ∃ reaper, config.reaper = some reaper ∧ ReflTransGen r.table.Link a reaper ∧
      r.table.Descends reaper a := by
  rw [← h.reaper]
  refine (climb_below cycle).resolve_left ?_
  obtain ⟨r₀, turns, last, new, run, rfl⟩ := h
  refine (run.invariant (fun r : Registry => r.Sound ∧ r.Moored) ⟨sound_new new, moored_new new⟩
    ?_).2.2.acyclic a
  rintro (t : Turn) - ⟨sound, moored⟩
  exact ⟨(t.outcome sound).sound sound, (t.outcome sound).moored sound moored⟩

/-- Without a reaper the processes form a forest at all times. -/
theorem Reachable.forest (h : Reachable config r) (alone : config.reaper = none) :
    r.table.Forest := by
  intro a cycle
  obtain ⟨reaper, same, -⟩ := h.reaper_of_cycle cycle
  simp [alone] at same

end reaper

end Registry
end ProcessLife
