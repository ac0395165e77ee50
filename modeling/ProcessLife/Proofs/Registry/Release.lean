import ProcessLife.Proofs.Table.Consistency
import ProcessLife.Registry.Basic
import Mathlib.Data.List.Sort

/-!
# Letting the children go

The children of an exiting process are let go one at a time, and each time the index is rewritten.
What comes of it can be said at once: `Record.released` gives the fate of a single record, and the
whole list meets that fate together, as long as no zombie that is reclaimed has children of its
own. Going through the list is the same as asking for the least child over and over, until there is
none: `empties_of_run`.
-/

namespace ProcessLife

/-- What is left of the record of a child that is let go; nothing of one that is reclaimed. -/
def Record.released (heir : Option Pid) (p : Record) : Option Record :=
  match heir with
  | some reaper => some { p with parent := reaper }
  | none => if p.isZombie then none else some { p with parent := noParent }

namespace Registry

open Operation

variable {t u : Table} {heir : Option Pid} {children others : List Pid} {child pid : Pid}

structure Releasable (t : Table) (heir : Option Pid) (children : List Pid) : Prop where
  consistent : t.Consistent
  alive : ∀ reaper, heir = some reaper → t.isAlive reaper = true
  registered : ∀ c ∈ children, ∃ p, t.get? c = some p
  childless : heir = none → ∀ c ∈ children, t.isZombie c = true → ∀ d, t.parentOf d ≠ some c
  nodup : children.Nodup

def Released (heir : Option Pid) (children : List Pid) (t u : Table) : Prop :=
  ∀ q, u.get? q = if q ∈ children then (t.get? q).bind (Record.released heir) else t.get? q

theorem status_released {p q : Record} (h : p.released heir = some q) : q.status = p.status := by
  unfold Record.released at h
  split at h
  · cases h
    rfl
  · split at h <;> cases h
    rfl

theorem parent_released {p q : Record} (h : p.released heir = some q) :
    q.parent = heir.getD noParent := by
  unfold Record.released at h
  split at h
  · cases h
    rfl
  · split at h <;> cases h
    rfl

theorem live_of_released {p q : Record} (h : p.released none = some q) : p.status = none := by
  simp only [Record.released] at h
  split at h
  · cases h
  · rename_i live
    simpa [Record.isZombie] using live

theorem parent_ne_of_released {p q : Record} (named : pid ≠ noParent) (other : heir ≠ some pid)
    (h : (if p.parent = pid then p.released heir else some p) = some q) : q.parent ≠ pid := by
  split at h
  · rw [parent_released h]
    cases heir with
    | none => exact named.symm
    | some reaper => exact fun same => other (congrArg some same)
  · cases h
    assumption

/-- The tail can still be let go after the head: the head was the only record that changed, and it
is nobody's child any more unless it is the heir's. -/
theorem Releasable.tail (ready : Releasable t heir (child :: others)) (consistent : u.Consistent)
    (done : Released heir [child] t u) : Releasable u heir others := by
  obtain ⟨fresh, nodup⟩ := List.nodup_cons.mp ready.nodup
  have same : ∀ c ∈ others, u.get? c = t.get? c := by
    intro c hc
    rw [done, if_neg]
    rw [List.mem_singleton]
    rintro rfl
    exact fresh hc
  refine ⟨consistent, ?_, ?_, ?_, nodup⟩
  · intro reaper hr
    obtain ⟨p, found, live⟩ := Table.isAlive_iff.mp (ready.alive reaper hr)
    rw [Table.isAlive_iff, done]
    split
    · exact ⟨{ p with parent := reaper }, by simp [found, hr, Record.released], live⟩
    · exact ⟨p, found, live⟩
  · intro c hc
    rw [same c hc]
    exact ready.registered c (List.mem_cons_of_mem _ hc)
  · intro none c hc zombie d hd
    have zombie' : t.isZombie c = true := by simpa [Table.isZombie, same c hc] using zombie
    obtain ⟨q, found, parent⟩ := Table.get?_of_parentOf hd
    rw [done] at found
    split at found
    · obtain ⟨p, hp, hq⟩ := Option.bind_eq_some_iff.mp found
      obtain ⟨r, hr⟩ := ready.registered c (List.mem_cons_of_mem _ hc)
      refine ready.consistent.ne_noParent hr (parent.symm.trans ?_)
      rw [parent_released hq, none, Option.getD_none]
    · exact ready.childless none c (List.mem_cons_of_mem _ hc) zombie' d
        (parent ▸ Table.parentOf_of_get? found)

/-- A child that is reclaimed although it has children of its own is gone all the same. -/
theorem run_releaseChild (heir : Option Pid) (consistent : t.Consistent) {p : Record}
    (found : t.get? child = some p) :
    ∃ result u events, (releaseChild heir child).run t = ⟨result, u, events⟩ ∧ u.Consistent ∧
      Released heir [child] t u ∧
      ((heir = none → t.isZombie child = true → ∀ c, t.parentOf c = some child → c = child) →
        result = .ok ()) ∧
      (heir = none → t.isZombie child = true → (∃ c, t.parentOf c = some child ∧ c ≠ child) →
        result = .error (.broken (.stillHasChildren child))) := by
  cases heir with
  | some reaper =>
    have done : t.reparent child reaper = .ok _ := Table.reparent_of_some found
    refine ⟨_, _, [.handedOver child reaper], ?_, consistent.reparent done, ?_, fun _ => rfl,
      by simp⟩
    · simp [releaseChild, run_update_ok done]
    · intro q
      rw [Table.get?_reparent done, found]
      by_cases hq : q = child
      · subst hq
        simp [found, Record.released]
      · simp [hq]
  | none =>
    by_cases zombie : t.isZombie child = true
    · have gone : Released none [child] t (t.remove child).2 := by
        intro q
        rw [Table.get?_remove]
        by_cases hq : q = child
        · subst hq
          have : p.isZombie = true := by simpa [Table.isZombie, found] using zombie
          simp [found, Record.released, this]
        · simp [hq]
      by_cases childless : ∀ c, t.parentOf c = some child → c = child
      · have out := consistent.remove_eq found childless
        refine ⟨_, (t.remove child).2, [.reclaimedWithParent child], ?_, consistent.remove, gone,
          fun _ => rfl, ?_⟩
        · simp [releaseChild, zombie, run_transition_ok out]
        · rintro - - ⟨c, hc, other⟩
          exact absurd (childless c hc) other
      · obtain ⟨c, hc⟩ := Classical.not_forall.mp childless
        obtain ⟨hc, other⟩ := Classical.not_imp.mp hc
        have out := consistent.remove_eq_error found hc other
        refine ⟨_, (t.remove child).2, [], ?_, consistent.remove, gone,
          fun h => absurd (h rfl zombie) childless, fun _ _ _ => rfl⟩
        simp [releaseChild, zombie, run_transition_error out]
    · have done : t.reparent child noParent = .ok _ := Table.reparent_of_some found
      refine ⟨_, _, [.orphaned child], ?_, consistent.reparent done, ?_, fun _ => rfl,
        fun _ h => absurd h zombie⟩
      · simp [releaseChild, zombie, run_update_ok done]
      · intro q
        rw [Table.get?_reparent done, found]
        by_cases hq : q = child
        · subst hq
          have : p.isZombie = false := by simpa [Table.isZombie, found] using zombie
          simp [found, Record.released, this]
        · simp [hq]

theorem run_releaseAll (ready : Releasable t heir children) :
    ∃ u events, (releaseAll heir children).run t = ⟨.ok (), u, events⟩ ∧ u.Consistent ∧
      Released heir children t u := by
  induction children generalizing t with
  | nil => exact ⟨t, [], rfl, ready.consistent, fun q => by simp⟩
  | cons child others ih =>
    obtain ⟨p, found⟩ := ready.registered child List.mem_cons_self
    obtain ⟨result, m, told, first, consistent, head, ended, -⟩ :=
      run_releaseChild heir ready.consistent found
    cases ended fun none zombie c hc =>
      absurd hc (ready.childless none child List.mem_cons_self zombie c)
    obtain ⟨u, events, rest, consistent', tail⟩ := ih (ready.tail consistent head)
    refine ⟨u, told ++ events, ?_, consistent', ?_⟩
    · simp [releaseAll, first, rest]
    · intro q
      have fresh := (List.nodup_cons.mp ready.nodup).1
      rw [tail, head]
      by_cases hq : q = child
      · subst hq
        simp [fresh]
      · simp [hq]

theorem run_releaseAll_append (first second : List Pid) :
    (releaseAll heir (first ++ second)).run t =
      ((releaseAll heir first).run t).andThen fun _ => (releaseAll heir second).run := by
  induction first generalizing t with
  | nil => rfl
  | cons child others ih =>
    simp only [List.cons_append, releaseAll, run_bind, Reply.andThen_assoc]
    congr 1
    funext _ u
    exact ih

/-- Once the least child is let go, the others are left. -/
theorem run_releaseChild_least (consistent : t.Consistent) (named : pid ≠ noParent)
    (other : heir ≠ some pid) (family : t.children pid = child :: others) :
    ∃ result u events, (releaseChild heir child).run t = ⟨result, u, events⟩ ∧ u.Consistent ∧
      u.children pid = others := by
  have sorted := t.children_ascending pid
  have mem {c} := consistent.mem_children (c := c) named
  rw [family] at sorted mem
  obtain ⟨p, found, parent⟩ := Table.get?_of_parentOf (mem.mp List.mem_cons_self)
  obtain ⟨result, u, events, run, consistent', head, -, -⟩ :=
    run_releaseChild heir consistent found
  refine ⟨result, u, events, run, consistent', ?_⟩
  refine (u.children_ascending pid).eq_of_mem_iff (List.pairwise_cons.mp sorted).2 fun c => ?_
  rw [consistent'.mem_children named, Table.parentOf, head]
  by_cases same : c = child
  · subst same
    have fresh : c ∉ others := fun h =>
      UInt32.lt_irrefl c ((List.pairwise_cons.mp sorted).1 c h)
    have gone : ∀ q, p.released heir = some q → q.parent ≠ pid := fun q h =>
      parent_ne_of_released named other (by rwa [if_pos parent])
    simpa [found, fresh] using gone
  · have := mem (c := c)
    rw [List.mem_cons, or_iff_right same] at this
    rw [if_neg (mt List.mem_singleton.mp same), this]
    rfl

/-- The children of `pid` are let go by asking for the least child, letting it go, and asking again,
until there is none. The rounds are counted. -/
inductive Empties (heir : Option Pid) (pid : Pid) : Table → Nat → List Event → Table → Prop
  | done {t : Table} (none : t.leastChild? pid = none) : Empties heir pid t 0 [] t
  | next {t u v : Table} {child : Pid} {rounds : Nat} {told events : List Event}
      (least : t.leastChild? pid = some child)
      (release : (releaseChild heir child).run t = ⟨.ok (), u, told⟩)
      (rest : Empties heir pid u rounds events v) :
      Empties heir pid t (rounds + 1) (told ++ events) v

/-- Letting the listed children go is the same as asking for the least child over and over, which
takes one round for each of them. -/
theorem empties_of_run (consistent : t.Consistent) (named : pid ≠ noParent)
    (other : heir ≠ some pid) {events : List Event}
    (run : (releaseAll heir (t.children pid)).run t = ⟨.ok (), u, events⟩) :
    Empties heir pid t (t.children pid).length events u := by
  generalize family : t.children pid = list at run
  induction list generalizing t events with
  | nil =>
    cases run
    exact .done (by rw [Table.leastChild?_eq_head?, family, List.head?_nil])
  | cons child others ih =>
    have least : t.leastChild? pid = some child := by
      rw [Table.leastChild?_eq_head?, family, List.head?_cons]
    obtain ⟨result, m, told, first, consistent', rest⟩ :=
      run_releaseChild_least consistent named other family
    rw [releaseAll, run_bind, first] at run
    cases result with
    | error why => cases run
    | ok _ =>
      cases back : (releaseAll heir others).run m with
      | mk result v events' =>
        rw [Reply.andThen_ok, back] at run
        cases run
        exact .next least first (ih consistent' rest back)

end Registry
end ProcessLife
