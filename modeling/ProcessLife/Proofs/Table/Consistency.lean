import ProcessLife.Table.Basic

/-!
# Tables in order

A table keeps each parent twice: in the record of the child, and in the index. Here the two are
tied together, and every operation on the table is shown to keep the tie. A consistent table can
therefore be talked about through `get?` and `parentOf` alone; the index is a consequence.
-/

namespace ProcessLife
namespace Table

variable {t u : Table} {p q : Record} {pid parent c d : Pid}

def parentOf (t : Table) (pid : Pid) : Option Pid :=
  (t.get? pid).map (·.parent)

/-- Records stand under their own identifiers, and the index lists exactly the children that the
records name. -/
structure InStep (t : Table) : Prop where
  keyed : ∀ {pid p}, t.get? pid = some p → p.pid = pid
  indexed : ∀ {p c}, c ∈ t.index.family p ↔ p ≠ noParent ∧ t.parentOf c = some p

structure Consistent (t : Table) : Prop extends InStep t where
  unnamed : t.get? noParent = none

theorem parentOf_of_get? (h : t.get? pid = some p) : t.parentOf pid = some p.parent := by
  simp [parentOf, h]

theorem get?_of_parentOf (h : t.parentOf pid = some parent) :
    ∃ p, t.get? pid = some p ∧ p.parent = parent := by
  simpa [parentOf] using h

theorem isAlive_iff : t.isAlive pid = true ↔ ∃ p, t.get? pid = some p ∧ p.status = none := by
  cases h : t.get? pid <;> simp [isAlive, Record.isAlive, h]

theorem status_of_isAlive (alive : t.isAlive pid = true) (found : t.get? pid = some p) :
    p.status = none := by
  obtain ⟨q, same, live⟩ := isAlive_iff.mp alive
  rw [found] at same
  cases same
  exact live

theorem isZombie_iff :
    t.isZombie pid = true ↔ ∃ p s, t.get? pid = some p ∧ p.status = some s := by
  cases h : t.get? pid with
  | none => simp [isZombie, h]
  | some p => simp [isZombie, Record.isZombie, h, Option.isSome_iff_exists]

theorem Consistent.ne_noParent (h : t.Consistent) (found : t.get? pid = some p) :
    pid ≠ noParent := by
  rintro rfl
  simp [h.unnamed] at found

theorem inStep_empty : empty.InStep where
  keyed := by simp
  indexed := by simp [empty, parentOf, get?]

theorem consistent_empty : empty.Consistent where
  toInStep := inStep_empty
  unnamed := get?_empty noParent

/-- Only under a free identifier can a record be entered. -/
theorem free_of_insert (done : t.insert p = .ok u) : t.get? p.pid = none := by
  cases found : t.get? p.pid with
  | none => rfl
  | some _ => simp [insert_of_some found] at done

theorem InStep.insert (h : t.InStep) (done : t.insert p = .ok u) : u.InStep := by
  have look := get?_insert done
  have free := free_of_insert done
  constructor
  · intro pid q found
    rw [look] at found
    split at found
    · simp_all
    · exact h.keyed found
  · intro q c
    rw [mem_family_insert done, h.indexed, parentOf, parentOf, look]
    split
    · simp_all only [Option.map_none, Option.map_some, Option.some.injEq]
      grind
    · simp [*]

theorem Consistent.insert (h : t.Consistent) (named : p.pid ≠ noParent)
    (done : t.insert p = .ok u) : u.Consistent where
  toInStep := h.toInStep.insert done
  unnamed := by
    rw [get?_insert done, if_neg named.symm]
    exact h.unnamed

theorem InStep.reparent (h : t.InStep) (done : t.reparent pid parent = .ok u) : u.InStep := by
  have look := get?_reparent done
  cases found : t.get? pid with
  | none => simp [reparent_of_none found] at done
  | some p =>
    constructor
    · intro q r hr
      rw [look] at hr
      split at hr
      · rename_i same
        rw [found] at hr
        cases hr
        exact (h.keyed found).trans same.symm
      · exact h.keyed hr
    · intro q c
      rw [mem_family_reparent done found, h.indexed, parentOf, parentOf, look]
      split
      · simp_all only [Option.map_some, Option.some.injEq]
        grind
      · simp [*]

theorem Consistent.reparent (h : t.Consistent) (done : t.reparent pid parent = .ok u) :
    u.Consistent where
  toInStep := h.toInStep.reparent done
  unnamed := by
    rw [get?_reparent done]
    split
    · rename_i same
      rw [← same, h.unnamed, Option.map_none]
    · exact h.unnamed

theorem InStep.remove (h : t.InStep) : (t.remove pid).2.InStep := by
  cases found : t.get? pid with
  | none => simpa [remove_of_none found] using h
  | some p =>
    constructor
    · intro q r hr
      rw [get?_remove] at hr
      split at hr
      · cases hr
      · exact h.keyed hr
    · intro q c
      rw [mem_family_remove found, h.indexed, parentOf, parentOf, get?_remove]
      split
      · simp_all only [Option.map_some, Option.map_none, Option.some.injEq]
        grind
      · simp [*]

theorem Consistent.remove (h : t.Consistent) : (t.remove pid).2.Consistent where
  toInStep := h.toInStep.remove
  unnamed := by rw [get?_remove, h.unnamed, ite_self]

/-- Another record may take the place of one that names the same process and the same parent. -/
theorem Consistent.replace (h : t.Consistent) (found : t.get? pid = some p)
    (same : q.pid = p.pid) (parent : q.parent = p.parent) : (t.replace pid q).Consistent := by
  refine ⟨⟨?_, ?_⟩, ?_⟩
  · intro c r hr
    rw [get?_replace] at hr
    split at hr
    · have := h.keyed found
      simp_all
    · exact h.keyed hr
  · intro r c
    rw [index_replace, h.indexed, parentOf, parentOf, get?_replace]
    split
    · simp [*]
    · rfl
  · rw [get?_replace, if_neg (h.ne_noParent found).symm]
    exact h.unnamed

/-- Once a process is struck from its family, it has an entry of its own just if somebody else
names it as the parent. -/
theorem InStep.hasChildren_unlink (h : t.InStep) (found : t.get? pid = some p) :
    (t.index.unlink p.parent pid).hasChildren pid = true ↔
      pid ≠ noParent ∧ ∃ c, c ≠ pid ∧ t.parentOf c = some pid := by
  rw [ChildIndex.hasChildren_iff, ne_eq, Std.ExtTreeSet.eq_empty_iff_forall_not_mem]
  have own := parentOf_of_get? found
  simp only [ChildIndex.mem_family_unlink, h.indexed, Classical.not_forall, Classical.not_not]
  constructor
  · rintro ⟨c, ⟨named, child⟩, other⟩
    refine ⟨named, c, ?_, child⟩
    rintro rfl
    simp_all
  · rintro ⟨named, c, other, child⟩
    exact ⟨c, ⟨named, child⟩, fun same => other same.2.2⟩

theorem Consistent.hasChildren_unlink (h : t.Consistent) (found : t.get? pid = some p) :
    (t.index.unlink p.parent pid).hasChildren pid = true ↔
      ∃ c, c ≠ pid ∧ t.parentOf c = some pid := by
  rw [h.toInStep.hasChildren_unlink found]
  exact and_iff_right (h.ne_noParent found)

/-- A table in step is known by its records alone. -/
theorem InStep.ext (h : t.InStep) (other : u.InStep) (look : ∀ pid, t.get? pid = u.get? pid) :
    t = u := by
  apply ext_get? look
  intro p c
  rw [h.indexed, other.indexed, parentOf, parentOf, look]

/-- A record without children comes out. -/
theorem Consistent.remove_eq (h : t.Consistent) (found : t.get? pid = some p)
    (childless : ∀ c, t.parentOf c = some pid → c = pid) :
    t.remove pid = (.ok (some p), (t.remove pid).2) := by
  have none : (t.index.unlink p.parent pid).hasChildren pid = false := by
    rw [Bool.eq_false_iff, ne_eq, h.hasChildren_unlink found]
    rintro ⟨c, other, child⟩
    exact other (childless c child)
  simp [remove_of_some found, none]

/-- The check for children comes too late to save the record. -/
theorem Consistent.remove_eq_error (h : t.Consistent) (found : t.get? pid = some p)
    (child : t.parentOf c = some pid) (other : c ≠ pid) :
    t.remove pid = (.error (.stillHasChildren pid), (t.remove pid).2) := by
  have some : (t.index.unlink p.parent pid).hasChildren pid = true :=
    (h.hasChildren_unlink found).mpr ⟨c, other, child⟩
  simp [remove_of_some found, some]

theorem InStep.mem_children (h : t.InStep) :
    c ∈ t.children pid ↔ pid ≠ noParent ∧ t.parentOf c = some pid := by
  rw [children, ChildIndex.mem_children, h.indexed]

theorem Consistent.mem_children (h : t.Consistent) (named : pid ≠ noParent) :
    c ∈ t.children pid ↔ t.parentOf c = some pid := by
  rw [h.toInStep.mem_children]
  exact and_iff_right named

theorem leastChild?_eq_head? (t : Table) (pid : Pid) :
    t.leastChild? pid = (t.children pid).head? :=
  ChildIndex.leastChild?_eq_head? t.index pid

theorem InStep.parentOf_of_leastChild? (h : t.InStep) (least : t.leastChild? pid = some c) :
    t.parentOf c = some pid := by
  rw [leastChild?_eq_head?] at least
  exact (h.mem_children.mp (List.mem_of_mem_head? least)).2

theorem Consistent.leastChild?_eq_none_iff (h : t.Consistent) (named : pid ≠ noParent) :
    t.leastChild? pid = none ↔ ∀ c, t.parentOf c ≠ some pid := by
  rw [leastChild?_eq_head?, List.head?_eq_none_iff, List.eq_nil_iff_forall_not_mem]
  simp only [h.mem_children named, ne_eq]

def Occupied (t : Table) (first last : Pid) : Prop :=
  ∀ pid, first ≤ pid → pid ≤ last → t.contains pid = true

theorem not_occupied {first last : Pid} (free : t.get? pid = none) (lower : first ≤ pid)
    (upper : pid ≤ last) : ¬ t.Occupied first last := by
  intro taken
  have held := taken pid lower upper
  rw [contains_eq_isSome, free] at held
  cases held

/-- The children of a process come in ascending order. -/
theorem children_ascending (t : Table) (pid : Pid) : (t.children pid).Pairwise (· < ·) := by
  have sorted := Std.ExtTreeSet.ordered_toList (t := t.index.family pid)
  exact sorted.imp fun h => Std.compare_eq_lt.mp h

end Table
end ProcessLife
