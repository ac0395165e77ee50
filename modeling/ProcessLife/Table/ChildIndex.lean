import ProcessLife.Pid
import Std.Data.ExtTreeMap.Lemmas
import Std.Data.ExtTreeSet.Lemmas

/-! The children of each parent, kept in ascending order so that the least child is found at once.
A parent without children has no entry; hence two indexes that list the same children are the same
index, which is `ext_family`. -/

namespace ProcessLife

structure ChildIndex where
  entries : Std.ExtTreeMap Pid (Std.ExtTreeSet Pid)
  nonempty : ∀ parent : Pid, entries[parent]? ≠ some ∅
deriving DecidableEq

namespace ChildIndex

def empty : ChildIndex :=
  ⟨∅, by simp⟩

def family (i : ChildIndex) (parent : Pid) : Std.ExtTreeSet Pid :=
  i.entries[parent]?.getD ∅

def children (i : ChildIndex) (parent : Pid) : List Pid :=
  (i.family parent).toList

def hasChildren (i : ChildIndex) (parent : Pid) : Bool :=
  i.entries.contains parent

def leastChild? (i : ChildIndex) (parent : Pid) : Option Pid :=
  (i.family parent).min?

/-- Lists `family` under `parent`, or nothing under it if the family is empty. -/
def put (i : ChildIndex) (parent : Pid) (family : Std.ExtTreeSet Pid) : ChildIndex :=
  if h : family.isEmpty then
    { entries := i.entries.erase parent
      nonempty := fun q => by
        rw [Std.ExtTreeMap.getElem?_erase]
        split
        · simp
        · exact i.nonempty q }
  else
    { entries := i.entries.insert parent family
      nonempty := fun q => by
        rw [Std.ExtTreeMap.getElem?_insert]
        split
        · simpa using h
        · exact i.nonempty q }

/-- Lists `child` under `parent`; an orphan is listed nowhere. -/
def link (i : ChildIndex) (parent child : Pid) : ChildIndex :=
  if parent = noParent then i else i.put parent ((i.family parent).insert child)

/-- Strikes `child` from the children of `parent`; an orphan is not looked for. -/
def unlink (i : ChildIndex) (parent child : Pid) : ChildIndex :=
  if parent = noParent then i else i.put parent ((i.family parent).erase child)

/-- Every parent that has children, with its children, both in ascending order. -/
def toList (i : ChildIndex) : List (Pid × List Pid) :=
  i.entries.toList.map fun (parent, family) => (parent, family.toList)

@[simp]
theorem family_empty (p : Pid) : empty.family p = ∅ := by
  simp [family, empty]

theorem family_put (i : ChildIndex) (p q : Pid) (s : Std.ExtTreeSet Pid) :
    (i.put p s).family q = if q = p then s else i.family q := by
  unfold put family
  split
  · rename_i h
    simp only [Std.ExtTreeMap.getElem?_erase, Std.compare_eq_iff_eq, eq_comm (a := p)]
    split
    · simpa using h.symm
    · rfl
  · simp only [Std.ExtTreeMap.getElem?_insert, Std.compare_eq_iff_eq, eq_comm (a := p)]
    split <;> rfl

@[simp]
theorem mem_family_link {i : ChildIndex} {p q c d : Pid} :
    d ∈ (i.link p c).family q ↔ (p ≠ noParent ∧ q = p ∧ d = c) ∨ d ∈ i.family q := by
  unfold link
  split
  · simp [*]
  · rw [family_put]
    split
    · simp [*, eq_comm (a := d)]
    · simp [*]

@[simp]
theorem mem_family_unlink {i : ChildIndex} {p q c d : Pid} :
    d ∈ (i.unlink p c).family q ↔ d ∈ i.family q ∧ ¬(p ≠ noParent ∧ q = p ∧ d = c) := by
  unfold unlink
  split
  · simp [*]
  · rw [family_put]
    split
    · simp [*, eq_comm (a := d), and_comm]
    · simp [*]

theorem mem_children {i : ChildIndex} {p c : Pid} : c ∈ i.children p ↔ c ∈ i.family p := by
  simp [children]

theorem leastChild?_eq_head? (i : ChildIndex) (p : Pid) :
    i.leastChild? p = (i.children p).head? :=
  Std.ExtTreeSet.min?_eq_head?_toList

theorem hasChildren_iff {i : ChildIndex} {p : Pid} :
    i.hasChildren p = true ↔ i.family p ≠ ∅ := by
  rw [hasChildren, Std.ExtTreeMap.contains_eq_isSome_getElem?]
  cases h : i.entries[p]? with
  | none => simp [family, h]
  | some s =>
    have : s ≠ ∅ := fun e => i.nonempty p (e ▸ h)
    simp [family, h, this]

theorem hasChildren_iff_children {i : ChildIndex} {p : Pid} :
    i.hasChildren p = true ↔ i.children p ≠ [] := by
  simp [hasChildren_iff, children]

/-- The entries can be read back from the families. -/
theorem getElem?_entries (i : ChildIndex) (p : Pid) :
    i.entries[p]? = if i.family p = ∅ then none else some (i.family p) := by
  cases h : i.entries[p]? with
  | none => simp [family, h]
  | some s =>
    have : s ≠ ∅ := fun e => i.nonempty p (e ▸ h)
    simp [family, h, this]

theorem ext_family {i j : ChildIndex} (h : ∀ p c, c ∈ i.family p ↔ c ∈ j.family p) : i = j := by
  have same : i.entries = j.entries := by
    apply Std.ExtTreeMap.ext_getElem?
    intro p
    rw [getElem?_entries, getElem?_entries, Std.ExtTreeSet.ext_mem (h p)]
  cases i
  cases j
  congr

end ChildIndex
end ProcessLife
