/-! Notification by counting. Whoever is about to sleep remembers the count; every notification
moves the count on, and all who remember an older count are awake again. -/

namespace ProcessLife

structure Signal where
  count : UInt64 := 0
deriving DecidableEq

namespace Signal

def notify (s : Signal) : Signal :=
  ⟨s.count + 1⟩

theorem notify_ne (s : Signal) : s.notify ≠ s := by
  intro h
  have := congrArg (fun t : Signal => t.count.toNat) h
  have := s.count.toNat_lt
  simp only [notify, UInt64.toNat_add, UInt64.toNat_one] at *
  omega

end Signal
end ProcessLife
