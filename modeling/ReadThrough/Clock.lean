/-!
# Sleeping

Moments are milliseconds since the start. A sleep that is said to take longer than thirty years takes
thirty years.
-/

namespace ReadThrough

/-- The longest sleep: thirty years of 365 days. -/
def longestSleep : Nat := 30 * 365 * 86400 * 1000

/-- The moment at which a sleep ends that begins now. -/
def wakeTime (now ms : Nat) : Nat := now + min ms longestSleep

/-- Time does not go back. -/
theorem le_wakeTime (now ms : Nat) : now ≤ wakeTime now ms := Nat.le_add_right _ _

/-- A sleep of thirty years at most takes as long as it says. -/
theorem wakeTime_of_le {ms : Nat} (h : ms ≤ longestSleep) (now : Nat) :
    wakeTime now ms = now + ms := by
  rw [wakeTime, Nat.min_eq_left h]

end ReadThrough
