import Floodgate.Power

/-! # Bounded counters

Counts of messages and sums of bytes stop at the largest value that their counters can hold. -/

namespace Floodgate

/-- The largest count of messages. -/
def countLimit : Nat := 2 ^ (32 : Nat) - 1

/-- The largest sum of bytes. -/
def sizeLimit : Nat := 2 ^ (64 : Nat) - 1

theorem countLimit_le_sizeLimit : countLimit ≤ sizeLimit := by decide

/-- The count after `n` more messages. -/
def addCount (count n : Nat) : Nat := min (count + n) countLimit

/-- The sum after `n` more bytes. -/
def addSize (size n : Nat) : Nat := min (size + n) sizeLimit

end Floodgate
