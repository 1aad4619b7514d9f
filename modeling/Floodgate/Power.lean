/-! # Powers

Natural numbers and integers have two powers, the one of the core library and the one that Mathlib
derives from their multiplication, and `b ^ n` is the second one wherever Mathlib is imported. A
definition has the first one if its module does without Mathlib, and a lemma about it has the second
one; they are equal by computation only, and where the power is as large as `5 ^ 1074` Lean gives it
up. In this namespace `b ^ n` is the power of the core library everywhere. -/

namespace Floodgate

attribute [scoped instance (high)] instPowNat

/-- Is a number a power of two? -/
def isPowerOfTwo (n : Nat) : Bool := 2 ^ n.log2 = n

theorem isPowerOfTwo_iff {n : Nat} : isPowerOfTwo n = true ↔ ∃ k : Nat, n = 2 ^ k := by
  constructor
  · exact fun h => ⟨n.log2, (of_decide_eq_true h).symm⟩
  · rintro ⟨k, rfl⟩
    rw [isPowerOfTwo, Nat.log2_two_pow]
    exact decide_eq_true rfl

end Floodgate
