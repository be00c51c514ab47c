import Mathlib.Algebra.Ring.Nat

/-! # The size of a word

The sources are compiled for 32-bit and for 64-bit processors. `WordSize` stands for the width of
`size_t`, of addresses and of `long`, which what depends on it takes as a parameter. -/

inductive WordSize where
  | w32
  | w64
  deriving DecidableEq

namespace WordSize

def bits : WordSize → Nat
  | .w32 => 32
  | .w64 => 64

theorem two_pow_bits (word : WordSize) : 2 ^ word.bits = 2 * 2 ^ (word.bits - 1) := by
  cases word with
  | w32 => rfl
  | w64 => rfl

end WordSize
