/-
# Rabitq.Code -- encoded vectors

What the encoder hands to the store and the kernels.  A float is its bit pattern.
-/
import Mathlib.Data.Nat.Notation
import Mathlib.Tactic.Common

namespace VecFetch.Rabitq

set_option autoImplicit false

/-- An encoded vector: sign bits in plane 0 of `code`, the extra code and its signs,
and the factors of either format. -/
structure RaBitQCode where
  code : List UInt64
  norm : UInt32
  sumX : UInt32
  bits : UInt8 := 1
  exCode : List UInt8 := []
  exSignPacked : List UInt8 := []
  xipnorm : UInt32 := 0
  exCodeSignFolded : Bool := false
  exFactorAdd : UInt32 := 0
  exFactorRescale : UInt32 := 0
  deriving DecidableEq

namespace RaBitQCode

/-- Bit `d` of the sign plane. -/
def signBit (c : RaBitQCode) (d : ℕ) : ℕ :=
  ((c.code.getD (d / 64) 0 >>> UInt64.ofNat (d % 64)) &&& 1).toNat

theorem signBit_le (c : RaBitQCode) (d : ℕ) : c.signBit d ≤ 1 := by
  rw [signBit, UInt64.toNat_and]
  exact Nat.and_le_right

end RaBitQCode

/-- One to 32 codes of a dimension, each with its sign plane. -/
structure CodeBlock (dim : ℕ) where
  codes : List RaBitQCode
  nonempty : 0 < codes.length
  count_le : codes.length ≤ 32
  planes : ∀ c ∈ codes, (dim + 63) / 64 ≤ c.code.length

end VecFetch.Rabitq
