/-
# Common.Datum -- column types and values

A `Datum` holds a fixed-width value in the first bytes of its union, or the bytes of a
variable-length one.  Which of the two counts is the column type's business
(`dTypeIsFixedWidth`).
-/
import Mathlib.Tactic.Common

namespace VecFetch

set_option autoImplicit false

inductive DType where
  | int8
  | int16
  | int32
  | int64
  | uint8
  | uint16
  | uint32
  | uint64
  | float16
  | float32
  | float64
  | string
  | bytes
  | vectorFloat32
  | vectorFloat16
  | vectorInt8
  | vectorUint8
  | bool
  | timestamp
  deriving DecidableEq

/-- `DTypeSize`: the bytes of a fixed-width type, 0 for the others. -/
def dTypeSize : DType → Nat
  | .int8 | .uint8 | .bool => 1
  | .int16 | .uint16 | .float16 => 2
  | .int32 | .uint32 | .float32 => 4
  | .int64 | .uint64 | .float64 | .timestamp => 8
  | _ => 0

/-- `DTypeIsFixedWidth`. -/
def dTypeIsFixedWidth (dtype : DType) : Bool := decide (0 < dTypeSize dtype)

theorem dTypeSize_le (dtype : DType) : dTypeSize dtype ≤ 8 := by cases dtype <;> decide

structure ColumnSchema where
  id : UInt32
  dtype : DType
  deriving DecidableEq

/-- A value; `fixed` is the union's memory. -/
structure Datum where
  dtype : DType := .int64
  fixed : Vector UInt8 8 := .replicate 8 0
  varData : List UInt8 := []
  deriving DecidableEq

namespace Datum

/-- The `byte_size()` bytes at `data()`: the value of the datum. -/
def data (d : Datum) : List UInt8 :=
  if dTypeIsFixedWidth d.dtype then d.fixed.toList.take (dTypeSize d.dtype) else d.varData

/-- The same value of the same type. -/
def SameValue (d d' : Datum) : Prop := d.dtype = d'.dtype ∧ d.data = d'.data

instance (d d' : Datum) : Decidable (SameValue d d') := inferInstanceAs (Decidable (_ ∧ _))

theorem SameValue.symm {d d' : Datum} (same : SameValue d d') : SameValue d' d :=
  ⟨same.1.symm, same.2.symm⟩

/-- The union's memory after `memset` and `memcpy` of some bytes. -/
def fixedOf (bytes : List UInt8) : Vector UInt8 8 := Vector.ofFn fun i => bytes.getD i 0

theorem fixedOf_take {bytes : List UInt8} (short : bytes.length ≤ 8) :
    (fixedOf bytes).toList.take bytes.length = bytes := by
  apply List.ext_getElem
  · simp [short]
  · intro i inTake inBytes
    simp [fixedOf, List.getD, inBytes]

theorem data_fixed {d : Datum} (isFixed : dTypeIsFixedWidth d.dtype = true) :
    d.data = d.fixed.toList.take (dTypeSize d.dtype) := by rw [data, if_pos isFixed]

theorem data_var {d : Datum} (isVar : dTypeIsFixedWidth d.dtype = false) : d.data = d.varData := by
  rw [data, isVar, if_neg Bool.false_ne_true]

theorem data_fixed_length {d : Datum} (isFixed : dTypeIsFixedWidth d.dtype = true) :
    d.data.length = dTypeSize d.dtype := by
  rw [data_fixed isFixed, List.length_take, Vector.length_toList]
  exact Nat.min_eq_left (dTypeSize_le d.dtype)

end Datum

end VecFetch
