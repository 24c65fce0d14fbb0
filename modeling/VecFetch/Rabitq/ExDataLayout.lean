/-
# Rabitq.ExDataLayout -- how the extra code of a vector is laid out

The layouts a file may name, the byte each is stored as, and the layout that
`selected_direct` stands for.
-/
import Mathlib.Data.Nat.Notation
import Mathlib.Tactic.Common

namespace VecFetch.Rabitq

set_option autoImplicit false

inductive RaBitQExDataLayout where
  | genericPacked
  | split3TwoPlusOne
  | split3Bitplanes
  | selectedDirect
  | split1Bitplane
  | split2Bitplanes
  | split3TrimmedBitplanes
  | split3ZeroPlaneElide
  | vectorBitplanes
  | vectorBitplanesPrefetch
  | vectorNibble4
  | vector2Bit
  | smallLane4Bitplanes
  | smallLane2Bitplanes
  | vectorBitplanesMicroBatch
  | vectorBitMajorTiles
  deriving DecidableEq

namespace RaBitQExDataLayout

/-- The layouts by their stored byte. -/
def stored : List RaBitQExDataLayout :=
  [genericPacked, split3TwoPlusOne, split3Bitplanes, selectedDirect, split1Bitplane,
    split2Bitplanes, split3TrimmedBitplanes, split3ZeroPlaneElide, vectorBitplanes,
    vectorBitplanesPrefetch, vectorNibble4, vector2Bit, smallLane4Bitplanes, smallLane2Bitplanes,
    vectorBitplanesMicroBatch, vectorBitMajorTiles]

/-- `RaBitQResolveSelectedExDataLayoutForBits`. -/
def resolveSelectedForBits (layout : RaBitQExDataLayout) (exBits : UInt8) : RaBitQExDataLayout :=
  if layout ≠ selectedDirect then layout
  else if 1 ≤ exBits ∧ exBits ≤ 3 then vectorBitMajorTiles
  else if exBits = 4 then vectorNibble4
  else selectedDirect

/-- `RaBitQResolveSelectedExDataLayout`. -/
def resolveSelected (layout : RaBitQExDataLayout) : RaBitQExDataLayout :=
  layout.resolveSelectedForBits 3

/-- `RaBitQExDataLayoutDirectBits`. -/
def directBits (layout : RaBitQExDataLayout) : UInt8 :=
  match layout.resolveSelected with
  | split1Bitplane => 1
  | split2Bitplanes => 2
  | split3TwoPlusOne | split3Bitplanes | split3TrimmedBitplanes | split3ZeroPlaneElide => 3
  | vectorNibble4 => 4
  | vector2Bit => 2
  | _ => 0

/-- `RaBitQExDataLayoutIsDirect`. -/
def isDirect (layout : RaBitQExDataLayout) : Bool :=
  match layout.resolveSelected with
  | genericPacked | selectedDirect => false
  | _ => true

end RaBitQExDataLayout

end VecFetch.Rabitq
