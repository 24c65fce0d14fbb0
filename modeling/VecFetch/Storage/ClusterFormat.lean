/-
# Storage.ClusterFormat -- the configuration of a cluster file

A cluster file is written for one configuration, which fixes the version of the file and
the layout of the extra codes.  What the writer accepts on opening is `opened`.
-/
import VecFetch.Rabitq.Encoder
import VecFetch.Rabitq.ExDataLayout
import VecFetch.Common.Status

namespace VecFetch.Storage

open VecFetch.Rabitq

set_option autoImplicit false

def kGlobalMagic : UInt32 := 0x4C4D4356
def kBlockMagic : UInt32 := 0x424C4356
def kAddressFormatV2 : UInt32 := 2
def kVariableExRegionMagic : UInt32 := 0x315A5845
def kAlignSize : ℕ := 4096
def kMaxPathLen : UInt32 := 256

/-! ## Layouts -/

open RaBitQExDataLayout

/-- `UsesVariableOfficialExDataLayout`. -/
def usesVariableOfficialExDataLayout (layout : RaBitQExDataLayout) : Bool :=
  match layout.resolveSelected with
  | split3TrimmedBitplanes | split3ZeroPlaneElide | vectorBitplanes | vectorBitplanesPrefetch
  | vectorBitplanesMicroBatch | vectorBitMajorTiles | vectorNibble4 | vector2Bit
  | smallLane4Bitplanes | smallLane2Bitplanes => true
  | _ => false

/-- `IsVectorBitplanesLayout`. -/
def isVectorBitplanesLayout (layout : RaBitQExDataLayout) : Bool :=
  match layout.resolveSelected with
  | vectorBitplanes | vectorBitplanesPrefetch | vectorBitplanesMicroBatch => true
  | _ => false

/-- `IsVectorBitMajorTileLayout`. -/
def isVectorBitMajorTileLayout (layout : RaBitQExDataLayout) : Bool :=
  decide (layout.resolveSelected = vectorBitMajorTiles)

/-- `IsSmallLaneBitplanesLayout`. -/
def isSmallLaneBitplanesLayout (layout : RaBitQExDataLayout) : Bool :=
  match layout.resolveSelected with
  | smallLane4Bitplanes | smallLane2Bitplanes => true
  | _ => false

/-- `SmallLaneBitplanesGroupSize`. -/
def smallLaneBitplanesGroupSize (layout : RaBitQExDataLayout) : ℕ :=
  if layout.resolveSelected = smallLane2Bitplanes then 2 else 4

/-- `SupportsPackedStage2MagnitudeBits`. -/
def supportsPackedStage2MagnitudeBits (bits : UInt8) : Bool := decide (bits = 2 ∨ bits = 4)

/-- `SupportsOfficialExDataBits`. -/
def supportsOfficialExDataBits (exBits : UInt8) : Bool := decide (exBits ≤ 4)

/-! ## Configurations -/

/-- A `RaBitQConfig` with what only the files keep; `cFactor` is the bits of a float. -/
structure StoreConfig extends RaBitQConfig where
  blockSize : UInt32 := 64
  cFactor : UInt32 := 0x40B80000
  exdataLayout : RaBitQExDataLayout := .genericPacked

namespace StoreConfig

def officialBitsValid (config : StoreConfig) : Bool :=
  !config.usesOfficial1PlusN || decide (config.totalBits = config.exBits + 1)

def effectiveExdataLayout (config : StoreConfig) : RaBitQExDataLayout :=
  if config.usesOfficial1PlusN then config.exdataLayout.resolveSelectedForBits config.exBits
  else .genericPacked

def exdataLayoutValid (config : StoreConfig) : Bool :=
  if !config.usesOfficial1PlusN then decide (config.exdataLayout = .genericPacked)
  else
    match config.effectiveExdataLayout with
    | .genericPacked => true
    | .split3TwoPlusOne => decide (config.exBits = 3)
    | .vectorBitplanes | .vectorBitplanesPrefetch | .vectorBitplanesMicroBatch
    | .smallLane4Bitplanes | .smallLane2Bitplanes =>
        decide (1 ≤ config.exBits ∧ config.exBits ≤ 4)
    | .vectorBitMajorTiles => decide (1 ≤ config.exBits ∧ config.exBits ≤ 3)
    | effective =>
        decide (effective.directBits ≠ 0 ∧ effective.directBits = config.exBits)

end StoreConfig

/-! ## Versions -/

/-- `EffectiveLegacyWriterFileVersion`; `env` is the number in the environment variable, if
it is set. -/
def effectiveLegacyWriterFileVersion (env : Option ℤ) (bits : UInt8) : UInt32 :=
  let default := if 1 < bits ∧ !supportsPackedStage2MagnitudeBits bits then 11 else 12
  match env with
  | none => default
  | some ver =>
      if ver = 10 then 10 else if ver = 11 then 11 else if ver = 12 then 12 else default

/-- `EffectiveWriterFileVersion`. -/
def effectiveWriterFileVersion (env : Option ℤ) (config : StoreConfig) : UInt32 :=
  if config.usesOfficial1PlusN then
    if usesVariableOfficialExDataLayout config.effectiveExdataLayout then 15
    else if config.effectiveExdataLayout.isDirect then 14
    else 13
  else effectiveLegacyWriterFileVersion env config.bits

/-- The checks of `ClusterStoreWriter::Open` and the configuration it keeps. -/
def StoreConfig.opened (env : Option ℤ) (config : StoreConfig) : Result StoreConfig :=
  if config.usesOfficial1PlusN then
    if !config.officialBitsValid then
      Status.invalidArgument "official RaBitQ requires total_bits == ex_bits + 1"
    else if !supportsOfficialExDataBits config.exBits then
      Status.invalidArgument "official RaBitQ ExData supports ex_bits=0,1,2,3,4"
    else if !config.exdataLayoutValid then
      Status.invalidArgument "official optimized ExData layout is incompatible with ex_bits"
    else
      .ok { config with
        exdataLayout := config.effectiveExdataLayout
        bits := if 0 < config.exBits then config.exBits else 1 }
  else if !config.exdataLayoutValid then
    Status.invalidArgument "legacy RaBitQ requires generic ExData layout"
  else if 12 ≤ effectiveWriterFileVersion env config ∧ 1 < config.bits ∧
      !supportsPackedStage2MagnitudeBits config.bits then
    Status.invalidArgument "Packed ExRaBitQ Stage2 magnitude supports only bits=2 or bits=4"
  else
    .ok { config with
      totalBits := config.bits
      exBits := if 1 < config.bits then config.bits else 0
      exdataLayout := .genericPacked }

/-! ## Sizes -/

/-- `FastScanBlockSize`. -/
def fastScanBlockSize (dim : UInt32) : UInt32 := (dim + 7) / 8 * 32 + 128

/-- `PackedSignBytes`. -/
def packedSignBytes (dim : UInt32) : UInt32 := (dim + 7) / 8

/-- `lookup_entry_size`. -/
def lookupEntrySize (dim : UInt32) : ℕ := 4 + 4 + 4 + dim.toNat * 4 + 8 + 8 + 4 + 4

/-- `RoundUp4K`. -/
def roundUp4K (v : ℕ) : ℕ := (v + kAlignSize - 1) / kAlignSize * kAlignSize

end VecFetch.Storage
