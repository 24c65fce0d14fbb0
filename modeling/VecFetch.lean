import VecFetch.Theory.StdAlgo
import VecFetch.Theory.Trace
import VecFetch.Theory.Table
import VecFetch.Theory.Mask
import VecFetch.Theory.KSmallest
import VecFetch.Theory.Select
import VecFetch.Theory.CountingSort
import VecFetch.Theory.Fill
import VecFetch.Theory.MapM
import VecFetch.Theory.Buffer
import VecFetch.Theory.Lanes
import VecFetch.Theory.FileStream
import VecFetch.Common.Flt
import VecFetch.Common.FloatArith
import VecFetch.Common.ExactFloat
import VecFetch.Rabitq.Code
import VecFetch.Storage.PackCodes
import VecFetch.Storage.UnpackCodes
import VecFetch.Common.Status
import VecFetch.Common.Datum
import VecFetch.Theory.Bits
import VecFetch.Theory.BitFields
import VecFetch.Theory.Emit
import VecFetch.Theory.Bytes
import VecFetch.Theory.Fields
import VecFetch.Theory.Parts
import VecFetch.Theory.RotationPair
import VecFetch.Theory.Walsh
import VecFetch.Theory.LinearProbing
import VecFetch.Theory.OrderStatistic
import VecFetch.Theory.LatticeWalk
import VecFetch.Theory.Arena
import VecFetch.Theory.WhileLoop
import VecFetch.Theory.Buckets
import VecFetch.Codec.Bitpack
import VecFetch.Codec.BitpackRoundTrip
import VecFetch.Simd.PrefixSum
import VecFetch.Simd.PrefixSumLoop
import VecFetch.Storage.AddressColumn
import VecFetch.Storage.AddressDecode
import VecFetch.Storage.AddressEncode
import VecFetch.Storage.AddressRoundTrip
import VecFetch.Storage.AddressBatch
import VecFetch.Storage.AddressBounds
import VecFetch.Storage.AddressLayout
import VecFetch.Storage.DataFile
import VecFetch.Storage.DataFileWrite
import VecFetch.Storage.DataFileParse
import VecFetch.Storage.DataFileRoundTrip
import VecFetch.Storage.PayloadBounds
import VecFetch.Columns.ColumnStore
import VecFetch.Columns.ColumnRoundTrip
import VecFetch.Columns.ColumnBounds
import VecFetch.Columns.ColumnReopen
import VecFetch.Columns.ColumnIngest
import VecFetch.Io.Npy
import VecFetch.Io.NpyShape
import VecFetch.Io.NpyRoundTrip
import VecFetch.Simd.Hadamard
import VecFetch.Rabitq.Rotation
import VecFetch.Rabitq.RotationFast
import VecFetch.Rabitq.RotationSound
import VecFetch.Rabitq.RotationFile
import VecFetch.Rabitq.RotationAccess
import VecFetch.Rabitq.Encoder
import VecFetch.Rabitq.EncoderLaws
import VecFetch.Rabitq.RescaleSearch
import VecFetch.Rabitq.RescaleOptimal
import VecFetch.Rabitq.Official
import VecFetch.Simd.FastScanLut
import VecFetch.Simd.FusedLut
import VecFetch.Simd.Popcount
import VecFetch.Simd.PopcountLoop
import VecFetch.Simd.PrepareQuery
import VecFetch.Rabitq.Estimator
import VecFetch.Rabitq.PopcountEstimate
import VecFetch.Rabitq.PreparedAgree
import VecFetch.Simd.FastScan
import VecFetch.Simd.FastScanExact
import VecFetch.Simd.FastScanScalar
import VecFetch.Simd.Stage1
import VecFetch.Simd.Stage1Fused
import VecFetch.Simd.PrepareSums
import VecFetch.Simd.IpExRaBitQ
import VecFetch.Simd.FusedLutReach
import VecFetch.Rabitq.MultiBit
import VecFetch.Rabitq.Stage2Direction
import VecFetch.Rabitq.ExDataLayout
import VecFetch.Simd.ExData
import VecFetch.Simd.ExDataPlaces
import VecFetch.Simd.ExDataTiles
import VecFetch.Simd.ExDataRoundTrip
import VecFetch.Storage.ClusterFormat
import VecFetch.Storage.ClusterWriter
import VecFetch.Storage.ClusterSteps
import VecFetch.Storage.ClusterSizes
import VecFetch.Storage.ClusterImage
import VecFetch.Storage.ClusterFields
import VecFetch.Storage.RawTable
import VecFetch.Storage.ClusterParse
import VecFetch.Storage.ClusterTrailer
import VecFetch.Storage.ClusterBounds
import VecFetch.Storage.ClusterViews
import VecFetch.Storage.ClusterReader
import VecFetch.Storage.ReaderMove
import VecFetch.Storage.ClusterLoad
import VecFetch.Storage.ParserAgreement
import VecFetch.Storage.ClusterOpen
import VecFetch.Storage.StoreLoad
import VecFetch.Storage.StoreSigns
import VecFetch.Storage.StoreLanes
import VecFetch.Storage.StoreBatches
import VecFetch.Storage.StoreElided
import VecFetch.Storage.StoreLayouts
import VecFetch.Storage.StoreCodes
import VecFetch.Storage.StoreRoundTrip
import VecFetch.Storage.WriterProtocol
import VecFetch.Query.Types
import VecFetch.Query.Frontier
import VecFetch.Query.Pending
import VecFetch.Query.Scheduler
import VecFetch.Query.Ledger
import VecFetch.Query.ReadOnce
import VecFetch.Query.Budget
import VecFetch.Query.FrontierRun
import VecFetch.Query.FrontierOrder
import VecFetch.Query.Readiness
import VecFetch.Query.IoUringReader
import VecFetch.Query.Accounting
import VecFetch.Query.Rerank
import VecFetch.Query.ResultCollector
import VecFetch.Query.Completion
import VecFetch.Query.SlotRefinement
import VecFetch.Query.Slots
import VecFetch.Query.ShortRead
import VecFetch.Query.Timing
import VecFetch.Query.Buffers
import VecFetch.Query.Ownership
import VecFetch.Query.PoolRun
import VecFetch.Query.VectorSlab
import VecFetch.Query.DedupSet
import VecFetch.Query.Delivery
import VecFetch.Query.Payloads
import VecFetch.Index.ClusterProber
import VecFetch.Index.SafeOut
import VecFetch.Index.ProbeLanes
import VecFetch.Index.ProbePartition
import VecFetch.Index.ProbeParsed
import VecFetch.Index.ProbeFlags
import VecFetch.Index.ProbeOrder
import VecFetch.Index.ProbeRefinement
import VecFetch.Index.Envelope
import VecFetch.Index.EnvelopeSound
import VecFetch.Index.CoarseScore
import VecFetch.Index.CoarseRouting
import VecFetch.Index.CoarseRoutes
import VecFetch.Index.CoarseWellFormed
import VecFetch.Index.CoarseSelect
import VecFetch.Index.CoarseFullBudget
import VecFetch.Index.IndexSession
import VecFetch.Index.IvfBuild
import VecFetch.Index.BuildRoundTrip
import VecFetch.Index.SearchExact
import VecFetch.Index.BuildSearch
