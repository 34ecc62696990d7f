import RateConversion.AnyConverter
import RateConversion.Buffer
import RateConversion.Checked
import RateConversion.Config
import RateConversion.Conversion
import RateConversion.Converter
import RateConversion.ElementType
import RateConversion.Feed
import RateConversion.Grid
import RateConversion.History
import RateConversion.Kernel
import RateConversion.Proofs.Acceptance
import RateConversion.Proofs.AlignedTimes
import RateConversion.Proofs.Alignment
import RateConversion.Proofs.Blocks
import RateConversion.Proofs.Bookkeeping
import RateConversion.Proofs.Calls
import RateConversion.Proofs.Chunking
import RateConversion.Proofs.ComplexParts
import RateConversion.Proofs.ConfigChecks
import RateConversion.Proofs.Convolution
import RateConversion.Proofs.Dispatch
import RateConversion.Proofs.ExactArithmetic
import RateConversion.Proofs.ExactScaling
import RateConversion.Proofs.GapImages
import RateConversion.Proofs.GapMarks
import RateConversion.Proofs.GapZeros
import RateConversion.Proofs.Images
import RateConversion.Proofs.Isolation
import RateConversion.Proofs.Latency
import RateConversion.Proofs.Likeness
import RateConversion.Proofs.MixedKernels
import RateConversion.Proofs.OffsetTimes
import RateConversion.Proofs.Onsets
import RateConversion.Proofs.Opening
import RateConversion.Proofs.Overflow
import RateConversion.Proofs.Passage
import RateConversion.Proofs.Placement
import RateConversion.Proofs.Prediction
import RateConversion.Proofs.Progress
import RateConversion.Proofs.Raising
import RateConversion.Proofs.Ratio
import RateConversion.Proofs.Reachability
import RateConversion.Proofs.Reference
import RateConversion.Proofs.Refusals
import RateConversion.Proofs.RequiredLength
import RateConversion.Proofs.Rescale
import RateConversion.Proofs.Reuse
import RateConversion.Proofs.Ring
import RateConversion.Proofs.RingRuns
import RateConversion.Proofs.RoundTrip
import RateConversion.Proofs.Safety
import RateConversion.Proofs.SampleMaps
import RateConversion.Proofs.SegmentStart
import RateConversion.Proofs.Serving
import RateConversion.Proofs.Settings
import RateConversion.Proofs.Silence
import RateConversion.Proofs.Spans
import RateConversion.Proofs.SplinePieces
import RateConversion.Proofs.SplineValues
import RateConversion.Proofs.Staging
import RateConversion.Proofs.Stamping
import RateConversion.Proofs.Steps
import RateConversion.Proofs.Superposition
import RateConversion.Proofs.TaperedWindows
import RateConversion.Proofs.TickCounts
import RateConversion.Proofs.Ticks
import RateConversion.Proofs.TimeGrid
import RateConversion.Proofs.TypedRuns
import RateConversion.Proofs.UnitGain
import RateConversion.Proofs.Weights
import RateConversion.Proofs.WindowWeights
import RateConversion.Sample
import RateConversion.Scale
import RateConversion.Segment
import RateConversion.Session
import RateConversion.SincFilter
import RateConversion.TaperedMean
import RateConversion.Taps
import RateConversion.TickClock
import RateConversion.Upsampler
