/-
**Dolby Vision metadata.**

Reading, writing and showing the reference processing units (RPUs) that carry the metadata of Dolby
Vision streams, the containers in which they travel, the configuration of decoders, and the sample
and coefficient kernels of video and audio codecs.
-/

import DolbyVision.Bits.Basic
import DolbyVision.Bits.Reader
import DolbyVision.Bits.Words
import DolbyVision.Bits.Writer
import DolbyVision.Checked
import DolbyVision.CommandLine.Arguments
import DolbyVision.CommandLine.Help
import DolbyVision.CommandLine.Inspection
import DolbyVision.Configuration.Level
import DolbyVision.Configuration.Record
import DolbyVision.Container.Nal
import DolbyVision.Container.T35
import DolbyVision.Container.Tail
import DolbyVision.Cpu
import DolbyVision.Crc32
import DolbyVision.Fault
import DolbyVision.FrameRate
import DolbyVision.Kernel.Binary32
import DolbyVision.Kernel.Dispatch
import DolbyVision.Kernel.PixelBlock
import DolbyVision.Kernel.Prediction
import DolbyVision.Kernel.Quantization
import DolbyVision.Kernel.Segment
import DolbyVision.Kernel.Spectrum
import DolbyVision.Kernel.TransformOutput
import DolbyVision.Main
import DolbyVision.Metadata.Block
import DolbyVision.Metadata.Header
import DolbyVision.Metadata.Mapping
import DolbyVision.Metadata.Record
import DolbyVision.Metadata.SourceColor
import DolbyVision.Note
import DolbyVision.Proofs.Bits.Codes
import DolbyVision.Proofs.Bits.Conveys
import DolbyVision.Proofs.Bits.Cursor
import DolbyVision.Proofs.Bits.Exhausted
import DolbyVision.Proofs.Bits.Local
import DolbyVision.Proofs.Bits.ReadBack
import DolbyVision.Proofs.Bits.Reads
import DolbyVision.Proofs.Bits.Recognizes
import DolbyVision.Proofs.Bits.Safe
import DolbyVision.Proofs.Bits.Spans
import DolbyVision.Proofs.Bits.Spelling
import DolbyVision.Proofs.Bits.Unread
import DolbyVision.Proofs.Bits.Values
import DolbyVision.Proofs.Bits.Written
import DolbyVision.Proofs.Checked
import DolbyVision.Proofs.Configuration.Codec
import DolbyVision.Proofs.Configuration.Record
import DolbyVision.Proofs.Container.Escape
import DolbyVision.Proofs.Container.Grammar
import DolbyVision.Proofs.Container.Nal
import DolbyVision.Proofs.Container.T35
import DolbyVision.Proofs.Container.Tail
import DolbyVision.Proofs.Crc32.Burst
import DolbyVision.Proofs.Crc32.Division
import DolbyVision.Proofs.Crc32.ShiftRegister
import DolbyVision.Proofs.Kernel.Dispatch
import DolbyVision.Proofs.Kernel.Prediction
import DolbyVision.Proofs.Kernel.Segment
import DolbyVision.Proofs.Kernel.StoredBlock
import DolbyVision.Proofs.Kernel.Strips
import DolbyVision.Proofs.Kernel.TransformOutput
import DolbyVision.Proofs.Rpu.Block
import DolbyVision.Proofs.Rpu.BlockGroup
import DolbyVision.Proofs.Rpu.BlockSet
import DolbyVision.Proofs.Rpu.Clean
import DolbyVision.Proofs.Rpu.Coefficient
import DolbyVision.Proofs.Rpu.FixedPoint
import DolbyVision.Proofs.Rpu.Header
import DolbyVision.Proofs.Rpu.Items
import DolbyVision.Proofs.Rpu.Local
import DolbyVision.Proofs.Rpu.Mapping
import DolbyVision.Proofs.Rpu.Movable
import DolbyVision.Proofs.Rpu.ReadBack
import DolbyVision.Proofs.Rpu.Readable
import DolbyVision.Proofs.Rpu.Safe
import DolbyVision.Proofs.Rpu.SourceColor
import DolbyVision.Proofs.Rpu.WellFormed
import DolbyVision.Proofs.Rpu.Writable
import DolbyVision.Proofs.Steps
import DolbyVision.Proofs.Stream.Automatic
import DolbyVision.Proofs.Stream.Buffered
import DolbyVision.Proofs.Stream.Compression
import DolbyVision.Proofs.Stream.Configured
import DolbyVision.Proofs.Stream.Damaged
import DolbyVision.Proofs.Stream.Extent
import DolbyVision.Proofs.Stream.Failure
import DolbyVision.Proofs.Stream.Groups
import DolbyVision.Proofs.Stream.Invariant
import DolbyVision.Proofs.Stream.Link
import DolbyVision.Proofs.Stream.Lockstep
import DolbyVision.Proofs.Stream.Lossless
import DolbyVision.Proofs.Stream.Outcomes
import DolbyVision.Proofs.Stream.Plan
import DolbyVision.Proofs.Stream.RandomAccess
import DolbyVision.Proofs.Stream.Received
import DolbyVision.Proofs.Stream.Recorded
import DolbyVision.Proofs.Stream.Regeneration
import DolbyVision.Proofs.Stream.Residual
import DolbyVision.Proofs.Stream.Safety
import DolbyVision.Proofs.Stream.Shared
import DolbyVision.Proofs.Stream.Size
import DolbyVision.Proofs.Stream.Standalone
import DolbyVision.Proofs.Stream.Stricter
import DolbyVision.Proofs.Stream.Transport
import DolbyVision.Report.Metadata
import DolbyVision.Report.Text
import DolbyVision.Rpu.Block
import DolbyVision.Rpu.BlockGroup
import DolbyVision.Rpu.Coefficient
import DolbyVision.Rpu.Header
import DolbyVision.Rpu.Mapping
import DolbyVision.Rpu.SourceColor
import DolbyVision.Stream.Basic
import DolbyVision.Stream.Configure
import DolbyVision.Stream.Decode
import DolbyVision.Stream.Encode
import DolbyVision.Stream.RoundTrip
import DolbyVision.Strictness
import DolbyVision.Video.Codec
import DolbyVision.Video.ColorDescription
import DolbyVision.Video.Frame
import DolbyVision.Video.PixelFormat
import DolbyVision.Proofs.Crc32.ShiftRegister
