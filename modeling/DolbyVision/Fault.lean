/-
**What can go wrong.**

Every operation of the library that can fail says why with a value of `Fault`.  A fault names its
class — the input ran out, the input breaks the format, the input uses a feature that is not
supported, the requested strictness rejects it, the caller passed something invalid, a limit was
reached — and the cause inside that class.  The wording of a fault is decided in one place,
`Fault.message`, so no other module holds an error text.

One class is set apart.  A `Fault.defect` stands for arithmetic or indexing that leaves its range:
no input is meant to reach it, and the operations of `DolbyVision.Checked` raise it where a
difference, a sum or a shift would otherwise go wrong silently.

Main definitions:

* `DolbyVision.Cause` — the causes of the classes that carry one;
* `DolbyVision.Fault` — a class together with its cause;
* `DolbyVision.Fault.message` — the text shown for a fault;
* `DolbyVision.Fault.hasSource` — whether a fault wraps an error of the reading layer.
-/

set_option relaxedAutoImplicit false
set_option autoImplicit false

namespace DolbyVision

/-- The cause of a fault, apart from its class.  The same cause can occur in two classes: a bit
depth outside of its range is a malformed stream when it is read and an invalid argument when it
is written. -/
inductive Cause where
  | shortConfigurationRecord
  | emdfHeader
  | emdfPayloadSize
  | emdfPayloadOverrun
  | emdfProtection
  | missingNalPrefix
  | missingTerminator
  | checksumMismatch
  | shortT35Message
  | foreignT35Message
  | shortLevel8Block
  | rpuId
  | coefficientDenominator
  | coefficientType
  | bitDepth
  | polynomialOrder
  | mmrOrder
  | mappingMethod
  | tooManyPivots
  | nlqMethod
  | signalBitDepth
  | residualInProfile5
  | unknownPreviousId
  | compressedWithoutPrevious
  | sceneRefreshFlag
  | staticBlockInCompressed
  | blockExceedsRpu
  | blockOverrun
  | rpuType
  | missingSequenceInfo
  | rpuFormat
  | linearInterpolation
  | mismatchedColorIds
  | enhancementLayers
  | reservedBits
  | compressionForbiddenByProfile
  | reuseWithoutCompression
  | compressionNeedsProfile8
  | extendedCompression
  | reshapingCoefficientRange
  | nlqCoefficientRange
  | pivots
  | mappingId
  | reshapingCurve
  | pieceOrder
  | partitions
  | nlqMismatch
  | nlqOffset
  | noProfile
  | colorId
  | reservedCompression
  | unsuitableCodec
  | unknownCompatibility
  | exceedsLevels
  | tooManyStaticBlocks
  | tooManyDynamicBlocks
  | rpuTooLargeForEmdf
  | described (text : String)
  deriving DecidableEq, Inhabited

/-- The wording of a cause. -/
def Cause.text : Cause → String
  | shortConfigurationRecord => "common (dovi): configuration record is too short"
  | emdfHeader => "dovi: invalid emdf header"
  | emdfPayloadSize => "dovi: invalid emdf payload size"
  | emdfPayloadOverrun => "dovi: emdf payload exceeds the buffer"
  | emdfProtection => "dovi: invalid emdf protection"
  | missingNalPrefix => "dovi: missing rpu nal prefix"
  | missingTerminator => "dovi: missing rpu terminator"
  | checksumMismatch => "dovi: rpu crc mismatch"
  | shortT35Message => "dovi: t.35 message is too short"
  | foreignT35Message => "dovi: t.35 message is not a dolby vision rpu"
  | shortLevel8Block => "dovi: level 8 extension block is too short"
  | rpuId => "dovi: invalid rpu id"
  | coefficientDenominator => "dovi: invalid coef_log2_denom"
  | coefficientType => "dovi: invalid coef_data_type"
  | bitDepth => "dovi: invalid bit depth"
  | polynomialOrder => "dovi: invalid polynomial order"
  | mmrOrder => "dovi: invalid mmr order"
  | mappingMethod => "dovi: invalid mapping idc"
  | tooManyPivots => "dovi: too many pivots"
  | nlqMethod => "dovi: invalid nlq method"
  | signalBitDepth => "dovi: invalid signal bit depth"
  | residualInProfile5 => "dovi: profile 5 rpu uses nlq"
  | unknownPreviousId => "dovi: unknown previous rpu id"
  | compressedWithoutPrevious => "dovi: compressed dm without previous dm"
  | sceneRefreshFlag => "dovi: invalid scene refresh flag"
  | staticBlockInCompressed => "dovi: static extension block in compressed dm"
  | blockExceedsRpu => "dovi: extension block exceeds the rpu"
  | blockOverrun => "dovi: extension block overrun"
  | rpuType => "dovi: unsupported rpu type"
  | missingSequenceInfo => "dovi: rpu without vdr sequence info"
  | rpuFormat => "dovi: unsupported rpu format"
  | linearInterpolation => "dovi: linear interpolation"
  | mismatchedColorIds => "dovi: mismatched affected and current dm ids"
  | enhancementLayers => "dovi: enhancement layers"
  | reservedBits => "dovi: reserved bits set"
  | compressionForbiddenByProfile => "dovi: profile does not permit metadata compression"
  | reuseWithoutCompression => "dovi: rpu reuses a mapping without metadata compression"
  | compressionNeedsProfile8 => "dovi: metadata compression requires profile 8 or later"
  | extendedCompression => "dovi: extended metadata compression is experimental"
  | reshapingCoefficientRange => "dovi: reshaping coefficient out of range"
  | nlqCoefficientRange => "dovi: nlq coefficient out of range"
  | pivots => "dovi: invalid pivots"
  | mappingId => "dovi: invalid vdr_rpu_id"
  | reshapingCurve => "dovi: invalid reshaping curve"
  | pieceOrder => "dovi: invalid reshaping piece order"
  | partitions => "dovi: invalid number of partitions"
  | nlqMismatch => "dovi: nlq method does not match the header"
  | nlqOffset => "dovi: invalid nlq offset"
  | noProfile => "dovi: no profile configured"
  | colorId => "dovi: invalid dm_metadata_id"
  | reservedCompression => "dovi: reserved metadata compression"
  | unsuitableCodec => "dovi: codec cannot carry dolby vision"
  | unknownCompatibility => "dovi: unknown profile or compatibility mode"
  | exceedsLevels => "dovi: pps and width exceed all levels"
  | tooManyStaticBlocks => "dovi: too many static extension blocks"
  | tooManyDynamicBlocks => "dovi: too many dynamic extension blocks"
  | rpuTooLargeForEmdf => "dovi: rpu is too large for an emdf container"
  | described text => text

/-- The ways in which arithmetic or indexing can leave its range. -/
inductive Defect where
  | negativeDifference
  | overflow
  | wideShift
  | index
  deriving DecidableEq, Inhabited

/-- The reason why an operation failed. -/
inductive Fault where
  /-- The bits ran out in the middle of a read. -/
  | unexpectedEnd
  /-- An Exp-Golomb code announced 32 or more suffix bits. -/
  | codeTooLong
  /-- The source of bytes ended. -/
  | endOfStream
  /-- The stream breaks the format. -/
  | malformed (cause : Cause)
  /-- The stream uses a feature that is not supported. -/
  | unsupported (cause : Cause)
  /-- The stream is well formed but the requested strictness rejects it. -/
  | rejected (cause : Cause)
  /-- An argument or a configuration does not suit the requested operation. -/
  | invalidArgument (cause : Cause)
  /-- A limit was reached. -/
  | limit (cause : Cause)
  /-- A value left its range, which no input is meant to bring about. -/
  | defect (what : Defect)
  deriving DecidableEq, Inhabited

namespace Fault

/-- The text shown for a fault: the class of the fault in front of its cause, or the cause alone if
the fault comes from the reading layer. -/
def message : Fault → String
  | unexpectedEnd => "unexpected end of bitstream"
  | codeTooLong => "exp-golomb code exceeds 32 bits"
  | endOfStream => "end of stream"
  | malformed c => "malformed stream: " ++ c.text
  | unsupported c => "unsupported feature: " ++ c.text
  | rejected c => "rejected by strictness: " ++ c.text
  | invalidArgument c => "invalid argument: " ++ c.text
  | limit c => "limit reached: " ++ c.text
  | defect _ => "value out of range"

/-- Whether a fault wraps an error of the reading layer. -/
def hasSource : Fault → Bool
  | unexpectedEnd | codeTooLong | endOfStream => true
  | _ => false

end Fault

end DolbyVision
