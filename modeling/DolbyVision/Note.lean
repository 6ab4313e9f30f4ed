/-
**Notes.**

Decoding and encoding report what they meet on the way: a checksum that does not match, a block that
is not understood, the level that was chosen.  A report is a `Note`; it never changes a result.

Main definitions:

* `DolbyVision.Severity` — how serious a note is;
* `DolbyVision.Note` — what is reported;
* `DolbyVision.Note.severity`, `DolbyVision.Note.text` — the rank of a note and its wording, for the
  stream of a given label.
-/

set_option relaxedAutoImplicit false
set_option autoImplicit false

namespace DolbyVision

/-- How serious a note is. -/
inductive Severity where
  | error
  | warn
  | info
  | debug
  | trace
  deriving DecidableEq, Inhabited

/-- The name of a severity. -/
def Severity.name : Severity → String
  | error => "error"
  | warn => "warn"
  | info => "info"
  | debug => "debug"
  | trace => "trace"

/-- Something worth reporting about a stream. -/
inductive Note where
  /-- The checksum of an RPU is not the one that the RPU states. -/
  | checksumMismatch (computed stated : UInt32)
  | unrecognizedRpuType (rpuType : UInt8)
  | residualInProfile5
  | unknownPreviousId (id : Nat)
  | staticBlockInCompressed (level : UInt8)
  | tooManyStaticBlocks
  | tooManyDynamicBlocks
  | unknownBlock (group : Nat) (level : UInt8)
  | unknownRecordVersion (version : UInt8)
  /-- An RPU was written, of that many bytes before it is wrapped. -/
  | generated (size : Nat)
  | enhancementLayers
  | unknownCompatibility
  | compressionNeedsProfile8
  | extendedCompression
  | compressionInProfile8
  | exceedsLevels (samples width : Nat)
  | exceedsLevelsTolerated (samples width : Nat)
  | configured (profile level compatibility : UInt8)
  deriving DecidableEq, Inhabited

/-- A number in hexadecimal, with at least `digits` digits. -/
def hexDigits (digits n : Nat) : String :=
  let text := Nat.toDigits 16 n
  String.ofList (List.replicate (digits - text.length) '0' ++ text)

namespace Note

/-- The severity of a note. -/
def severity : Note → Severity
  | checksumMismatch .. | residualInProfile5 | unknownPreviousId _ | enhancementLayers
  | unknownCompatibility | compressionNeedsProfile8 | extendedCompression | exceedsLevels .. =>
    .error
  | unrecognizedRpuType _ | staticBlockInCompressed _ | tooManyStaticBlocks | tooManyDynamicBlocks
  | unknownBlock .. | unknownRecordVersion _ | compressionInProfile8 | exceedsLevelsTolerated .. =>
    .warn
  | configured .. => .debug
  | generated _ => .trace

/-- What a note says about levels that are exceeded. -/
def levelText (samples width : Nat) : String :=
  "pps (" ++ toString samples ++ ") and width (" ++ toString width ++ ") exceed all levels"

/-- The wording of a note, without the label of its stream. -/
def body : Note → String
  | checksumMismatch computed stated =>
    "rpu crc mismatch: " ++ hexDigits 8 computed.toNat ++ " != " ++ hexDigits 8 stated.toNat
  | unrecognizedRpuType t => "unrecognized rpu type " ++ toString t.toNat ++ ", ignoring"
  | residualInProfile5 => "profile 5 rpu uses nlq"
  | unknownPreviousId id => "unknown previous rpu id " ++ toString id
  | staticBlockInCompressed level =>
    "compressed dm contains static extension block level " ++ toString level.toNat
  | tooManyStaticBlocks => "too many static extension blocks"
  | tooManyDynamicBlocks => "too many dynamic extension blocks"
  | unknownBlock group level =>
    "unknown dm v" ++ toString group ++ " extension block level " ++ toString level.toNat
  | unknownRecordVersion version =>
    "unknown configuration record version " ++ toString version.toNat
  | generated size => "generated rpu of " ++ toString size ++ " bytes"
  | enhancementLayers => "coding of enhancement layers is unsupported"
  | unknownCompatibility =>
    "dolby vision enabled, but the profile and compatibility mode are unknown, " ++
      "check the color description and pixel format"
  | compressionNeedsProfile8 => "metadata compression requires profile 8 or later"
  | extendedCompression => "extended metadata compression is experimental"
  | compressionInProfile8 => "metadata compression for profile 8 is unsupported by many devices"
  | exceedsLevels samples width => levelText samples width
  | exceedsLevelsTolerated samples width =>
    levelText samples width ++ ", the stream may be non-conforming"
  | configured profile level compatibility =>
    "configured profile " ++ toString profile.toNat ++ " level " ++ toString level.toNat ++
      " compatibility " ++ toString compatibility.toNat

/-- Whether a note is about a record outside of any stream. -/
def isAboutRecord : Note → Bool
  | unknownRecordVersion _ => true
  | _ => false

/-- The wording of a note about the stream of a given label. -/
def text (label : String) (note : Note) : String :=
  (if note.isAboutRecord then "common (dovi)" else label) ++ ": " ++ note.body

end Note

end DolbyVision
