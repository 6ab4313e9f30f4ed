/-
**Configuring an encoder.**

Before the first RPU an encoder settles the profile, the level and the compatibility of the stream
from its parameters and the metadata of the source, and adds the decoder configuration record to the
parameters.  If no metadata is to be written, the configuration is cleared and the record removed.

Main definitions:

* `DolbyVision.Parameters.candidateProfile`, `DolbyVision.Parameters.compatibility` — what the codec
  and the color description suggest;
* `DolbyVision.Stream.select` — the configuration of a stream, or nothing if there is none to be
  written;
* `DolbyVision.Stream.configure` — the whole operation.
-/

import DolbyVision.Configuration.Level
import DolbyVision.Strictness
import DolbyVision.Stream.Basic
import DolbyVision.Video.Codec

set_option relaxedAutoImplicit false
set_option autoImplicit false

namespace DolbyVision

/-! ### What parameters suggest -/

namespace Parameters

/-- The profile that the codec suggests, for a source with a given header. -/
def candidateProfile (p : Parameters) (header : Option Header) : Option UInt8 :=
  if p.codec = .av1 then some 10
  else if p.codec = .h264 then some 9
  else if p.codec = .hevc then
    match header with
    | some h => some h.guessedProfile
    | none =>
      if p.matrix = .iptC2 ∨ (p.matrix = .unspecified ∧ p.transfer = .unspecified) then some 5
      else some 8
  else none

/-- The pixel format that a profile requires. -/
def requiredFormat (profile : UInt8) : PixelFormat :=
  if profile = 9 then .yuv420p else .yuv420p10

/-- The number of the base layer's compatibility that the color description implies. -/
def colorCompatibility (p : Parameters) : Option UInt8 :=
  match p.matrix, p.primaries, p.transfer with
  | .bt2020Ncl, .bt2020, .pq => some 1
  | .bt2020Ncl, .bt2020, .hlg => some 4
  | .bt709, .bt709, .bt709 => some 2
  | _, _, _ => none

/-- The number of the base layer's compatibility in a stream of a given profile. -/
def compatibility (p : Parameters) (profile : UInt8) (header : Option Header) : Option UInt8 :=
  if profile = 5 then some 0
  else if profile = 10 ∧ header.any Header.baseLayerFullRange then some 0
  else if profile = 8 ∨ profile = 10 then p.colorCompatibility
  else none

/-- The number of luma samples of a picture. -/
def pictureSamples (p : Parameters) : Nat :=
  (p.width.getD 0).toNat * (p.height.getD 0).toNat

/-- The rate that is assumed if the frame rate is not known. -/
def assumedRate : Nat := 25

/-- The number of luma samples per second. -/
def samplesPerSecond (p : Parameters) : Nat :=
  match p.frameRate with
  | some rate =>
    if rate.isProper then rate.scale p.pictureSamples else p.pictureSamples * assumedRate
  | none => p.pictureSamples * assumedRate

end Parameters

/-! ### Selection -/

/-- A computation that reports notes and may fail. -/
abbrev Selection := EStateM Fault (Array Note)

namespace Selection

/-- Reports a note. -/
def report (note : Note) : Selection Unit :=
  modify fun notes => notes.push note

/-- Reports a note and fails. -/
def fail {α : Type} (note : Note) (fault : Fault) : Selection α := do
  report note
  throw fault

end Selection

namespace Stream

/-- Checks that metadata of a stream of a given profile may be compressed. -/
def checkCompression (profile : UInt8) (compression : Compression) (compliance : Compliance) :
    Selection Unit := do
  if compression ≠ .none then
    if profile < 8 ∧ .unofficial < compliance then
      Selection.fail .compressionNeedsProfile8 (.rejected .compressionNeedsProfile8)
    else if compression = .extended ∧ .experimental < compliance then
      Selection.fail .extendedCompression (.rejected .extendedCompression)
    else if profile = 8 then
      Selection.report .compressionInProfile8

/-- The level of a stream.  A stream beyond all levels gets the last one, unless the standards are
to be followed strictly. -/
def selectLevel (p : Parameters) (compliance : Compliance) : Selection UInt8 := do
  let width := (p.width.getD 0).toNat
  let samples := p.samplesPerSecond
  match levelFor width samples with
  | some level => return UInt8.ofNat level
  | none =>
    if .strict ≤ compliance then
      Selection.fail (.exceedsLevels samples width) (.invalidArgument .exceedsLevels)
    else
      Selection.report (.exceedsLevelsTolerated samples width)
      return UInt8.ofNat levels.length

/-- The configuration of a stream whose profile and compatibility are settled. -/
def selectConfiguration (p : Parameters) (profile compatibilityId : UInt8)
    (compression : Compression) (compliance : Compliance) : Selection Configuration := do
  checkCompression profile compression compliance
  let level ← selectLevel p compliance
  Selection.report (.configured profile level compatibilityId)
  return {
    versionMajor := 1, versionMinor := 0, profile, level, rpuPresent := true
    enhancementLayerPresent := false, baseLayerPresent := true, compatibilityId, compression }

/-- The configuration of a stream, or nothing if no metadata is to be written.  What stands in the
way of metadata is a fault only if metadata is asked for outright. -/
def select (s : Stream) (p : Parameters) (header : Option Header) (compression : Compression)
    (compliance : Compliance) : Selection (Option Configuration) := do
  if s.enable = .off ∨ (s.enable = .auto ∧ header.isNone) then
    return none
  if compression = .reserved then
    throw (.invalidArgument .reservedCompression)
  match p.candidateProfile header with
  | none => throw (.invalidArgument .unsuitableCodec)
  | some candidate =>
    let suits :=
      compliance ≤ .unofficial ∨ p.pixelFormat = some (Parameters.requiredFormat candidate)
    -- No profile takes a format that does not suit, so there is no compatibility for it either.
    let profile := if suits then candidate else 0
    if profile = 4 ∨ profile = 7 then
      if s.enable = .on then
        Selection.fail .enhancementLayers (.unsupported .enhancementLayers)
      else
        return none
    match p.compatibility profile header with
    | none =>
      if s.enable = .on then
        Selection.fail .unknownCompatibility (.invalidArgument .unknownCompatibility)
      else
        return none
    | some compatibilityId =>
      some <$> selectConfiguration p profile compatibilityId compression compliance

/-- The parameters of a stream with a given configuration, or without one. -/
def recordIn (p : Parameters) : Option Configuration → Except Fault Parameters
  | some c => return p.replaceExtraData ⟨.dolbyVision, ← c.write⟩
  | none => return p.removeExtraData .dolbyVision

/-- Settles the configuration of a stream and records it in the parameters. -/
def configure (s : Stream) (p : Parameters) (m : Option Metadata) (compression : Compression)
    (compliance : Compliance) : Outcome (Stream × Parameters) Unit :=
  let settled : Selection (Option Configuration × Parameters) := do
    let c ← s.select p (m.map Metadata.header) compression compliance
    return (c, ← recordIn p c)
  match settled #[] with
  | .ok (c, p) notes => ⟨.ok (), ({ s with configuration := c.getD {} }, p), notes.toList⟩
  | .error fault notes => ⟨.error fault, (s, p), notes.toList⟩

/-- The metadata of the source frames: the first that their side data holds. -/
def sourceMetadata (sideData : List SideData) : Option Metadata :=
  sideData.findSome? SideData.metadata?

/-- Settles the configuration of a stream without compression from the side data of the source. -/
def configureFromSource (s : Stream) (p : Parameters) (sideData : List SideData)
    (compliance : Compliance) : Outcome (Stream × Parameters) Unit :=
  s.configure p (sourceMetadata sideData) .none compliance

end Stream

end DolbyVision
