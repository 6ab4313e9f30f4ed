/-
**Inspecting files.**

The files of a run hold consecutive RPUs of one stream.  Each is decoded and its metadata listed.  A
file that is no RPU of the stream is listed with the fault, and the run goes on; a file that cannot
be read or unwrapped ends the run.

Main definitions:

* `DolbyVision.CommandLine.Source` — a file with its contents;
* `DolbyVision.CommandLine.Listing` — what a run shows;
* `DolbyVision.CommandLine.inspect` — the run.
-/

import DolbyVision.CommandLine.Arguments
import DolbyVision.Report.Metadata
import DolbyVision.Stream.RoundTrip

set_option relaxedAutoImplicit false
set_option autoImplicit false

namespace DolbyVision.CommandLine

/-- A file, with its contents or the reason why it cannot be read. -/
structure Source where
  path : String
  contents : Except String (List UInt8)

/-- Why a run ends before its last file. -/
inductive Failure where
  /-- A file cannot be read, for the reason that the system gives. -/
  | unreadable (reason : String)
  /-- The contents of a file cannot be unwrapped. -/
  | wrapping (fault : Fault)
  deriving DecidableEq, Inhabited

/-- The wording of a failure. -/
def Failure.message : Failure → String
  | unreadable reason => reason
  | wrapping fault => fault.message

/-- What a run shows. -/
structure Listing where
  lines : List String := []
  /-- Whether every RPU was decoded and, where asked for, regenerated. -/
  success : Bool := true
  failure : Option Failure := none
  notes : List Note := []
  deriving DecidableEq, Inhabited

namespace Listing

/-- One listing after another. -/
def append (a b : Listing) : Listing where
  lines := a.lines ++ b.lines
  success := a.success && b.success
  failure := b.failure
  notes := a.notes ++ b.notes

/-- The exit code of a run: 2 if it ended early, 1 if a file was not in order, and 0 otherwise. -/
def exitCode (l : Listing) : Nat :=
  if l.failure.isSome then 2 else if l.success then 0 else 1

end Listing

/-- The name under which the stream of a run is reported. -/
def streamLabel : String := "rpu-info"

namespace Settings

/-- Whether notes of a severity are wanted. -/
def reports (s : Settings) : Severity → Bool
  | .error | .warn => true
  | .info => 1 ≤ s.verbosity
  | .debug => 2 ≤ s.verbosity
  | .trace => 3 ≤ s.verbosity

/-- What the decoder is told to look for. -/
def strictness (s : Settings) : Strictness :=
  let checksum := if s.has .verifyChecksum then Strictness.checksum else .none
  if s.has .strict then checksum.union (Strictness.compliant.union .explode) else checksum

/-- The stream before the first file.  T.35 messages imply the profile that uses them. -/
def initialStream (s : Settings) : Stream where
  configuration := {
    profile := s.profile.getD (if s.has .t35 then Stream.t35Profile else 0)
    compression := s.compression.getD .none }

/-- Takes the RPU out of the contents of a file. -/
def unwrap (s : Settings) (contents : List UInt8) : Except Fault (List UInt8) :=
  if s.has .t35 then T35.unwrap contents
  else if s.has .nal then .ok (Nal.unwrap contents)
  else .ok contents

end Settings

/-- What is shown when metadata was to be regenerated. -/
def roundTripListing : Except Fault Bool → Listing
  | .ok true => {}
  | .ok false => { lines := ["  Roundtrip: MISMATCH"], success := false }
  | .error fault => { lines := ["  Roundtrip: " ++ fault.message], success := false }

/-- What is shown of metadata. -/
def metadataListing (settings : Settings) (s : Stream) (m : Metadata) : Listing :=
  let checked := if settings.has .roundTrip then roundTripListing (s.regenerates m) else {}
  (Listing.append { lines := m.lines } checked).append { lines := [""] }

/-- What is shown of an RPU that was decoded, or of the fault that it has. -/
def outcomeListing (settings : Settings) (o : Outcome Stream Unit) : Listing :=
  match o.result, o.state.metadata with
  | .error fault, _ => { lines := ["  Error: " ++ fault.message], success := false }
  | .ok (), none => { lines := ["  No metadata"] }
  | .ok (), some m => metadataListing settings o.state m

/-- What is shown of files that hold the next RPUs of a stream. -/
def inspectFrom (settings : Settings) (s : Stream) : List Source → Listing
  | [] => {}
  | source :: rest =>
    let title : Listing := { lines := [source.path ++ ":"] }
    match source.contents with
    | .error reason => { title with failure := some (.unreadable reason) }
    | .ok contents =>
      match settings.unwrap contents with
      | .error fault => { title with failure := some (.wrapping fault) }
      | .ok data =>
        let o := s.decode data settings.strictness
        let shown := { outcomeListing settings o with notes := o.notes }
        (title.append shown).append (inspectFrom settings o.state rest)

/-- What a run over files shows. -/
def inspect (settings : Settings) (sources : List Source) : Listing :=
  inspectFrom settings settings.initialStream sources

end DolbyVision.CommandLine
