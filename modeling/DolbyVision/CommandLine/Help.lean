/-
**The help of the command line.**

Main definitions:

* `DolbyVision.CommandLine.helpLines` — the lines that are shown when help is asked for;
* `DolbyVision.CommandLine.versionLine` — the line that is shown when the version is asked for.
-/

import DolbyVision.CommandLine.Arguments
import DolbyVision.Report.Text

set_option relaxedAutoImplicit false
set_option autoImplicit false

namespace DolbyVision.CommandLine

/-- The version of the program. -/
def versionText : String := "0.1.0"

/-- The line that is shown when the version is asked for. -/
def versionLine (program : String) : String :=
  program ++ " " ++ versionText

/-- What is shown of an option: its spellings and what it is for. -/
structure HelpEntry where
  spelling : String
  purpose : String
  deriving DecidableEq, Inhabited

/-- What is shown of the values of an option. -/
def valuesText (default : String) (values : List String) : String :=
  " [default: " ++ default ++ "] [possible values: " ++ String.intercalate ", " values ++ "]"

/-- The options, in the order in which they are shown. -/
def helpEntries : List HelpEntry := [
  ⟨"    --profile <N>", "The Dolby Vision profile of the stream (guessed if not set)"⟩,
  ⟨"    --compression <COMPRESSION>",
    "The metadata compression of the stream" ++
      valuesText "none" (compressionNames.map Prod.fst)⟩,
  ⟨"    --nal", "Inputs are complete NAL units with emulation prevention"⟩,
  ⟨"    --t35", "Inputs are ITU-T T.35 payloads (AV1)"⟩,
  ⟨"    --verify-crc", "Verify the CRC of each RPU"⟩,
  ⟨"    --strict", "Reject RPUs that are decodable but non-compliant"⟩,
  ⟨"    --roundtrip",
    "Regenerate each RPU from its metadata and verify it parses back identically"⟩,
  ⟨"-v...", "Increase verbosity"⟩,
  ⟨"-h, --help", "Print help"⟩,
  ⟨"-V, --version", "Print version"⟩]

/-- The column at which the purpose of an option starts. -/
def purposeColumn : Nat := 35

/-- The line of an option. -/
def HelpEntry.line (e : HelpEntry) : String :=
  Report.padded purposeColumn ("  " ++ e.spelling) ++ e.purpose

/-- The lines that are shown when help is asked for. -/
def helpLines (program : String) : List String :=
  ["Print the contents of Dolby Vision RPUs. Files are treated as consecutive RPUs of one stream",
    "",
    "Usage: " ++ program ++ " [OPTIONS] <FILE>...",
    "",
    "Arguments:",
    "  <FILE>...  RPU files, in stream order",
    "",
    "Options:"] ++
  helpEntries.map HelpEntry.line

end DolbyVision.CommandLine
