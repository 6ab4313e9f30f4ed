/-
**The arguments of the command line.**

Arguments are read from left to right.  An argument that starts with a hyphen is an option, unless
it is a hyphen alone or follows the argument `--`; all others are files.  The value of an option
follows it, or is attached to its name by an equals sign.  A request for help or for the version
ends the reading, so that what follows it does not matter.

Main definitions:

* `DolbyVision.CommandLine.Settings` — what a run is asked to do;
* `DolbyVision.CommandLine.UsageError` — what can be wrong with arguments;
* `DolbyVision.CommandLine.Request` — what arguments ask for;
* `DolbyVision.CommandLine.request` — reading the arguments.
-/

import DolbyVision.Configuration.Record

set_option relaxedAutoImplicit false
set_option autoImplicit false

namespace DolbyVision.CommandLine

/-- An option without a value. -/
inductive Switch where
  | nal
  | t35
  | verifyChecksum
  | strict
  | roundTrip
  deriving DecidableEq, Inhabited

/-- An option with a value. -/
inductive Parameter where
  | profile
  | compression
  deriving DecidableEq, Inhabited

/-- What an argument that starts with a hyphen stands for. -/
inductive Keyword where
  | switch (s : Switch)
  | parameter (p : Parameter)
  | verbose
  | help
  | version
  deriving DecidableEq, Inhabited

/-- The name of an option, behind its hyphens. -/
def Switch.name : Switch → String
  | nal => "nal"
  | t35 => "t35"
  | verifyChecksum => "verify-crc"
  | strict => "strict"
  | roundTrip => "roundtrip"

/-- The name of an option, behind its hyphens. -/
def Parameter.name : Parameter → String
  | profile => "profile"
  | compression => "compression"

/-- All options without a value. -/
def switches : List Switch :=
  [.nal, .t35, .verifyChecksum, .strict, .roundTrip]

/-- All options with a value. -/
def parameters : List Parameter :=
  [.profile, .compression]

/-- What can be wrong with arguments. -/
inductive UsageError where
  | unknownOption (argument : String)
  | unexpectedValue (argument : String)
  | missingValue (p : Parameter)
  | invalidValue (p : Parameter) (value : String)
  | repeated (name : String)
  | conflict (a b : Switch)
  | emptyFileName
  | missingFile
  deriving DecidableEq, Inhabited

/-- The exit code of a run with wrong arguments. -/
def usageExitCode : UInt32 := 2

/-- The wording of a usage error. -/
def UsageError.message : UsageError → String
  | unknownOption argument => "unexpected argument: " ++ argument
  | unexpectedValue argument => "unexpected value: " ++ argument
  | missingValue p => "a value is required: --" ++ p.name
  | invalidValue p value => "invalid value for --" ++ p.name ++ ": " ++ value
  | repeated name => "the option cannot be used more than once: --" ++ name
  | conflict a b => "--" ++ a.name ++ " cannot be used together with --" ++ b.name
  | emptyFileName => "a file name is empty"
  | missingFile => "a file is required"

/-- What a run is asked to do. -/
structure Settings where
  /-- The files, in the order of the stream. -/
  files : List String := []
  profile : Option UInt8 := none
  compression : Option Compression := none
  /-- The options without a value that were given. -/
  given : List Switch := []
  /-- How many notes are wanted. -/
  verbosity : Nat := 0
  deriving DecidableEq, Inhabited

/-- Why the reading of arguments ends early. -/
inductive Stop where
  | usage (e : UsageError)
  | help
  | version
  deriving DecidableEq, Inhabited

/-- What arguments ask for. -/
inductive Request where
  | inspect (s : Settings)
  | help
  | version
  | refuse (e : UsageError)
  deriving DecidableEq, Inhabited

/-! ### Values -/

/-- The number that decimal digits stand for, if there are any and nothing else. -/
def decimal? (digits : List Char) : Option Nat :=
  if digits.isEmpty || !digits.all Char.isDigit then none
  else some (digits.foldl (fun n d => 10 * n + (d.toNat - '0'.toNat)) 0)

/-- A profile is a number of at most 255 and may have a sign. -/
def profile? (value : String) : Option UInt8 :=
  let number :=
    match value.toList with
    | '+' :: digits => decimal? digits
    | '-' :: digits => (decimal? digits).filter (· == 0)
    | digits => decimal? digits
  (number.filter (· ≤ 255)).map UInt8.ofNat

/-- The names of the degrees of compression that can be asked for. -/
def compressionNames : List (String × Compression) :=
  [("none", .none), ("limited", .limited), ("extended", .extended)]

namespace Settings

/-- Whether an option was given. -/
def has (s : Settings) (option : Switch) : Bool :=
  s.given.contains option

/-- Adds files. -/
def addFiles (s : Settings) (files : List String) : Except Stop Settings :=
  if files.contains "" then .error (.usage .emptyFileName)
  else .ok { s with files := s.files ++ files }

/-- Adds an option without a value, once. -/
def turnOn (s : Settings) (option : Switch) : Except Stop Settings :=
  if s.has option then .error (.usage (.repeated option.name))
  else .ok { s with given := option :: s.given }

/-- Gives an option its value, once. -/
def assign (s : Settings) (p : Parameter) (value : String) : Except Stop Settings :=
  let invalid := Stop.usage (.invalidValue p value)
  match p with
  | .profile =>
    match s.profile, profile? value with
    | some _, _ => .error (.usage (.repeated p.name))
    | none, none => .error invalid
    | none, some profile => .ok { s with profile := some profile }
  | .compression =>
    match s.compression, compressionNames.lookup value with
    | some _, _ => .error (.usage (.repeated p.name))
    | none, none => .error invalid
    | none, some compression => .ok { s with compression := some compression }

end Settings

/-! ### Arguments -/

/-- Whether an argument is an option and cannot be the value of one. -/
def isOption (argument : String) : Bool :=
  match argument.toList with
  | '-' :: _ :: _ => true
  | _ => false

/-- What the name of a long option stands for. -/
def keyword? (name : String) : Option Keyword :=
  if name = "help" then some .help
  else if name = "version" then some .version
  else
    ((switches.find? fun s => s.name == name).map Keyword.switch).or
      ((parameters.find? fun p => p.name == name).map Keyword.parameter)

/-- What a letter behind a single hyphen stands for. -/
def letter? : Char → Option Keyword
  | 'v' => some .verbose
  | 'h' => some .help
  | 'V' => some .version
  | _ => none

/-- Takes an option without an attached value into account.  The result names the option whose value
has to follow, if there is one. -/
def Settings.accept (s : Settings) : Keyword → Except Stop (Settings × Option Parameter)
  | .switch option => return (← s.turnOn option, none)
  | .parameter p => return (s, some p)
  | .verbose => return ({ s with verbosity := s.verbosity + 1 }, none)
  | .help => .error .help
  | .version => .error .version

/-- Takes a long option into account, without its hyphens. -/
def Settings.acceptLong (s : Settings) (argument : List Char) :
    Except Stop (Settings × Option Parameter) :=
  let name := String.ofList (argument.takeWhile (· != '='))
  match keyword? name, argument.dropWhile (· != '=') with
  | none, _ => .error (.usage (.unknownOption name))
  | some keyword, [] => s.accept keyword
  | some (.parameter p), _ :: value => return (← s.assign p (String.ofList value), none)
  | some _, _ :: value => .error (.usage (.unexpectedValue (String.ofList value)))

/-- Takes letters behind a single hyphen into account. -/
def Settings.acceptLetters (s : Settings) : List Char → Except Stop Settings
  | [] => return s
  | c :: letters => do
    match letter? c with
    | none => .error (.usage (.unknownOption (String.ofList ['-', c])))
    | some keyword => (← s.accept keyword).1.acceptLetters letters

/-- Takes an argument other than `--` into account. -/
def Settings.take (s : Settings) (argument : String) :
    Except Stop (Settings × Option Parameter) :=
  match argument.toList with
  | '-' :: '-' :: long => s.acceptLong long
  | '-' :: c :: letters => return (← s.acceptLetters (c :: letters), none)
  | _ => return (← s.addFiles [argument], none)

/-- Reads arguments, of which the first may have to be the value of an option. -/
def readArguments (s : Settings) : Option Parameter → List String → Except Stop Settings
  | none, [] => return s
  | some p, [] => .error (.usage (.missingValue p))
  | some p, argument :: rest => do
    if isOption argument then
      throw (.usage (.missingValue p))
    readArguments (← s.assign p argument) none rest
  | none, argument :: rest => do
    if argument = "--" then
      s.addFiles rest
    else
      let (s, awaited) ← s.take argument
      readArguments s awaited rest

/-- Checks settings as a whole. -/
def Settings.check (s : Settings) : Except Stop Settings :=
  if s.has .nal && s.has .t35 then .error (.usage (.conflict .nal .t35))
  else if s.files.isEmpty then .error (.usage .missingFile)
  else .ok s

/-- What arguments ask for. -/
def request (arguments : List String) : Request :=
  match readArguments {} none arguments >>= Settings.check with
  | .ok s => .inspect s
  | .error .help => .help
  | .error .version => .version
  | .error (.usage e) => .refuse e

end DolbyVision.CommandLine
