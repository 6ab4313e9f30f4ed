/-
**The text of values in a report.**

A report shows a value on one line: numbers in decimal, lists in brackets, and records by their name
and their fields in braces.

Main definitions:

* `DolbyVision.Report.unsigned`, `DolbyVision.Report.signed`, `DolbyVision.Report.flag` — single
  values;
* `DolbyVision.Report.list` — a list of values;
* `DolbyVision.Report.record` — a record;
* `DolbyVision.Report.padded`, `DolbyVision.Report.entry` — texts in columns.
-/

set_option relaxedAutoImplicit false
set_option autoImplicit false

namespace DolbyVision.Report

/-- The text of a natural number. -/
def unsigned (n : Nat) : String :=
  Nat.repr n

/-- The text of an integer, with a minus sign in front of a negative one. -/
def signed (z : Int) : String :=
  if z < 0 then "-" ++ unsigned z.natAbs else unsigned z.natAbs

/-- The text of a flag. -/
def flag : Bool → String
  | true => "true"
  | false => "false"

/-- Texts with a comma between each two. -/
def commaSeparated (items : List String) : String :=
  String.intercalate ", " items

/-- The text of a list. -/
def list (items : List String) : String :=
  "[" ++ commaSeparated items ++ "]"

/-- The text of a record: its name, and its fields in order. -/
def record (name : String) (fields : List (String × String)) : String :=
  name ++ " \x7b " ++ commaSeparated (fields.map fun f => f.1 ++ ": " ++ f.2) ++ " \x7d"

/-- The text of a record inside of a named case. -/
def case (name : String) (content : String) : String :=
  name ++ "(" ++ content ++ ")"

/-- A text filled up with spaces to a width. -/
def padded (width : Nat) (text : String) : String :=
  text ++ String.ofList (List.replicate (width - text.length) ' ')

/-- A line that gives a labelled value. -/
def entry (label value : String) : String :=
  "    " ++ padded 21 (label ++ ":") ++ value

end DolbyVision.Report
