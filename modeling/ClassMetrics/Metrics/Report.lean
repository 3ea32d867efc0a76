import ClassMetrics.Decimal.Text
import ClassMetrics.Metrics.Summary

/-!
The report: a summary as a JSON object, one member to a line. Floats that are not finite are `null`.
-/

namespace ClassMetrics.Report

/-- The value of a member. -/
inductive Value where
  | text (value : String)
  | integer (value : Int)
  | float (value : Float)

/-- How floats are written: without an exponent from 0.00001 on, below 10^16. -/
def floatStyle : Decimal.FloatStyle :=
  ⟨-5, 15, true, .even, "null", "null"⟩

/-- A character as it stands in a JSON string. Only what has to be escaped is. -/
def escaped (char : Char) : List Char :=
  match char with
  | '"' => ['\\', '"']
  | '\\' => ['\\', '\\']
  | '\x08' => ['\\', 'b']
  | '\t' => ['\\', 't']
  | '\n' => ['\\', 'n']
  | '\x0c' => ['\\', 'f']
  | '\r' => ['\\', 'r']
  | _ =>
      if char.toNat < 0x20 then
        ['\\', 'u', '0', '0', Nat.digitChar (char.toNat / 16), Nat.digitChar (char.toNat % 16)]
      else [char]

def quotedText (text : String) : List Char :=
  '"' :: text.toList.flatMap escaped ++ ['"']

def integerText : Int → List Char
  | .ofNat value => Nat.toDigits 10 value
  | .negSucc value => '-' :: Nat.toDigits 10 (value + 1)

/-- A float, or `null` for one that is not finite. -/
def floatText (value : Float) : List Char :=
  match Decimal.double.value value.toBits.toNat with
  | .notANumber | .infinite _ => "null".toList
  | finite => (floatStyle.text finite).toList

def Value.render : Value → List Char
  | .text value => quotedText value
  | .integer value => integerText value
  | .float value => floatText value

/-- The members of the report, in order. -/
def members (summary : Summary) : List (String × Value) :=
  [("archiveName", .text summary.archiveName), ("fieldsAverage", .float summary.fieldsAverage),
    ("A", .integer summary.assignments.toNat), ("B", .integer summary.branches.toNat),
    ("C", .integer summary.conditions.toNat), ("ABC", .float summary.abcMagnitude),
    ("maxInheritanceDepth", .integer summary.maxDepth),
    ("averageInheritanceDepth", .float summary.averageDepth),
    ("averageOverriddenMethods", .float summary.averageOverrides),
    ("methods", .integer summary.methods.toNat),
    ("overridenMethods", .integer summary.overrides.toNat)]

def indent : List Char := "    ".toList

def memberText (name : String) (value : Value) : List Char :=
  indent ++ quotedText name ++ ": ".toList ++ value.render

/-- An object with one member to a line. -/
def objectText (members : List (String × Value)) : List Char :=
  let lines := members.map fun (name, value) => memberText name value
  '\x7b' :: '\n' :: (lines.intersperse ",\n".toList).flatten ++ ['\n', '\x7d']

/-- The text of a summary. -/
def render (summary : Summary) : String :=
  String.ofList (objectText (members summary))

end ClassMetrics.Report
