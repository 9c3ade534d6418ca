import ShaderNodes.Json.Basic
import ShaderNodes.Text.Citation

/-!
# Why a document is refused

A document is refused because its text ends too early, because it is not JSON, or because its
content is not what is wanted. Causes are data; their wording stands here and nowhere else.
-/

namespace ShaderNodes

namespace Json

/-- How 32-bit numbers are written. -/
def singleStyle : NumeralStyle := ⟨-6, 12, .plus, .toEven⟩

/-- How 64-bit numbers are written. -/
def doubleStyle : NumeralStyle := ⟨-5, 15, .plus, .toEven⟩

/-- What was found in place of what is wanted. -/
inductive Found
  | null
  | bool (b : Bool)
  | integer (i : Int)
  | real (x : Double)
  | string (s : String)
  | sequence
  | map
deriving DecidableEq

/-- What is wrong with a content. -/
inductive Mismatch
  | wrongKind (found : Found) (wanted : String)
  | outOfRange (i : Int) (wanted : String)
  | wrongLength (n : Nat) (wanted : String)
  | missingField (name : String)
  | duplicateField (name : String)
  | unknownVariant (name : String) (known : List String)
deriving DecidableEq

/-- Why a document is refused. -/
inductive Failure
  | ended
  | malformed
  | mismatch (m : Mismatch)
deriving DecidableEq

/-- An integer as text. -/
def intText (i : Int) : String := (if i < 0 then "-" else "") ++ natText i.natAbs

/-- What was found, in words. -/
def Found.text : Found → String
  | null => "null"
  | bool b => "boolean `" ++ (if b then "true" else "false") ++ "`"
  | integer i => "integer `" ++ intText i ++ "`"
  | real x => "floating point `" ++ (doubleStyle.numeral x).text ++ "`"
  | string s => "string " ++ cited s
  | sequence => "sequence"
  | map => "map"

/-- A list of names to choose from, in words. -/
def choiceText (names : List String) : String :=
  match names.map fun n => "`" ++ n ++ "`" with
  | [a] => a
  | [a, b] => a ++ " or " ++ b
  | quoted => "one of " ++ ", ".intercalate quoted

/-- What is wrong, in words. -/
def Mismatch.message : Mismatch → String
  | wrongKind found wanted => "invalid type: " ++ found.text ++ ", expected " ++ wanted
  | outOfRange i wanted => "invalid value: integer `" ++ intText i ++ "`, expected " ++ wanted
  | wrongLength n wanted => "invalid length " ++ natText n ++ ", expected " ++ wanted
  | missingField name => "missing field `" ++ name ++ "`"
  | duplicateField name => "duplicate field `" ++ name ++ "`"
  | unknownVariant name known =>
    "unknown variant `" ++ name ++ "`, expected " ++ choiceText known

/-- Why a document is refused, in words. -/
def Failure.message : Failure → String
  | ended => "json eof"
  | malformed => "json syntax"
  | mismatch m => "json data: " ++ m.message

/-- A cause as a failure. -/
def Cause.failure : Cause → Failure
  | ended => .ended
  | malformed => .malformed

/-- What a number is found to be. -/
def foundNumber : Number → Found
  | .natural n => .integer n
  | .negative n => .integer (-n)
  | .real x => .real x

/-- What a document is found to be, judged by how it begins. -/
def found : Json → Except Cause Found
  | .array _ => .ok .sequence
  | .object _ => .ok .map
  | .scalar .null => .ok .null
  | .scalar (.bool b) => .ok (.bool b)
  | .scalar (.number n) =>
    match n.number? with
    | some x => .ok (foundNumber x)
    | none => .error .malformed
  | .scalar (.string q) => q.text.map .string
  | .scalar .absent => .error .ended
  | .scalar .stray => .error .malformed
  | .scalar (.broken c _) => .error c

end Json

end ShaderNodes
