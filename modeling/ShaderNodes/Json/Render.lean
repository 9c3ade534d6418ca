import ShaderNodes.Json.Basic
import ShaderNodes.Text.Citation

/-!
# Writing JSON text

A complete document as text, either without any blanks or laid out on lines of their own with two
blanks of indentation per level.
-/

namespace ShaderNodes

namespace Json

/-- A character inside a text. -/
def writtenChar (c : Char) : List Char :=
  if c = '"' || c = '\\' then ['\\', c]
  else if c = '\x08' then ['\\', 'b']
  else if c = '\x0c' then ['\\', 'f']
  else if c = '\n' then ['\\', 'n']
  else if c = '\r' then ['\\', 'r']
  else if c = '\t' then ['\\', 't']
  else if c.toNat < 0x20 then
    "\\u00".toList ++ (if c.toNat < 0x10 then ['0'] else []) ++ hexDigits c.toNat
  else [c]

/-- A text in quotation marks. -/
def writtenText (s : String) : List Char := '"' :: (s.toList.flatMap writtenChar ++ ['"'])

/-- A text as it was read; one that cannot be read is left empty. -/
def Quoted.chars (q : Quoted) : List Char :=
  match q.text with
  | .ok s => writtenText s
  | .error _ => writtenText ""

/-- A value without parts. What is not a value leaves no trace. -/
def Scalar.chars : Scalar → List Char
  | .null => "null".toList
  | .bool true => "true".toList
  | .bool false => "false".toList
  | .number n => n.chars
  | .string q => q.chars
  | .absent | .stray | .broken _ _ => []

/-- The layout of a text: without blanks, or on lines at a given level of indentation. -/
inductive Layout
  | compact
  | lines (level : Nat)

/-- The layout one level further in. -/
def Layout.deeper : Layout → Layout
  | .compact => .compact
  | .lines level => .lines (level + 1)

/-- What stands in front of an entry. -/
def Layout.gap : Layout → List Char
  | .compact => []
  | .lines level => '\n' :: List.replicate (2 * level) ' '

/-- What stands between a name and its value. -/
def Layout.colon : Layout → List Char
  | .compact => [':']
  | .lines _ => [':', ' ']

mutual

/-- The characters of a document. -/
def chars (l : Layout) : Json → List Char
  | .scalar s => s.chars
  | .array (.nil _) => ['[', ']']
  | .array (.cons j tail) =>
    '[' :: (l.deeper.gap ++ j.chars l.deeper ++ tail.chars l.deeper ++ l.gap ++ [']'])
  | .object (.nil _) => ['{', '}']
  | .object (.cons name j tail) =>
    '{' :: (l.deeper.gap ++ name.chars ++ l.colon ++ j.chars l.deeper ++ tail.chars l.deeper
      ++ l.gap ++ ['}'])

/-- The characters of further elements. -/
def Items.chars (l : Layout) : Items → List Char
  | .nil _ => []
  | .cons j tail => ',' :: (l.gap ++ j.chars l ++ tail.chars l)

/-- The characters of further members. -/
def Members.chars (l : Layout) : Members → List Char
  | .nil _ => []
  | .cons name j tail =>
    ',' :: (l.gap ++ name.chars ++ l.colon ++ j.chars l ++ tail.chars l)

end

/-- The text without blanks. -/
def compact (j : Json) : String := String.ofList (j.chars .compact)

/-- The text on lines of their own. -/
def pretty (j : Json) : String := String.ofList (j.chars (.lines 0))

end Json

end ShaderNodes
