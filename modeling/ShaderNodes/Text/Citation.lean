import ShaderNodes.Text.Unprinted

/-!
# Cited text

A text as it is cited in a message: between quotation marks, with a backslash in front of quotation
marks and backslashes, and with everything that has no printed form spelt out.
-/

namespace ShaderNodes

/-- Hexadecimal digits of `n`, in small letters. -/
def hexDigits (n : Nat) : List Char := Nat.toDigits 16 n

/-- A character inside a cited text. -/
def citedChar (c : Char) : List Char :=
  if c = '"' || c = '\\' then ['\\', c]
  else if c = '\x00' then ['\\', '0']
  else if c = '\t' then ['\\', 't']
  else if c = '\n' then ['\\', 'n']
  else if c = '\r' then ['\\', 'r']
  else if isUnprinted c then "\\u\x7b".toList ++ hexDigits c.toNat ++ ['\x7d']
  else [c]

/-- A text in quotation marks. -/
def cited (s : String) : String :=
  String.ofList ('"' :: (s.toList.flatMap citedChar ++ ['"']))

end ShaderNodes
