/-!
# Templates

Lines of code with placeholders. Placeholders are replaced one after the other, the longest first,
each wherever it occurs; so a placeholder never spoils a longer one that starts like it.
-/

namespace ShaderNodes

namespace Template

/-- Replaces each occurrence of `old` from the left. The next `skip` characters belong to an
occurrence that has been replaced. -/
def replaceFrom (old new : List Char) : Nat → List Char → List Char
  | _, [] => []
  | skip + 1, _ :: cs => replaceFrom old new skip cs
  | 0, c :: cs =>
    if old.isPrefixOf (c :: cs) then new ++ replaceFrom old new (old.length - 1) cs
    else c :: replaceFrom old new 0 cs

/-- Replaces each occurrence of `old`, which is not empty. -/
def replace (old new line : String) : String :=
  String.ofList (replaceFrom old.toList new.toList 0 line.toList)

/-- Placeholders with what they stand for. -/
abbrev Table := List (String × String)

/-- The table with the longest placeholders, in bytes, first; placeholders of one length stay in
order. -/
def Table.longestFirst (table : Table) : Table :=
  table.mergeSort fun a b => decide (b.1.utf8ByteSize ≤ a.1.utf8ByteSize)

/-- Makes the replacements of a table in order. -/
def Table.apply (table : Table) (line : String) : String :=
  table.foldl (fun line (old, new) => replace old new line) line

/-- Fills in the placeholders of every line. -/
def fill (table : Table) (lines : List String) : List String :=
  lines.map table.longestFirst.apply

end Template

end ShaderNodes
