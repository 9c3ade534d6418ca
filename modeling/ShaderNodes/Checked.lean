/-!
# Checked results

A checked result is a value or everything that is wrong with it. Unlike a plain `Except`, a list of
checked results is judged as a whole: every error of every element is kept, in order.
-/

namespace ShaderNodes

universe u v w

/-- A value, or the list of all errors found on the way to it. A failure may carry no error of its
own: it then stands for a failure that something else has already reported. -/
abbrev Checked (ε : Type u) (α : Type v) := Except (List ε) α

namespace Checked

variable {ε : Type u} {α : Type v} {β : Type w}

/-- Whether there is a value. -/
def succeeds : Checked ε α → Bool
  | .ok _ => true
  | .error _ => false

/-- The value, if there is one. -/
def value? : Checked ε α → Option α
  | .ok a => some a
  | .error _ => none

/-- The errors; none for a value. -/
def errors : Checked ε α → List ε
  | .ok _ => []
  | .error es => es

/-- All values when every element has one, else all errors in order. -/
def all (xs : List (Checked ε α)) : Checked ε (List α) :=
  if xs.all succeeds then .ok (xs.filterMap value?) else .error (xs.flatMap errors)

/-- Like `all` for elements that fail with a single error. -/
def each (xs : List (Except ε α)) : Checked ε (List α) :=
  all (xs.map (Except.mapError fun e => [e]))

/-- Both values, or the errors of both sides, those of the first one first. -/
def both : Checked ε α → Checked ε β → Checked ε (α × β)
  | .ok a, .ok b => .ok (a, b)
  | .ok _, .error fs => .error fs
  | .error es, .ok _ => .error es
  | .error es, .error fs => .error (es ++ fs)

@[simp] theorem all_nil : all ([] : List (Checked ε α)) = .ok [] := rfl

end Checked

end ShaderNodes
