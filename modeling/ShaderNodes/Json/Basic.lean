import ShaderNodes.Number.Number

/-!
# JSON documents, as far as they can be read

A document is kept in the order of its text, up to the place where the text stops being JSON. What
reads a document walks it in that order, so the first problem of the text decides, whether it is a
problem of form or of content.

Texts and numbers come with two verdicts: one for whoever wants the content, and a laxer one for
whoever only passes over it.
-/

namespace ShaderNodes

namespace Json

/-- Why a text cannot be read on. -/
inductive Cause
  /-- The text ends too early. -/
  | ended
  /-- The text is not JSON here. -/
  | malformed
deriving DecidableEq, Repr

/-- A text in quotation marks. -/
structure Quoted where
  /-- The content. -/
  text : Except Cause String
  /-- The verdict for whoever passes over the text. -/
  passed : Except Cause Unit

/-- A value without parts, or what stands in its place. -/
inductive Scalar
  | null
  | bool (b : Bool)
  | number (n : Numeral)
  | string (q : Quoted)
  /-- The document ends where a value should begin. -/
  | absent
  /-- No value begins like this. -/
  | stray
  /-- A word or number breaks off; the cause for readers, and the cause for passers. -/
  | broken (read passed : Cause)

/-- How the entries of an array or object end. -/
inductive Ending
  /-- By the closing bracket. -/
  | closed
  /-- Neither an entry where the first one should stand, nor a comma behind an entry, nor the
  closing bracket follows. -/
  | cut (c : Cause)
  /-- A comma follows, and no entry after it. -/
  | dangling (c : Cause)

end Json

mutual

/-- A document. -/
inductive Json
  | scalar (s : Json.Scalar)
  | array (items : Json.Items)
  | object (members : Json.Members)

/-- The elements of an array. -/
inductive Json.Items
  | nil (e : Json.Ending)
  | cons (head : Json) (tail : Json.Items)

/-- The members of an object. -/
inductive Json.Members
  | nil (e : Json.Ending)
  | cons (name : Json.Quoted) (value : Json) (tail : Json.Members)

end

namespace Json

/-- A text that can be read. -/
def Quoted.of (s : String) : Quoted := ⟨.ok s, .ok ()⟩

/-- The document `null`. -/
def null : Json := .scalar .null

/-- A truth value. -/
def bool (b : Bool) : Json := .scalar (.bool b)

/-- A number. -/
def number (n : Numeral) : Json := .scalar (.number n)

/-- A text. -/
def string (s : String) : Json := .scalar (.string (.of s))

/-- Complete elements. -/
def Items.ofList : List Json → Items
  | [] => .nil .closed
  | j :: js => .cons j (ofList js)

/-- Complete members. -/
def Members.ofList : List (String × Json) → Members
  | [] => .nil .closed
  | (name, j) :: ms => .cons (.of name) j (ofList ms)

/-- The verdict on the end of the entries, once all of them have been read. -/
def Ending.close : Ending → Except Cause Unit
  | .closed => .ok ()
  | .cut c | .dangling c => .error c

/-- The verdict on the end of the entries when no further entry is expected. -/
def Ending.last : Ending → Except Cause Unit
  | .closed => .ok ()
  | .cut c => .error c
  | .dangling _ => .error .malformed

/-- The verdict of passing over a scalar. -/
def Scalar.pass : Scalar → Except Cause Unit
  | .null | .bool _ | .number _ => .ok ()
  | .string q => q.passed
  | .absent => .error .ended
  | .stray => .error .malformed
  | .broken _ c => .error c

/-- The verdict of reading a scalar for its content. -/
def Scalar.settle : Scalar → Except Cause Unit
  | .null | .bool _ => .ok ()
  | .number n => if n.number?.isSome then .ok () else .error .malformed
  | .string q => q.text.map fun _ => ()
  | .absent => .error .ended
  | .stray => .error .malformed
  | .broken c _ => .error c

mutual

/-- Passes over a document that nobody reads. -/
def pass : Json → Except Cause Unit
  | .scalar s => s.pass
  | .array items => items.pass
  | .object members => members.pass

/-- Passes over elements. -/
def Items.pass : Items → Except Cause Unit
  | .nil e => e.close
  | .cons j tail => do j.pass; tail.pass

/-- Passes over members. -/
def Members.pass : Members → Except Cause Unit
  | .nil e => e.close
  | .cons name j tail => do name.passed; j.pass; tail.pass

end

mutual

/-- Reads a document in full, to be judged later. At most `room` arrays and objects may be nested in
it. -/
def settle (room : Nat) : Json → Except Cause Unit
  | .scalar s => s.settle
  | .array items => if room = 0 then .error .malformed else items.settle (room - 1)
  | .object members => if room = 0 then .error .malformed else members.settle (room - 1)

/-- Reads elements in full. -/
def Items.settle (room : Nat) : Items → Except Cause Unit
  | .nil e => e.close
  | .cons j tail => do j.settle room; tail.settle room

/-- Reads members in full. -/
def Members.settle (room : Nat) : Members → Except Cause Unit
  | .nil e => e.close
  | .cons name j tail => do let _ ← name.text; j.settle room; tail.settle room

end

end Json

end ShaderNodes
