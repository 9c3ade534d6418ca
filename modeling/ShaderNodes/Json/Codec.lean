import ShaderNodes.Event
import ShaderNodes.Json.Failure
import ShaderNodes.Json.Render
import ShaderNodes.Json.Scan

/-!
# Codecs

A codec reads values from documents and writes them to documents. Codecs of records, lists, rosters
and choices are put together from the codecs of their parts; a record is an object with named
fields, and may also be given as an array of its fields in order.

Reading goes through a document in the order of its text, so the first problem decides. Events that
were reported before a problem stay reported.
-/

namespace ShaderNodes

namespace Json

/-- The reading of a value: it may be refused, and it may report events. -/
abbrev Reading (α : Type) := ExceptT Failure Logged α

namespace Reading

/-- Refuses with a mismatch. -/
def refuse {α : Type} (m : Mismatch) : Reading α := throw (.mismatch m)

/-- Goes by the verdict on a text. -/
def verdict {α : Type} : Except Cause α → Reading α
  | .ok a => pure a
  | .error c => throw c.failure

/-- Refuses a value of the wrong kind. -/
def wrongKind {α : Type} (j : Json) (wanted : String) : Reading α := do
  refuse (.wrongKind (← verdict j.found) wanted)

/-- Keeps the events of a computation that cannot fail. -/
def lift {α : Type} (x : Logged α) : Reading α := ExceptT.lift x

end Reading

open Reading

end Json

open Json Json.Reading

/-- Reads and writes values of type `α`. -/
structure Codec (α : Type) where
  /-- Reads a value. -/
  read : Json → Reading α
  /-- Writes a value. -/
  write : α → Json

namespace Codec

variable {α β : Type}

/-- Reads a value from a text that holds nothing else. -/
def parse (c : Codec α) (text : String) : Reading α := do
  let scanned := scan text
  let a ← c.read scanned.document
  verdict scanned.finish
  pure a

/-- The same documents for another type. -/
def map (c : Codec α) (make : α → β) (parts : β → α) : Codec β where
  read j := make <$> c.read j
  write b := c.write (parts b)

/-! ## Scalars -/

/-- Texts. -/
def text : Codec String where
  read
    | .scalar (.string q) => verdict q.text
    | j => wrongKind j "a string"
  write s := .string s

/-- Truth values. -/
def bool : Codec Bool where
  read
    | .scalar (.bool b) => pure b
    | j => wrongKind j "a boolean"
  write b := .bool b

/-- The value of a numeral in a document. -/
def readNumber (n : Numeral) : Reading Number :=
  match n.number? with
  | some x => pure x
  | none => throw .malformed

/-- Natural numbers below `2 ^ 32`. -/
def word : Codec UInt32 where
  read
    | .scalar (.number n) => do
      match ← readNumber n with
      | .natural k =>
        if k < UInt32.size then pure (UInt32.ofNat k) else refuse (.outOfRange k "u32")
      | .negative k => refuse (.outOfRange (-k) "u32")
      | .real x => refuse (.wrongKind (.real x) "u32")
    | j => wrongKind j "u32"
  write n := .number (.ofNat n.toNat)

/-- Numbers of a binary format; a number that is not finite is written as `null`. -/
def binary (f : Format) (style : NumeralStyle) (wanted : String) : Codec (Binary f) where
  read
    | .scalar (.number n) => do
      let x ← readNumber n
      pure (x.toBinary f)
    | j => wrongKind j wanted
  write x := if x.isFinite then .number (style.numeral x) else .null

/-- Numbers of 32 bits. -/
def single : Codec Single := binary .single singleStyle "f32"

/-- Numbers of 64 bits. -/
def double : Codec Double := binary .double doubleStyle "f64"

/-! ## Choices -/

/-- The choice with a given name. -/
def chosen (choices : List (String × α)) (name : String) : Reading α :=
  match choices.lookup name with
  | some a => pure a
  | none => refuse (.unknownVariant name (choices.map Prod.fst))

/-- Reads `null`, which is all that a choice may hold. -/
def readNothing : Json → Reading Unit
  | .scalar .null => pure ()
  | j => wrongKind j "unit"

/-- One of several names, given as a text or as an object with the name as its only member. -/
def choice (choices : List (String × α)) (name : α → String) : Codec α where
  read
    | .scalar (.string q) => do chosen choices (← verdict q.text)
    | .object (.cons q j tail) => do
      let a ← chosen choices (← verdict q.text)
      readNothing j
      match tail with
      | .nil e => verdict e.last
      | .cons .. => throw .malformed
      pure a
    | .object (.nil .closed) => throw .malformed
    | .object (.nil e) => do verdict e.close; throw .malformed
    | .scalar .absent => throw .ended
    | _ => throw .malformed
  write a := .string (name a)

/-! ## Lists, sets and rosters -/

/-- Reads elements one after the other. -/
def readItems (c : Codec α) : Items → Reading (List α)
  | .nil e => do verdict e.close; pure []
  | .cons j tail => do
    let a ← c.read j
    let as ← readItems c tail
    pure (a :: as)

/-- Lists, given as arrays. -/
def list (c : Codec α) (wanted : String) : Codec (List α) where
  read
    | .array items => readItems c items
    | j => wrongKind j wanted
  write as := .array (.ofList (as.map c.write))

/-- Lists in order, repetitions included. -/
def sequence (c : Codec α) : Codec (List α) := c.list "a sequence"

/-- Rosters, given as arrays of their entries. -/
def roster {κ : Type} [Keyed α κ] [DecidableEq κ] (c : Codec α) : Codec (Roster α) :=
  (c.list "an array of entities").map Roster.ofList Roster.entries

/-- Rosters of entries that are their own keys, given as arrays. -/
def set [Keyed α α] [DecidableEq α] (c : Codec α) : Codec (Roster α) :=
  (c.list "a set").map Roster.ofList Roster.entries

/-- Reads members one after the other, each with its name. -/
def readMembers (c : Codec α) (make : String → α → β) : Members → Reading (List β)
  | .nil e => do verdict e.close; pure []
  | .cons q j tail => do
    let name ← verdict q.text
    let a ← c.read j
    let bs ← readMembers c make tail
    pure (make name a :: bs)

/-- Rosters of named entries, given as objects. -/
def namedRoster {κ : Type} [Keyed β κ] [DecidableEq κ] (c : Codec α) (make : String → α → β)
    (name : β → String) (content : β → α) : Codec (Roster β) where
  read
    | .object members => do
      let bs ← readMembers c make members
      pure (.ofList bs)
    | j => wrongKind j "a map"
  write r := .object (.ofList (r.entries.map fun b => (name b, c.write (content b))))

end Codec

/-! ## Records -/

/-- The fields of a record: names, codecs, and what stands for a missing field. -/
inductive Fields : List Type → Type 1
  | nil : Fields []
  | cons {α : Type} {ts : List Type} (name : String) (codec : Codec α) (fallback : Option α)
      (rest : Fields ts) : Fields (α :: ts)

/-- The contents of the fields of a record. -/
@[reducible] def Row : List Type → Type
  | [] => Unit
  | α :: ts => α × Row ts

/-- The contents read so far. -/
@[reducible] def Draft : List Type → Type
  | [] => Unit
  | α :: ts => Option α × Draft ts

namespace Fields

/-- How many fields there are. -/
def count {ts : List Type} (_ : Fields ts) : Nat := ts.length

/-- Nothing read yet. -/
def blank : {ts : List Type} → Fields ts → Draft ts
  | _, nil => ()
  | _, cons _ _ _ rest => (none, rest.blank)

/-- Reads the field called `name` from `j`; nothing if there is no such field. A field that has been
read already is refused before its content is looked at. -/
def offer : {ts : List Type} → Fields ts → Draft ts → String → Json → Option (Reading (Draft ts))
  | _, nil, _, _, _ => none
  | _, cons field codec _ rest, (old, draft), name, j =>
    if field = name then
      some do
        if old.isSome then refuse (.duplicateField name)
        let a ← codec.read j
        pure (some a, draft)
    else
      (rest.offer draft name j).map fun r => do
        let draft ← r
        pure (old, draft)

/-- The contents once all members have been read; the first field that is missing and has no
fallback is refused. -/
def complete : {ts : List Type} → Fields ts → Draft ts → Reading (Row ts)
  | _, nil, _ => pure ()
  | _, cons name _ fallback rest, (a, draft) =>
    match a <|> fallback with
    | some a => do
      let row ← rest.complete draft
      pure (a, row)
    | none => refuse (.missingField name)

/-- Reads the members of an object in the order of the text. -/
def readMembers {ts : List Type} (fields : Fields ts) (draft : Draft ts) :
    Members → Reading (Draft ts)
  | .nil e => do verdict e.close; pure draft
  | .cons q j tail => do
    let name ← verdict q.text
    match fields.offer draft name j with
    | some r => do
      let draft ← r
      fields.readMembers draft tail
    | none => do
      verdict j.pass
      fields.readMembers draft tail

/-- Reads the elements of an array as fields, `n` of which have been read. Fields at the end may be
left out when they have a fallback. -/
def readItems (wanted : String) :
    {ts : List Type} → Fields ts → Nat → Items → Reading (Row ts)
  | _, nil, _, .nil e => verdict e.last
  | _, nil, _, .cons .. => throw .malformed
  | _, cons _ codec _ rest, n, .cons j tail => do
    let a ← codec.read j
    let row ← rest.readItems wanted (n + 1) tail
    pure (a, row)
  | _, cons _ _ fallback rest, n, .nil e => do
    verdict e.close
    match fallback with
    | some a => do
      let row ← rest.readItems wanted (n + 1) (.nil e)
      pure (a, row)
    | none => refuse (.wrongLength n wanted)

/-- Writes the contents as members. -/
def write : {ts : List Type} → Fields ts → Row ts → List (String × Json)
  | _, nil, _ => []
  | _, cons name codec _ rest, (a, row) => (name, codec.write a) :: rest.write row

end Fields

namespace Codec

/-- Records called `name`. -/
def record {α : Type} {ts : List Type} (name : String) (fields : Fields ts) (make : Row ts → α)
    (parts : α → Row ts) : Codec α where
  read
    | .object members => do
      let draft ← fields.readMembers fields.blank members
      let row ← fields.complete draft
      pure (make row)
    | .array items => do
      let n := fields.count
      let wanted := "struct " ++ name ++ " with " ++ natText n
        ++ (if n = 1 then " element" else " elements")
      let row ← fields.readItems wanted 0 items
      pure (make row)
    | j => wrongKind j ("struct " ++ name)
  write a := .object (.ofList (fields.write (parts a)))

end Codec

end ShaderNodes
