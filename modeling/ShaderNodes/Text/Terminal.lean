/-!
# Text without terminal controls

Lines of a log may hold characters that a terminal obeys instead of showing them: single control
characters, and sequences that start with the escape character. `withoutControls` keeps what is
shown. Blanks count as shown even inside a sequence, and what follows such a blank is shown too, up
to the next control character; there the sequence goes on.
-/

namespace ShaderNodes

/-- Where in a control sequence a terminal is. -/
inductive ControlSequence
  /-- In no sequence. -/
  | none
  /-- Behind the escape character. -/
  | escape
  /-- In the middle of a short sequence. -/
  | short
  /-- In a sequence with parameters, such as those that set a color. -/
  | parameters
  /-- At the start of a text for a device, in front of its parameters. -/
  | deviceStart
  /-- Among the parameters of a text for a device. -/
  | deviceParameters
  /-- Behind the parameters of a text for a device. -/
  | deviceMiddle
  /-- In a text that the terminal passes on or ignores. -/
  | passage
  /-- In a command to the system around the terminal. -/
  | command
deriving DecidableEq, Repr

namespace ControlSequence

/-- Blanks among the control characters. -/
def isBlankControl (c : Char) : Bool := c = '\t' || c = '\n' || c = '\x0c' || c = '\r'

/-- Whether a character is shown outside of sequences. -/
def isShown (c : Char) : Bool := ('\x20' ≤ c && c ≠ '\x7f') || isBlankControl c

/-- Whether the encoding of a character holds the byte that closes a passage. -/
def closesPassage (c : Char) : Bool := (String.utf8EncodeChar c).contains 0x9c

/-- Where the terminal is after one more character. -/
def next (s : ControlSequence) (c : Char) : ControlSequence :=
  if c = '\x18' || c = '\x1a' then none
  else if c = '\x1b' then escape
  else
    match s with
    | none => none
    | escape =>
      if '\x20' ≤ c && c ≤ '\x2f' then short
      else if c = '[' then parameters
      else if c = ']' then command
      else if c = 'P' then deviceStart
      else if c = 'X' || c = '^' || c = '_' then passage
      else if '\x30' ≤ c && c ≤ '\x7e' then none
      else escape
    | short => if '\x30' ≤ c && c ≤ '\x7e' then none else short
    | parameters => if '\x40' ≤ c && c ≤ '\x7e' then none else parameters
    | deviceStart =>
      if '\x20' ≤ c && c ≤ '\x2f' then deviceMiddle
      else if '\x30' ≤ c && c ≤ '\x3f' then deviceParameters
      else if '\x40' ≤ c && c ≤ '\x7e' then passage
      else deviceStart
    | deviceParameters =>
      if '\x20' ≤ c && c ≤ '\x2f' then deviceMiddle
      else if '\x3c' ≤ c && c ≤ '\x7e' then passage
      else deviceParameters
    | deviceMiddle => if '\x30' ≤ c && c ≤ '\x7e' then passage else deviceMiddle
    | passage => if closesPassage c then none else passage
    | command => if c = '\x07' then none else command

/-- Whether a character is shown at this point. -/
def shows : ControlSequence → Char → Bool
  | none, c => isShown c
  | escape, c | short, c | parameters, c => isBlankControl c
  | _, _ => false

/-- The characters that are shown from a point on. While text is `flowing`, all that is shown outside
of sequences is shown; a character beyond the basic Latin block then ends the sequence. -/
def shownFrom (s : ControlSequence) (flowing : Bool) : List Char → List Char
  | [] => []
  | c :: cs =>
    if flowing && isShown c then
      c :: shownFrom (if c ≤ '\x7f' then s else none) true cs
    else if !flowing && s.shows c then c :: shownFrom (s.next c) true cs
    else shownFrom (s.next c) false cs

end ControlSequence

/-- The part of a text that a terminal shows. -/
def withoutControls (s : String) : String :=
  String.ofList (ControlSequence.none.shownFrom false s.toList)

end ShaderNodes
