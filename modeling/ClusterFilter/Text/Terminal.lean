import ClusterFilter.Text.Basic

/-!
# ClusterFilter — texts without terminal controls

A terminal does not show every character that it is sent. An escape character starts a sequence
that only commands the terminal, and most control characters only have an effect. What is written
to something that is no terminal leaves all of them out and keeps what would be seen: printable
characters, and the four controls that lay a text out.

A layout control is obeyed even in the middle of most sequences. What follows it counts as shown
text until another control character stands there, at which the broken sequence goes on.
-/

namespace ClusterFilter.Terminal

-- ---------------------------------------------------------------------------
-- Character classes
-- ---------------------------------------------------------------------------

/-- The characters outside ASCII. -/
def isWide (c : Char) : Bool :=
  0x80 ≤ c.toNat

/-- The controls that lay a text out: tabulator, line feed, form feed and carriage return. -/
def isLayout (c : Char) : Bool :=
  c == '\t' || c == '\n' || c == '\x0c' || c == '\r'

/-- The characters that a terminal draws. Outside ASCII that is every one. -/
def isDrawn (c : Char) : Bool :=
  ' ' ≤ c && c ≠ '\x7f'

/-- The controls that end every sequence. -/
def isCancel (c : Char) : Bool :=
  c == '\x18' || c == '\x1a'

/-- Whether the number of the character is in the range. -/
def inRange (low high : Nat) (c : Char) : Bool :=
  low ≤ c.toNat && c.toNat ≤ high

/-- The byte that ends a control string. -/
def terminator : UInt8 := 0x9C

-- ---------------------------------------------------------------------------
-- Sequences
-- ---------------------------------------------------------------------------

/-- How far a sequence has been read. -/
inductive Sequence where
  /-- There is none. -/
  | outside
  /-- Behind the escape character. -/
  | escape
  /-- Behind an intermediate character of an escape sequence. -/
  | escapeIntermediate
  /-- In a control sequence. -/
  | control
  /-- At the head of a device control string. -/
  | deviceHead
  /-- Behind a parameter of a device control string. -/
  | deviceParameter
  /-- Behind an intermediate character of a device control string. -/
  | deviceIntermediate
  /-- In the text of a control string. -/
  | body
  /-- In a command to the operating system. -/
  | command
  deriving DecidableEq, Repr

namespace Sequence

/-- Whether layout controls are obeyed within the sequence. -/
def allowsLayout : Sequence → Bool
  | outside => true
  | escape => true
  | escapeIntermediate => true
  | control => true
  | _ => false

/-- What follows the escape character: the kind of sequence. -/
def ofIntroducer (c : Char) : Sequence :=
  if inRange 0x20 0x2F c then escapeIntermediate
  else if c = '[' then control
  else if c = ']' then command
  else if c = 'P' then deviceHead
  else if c = 'X' ∨ c = '^' ∨ c = '_' then body
  else if inRange 0x30 0x7E c then outside
  else escape

/-- The sequence after one more character, which is neither an escape nor a cancel. A character
that has no meaning at its place changes nothing. -/
def next (s : Sequence) (c : Char) : Sequence :=
  match s with
  | outside => outside
  | escape => ofIntroducer c
  | escapeIntermediate => if inRange 0x30 0x7E c then outside else s
  | control => if inRange 0x40 0x7E c then outside else s
  | deviceHead =>
    if inRange 0x20 0x2F c then deviceIntermediate
    else if inRange 0x30 0x3F c then deviceParameter
    else if inRange 0x40 0x7E c then body
    else s
  | deviceParameter =>
    if inRange 0x20 0x2F c then deviceIntermediate
    else if inRange 0x3C 0x7E c then body
    else s
  | deviceIntermediate => if inRange 0x30 0x7E c then body else s
  | body => if (String.utf8EncodeChar c).contains terminator then outside else s
  | command => if c = '\x07' then outside else s

end Sequence

-- ---------------------------------------------------------------------------
-- Shown text
-- ---------------------------------------------------------------------------

/-- A place in a text. -/
structure Position where
  sequence : Sequence
  /-- Whether a layout control has broken the sequence. -/
  broken : Bool
  deriving DecidableEq, Repr

namespace Position

/-- Outside of every sequence. -/
def start : Position :=
  ⟨.outside, false⟩

/-- Whether characters are shown here. -/
def isOpen (p : Position) : Bool :=
  p.sequence == .outside || p.broken

/-- Whether the character is shown here. -/
def shows (p : Position) (c : Char) : Bool :=
  if p.isOpen then isDrawn c || isLayout c
  else p.sequence.allowsLayout && isLayout c

/-- The place behind the character. -/
def next (p : Position) (c : Char) : Position :=
  if c = '\x1b' then ⟨.escape, false⟩
  else if isCancel c then start
  else if p.isOpen then
    if isWide c then start
    else if p.shows c then p
    else { p with broken := false }
  else if p.shows c then { p with broken := true }
  else ⟨p.sequence.next c, false⟩

end Position

/-- What is shown of a text that starts at the position. -/
def shownFrom (p : Position) : List Char → List Char
  | [] => []
  | c :: cs => if p.shows c then c :: shownFrom (p.next c) cs else shownFrom (p.next c) cs

/-- What is shown of a text. -/
def shown (cs : List Char) : List Char :=
  shownFrom .start cs

end ClusterFilter.Terminal
