/-!
# Control sequences

The parts of a text that a terminal obeys instead of showing: single control characters and the
sequences that an escape character opens.  `visibleText` is what remains to be read.  The stream that
the argument parser prints to lets only that through.
-/

namespace AsmTranslit

inductive SequencePlace
  | outside
  /-- Behind an escape character. -/
  | escape
  /-- Behind an escape character and an intermediate one. -/
  | intermediate
  /-- In a control sequence, which `[` opens. -/
  | control
  /-- At the head of a device control string, which `P` opens. -/
  | device
  /-- Behind a parameter of a device control string. -/
  | deviceParameters
  /-- Behind an intermediate character of a device control string. -/
  | deviceIntermediate
  /-- In the body of a string. -/
  | string
  /-- In an operating system command, which `]` opens. -/
  | command
  deriving DecidableEq, Repr

def codeBetween (first last : Nat) (c : Char) : Bool :=
  first ≤ c.toNat && c.toNat ≤ last

def isLayout (c : Char) : Bool :=
  c == '\t' || c == '\n' || c == '\x0c' || c == '\r'

def isVisible (c : Char) : Bool :=
  isLayout c || (0x20 ≤ c.toNat && c.toNat != 0x7F)

namespace SequencePlace

def shows : SequencePlace → Char → Bool
  | outside, c => isVisible c
  | escape, c | intermediate, c | control, c => isLayout c
  | _, _ => false

/-- The place behind one more character, if it neither opens a sequence nor breaks one off.  The body
of a string ends with the byte `9C`, even if that is part of a longer character. -/
def along : SequencePlace → Char → SequencePlace
  | outside, _ => outside
  | escape, c =>
    if codeBetween 0x20 0x2F c then intermediate
    else if c == 'P' then device
    else if c == '[' then control
    else if c == ']' then command
    else if c == 'X' || c == '^' || c == '_' then string
    else if codeBetween 0x30 0x7E c then outside
    else escape
  | intermediate, c => if codeBetween 0x30 0x7E c then outside else intermediate
  | control, c => if codeBetween 0x40 0x7E c then outside else control
  | device, c =>
    if codeBetween 0x20 0x2F c then deviceIntermediate
    else if codeBetween 0x30 0x3F c then deviceParameters
    else if codeBetween 0x40 0x7E c then string
    else device
  | deviceParameters, c =>
    if codeBetween 0x20 0x2F c then deviceIntermediate
    else if codeBetween 0x3C 0x7E c then string
    else deviceParameters
  | deviceIntermediate, c => if codeBetween 0x30 0x7E c then string else deviceIntermediate
  | string, c => if (String.utf8EncodeChar c).contains 0x9C then outside else string
  | command, c => if c == '\x07' then outside else command

/-- The place behind one more character.  At every place an escape character opens a new sequence, and
the characters for cancelling and substituting break off the present one. -/
def next (place : SequencePlace) (c : Char) : SequencePlace :=
  if c == '\x18' || c == '\x1a' then outside
  else if c == '\x1b' then escape
  else place.along c

/-- The characters that are shown.  One that is shown inside a sequence interrupts it: what follows is
read as if outside, up to a character that is not visible, with which the sequence goes on.  A
character outside ASCII ends an interrupted sequence. -/
def visible (place : SequencePlace) (interrupted : Bool) : List Char → List Char
  | [] => []
  | c :: cs =>
    if (if interrupted then outside else place).shows c then
      c :: visible (if c.toNat < 0x80 then place else outside) true cs
    else visible (place.next c) false cs

end SequencePlace

def visibleText (s : String) : String :=
  String.ofList (SequencePlace.visible .outside false s.toList)

end AsmTranslit
