import AsmTranslit.CommaList
import AsmTranslit.Numeral

/-!
# Quoted text

What quotation marks do to a line: they keep `#` from starting a comment and `,` from separating
arguments.  One state, advanced a character at a time, serves both, so comments, arguments and
literals agree on where a string ends.  A string literal stands for the bytes of its characters and
escapes.
-/

namespace AsmTranslit

inductive QuoteState
  | outside
  | inside
  /-- Inside, just after a backslash. -/
  | escaped
  deriving DecidableEq, Repr

/-- The state after one more character; a backslash outside a string means nothing. -/
def QuoteState.next : QuoteState → Char → QuoteState
  | outside, c => if c == '"' then inside else outside
  | inside, c => if c == '"' then outside else if c == '\\' then escaped else inside
  | escaped, _ => inside

def beforeComment (state : QuoteState) : List Char → List Char
  | [] => []
  | c :: cs =>
    if state == .outside && c == '#' then [] else c :: beforeComment (state.next c) cs

def stripComment (line : String) : String :=
  String.ofList (beforeComment .outside line.toList)

def splitArguments (text : String) : List String :=
  fields (pieces QuoteState.next (fun state c => state == .outside && c == ',') .outside text.toList)

inductive QuotedFault
  | missingQuote
  | unterminated
  | unterminatedEscape
  | trailingText
  deriving DecidableEq, Repr

def QuotedFault.message (text : String) : QuotedFault → String
  | missingQuote => "expected a string literal, found " ++ text
  | unterminated => "unterminated string literal " ++ text
  | unterminatedEscape => "unterminated escape in " ++ text
  | trailingText => "unexpected text after string literal " ++ text

def escapeByte? : Char → Option UInt8
  | 'n' => some 10
  | 't' => some 9
  | 'r' => some 13
  | 'a' => some 7
  | 'b' => some 8
  | 'f' => some 12
  | 'v' => some 11
  | _ => none

/-- The bytes of an escape whose first character after the backslash is `c`, and how many of the
characters that follow belong to it.  An octal escape has up to three digits, a hexadecimal one any
number; both count modulo 256.  Any other character stands for itself. -/
def escape (c : Char) (cs : List Char) : List UInt8 × Nat :=
  match escapeByte? c with
  | some byte => ([byte], 0)
  | none =>
    if isDigitOf 8 c then
      let digits := (cs.take 2).takeWhile (isDigitOf 8)
      ([UInt8.ofNat (numeralValue 8 (c :: digits))], digits.length)
    else if c == 'x' then
      let digits := cs.takeWhile (isDigitOf 16)
      ([UInt8.ofNat (numeralValue 16 digits)], digits.length)
    else (String.utf8EncodeChar c, 0)

def quotedBytes : List Char → Except QuotedFault (List UInt8)
  | [] => .error .unterminated
  | c :: cs =>
    if c == '"' then
      if cs.isEmpty then .ok [] else .error .trailingText
    else if c == '\\' then
      match cs with
      | [] => .error .unterminatedEscape
      | e :: rest => do
        let (bytes, used) := escape e rest
        return bytes ++ (← quotedBytes (rest.drop used))
    else do
      return String.utf8EncodeChar c ++ (← quotedBytes cs)
termination_by cs => cs.length
decreasing_by
  · simp only [List.length_drop, List.length_cons]
    omega
  · simp

/-- The bytes that a string literal stands for; blanks may surround it. -/
def readQuoted (text : String) : Except QuotedFault (List UInt8) :=
  match trim text.toList with
  | '"' :: body => quotedBytes body
  | _ => .error .missingQuote

@[simp] theorem beforeComment_idem (state : QuoteState) (cs : List Char) :
    beforeComment state (beforeComment state cs) = beforeComment state cs := by
  induction cs generalizing state with
  | nil => rfl
  | cons c cs ih =>
    by_cases h : (state == .outside && c == '#') = true
    · simp [beforeComment, h]
    · simp [beforeComment, h, ih]

end AsmTranslit
