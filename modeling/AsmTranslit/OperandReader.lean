import AsmTranslit.CommaList
import AsmTranslit.Operand
import AsmTranslit.Token

/-!
# Reading operands

The operand that a text denotes.  Operands with an opening bracket are memory operands,

    [size ptr] [segment :] [sum] '[' sum ']'

where a sum is a list of terms joined by signs, a minus sign perhaps in front.  All others are a
register, a signed number, or a symbol with an addend.  One token of look-ahead decides every step,
so a reading is unique, and a failure names the first token that cannot go on and what could.
-/

namespace AsmTranslit

inductive Expectation
  | memoryOperand
  | register
  | number
  | symbol
  | ptr
  | colon
  | asterisk
  | plus
  | minus
  | leftBracket
  | rightBracket
  | endOfInput
  /-- Anything further that has no name of its own. -/
  | somethingElse
  deriving DecidableEq, Repr

def Expectation.display : Expectation → String
  | memoryOperand => "memory operand"
  | register => "register"
  | number => "number"
  | symbol => "symbol"
  | ptr => "'ptr'"
  | colon => "':'"
  | asterisk => "'*'"
  | plus => "'+'"
  | minus => "'-'"
  | leftBracket => "'['"
  | rightBracket => "']'"
  | endOfInput => "end of input"
  | somethingElse => "something else"

/-- The first token that a reading cannot go on with, none at the end, and what could stand in its
place. -/
structure ReadFault where
  found : Option Token
  expected : List Expectation
  deriving DecidableEq, Repr

/-- Alternatives in words: `A`, `A or B`, `A, B, or C`. -/
def alternatives : List String → String
  | [] => ""
  | [a] => a
  | [a, b] => a ++ " or " ++ b
  | a :: b :: rest => ", ".intercalate ((a :: b :: rest).dropLast) ++ ", or " ++
      ((a :: b :: rest).getLast?).getD ""

def ReadFault.message (fault : ReadFault) : String :=
  let found := match fault.found with
    | some token => "'" ++ token.display ++ "'"
    | none => "end of input"
  "found " ++ found ++ " expected " ++ alternatives (fault.expected.map Expectation.display)

def faultAt (ts : List Token) (expected : List Expectation) : ReadFault :=
  ⟨ts.head?, expected⟩

def Token.subtracts? : Token → Option Bool
  | plus => some false
  | minus => some true
  | _ => none

def Token.startsTerm : Token → Bool
  | register _ => true
  | number _ => true
  | ident _ => true
  | _ => false

def sumStart : List Expectation :=
  [.minus, .register, .number, .symbol]

def readTerm : List Token → Except ReadFault (Term × List Token)
  | .register r :: .asterisk :: ts =>
    match ts with
    | .number n :: rest => .ok (.scaled r n, rest)
    | _ => .error (faultAt ts [.number])
  | .number n :: .asterisk :: ts =>
    match ts with
    | .register r :: rest => .ok (.scaled r n, rest)
    | _ => .error (faultAt ts [.register])
  | .register r :: ts => .ok (.register r, ts)
  | .number n :: ts => .ok (.number n, ts)
  | .ident name :: ts => .ok (.symbol name, ts)
  | ts => .error (faultAt ts [.register, .number, .symbol])

private theorem length_lt_of_readTerm {ts rest : List Token} {t : Term}
    (h : readTerm ts = .ok (t, rest)) : rest.length < ts.length := by
  unfold readTerm at h
  split at h
  · split at h
    · cases h
      simp
      omega
    · cases h
  · split at h
    · cases h
      simp
      omega
    · cases h
  all_goals first
    | (cases h; simp)
    | cases h

def readSignedTerms : List Token → Except ReadFault (List SignedTerm × List Token)
  | [] => .ok ([], [])
  | t :: ts =>
    match t.subtracts? with
    | none => .ok ([], t :: ts)
    | some negative =>
      match _h : readTerm ts with
      | .error fault => .error fault
      | .ok (term, rest) =>
        match readSignedTerms rest with
        | .error fault => .error fault
        | .ok (terms, after) => .ok (⟨negative, term⟩ :: terms, after)
termination_by ts => ts.length
decreasing_by
  have := length_lt_of_readTerm _h
  simp only [List.length_cons]
  omega

def readSum (ts : List Token) : Except ReadFault (List SignedTerm × List Token) :=
  match ts with
  | .minus :: _ => readSignedTerms ts
  | t :: _ => if t.startsTerm then readSignedTerms (.plus :: ts) else .error (faultAt ts sumStart)
  | [] => .error (faultAt ts sumStart)

/-- What may follow a sum that `closing` ends.  After a lone register or number the sum's last term
may still become a scaled register. -/
def sumFollowers (closing : Expectation) (terms : List SignedTerm) : List Expectation :=
  match terms.getLast? with
  | some ⟨_, .register _⟩ => [.asterisk, .plus, .minus, closing]
  | some ⟨_, .number _⟩ => [.asterisk, .plus, .minus, closing]
  | _ => [.plus, .minus, closing]

def readBrackets (ts : List Token) : Except ReadFault (List SignedTerm) := do
  let (terms, rest) ← readSum ts
  match rest with
  | .rightBracket :: [] => .ok terms
  | .rightBracket :: after => .error (faultAt after [.endOfInput])
  | _ => .error (faultAt rest (sumFollowers .rightBracket terms))

/-- What may follow the sum before the brackets; a lone segment register in the place of an override
may also become one. -/
def outerFollowers (segment : Option (Fin 6)) (terms : List SignedTerm) : List Expectation :=
  match segment, terms with
  | none, [⟨false, .register (.segment _)⟩] => .colon :: sumFollowers .leftBracket terms
  | _, _ => sumFollowers .leftBracket terms

def readSums (size : Option Size) (segment : Option (Fin 6)) (start : List Expectation)
    (ts : List Token) : Except ReadFault MemoryForm :=
  match ts with
  | .leftBracket :: rest => do
    let inner ← readBrackets rest
    return ⟨size, segment, [], inner⟩
  | t :: _ =>
    if t = .minus ∨ t.startsTerm then do
      let (outer, rest) ← readSum ts
      match rest with
      | .leftBracket :: after =>
        let inner ← readBrackets after
        return ⟨size, segment, outer, inner⟩
      | _ => .error (faultAt rest (outerFollowers segment outer))
    else .error (faultAt ts start)
  | [] => .error (faultAt ts start)

def readAddress (size : Option Size) (start : List Expectation) (ts : List Token) :
    Except ReadFault MemoryForm :=
  match ts with
  | .register (.segment n) :: .colon :: rest => readSums size (some n) (sumStart ++ [.leftBracket]) rest
  | _ => readSums size none start ts

def readMemory (ts : List Token) : Except ReadFault MemoryForm :=
  match ts with
  | .size s :: .ptr :: rest =>
    readAddress (some s) (.somethingElse :: sumStart ++ [.leftBracket]) rest
  | .size _ :: rest => .error (faultAt rest [.ptr])
  | _ => readAddress none [.memoryOperand] ts

def readEnd (operand : Operand) : List Token → Except ReadFault Operand
  | [] => .ok operand
  | ts => .error (faultAt ts [.endOfInput])

def readPlain : List Token → Except ReadFault Operand
  | .register r :: ts => readEnd (.register r) ts
  | .minus :: .number n :: ts => readEnd (.immediate (signedWord true n)) ts
  | .minus :: ts => .error (faultAt ts [.number])
  | .number n :: ts => readEnd (.immediate (signedWord false n)) ts
  | .ident name :: [] => .ok (.symbol name 0)
  | .ident name :: t :: ts =>
    match t.subtracts?, ts with
    | some negative, .number n :: rest => readEnd (.symbol name (signedWord negative n)) rest
    | some _, _ => .error (faultAt ts [.number])
    | none, _ => .error (faultAt (t :: ts) [.plus, .minus, .endOfInput])
  | ts => .error (faultAt ts [.register, .minus, .number, .symbol])

inductive OperandFault
  | unexpected (lexeme : String)
  /-- Braces, with which masks and broadcasts are written. -/
  | braces
  | unreadable (fault : ReadFault)
  | address (fault : AddressFault)
  deriving DecidableEq, Repr

def OperandFault.message (text : String) : OperandFault → String
  | unexpected lexeme => Token.unexpected lexeme
  | braces => "masking and broadcast (\x7b...\x7d) are not supported"
  | unreadable fault => "cannot parse operand '" ++ text ++ "': " ++ fault.message
  | address fault => fault.message ++ " in '" ++ text ++ "'"

def Token.errorLexeme? : Token → Option String
  | error lexeme => some lexeme
  | _ => none

def readTokens (ts : List Token) : Except OperandFault Operand :=
  match ts.findSome? Token.errorLexeme? with
  | some lexeme => .error (.unexpected lexeme)
  | none =>
    if ts.contains .leftBrace then .error .braces
    else if ts.contains .leftBracket then
      match readMemory ts with
      | .error fault => .error (.unreadable fault)
      | .ok form =>
        match form.reference with
        | .error fault => .error (.address fault)
        | .ok reference => .ok (.memory reference)
    else
      match readPlain ts with
      | .error fault => .error (.unreadable fault)
      | .ok operand => .ok operand

def readOperand (text : String) : Except OperandFault Operand :=
  readTokens (tokens text)

end AsmTranslit
