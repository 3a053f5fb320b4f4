import AsmTranslit.Register

/-!
# Tokens of operands

The text of an operand as a list of tokens with their places.  Spaces and tabs separate tokens; at
any other character the longest lexeme is taken: a word of symbol characters, a hexadecimal or
decimal numeral, or a single character.  A lexeme alone determines its token, so a lexeme read by
itself is the same token again.  What is no token stays in the list as an error token.
-/

namespace AsmTranslit

inductive Token
  /-- A lexeme that has no meaning: a stray character, or a number that needs over 64 bits. -/
  | error (lexeme : String)
  | register (register : Register)
  | size (size : Size)
  /-- The word `ptr`, which follows a size. -/
  | ptr
  | leftBracket
  | rightBracket
  | leftBrace
  | rightBrace
  | plus
  | minus
  | asterisk
  | colon
  | number (value : UInt64)
  | ident (name : String)
  deriving DecidableEq, Repr

/-- A token and the bytes of the UTF-8 text that it covers: `start` is the first, `stop` the one
after the last. -/
structure PlacedToken where
  token : Token
  start : Nat
  stop : Nat
  deriving DecidableEq, Repr

def isSeparator (c : Char) : Bool :=
  c == ' ' || c == '\t'

/-- The characters of a numeral after its first.  `0x` counts as a start only if a hexadecimal
digit follows it. -/
def numeralTail (first : Char) : List Char → List Char
  | x :: digit :: cs =>
    if first == '0' && (x == 'x' || x == 'X') && isDigitOf 16 digit then
      x :: digit :: cs.takeWhile (isDigitOf 16)
    else (x :: digit :: cs).takeWhile Char.isDigit
  | cs => cs.takeWhile Char.isDigit

def lexemeTail (first : Char) (cs : List Char) : List Char :=
  if isSymbolStart first then cs.takeWhile isSymbolChar
  else if first.isDigit then numeralTail first cs
  else []

def numeralLexemeValue : List Char → Nat
  | '0' :: 'x' :: digits => numeralValue 16 digits
  | '0' :: 'X' :: digits => numeralValue 16 digits
  | digits => numeralValue 10 digits

namespace Token

def unexpected (lexeme : String) : String :=
  "unexpected '" ++ lexeme ++ "'"

/-- How messages show a token; registers and sizes appear in lower case, numbers in decimal. -/
def display : Token → String
  | error lexeme => "(error: " ++ unexpected lexeme ++ ")"
  | register r => r.intelName
  | size s => s.keyword
  | ptr => "ptr"
  | leftBracket => "["
  | rightBracket => "]"
  | leftBrace => "\x7b"
  | rightBrace => "\x7d"
  | plus => "+"
  | minus => "-"
  | asterisk => "*"
  | colon => ":"
  | number n => toString n.toNat
  | ident name => name

/-- The token of a word: a register, a size or `ptr` in either letter case, else an identifier. -/
def ofWord (word : String) : Token :=
  match Register.ofIntel? word with
  | some r => register r
  | none =>
    match Size.ofKeyword? word with
    | some s => size s
    | none => if lowerCase word = "ptr" then ptr else ident word

def ofNumeral (lexeme : List Char) : Token :=
  let n := numeralLexemeValue lexeme
  if n < UInt64.size then number (UInt64.ofNat n) else error (String.ofList lexeme)

def ofMark : Char → Token
  | '[' => leftBracket
  | ']' => rightBracket
  | '\x7b' => leftBrace
  | '\x7d' => rightBrace
  | '+' => plus
  | '-' => minus
  | '*' => asterisk
  | ':' => colon
  | c => error (String.singleton c)

def ofLexeme (first : Char) (tail : List Char) : Token :=
  if isSymbolStart first then ofWord (String.ofList (first :: tail))
  else if first.isDigit then ofNumeral (first :: tail)
  else ofMark first

end Token

def utf8Length (cs : List Char) : Nat :=
  cs.foldr (fun c length => c.utf8Size + length) 0

def scanFrom (start : Nat) : List Char → List PlacedToken
  | [] => []
  | c :: cs =>
    if isSeparator c then scanFrom (start + c.utf8Size) cs
    else
      let tail := lexemeTail c cs
      let stop := start + utf8Length (c :: tail)
      ⟨Token.ofLexeme c tail, start, stop⟩ :: scanFrom stop (cs.drop tail.length)
termination_by cs => cs.length
decreasing_by
  · simp
  · simp only [List.length_drop, List.length_cons]
    omega

def scan (text : String) : List PlacedToken :=
  scanFrom 0 text.toList

def tokens (text : String) : List Token :=
  (scan text).map PlacedToken.token

theorem lexemeTail_isPrefix (first : Char) (cs : List Char) : lexemeTail first cs <+: cs := by
  unfold lexemeTail
  split
  · exact List.takeWhile_prefix _
  split
  · unfold numeralTail
    split
    · split
      · simp only [List.cons_prefix_cons, true_and]
        exact List.takeWhile_prefix _
      · exact List.takeWhile_prefix _
    · exact List.takeWhile_prefix _
  · exact List.nil_prefix

theorem lexemeTail_append_drop (first : Char) (cs : List Char) :
    lexemeTail first cs ++ cs.drop (lexemeTail first cs).length = cs :=
  List.prefix_iff_eq_append.1 (lexemeTail_isPrefix first cs)

end AsmTranslit
