import AsmTranslit.CommaList
import AsmTranslit.Symbol

/-!
# Statements

The parts of an instruction's text: the words in front that modify it, its mnemonic, and the texts of
its operands.  A word modifies only if something follows it, so a lone `lock` is a mnemonic.
-/

namespace AsmTranslit

inductive GoPrefix
  | rep
  | repn
  | lock
  deriving DecidableEq, Repr

def GoPrefix.name : GoPrefix → String
  | rep => "REP"
  | repn => "REPN"
  | lock => "LOCK"

def GoPrefix.ofIntel? : String → Option GoPrefix
  | "rep" => some rep
  | "repe" => some rep
  | "repz" => some rep
  | "repne" => some repn
  | "repnz" => some repn
  | "lock" => some lock
  | _ => none

/-- Whether a word in lower case is a prefix that only lengthens the encoding. -/
def isPadding (word : String) : Bool :=
  ["data16", "data32", "cs", "ds", "addr32"].contains word

def isModifier (word : String) : Bool :=
  (GoPrefix.ofIntel? word).isSome || isPadding word

structure Statement where
  /-- The words in front of the mnemonic, as they are written. -/
  modifiers : List String
  /-- The mnemonic in lower case. -/
  mnemonic : String
  operands : List String
  deriving DecidableEq, Repr

def isWordChar (c : Char) : Bool :=
  !isBlank c

private theorem length_after_word_lt (c : Char) (cs : List Char) :
    (trimStart ((c :: cs).dropWhile isWordChar)).length < (c :: cs).length := by
  by_cases h : isWordChar c
  · have drop := (List.dropWhile_sublist (l := cs) isWordChar).length_le
    have trimmed := length_trimStart_le (cs.dropWhile isWordChar)
    simp only [List.dropWhile_cons, h, if_true, List.length_cons]
    omega
  · have blank : isBlank c = true := by simpa [isWordChar] using h
    have trimmed := length_trimStart_le cs
    have skip : trimStart (c :: cs) = trimStart cs := by simp [trimStart, blank]
    simp only [List.dropWhile_cons, h, Bool.false_eq_true, if_false, skip, List.length_cons]
    omega

def statementOf : List Char → Statement
  | [] => ⟨[], "", []⟩
  | c :: cs =>
    let word := String.ofList ((c :: cs).takeWhile isWordChar)
    let rest := trimStart ((c :: cs).dropWhile isWordChar)
    if !rest.isEmpty && isModifier (lowerCase word) then
      let statement := statementOf rest
      { statement with modifiers := word :: statement.modifiers }
    else ⟨[], lowerCase word, splitOperands (String.ofList rest)⟩
termination_by cs => cs.length
decreasing_by exact length_after_word_lt c cs

def Statement.ofText (text : String) : Statement :=
  statementOf (trim text.toList)

end AsmTranslit
