import AsmTranslit.Proofs.GoAddressText
import AsmTranslit.Proofs.Words

/-!
# Mentioned symbols

Where the symbols of data tables are in the text of an instruction.  A symbol ends in `<>` and is read
back to the first character that no symbol has in front of these two.  No other part of a line has a
`<` in it, neither mnemonics nor registers, numbers and labels, so the symbols of the text are those of
its addresses.
-/

namespace AsmTranslit

def isGoSymbolChar (c : Char) : Bool :=
  c.isAlphanum || c == '_'

/-- The symbols that a text mentions after a run of symbol characters. -/
def symbolsAfter (run : List Char) : List Char → List String
  | [] => []
  | '<' :: '>' :: cs => String.ofList (run ++ ['<', '>']) :: symbolsAfter [] cs
  | c :: cs => symbolsAfter (if isGoSymbolChar c then run ++ [c] else []) cs

/-- The symbols that a text mentions. -/
def symbolsIn (text : String) : List String :=
  symbolsAfter [] text.toList

example : symbolsIn "    MOVQ LCPI0_0<>+8(SB)(CX*8), AX" = ["LCPI0_0<>"] := by
  decide +kernel

def Unmarked (text : String) : Prop :=
  '<' ∉ text.toList

instance (text : String) : Decidable (Unmarked text) :=
  inferInstanceAs (Decidable ('<' ∉ text.toList))

@[simp] theorem unmarked_append {first second : String} :
    Unmarked (first ++ second) ↔ Unmarked first ∧ Unmarked second := by
  simp [Unmarked, not_or]

theorem IsWord.unmarked {text : String} (word : IsWord text) : Unmarked text :=
  fun mark => absurd (word '<' mark) (by decide)

/-- A text at whose start a symbol in front of it would have ended. -/
def EndsSymbol (cs : List Char) : Prop :=
  ∀ c, cs.head? = some c → c ≠ '<' ∧ isGoSymbolChar c = false

variable {run xs ys : List Char}

theorem symbolsAfter_cons {c : Char} (unmarked : c ≠ '<') :
    symbolsAfter run (c :: xs) = symbolsAfter (if isGoSymbolChar c then run ++ [c] else []) xs := by
  rw [symbolsAfter]
  rintro - rfl
  exact absurd rfl unmarked

private theorem symbolsAfter_of_endsSymbol (run : List Char) (ends : EndsSymbol ys) :
    symbolsAfter run ys = symbolsAfter [] ys := by
  cases ys with
  | nil => rfl
  | cons c cs =>
    obtain ⟨unmarked, ended⟩ := ends c rfl
    simp [symbolsAfter_cons unmarked, ended]

theorem symbolsAfter_append (unmarked : '<' ∉ xs) (ends : EndsSymbol ys) :
    symbolsAfter run (xs ++ ys) = symbolsAfter [] ys := by
  induction xs generalizing run with
  | nil => exact symbolsAfter_of_endsSymbol run ends
  | cons c cs ih =>
    obtain ⟨first, rest⟩ := not_or.1 (List.mem_cons.not.1 unmarked)
    rw [List.cons_append, symbolsAfter_cons (Ne.symm first), ih rest]

private theorem symbolsAfter_symbol (name : ∀ c ∈ xs, isGoSymbolChar c) :
    symbolsAfter run (xs ++ '<' :: '>' :: ys) =
      String.ofList (run ++ xs ++ ['<', '>']) :: symbolsAfter [] ys := by
  induction xs generalizing run with
  | nil => rw [List.nil_append, symbolsAfter, List.append_nil]
  | cons c cs ih =>
    have accepted := name c List.mem_cons_self
    have unmarked : c ≠ '<' := by
      rintro rfl
      exact absurd accepted (by decide)
    rw [List.cons_append, symbolsAfter_cons unmarked, if_pos accepted,
      ih fun d member => name d (List.mem_cons_of_mem c member)]
    simp

def GoOperand.symbol? : GoOperand → Option String
  | address a => a.symbol?
  | _ => none

/-- An operand with an unmarked label, or with the symbol of a table. -/
structure GoOperand.WellNamed (operand : GoOperand) : Prop where
  label : ∀ name, operand = .label name → Unmarked name
  symbol : ∀ symbol, operand.symbol? = some symbol → ∃ label, symbol = goSymbol label

theorem unmarked_name (r : GoRegister) : Unmarked r.name :=
  r.isWord_name.unmarked

theorem unmarked_toString (n : Nat) : Unmarked (toString n) :=
  (isWord_toString n).unmarked

theorem unmarked_decimal (n : Int64) : Unmarked (decimal n) := by
  rw [Unmarked, toList_decimal]
  have digits (k : Nat) : '<' ∉ Nat.toDigits 10 k := fun mark => by
    cases isDigit_of_mem_toDigits mark
  split
  · exact digits _
  · simpa using digits _

private theorem unmarked_signedDecimal (n : Int64) : Unmarked (signedDecimal n) := by
  rw [signedDecimal]
  split
  · exact unmarked_append.2 ⟨by decide, unmarked_decimal n⟩
  · exact unmarked_decimal n

theorem unmarked_indexText (index : Option (GoRegister × Scale)) : Unmarked (indexText index) := by
  cases index with
  | none => decide
  | some entry =>
    simp only [indexText, unmarked_append, unmarked_name, unmarked_toString, and_true]
    decide

private theorem symbolsAfter_goSymbol (label : String) (cs : List Char) :
    symbolsAfter [] ((goSymbol label).toList ++ cs) = goSymbol label :: symbolsAfter [] cs := by
  obtain ⟨name, symbol, letters⟩ := toList_goSymbol label
  have accepted : ∀ c ∈ name, isGoSymbolChar c := by
    intro c member
    simpa [isGoSymbolChar] using letters c member
  have whole : String.ofList ([] ++ name ++ ['<', '>']) = goSymbol label := by
    rw [List.nil_append, ← symbol, String.ofList_toList]
  rw [symbol, List.append_assoc, List.cons_append, List.singleton_append,
    symbolsAfter_symbol accepted, whole]

/-- The text of an operand mentions the symbol that its address refers to, and no other. -/
theorem symbolsAfter_text {operand : GoOperand} (named : operand.WellNamed) (ends : EndsSymbol ys) :
    symbolsAfter [] (operand.text.toList ++ ys) =
      operand.symbol?.toList ++ symbolsAfter [] ys := by
  have of_unmarked (unmarked : Unmarked operand.text) (noSymbol : operand.symbol? = none) :
      symbolsAfter [] (operand.text.toList ++ ys) =
        operand.symbol?.toList ++ symbolsAfter [] ys := by
    rw [symbolsAfter_append unmarked ends, noSymbol]
    rfl
  cases operand with
  | register r => exact of_unmarked (unmarked_name r) rfl
  | immediate n => exact of_unmarked (unmarked_append.2 ⟨by decide, unmarked_decimal n⟩) rfl
  | label name => exact of_unmarked (named.label name rfl) rfl
  | address a =>
    cases a with
    | based displacement base index =>
      apply of_unmarked _ rfl
      have front : Unmarked (if displacement = 0 then "" else decimal displacement) := by
        split
        · decide
        · exact unmarked_decimal displacement
      simp only [GoOperand.text, GoAddress.text, unmarked_append, unmarked_name, unmarked_indexText,
        front, and_true, true_and]
      decide
    | indexed displacement index scale =>
      apply of_unmarked _ rfl
      exact unmarked_append.2 ⟨unmarked_decimal displacement, unmarked_indexText _⟩
    | symbolic symbol offset index =>
      obtain ⟨label, rfl⟩ := named.symbol symbol rfl
      have back : Unmarked ((if offset = 0 then "" else signedDecimal offset) ++ "(SB)" ++
          indexText index) := by
        have number : Unmarked (if offset = 0 then "" else signedDecimal offset) := by
          split
          · decide
          · exact unmarked_signedDecimal offset
        simp only [unmarked_append, unmarked_indexText, number, and_true, true_and]
        decide
      have text : (GoOperand.address (.symbolic (goSymbol label) offset index)).text =
          goSymbol label ++ ((if offset = 0 then "" else signedDecimal offset) ++ "(SB)" ++
            indexText index) := by
        simp only [GoOperand.text, GoAddress.text, String.append_assoc]
      rw [text, String.toList_append, List.append_assoc, symbolsAfter_goSymbol,
        symbolsAfter_append back ends]
      rfl

private theorem symbolsAfter_operands {operands : List GoOperand}
    (named : ∀ operand ∈ operands, operand.WellNamed) :
    symbolsAfter [] (", ".intercalate (operands.map GoOperand.text)).toList =
      operands.filterMap GoOperand.symbol? := by
  rw [String.toList_intercalate]
  induction operands with
  | nil => rfl
  | cons first rest ih =>
    have own := named first List.mem_cons_self
    have later := ih fun operand member => named operand (List.mem_cons_of_mem first member)
    have split : (first :: rest).filterMap GoOperand.symbol? =
        first.symbol?.toList ++ rest.filterMap GoOperand.symbol? := by
      cases same : first.symbol? <;> simp [same]
    rw [split, ← later]
    cases rest with
    | nil =>
      have atEnd : EndsSymbol [] := by simp [EndsSymbol]
      simpa using symbolsAfter_text own atEnd
    | cons second others =>
      have comma : EndsSymbol (", ".toList ++
          List.intercalate ", ".toList ((second :: others).map fun operand => operand.text.toList)) := by
        simp [EndsSymbol, isGoSymbolChar]
      have front := symbolsAfter_text own comma
      have blank (cs : List Char) : symbolsAfter [] (", ".toList ++ cs) = symbolsAfter [] cs := by
        rfl
      rw [blank] at front
      simpa [List.intercalate_cons_cons, Function.comp_def] using front

/-- The symbols that the text of an instruction mentions are those of its operands. -/
theorem symbolsIn_instruction {modifier : Option GoPrefix} {mnemonic : String}
    {operands : List GoOperand} (unmarked : Unmarked mnemonic)
    (named : ∀ operand ∈ operands, operand.WellNamed) :
    symbolsIn (GoLine.instruction modifier mnemonic operands).text =
      operands.filterMap GoOperand.symbol? := by
  obtain ⟨word, unmarkedWord, text⟩ : ∃ word, Unmarked word ∧
      (GoLine.instruction modifier mnemonic operands).text = "    " ++ word ++ mnemonic ++
        (if operands.isEmpty then ""
          else " " ++ ", ".intercalate (operands.map GoOperand.text)) := by
    cases modifier with
    | none => exact ⟨"", by decide, rfl⟩
    | some modifier => exact ⟨modifier.name ++ "; ", by cases modifier <;> decide, rfl⟩
  have front : Unmarked ("    " ++ word ++ mnemonic) :=
    unmarked_append.2 ⟨unmarked_append.2 ⟨by decide, unmarkedWord⟩, unmarked⟩
  rw [symbolsIn, text, String.toList_append]
  cases operands with
  | nil => exact symbolsAfter_append front (by simp [EndsSymbol])
  | cons first rest =>
    have blank : EndsSymbol (" " ++ ", ".intercalate ((first :: rest).map GoOperand.text)).toList := by
      simp [EndsSymbol, isGoSymbolChar]
    rw [List.isEmpty_cons, if_neg Bool.false_ne_true, symbolsAfter_append front blank,
      ← symbolsAfter_operands named, String.toList_append]
    rfl

end AsmTranslit
