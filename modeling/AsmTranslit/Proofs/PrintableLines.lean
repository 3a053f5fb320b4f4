import AsmTranslit.Proofs.DataLines
import AsmTranslit.Proofs.OutputTables

/-!
# Printable lines

Which characters the lines of the output have.  A line is made from names with fixed texts, numbers and
registers around them, and these have no control characters.  The names in it are symbols of the
listing, new names made from them, and mnemonics, all of which are written in small alphabets.  So no
line has a line feed or a carriage return in it, whatever the listing holds.
-/

namespace AsmTranslit

/-- A text without the control characters that precede the blank. -/
def Printable (text : String) : Prop :=
  ∀ c ∈ text.toList, ' ' ≤ c

instance (text : String) : Decidable (Printable text) :=
  decidable_of_iff (text.toList.all fun c => ' ' ≤ c) (by simp [Printable])

@[simp] theorem printable_append {first second : String} :
    Printable (first ++ second) ↔ Printable first ∧ Printable second := by
  simp [Printable, or_imp, forall_and]

theorem le_of_isAlphanum {c : Char} (h : c.isAlphanum) : ' ' ≤ c := by
  rw [isAlphanum_iff_toNat] at h
  have above : ' '.toNat ≤ c.toNat := by
    change 32 ≤ c.toNat
    omega
  exact UInt32.le_iff_toNat_le.2 above

private theorem le_of_isSymbolChar {c : Char} (h : isSymbolChar c) : ' ' ≤ c := by
  simp only [isSymbolChar, Bool.or_eq_true, beq_iff_eq] at h
  rcases h with (((word | rfl) | rfl) | rfl) | rfl
  · exact le_of_isAlphanum word
  all_goals decide

theorem IsWord.printable {text : String} (word : IsWord text) : Printable text :=
  fun c member => le_of_isAlphanum (word c member)

theorem printable_goSymbol (label : String) : Printable (goSymbol label) := by
  obtain ⟨cs, text, letters⟩ := toList_goSymbol label
  intro c member
  rw [text] at member
  rcases List.mem_append.1 member with name | mark
  · rcases letters c name with word | rfl
    · exact le_of_isAlphanum word
    · decide
  · simp only [List.mem_cons, List.not_mem_nil, or_false] at mark
    rcases mark with rfl | rfl <;> decide

private theorem isWord_hexDigits (places n : Nat) : IsWord (hexDigits places n) :=
  fun _ member => isAlphanum_of_isDigitOf (isDigitOf_of_mem_hexDigits member)

theorem printable_decimal (n : Int64) : Printable (decimal n) := by
  intro c member
  rw [toList_decimal] at member
  have digit {k : Nat} (h : c ∈ Nat.toDigits 10 k) : ' ' ≤ c :=
    le_of_isAlphanum (isAlphanum_of_isDigit (isDigit_of_mem_toDigits h))
  split at member
  · exact digit member
  · rcases List.mem_cons.1 member with rfl | magnitude
    · decide
    · exact digit magnitude

private theorem printable_signedDecimal (n : Int64) : Printable (signedDecimal n) := by
  rw [signedDecimal]
  split
  · exact printable_append.2 ⟨by decide, printable_decimal n⟩
  · exact printable_decimal n

/-- The names in an operand, which the rest of its text surrounds. -/
def GoOperand.names : GoOperand → List String
  | label name => [name]
  | address a => a.symbol?.toList
  | _ => []

theorem printable_indexText (index : Option (GoRegister × Scale)) : Printable (indexText index) := by
  cases index with
  | none => decide
  | some entry =>
    simp only [indexText, printable_append, entry.1.isWord_name.printable,
      (isWord_toString _).printable, and_true]
    decide

theorem printable_ite {text : String} {n : Int64} (h : Printable text) :
    Printable (if n = 0 then "" else text) := by
  split
  · decide
  · exact h

theorem GoOperand.printable_text {operand : GoOperand} (names : ∀ name ∈ operand.names, Printable name) :
    Printable operand.text := by
  cases operand with
  | register r => exact r.isWord_name.printable
  | immediate n => exact printable_append.2 ⟨by decide, printable_decimal n⟩
  | label name => exact names name (List.mem_singleton_self name)
  | address a =>
    cases a with
    | based displacement base index =>
      simp only [text, GoAddress.text, printable_append, printable_ite (printable_decimal _),
        base.isWord_name.printable, printable_indexText, and_true, true_and]
      decide
    | indexed displacement index scale =>
      exact printable_append.2 ⟨printable_decimal displacement, printable_indexText _⟩
    | symbolic symbol offset index =>
      have named : Printable symbol := names symbol (by simp [GoOperand.names, GoAddress.symbol?])
      simp only [text, GoAddress.text, printable_append, named,
        printable_ite (printable_signedDecimal _), printable_indexText, and_true, true_and]
      decide

theorem mem_intercalate {α : Type} {separator : List α} {blocks : List (List α)} {x : α}
    (h : x ∈ separator.intercalate blocks) : x ∈ separator ∨ ∃ block ∈ blocks, x ∈ block := by
  induction blocks with
  | nil => simp at h
  | cons first rest ih =>
    rw [intercalate_cons] at h
    rcases List.mem_append.1 h with own | later
    · exact .inr ⟨first, List.mem_cons_self, own⟩
    · split_ifs at later
      · simp at later
      · rcases List.mem_append.1 later with between | inRest
        · exact .inl between
        · refine (ih inRest).imp_right ?_
          rintro ⟨block, member, inside⟩
          exact ⟨block, List.mem_cons_of_mem _ member, inside⟩

private theorem printable_intercalate {separator : String} {texts : List String}
    (between : Printable separator)
    (h : ∀ text ∈ texts, Printable text) : Printable (separator.intercalate texts) := by
  intro c member
  rw [String.toList_intercalate] at member
  rcases mem_intercalate member with own | ⟨text, isText, inText⟩
  · exact between c own
  · obtain ⟨text, inTexts, rfl⟩ := List.mem_map.1 isText
    exact h text inTexts c inText

/-- The names in a line, which the rest of its text surrounds. -/
def GoLine.names : GoLine → List String
  | blank => []
  | label name => [name]
  | instruction _ mnemonic operands => mnemonic :: operands.flatMap GoOperand.names
  | entry routine => [routine]
  | datum symbol _ _ => [symbol]
  | global symbol _ => [symbol]

/-- A line made from printable names is printable. -/
theorem GoLine.printable_text {line : GoLine} (names : ∀ name ∈ line.names, Printable name) :
    Printable line.text := by
  cases line with
  | blank => decide
  | label name => exact printable_append.2 ⟨names name (List.mem_singleton_self name), by decide⟩
  | instruction modifier mnemonic operands =>
    have own : Printable mnemonic := names mnemonic List.mem_cons_self
    have texts : ∀ text ∈ operands.map GoOperand.text, Printable text := by
      intro text member
      obtain ⟨operand, inOperands, rfl⟩ := List.mem_map.1 member
      apply GoOperand.printable_text
      intro name inOperand
      exact names name (List.mem_cons_of_mem _ (List.mem_flatMap.2 ⟨operand, inOperands, inOperand⟩))
    have list : Printable (if operands.isEmpty then ""
        else " " ++ ", ".intercalate (operands.map GoOperand.text)) := by
      split
      · decide
      · exact printable_append.2 ⟨by decide, printable_intercalate (by decide) texts⟩
    simp only [text, printable_append]
    refine ⟨⟨⟨by decide, ?_⟩, own⟩, list⟩
    cases modifier with
    | none => decide
    | some modifier => cases modifier <;> decide
  | entry routine =>
    have named := names routine (List.mem_singleton_self routine)
    exact printable_append.2 ⟨printable_append.2 ⟨by decide, named⟩, by decide⟩
  | datum symbol offset item =>
    have named := names symbol (List.mem_singleton_self symbol)
    simp only [text, printable_append, named, (isWord_toString _).printable,
      (isWord_hexDigits _ _).printable, and_true]
    decide
  | global symbol size =>
    have named := names symbol (List.mem_singleton_self symbol)
    simp only [text, printable_append, named, (isWord_toString _).printable, and_true]
    decide

variable {options : Options} {lines : List String} {source : GoSource} {segment : Segment}
  {tables : List DataTable} {routine : RoutineUnit} {routines : List RoutineUnit}
  {written : List Nat} {line : GoLine}

/-- The mnemonic of every line that an instruction becomes is a word. -/
theorem isWord_of_instructionLines {context : BodyContext} {isLast : Bool} {text mnemonic : String}
    {modifier : Option GoPrefix} {operands : List GoOperand} {group : List GoLine}
    (h : instructionLines context isLast text = .ok group)
    (member : GoLine.instruction modifier mnemonic operands ∈ group) : IsWord mnemonic := by
  obtain ⟨selection, kept, read, go, parts⟩ := exists_assembled h
  by_cases isRet : selection.rule.treatment = .ret
  · rw [arrangeInstruction_ret parts.arranged isRet] at member
    split at member
    case isTrue => simp at member
    case isFalse =>
      rcases List.mem_cons.1 member with closing | last
      · obtain ⟨-, rfl, -⟩ := GoLine.instruction.inj closing
        decide
      · obtain ⟨-, rfl, -⟩ := GoLine.instruction.inj (List.mem_singleton.1 last)
        exact parts.isWord
  · obtain ⟨rendered, rfl⟩ := arrangeInstruction_of_ne_ret parts.arranged isRet
    obtain ⟨-, rfl, -⟩ := GoLine.instruction.inj (List.mem_singleton.1 member)
    exact parts.isWord

/-- The names of local labels are printable if that of the routine is. -/
theorem printable_localLabel {routine : String} (named : Printable routine) (n : Nat) :
    Printable (localLabel routine n) :=
  printable_append.2 ⟨printable_append.2 ⟨named, by decide⟩, (isWord_toString n).printable⟩

theorem GoOperand.Known.printable_names {defined referenced : List String} {operand : GoOperand}
    (known : operand.Known tables (renameLabels segment.name defined referenced))
    (named : Printable segment.name) : ∀ name ∈ operand.names, Printable name := by
  intro name member
  cases operand with
  | label renamed =>
    obtain rfl := List.mem_singleton.1 member
    obtain ⟨old, renames⟩ := known.label name rfl
    rw [lookup_renameLabels, Option.ite_none_right_eq_some] at renames
    obtain rfl := Option.some.inj renames.2
    exact printable_localLabel named _
  | address a =>
    obtain ⟨table, -, rfl⟩ := known.symbol name (Option.mem_toList.1 member)
    exact printable_goSymbol table.label
  | register => cases member
  | immediate => cases member

theorem RoutineBody.printable_names {body : RoutineBody}
    (h : ofSegment segment lines tables = .ok body) (named : Printable segment.name)
    (member : line ∈ body.lines) : ∀ name ∈ line.names, Printable name := by
  rcases label_or_instruction h member with
    ⟨name, rfl⟩ | ⟨context, defined, referenced, isLast, text, group, rfl, labels, becomes, inGroup⟩
  · obtain ⟨n, rfl⟩ := exists_localLabel_of_mem h (mem_definitions.2 member)
    intro name own
    obtain rfl := List.mem_singleton.1 own
    exact printable_localLabel named n
  · obtain ⟨modifier, mnemonic, operands, rfl, -, known⟩ :=
      knownInstruction_instructionLines becomes inGroup
    rw [labels] at known
    intro name own
    rcases List.mem_cons.1 own with rfl | inOperands
    · exact (isWord_of_instructionLines becomes inGroup).printable
    · obtain ⟨operand, isOperand, inOperand⟩ := List.mem_flatMap.1 inOperands
      exact (known operand isOperand).printable_names named name inOperand

namespace RoutineUnit

private theorem printable_names_tableLines (member : line ∈ routine.tableLines written) :
    ∀ name ∈ line.names, Printable name := by
  rcases eq_blank_or_of_mem_tableLines member with rfl | ⟨table, ofTable⟩
  · nofun
  · have symbol : line.names = [table.symbol] := by
      cases line with
      | datum => exact congrArg List.singleton (Option.some.inj ofTable)
      | global => exact congrArg List.singleton (Option.some.inj ofTable)
      | _ => cases ofTable
    intro name own
    rw [symbol] at own
    obtain rfl := List.mem_singleton.1 own
    exact printable_goSymbol table.label

theorem Translated.printable_names (translated : routine.Translated options lines tables)
    (named : Printable routine.segment.name) (member : line ∈ routine.routineLines) :
    ∀ name ∈ line.names, Printable name := by
  rcases List.mem_append.1 member with front | closing
  · rcases List.mem_append.1 front with entry | inBody
    · intro name own
      rcases List.mem_cons.1 entry with rfl | blank
      · obtain rfl := List.mem_singleton.1 own
        exact named
      · obtain rfl := List.mem_singleton.1 blank
        cases own
    · exact RoutineBody.printable_names translated.body named inBody
  · have closingLines : ∀ line ∈ [GoLine.instruction none "VZEROUPPER" [], .instruction none "RET" []],
        ∀ name ∈ line.names, Printable name := by
      decide
    exact closingLines line closing

end RoutineUnit

private theorem exists_routine_of_mem_routineBlocks {block : List GoLine}
    (h : block ∈ routineBlocks written routines) :
    ∃ routine ∈ routines, ∃ before, block = routine.tableLines before ++ routine.routineLines := by
  induction routines generalizing written with
  | nil => simp [routineBlocks] at h
  | cons routine routines ih =>
    rcases List.mem_cons.1 h with rfl | later
    · exact ⟨routine, List.mem_cons_self, written, rfl⟩
    · obtain ⟨other, member, before, same⟩ := ih later
      exact ⟨other, List.mem_cons_of_mem _ member, before, same⟩

namespace GoSource

/-- Every line of the output is printable. -/
theorem printable_text (h : GoSource.ofLines options lines = .ok source) (member : line ∈ source.lines) :
    Printable line.text := by
  obtain ⟨segmentation, routines, segmented, segments, translated, rfl⟩ := exists_routines h
  apply GoLine.printable_text
  rcases mem_intercalate member with separator | ⟨block, isBlock, inBlock⟩
  · obtain rfl : line = .blank := by simpa using separator
    nofun
  · obtain ⟨routine, isRoutine, before, rfl⟩ := exists_routine_of_mem_routineBlocks isBlock
    have isSegment : routine.segment ∈ segmentation.segments :=
      segments ▸ List.mem_map_of_mem isRoutine
    have named : Printable routine.segment.name := fun c inName =>
      le_of_isSymbolChar (Segmentation.isSymbolChar_of_mem_name segmented isSegment inName)
    rcases List.mem_append.1 inBlock with inTables | inRoutine
    · exact RoutineUnit.printable_names_tableLines inTables
    · exact (translated routine isRoutine).printable_names named inRoutine

end GoSource

end AsmTranslit
