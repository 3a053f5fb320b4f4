import AsmTranslit.Proofs.InstructionLines
import AsmTranslit.Proofs.PairedRuns

/-!
# Statements that are read alike

What the lines of an instruction are made from: a rule, the prefixes that its modifying words stand for,
and its operands as they are read.  Statements that have these in common become the same lines or fail
alike, whatever their words and operands are spelled like.
-/

namespace AsmTranslit

def Selection.lines (selection : Selection) (context : BodyContext) (isLast : Bool)
    (statement : Statement) : Except Cause (List GoLine) := do
  let modifier ← (statement.modifiers.foldlM (keepModifier selection.rule.treatment) none).mapError
    .unsupportedOperand
  let operands ← (selection.operands statement.operands).mapError .unsupportedOperand
  let go ← (selection.rule.spelling.goMnemonic selection.mnemonic operands).mapError
    fun fault => .unsupportedOperand (.mnemonic fault)
  arrangeInstruction context isLast statement.mnemonic selection.rule modifier go operands

def Statement.lines (context : BodyContext) (isLast : Bool) (statement : Statement) :
    Except Cause (List GoLine) :=
  match Selection.find? statement.mnemonic
      ((readableOperands statement.operands).any Operand.isVector) with
  | none => .error (.unsupportedInstruction statement.mnemonic)
  | some selection => selection.lines context isLast statement

def ReadAlike (text other : String) : Prop :=
  (readOperand other).toOption = (readOperand text).toOption

/-- Statements that differ in the letter case of their modifying words and in the texts of operands that
are read as the same. -/
structure Statement.Alike (statement other : Statement) : Prop where
  modifiers : other.modifiers.map lowerCase = statement.modifiers.map lowerCase
  mnemonic : other.mnemonic = statement.mnemonic
  operands : List.Forall₂ ReadAlike statement.operands other.operands

variable {context : BodyContext} {isLast : Bool} {selection other : Selection}
  {statement statement' : Statement} {texts texts' words words' : List String}

/-- The lines of an instruction are those of the statement that its text is. -/
theorem instructionLines_eq_lines (context : BodyContext) (isLast : Bool) (text : String) :
    instructionLines context isLast text = (Statement.ofText text).lines context isLast := rfl

theorem Statement.lines_of_found
    (found : Selection.find? statement.mnemonic
      ((readableOperands statement.operands).any Operand.isVector) = some selection) :
    statement.lines context isLast = selection.lines context isLast statement := by
  rw [lines, found]

private theorem paired_foldlM_keepModifier (treatment : Treatment) (kept : Option GoPrefix)
    (same : words'.map lowerCase = words.map lowerCase) :
    Paired False Eq (words.foldlM (keepModifier treatment) kept)
      (words'.foldlM (keepModifier treatment) kept) := by
  induction words generalizing words' kept with
  | nil =>
    obtain rfl := List.map_eq_nil_iff.1 same
    exact .same _
  | cons word words ih =>
    obtain ⟨word', others, rfl, first, later⟩ := List.map_eq_cons_iff.1 same
    rw [List.foldlM_cons, List.foldlM_cons]
    have step : Paired False Eq (keepModifier treatment kept word)
        (keepModifier treatment kept word') := by
      rw [keepModifier, keepModifier, first]
      split
      case h_1 => exact .same _
      case h_2 =>
        split
        case isTrue => exact .same _
        case isFalse => exact .error _ _
    exact step.bind_eq fun next => ih next later

theorem readableOperands_eq (same : List.Forall₂ ReadAlike texts texts') :
    readableOperands texts' = readableOperands texts := by
  induction same with
  | nil => rfl
  | cons first _ ih =>
    rw [readableOperands, readableOperands, List.filterMap_cons, List.filterMap_cons, first]
    split
    case h_1 => exact ih
    case h_2 => exact congrArg _ ih

private theorem paired_readOperands (same : List.Forall₂ ReadAlike texts texts') :
    Paired False Eq (readOperands texts) (readOperands texts') := by
  have lists : Paired False (List.Forall₂ Eq) (readOperands texts) (readOperands texts') := by
    apply Paired.mapM same
    intro text text' alike
    exact (Paired.of_toOption_eq alike).mapError
  apply lists.mono
  intro operands operands' equal
  rwa [List.forall₂_eq_eq_eq] at equal

private theorem paired_operands (same : List.Forall₂ ReadAlike texts texts') :
    Paired False Eq (selection.operands texts) (selection.operands texts') := by
  rw [Selection.operands.eq_def, Selection.operands.eq_def]
  split
  case h_1 =>
    rw [readableOperands_eq same]
    exact .same _
  case h_2 =>
    rw [readableOperands_eq same]
    exact .same _
  case h_3 => exact (paired_readOperands same).bind_eq fun _ => .same _

/-- The name of an instruction stands in no line. -/
theorem paired_arrangeInstruction_name (name name' : String) (rule : Rule) (modifier : Option GoPrefix)
    (go : String) (operands : List Operand) :
    Paired False Eq (arrangeInstruction context isLast name rule modifier go operands)
      (arrangeInstruction context isLast name' rule modifier go operands) := by
  rw [arrangeInstruction.eq_def, arrangeInstruction.eq_def]
  cases rule.treatment with
  | branch =>
    apply (Paired.same _).bind_eq
    intro targets
    split
    case isTrue => exact .same _
    case isFalse => exact .error _ _
  | _ => exact .same _

/-- Statements with one rule whose words and operands are read alike have the same lines. -/
theorem Selection.paired_lines (mnemonic : other.mnemonic = selection.mnemonic)
    (rule : other.rule = selection.rule)
    (modifiers : statement'.modifiers.map lowerCase = statement.modifiers.map lowerCase)
    (operands : Paired False Eq (selection.operands statement.operands)
      (other.operands statement'.operands)) :
    Paired False Eq (selection.lines context isLast statement)
      (other.lines context isLast statement') := by
  rw [lines, lines, mnemonic, rule]
  apply (paired_foldlM_keepModifier _ _ modifiers).mapError.bind_eq
  intro modifier
  apply operands.mapError.bind_eq
  intro read
  apply (Paired.same _).bind_eq
  intro go
  exact paired_arrangeInstruction_name _ _ _ _ _ _

theorem Statement.Alike.paired_lines (alike : statement.Alike statement') :
    Paired False Eq (statement.lines context isLast) (statement'.lines context isLast) := by
  rw [lines, lines, alike.mnemonic, readableOperands_eq alike.operands]
  split
  case h_1 => exact .error _ _
  case h_2 => exact Selection.paired_lines rfl rfl alike.modifiers (paired_operands alike.operands)

end AsmTranslit
