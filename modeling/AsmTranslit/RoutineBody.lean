import AsmTranslit.Correlation
import AsmTranslit.GoLine
import AsmTranslit.InstructionCatalog

/-!
# Routine bodies

The Go lines of a routine's body.  A first look finds the labels of the body and the operand texts of
its branches; the labels that a branch names get new names made from the routine's.  Then every source
line becomes a group of Go lines, in order.  Whatever cannot be kept faithfully is a failure.
-/

namespace AsmTranslit

structure BodyContext where
  routine : String
  /-- The tables that memory operands may refer to. -/
  tables : List DataTable
  /-- The labels that branches name, with their new names. -/
  labels : List (String × String)
  deriving DecidableEq, Repr

structure Selection where
  /-- The mnemonic, without the predicate that a comparison may have in its name. -/
  mnemonic : String
  predicate : Option Nat
  rule : Rule
  deriving DecidableEq, Repr

/-- The rule for a mnemonic in lower case: its own, or that of the comparison it stands for. -/
def Selection.find? (mnemonic : String) (hasVector : Bool) : Option Selection :=
  match Rule.find? mnemonic hasVector with
  | some rule => some ⟨mnemonic, none, rule⟩
  | none =>
    match comparison? mnemonic with
    | some (comparison, predicate) =>
      (Rule.find? comparison hasVector).map fun rule => ⟨comparison, some predicate, rule⟩
    | none => none

def readableOperands (texts : List String) : List Operand :=
  texts.filterMap fun text => (readOperand text).toOption

def readOperands (texts : List String) : Except InstructionFault (List Operand) :=
  texts.mapM fun text => (readOperand text).mapError fun fault => .operand fault text

/-- Go has no implied shift by one. -/
def withCount (treatment : Treatment) (operands : List Operand) : List Operand :=
  if treatment = .shift ∧ operands.length = 1 then operands ++ [.immediate 1] else operands

/-- The operands of an instruction with those that Go wants written out.  Where operands are dropped
in the end, those that cannot be read do not matter. -/
def Selection.operands (selection : Selection) (texts : List String) :
    Except InstructionFault (List Operand) :=
  match selection.rule.treatment with
  | .stringOp => .ok (readableOperands texts)
  | .nop => .ok (readableOperands texts)
  | treatment => do
    let operands ← readOperands texts
    let predicate := selection.predicate.toList.map fun n => Operand.immediate (Int64.ofNat n)
    return withCount treatment (operands ++ predicate)

/-- The prefix to keep after one more modifying word.  A return needs no `rep`, and words that only
lengthen the encoding belong to instructions that do nothing. -/
def keepModifier (treatment : Treatment) (kept : Option GoPrefix) (word : String) :
    Except InstructionFault (Option GoPrefix) :=
  match GoPrefix.ofIntel? (lowerCase word) with
  | some modifier =>
    if modifier = .rep ∧ treatment = .ret then .ok kept
    else if kept.isNone then .ok (some modifier)
    else .error .secondModifier
  | none => if treatment = .nop then .ok kept else .error (.modifierWithoutNop word)

def renderShift (tables : List DataTable) : List Operand → Except RenderFault (List GoOperand)
  | [] => .ok []
  | [count] => do return [← renderCount tables count]
  | operand :: operands => do
    let rendered ← renderOperand tables operand
    return rendered :: (← renderShift tables operands)

/-- The lines of an instruction whose rule, prefix, Go mnemonic and operands are known.  The return at
the end of a body is left to the routine's frame. -/
def arrangeInstruction (context : BodyContext) (isLast : Bool) (name : String) (rule : Rule)
    (modifier : Option GoPrefix) (go : String) (operands : List Operand) :
    Except Cause (List GoLine) :=
  match rule.treatment with
  | .ret =>
    if !operands.isEmpty then .error (.unsupportedOperand .returnWithOperands)
    else if isLast then .ok []
    else .ok [.instruction none "VZEROUPPER" [], .instruction modifier go []]
  | .nop => .ok [.instruction modifier go []]
  | .stringOp => .ok [.instruction modifier go []]
  | .branch => do
    let targets ← (operands.mapM (renderTarget context.tables context.labels)).mapError
      RenderFault.cause
    if targets.length = 1 then return [.instruction modifier go targets]
    else .error (.unsupportedOperand (.operandCount name targets.length))
  | .plain => do
    let rendered ← (operands.mapM (renderOperand context.tables)).mapError RenderFault.cause
    return [.instruction modifier go (rule.order.arrange rendered)]
  | .shift => do
    let rendered ← (renderShift context.tables operands).mapError RenderFault.cause
    return [.instruction modifier go (rule.order.arrange rendered)]

def instructionLines (context : BodyContext) (isLast : Bool) (text : String) :
    Except Cause (List GoLine) :=
  let statement := Statement.ofText text
  let hasVector := (readableOperands statement.operands).any Operand.isVector
  match Selection.find? statement.mnemonic hasVector with
  | none => .error (.unsupportedInstruction statement.mnemonic)
  | some selection => do
    let modifier ← (statement.modifiers.foldlM (keepModifier selection.rule.treatment) none).mapError
      .unsupportedOperand
    let operands ← (selection.operands statement.operands).mapError .unsupportedOperand
    let go ← (selection.rule.spelling.goMnemonic selection.mnemonic operands).mapError
      fun fault => .unsupportedOperand (.mnemonic fault)
    arrangeInstruction context isLast statement.mnemonic selection.rule modifier go operands

def label? (line : String) : Option String :=
  match classify line with
  | .ok (.label name) => some name
  | _ => none

theorem label?_eq_some_iff {line name : String} :
    label? line = some name ↔ classify line = .ok (.label name) := by
  fun_cases label? line with
  | case1 other read => simp [read]
  | case2 noLabel => simpa using noLabel name

/-- The labels of a body in order, those in `seen` being defined before it. -/
def definedLabels (routine : String) (seen : List String) :
    List (String × Nat) → Except Failure (List String)
  | [] => .ok []
  | (text, index) :: body =>
    match label? text with
    | none => definedLabels routine seen body
    | some name =>
      if seen.contains name then
        .error ⟨.at index (some routine) text, .structural (.repeatedLabel name)⟩
      else do return name :: (← definedLabels routine (name :: seen) body)

def branchOperands (text : String) : List String :=
  let statement := Statement.ofText text
  match Rule.find? statement.mnemonic false with
  | some rule => if rule.treatment = .branch then statement.operands else []
  | none => []

def branchTexts (body : List (String × Nat)) : List String :=
  (body.filterMap fun line => instruction? line.1).flatMap branchOperands

/-- The new name of the label with the given number among those that branches name. -/
def localLabel (routine : String) (n : Nat) : String :=
  routine ++ "_L" ++ toString n

def renameLabels (routine : String) (defined referenced : List String) : List (String × String) :=
  (defined.filter referenced.contains).zipIdx.map fun (name, n) => (name, localLabel routine n)

def lastInstruction? (body : List (String × Nat)) : Option Nat :=
  ((body.filter fun line => (instruction? line.1).isSome).getLast?).map Prod.snd

def firstWord (line : String) : String :=
  String.ofList ((lineContent line).takeWhile isWordChar)

def lineGroup (context : BodyContext) (last : Option Nat) (line : String × Nat) :
    Except Failure (List GoLine) :=
  let (text, index) := line
  let here := Location.at index (some context.routine)
  match classify text with
  | .error fault => .error ⟨here text, .structural (.line fault)⟩
  | .ok .blank => .ok []
  | .ok (.label name) => .ok ((context.labels.lookup name).toList.map .label)
  | .ok (.directive (.bookkeeping _)) => .ok []
  | .ok (.directive (.align _)) => .ok []
  | .ok (.directive _) => .error ⟨here text, .unsupportedDirective (firstWord text)⟩
  | .ok (.instruction content) =>
    (instructionLines context (last == some index) content).mapError fun cause =>
      ⟨here content, cause⟩

structure RoutineBody where
  groups : List (List GoLine)
  instructions : Nat
  deriving DecidableEq, Repr

def RoutineBody.lines (body : RoutineBody) : List GoLine :=
  body.groups.flatten

def RoutineBody.ofSegment (segment : Segment) (lines : List String) (tables : List DataTable) :
    Except Failure RoutineBody := do
  let body := segment.body lines
  let defined ← definedLabels segment.name [] body
  let labels := renameLabels segment.name defined (branchTexts body)
  let context : BodyContext := ⟨segment.name, tables, labels⟩
  let groups ← body.mapM (lineGroup context (lastInstruction? body))
  return ⟨groups, (body.filterMap fun line => instruction? line.1).length⟩

end AsmTranslit
