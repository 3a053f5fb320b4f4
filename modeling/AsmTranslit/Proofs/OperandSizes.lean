import AsmTranslit.Proofs.StringInstructions

/-!
# Sizes of operands

An integer instruction has one size, which its Go name carries, and the names of general registers in
Go leave theirs out.  The size is that of the first operand which has one.  The other operands are not
asked for theirs, so an instruction is translated whether they agree or not, and the name is right for
all of them only if they do.
-/

namespace AsmTranslit

def Spelling.isSized : Spelling → Bool
  | suffixed _ _ => true
  | multiply => true
  | move _ => true
  | _ => false

/-- The size of an instruction, and the name with its letter.  The size is that of the first operand
which has one; only the names with a suffix can have another for want of such an operand. -/
inductive SizedName : Spelling → List Operand → Size → String → Prop
  | suffixed {operands : List Operand} {default : Option Size} {size : Size} {letter : Char}
    (stem : String) (known : (integerSize? operands).or default = some size)
    (suffix : size.goSuffix? = some letter) :
    SizedName (.suffixed stem default) operands size (stem ++ String.singleton letter)
  | multiply {operands : List Operand} {size : Size} {letter : Char}
    (known : integerSize? operands = some size) (suffix : size.goSuffix? = some letter) :
    SizedName .multiply operands size
      ((if operands.length = 3 then "IMUL3" else "IMUL") ++ String.singleton letter)
  | move {operands : List Operand} {size : Size} {letter : Char} (condition : Condition)
    (known : integerSize? operands = some size) (suffix : size.goSuffix? = some letter) :
    SizedName (.move condition) operands size
      ("CMOV" ++ String.singleton letter ++ condition.goName)

/-- The operands that are as wide as the instruction: all, but for the count of a shift. -/
def valueOperands (treatment : Treatment) (operands : List Operand) : List Operand :=
  if treatment = .shift then operands.dropLast else operands

def renderOperands (treatment : Treatment) (tables : List DataTable) (operands : List Operand) :
    Except RenderFault (List GoOperand) :=
  if treatment = .shift then renderShift tables operands else operands.mapM (renderOperand tables)

variable {mnemonic text go : String} {spelling : Spelling} {treatment : Treatment}
  {operands : List Operand} {size : Size} {context : BodyContext} {isLast : Bool}

theorem map_knownSizeLetter_eq_ok_iff (f : String → String) {size : Option Size} :
    (do return f (← knownSizeLetter mnemonic size)) = .ok go ↔
      ∃ known letter, size = some known ∧ known.goSuffix? = some letter ∧
        go = f (String.singleton letter) := by
  rw [bind_eq_ok_iff]
  constructor
  · rintro ⟨text, known, last⟩
    obtain rfl := Except.ok.inj last
    obtain ⟨size, letter, hasSize, suffix, rfl⟩ := knownSizeLetter_eq_ok_iff.1 known
    exact ⟨size, letter, hasSize, suffix, rfl⟩
  · rintro ⟨size, letter, hasSize, suffix, rfl⟩
    exact ⟨_, knownSizeLetter_eq_ok_iff.2 ⟨size, letter, hasSize, suffix, rfl⟩, rfl⟩

theorem goMnemonic_eq_ok_iff_sizedName (sized : spelling.isSized) :
    spelling.goMnemonic mnemonic operands = .ok go ↔ ∃ size, SizedName spelling operands size go := by
  cases spelling with
  | suffixed stem default =>
    refine (map_knownSizeLetter_eq_ok_iff (stem ++ ·)).trans ⟨?_, ?_⟩
    · rintro ⟨size, letter, known, suffix, rfl⟩
      exact ⟨size, .suffixed stem known suffix⟩
    · rintro ⟨size, named⟩
      cases named with
      | suffixed _ known suffix => exact ⟨size, _, known, suffix, rfl⟩
  | multiply =>
    refine (map_knownSizeLetter_eq_ok_iff
      ((if operands.length = 3 then "IMUL3" else "IMUL") ++ ·)).trans ⟨?_, ?_⟩
    · rintro ⟨size, letter, known, suffix, rfl⟩
      exact ⟨size, .multiply known suffix⟩
    · rintro ⟨size, named⟩
      cases named with
      | multiply known suffix => exact ⟨size, _, known, suffix, rfl⟩
  | move condition =>
    refine (map_knownSizeLetter_eq_ok_iff ("CMOV" ++ · ++ condition.goName)).trans ⟨?_, ?_⟩
    · rintro ⟨size, letter, known, suffix, rfl⟩
      exact ⟨size, .move condition known suffix⟩
    · rintro ⟨size, named⟩
      cases named with
      | move _ known suffix => exact ⟨size, _, known, suffix, rfl⟩
  | _ => cases sized

private theorem SizedName.eq_of_integerSize? {own : Size} (named : SizedName spelling operands size go)
    (known : integerSize? operands = some own) : own = size := by
  cases named with
  | suffixed _ hasSize => simpa [known] using hasSize
  | multiply hasSize => simpa [known] using hasSize
  | move _ hasSize => simpa [known] using hasSize

private theorem valueOperands_isPrefix (treatment : Treatment) (operands : List Operand) :
    valueOperands treatment operands <+: operands := by
  rw [valueOperands]
  split
  case isTrue => exact List.dropLast_prefix operands
  case isFalse => exact List.prefix_rfl

private theorem SizedName.exists_valueOperand (named : SizedName spelling operands size go)
    {operand : Operand} {own : Size} (member : operand ∈ valueOperands treatment operands)
    (hasSize : operand.integerSize? = some own) :
    ∃ first ∈ valueOperands treatment operands, first.integerSize? = some size := by
  obtain ⟨rest, split⟩ := valueOperands_isPrefix treatment operands
  have known : ((valueOperands treatment operands).findSome? Operand.integerSize?).isSome := by
    rw [List.findSome?_isSome_iff]
    exact ⟨operand, member, by simp [hasSize]⟩
  obtain ⟨decided, found⟩ := Option.isSome_iff_exists.1 known
  have ofAll : integerSize? operands = some decided := by
    rw [integerSize?, ← split, List.findSome?_append, found, Option.some_or]
  obtain rfl := named.eq_of_integerSize? ofAll
  exact List.exists_of_findSome?_eq_some found

/-- The name tells the size of all value operands exactly if no two of them differ in size. -/
theorem SizedName.size_eq_iff (named : SizedName spelling operands size go) (treatment : Treatment) :
    (∀ operand ∈ valueOperands treatment operands, ∀ own ∈ operand.integerSize?, own = size) ↔
      ∀ first ∈ valueOperands treatment operands, ∀ second ∈ valueOperands treatment operands,
        ∀ own ∈ first.integerSize?, ∀ other ∈ second.integerSize?, own = other := by
  constructor
  · intro fits first inFirst second inSecond own hasOwn other hasOther
    exact (fits first inFirst own hasOwn).trans (fits second inSecond other hasOther).symm
  · intro agree operand member own hasSize
    obtain ⟨first, isValue, decides⟩ := named.exists_valueOperand member hasSize
    exact agree operand member first isValue own hasSize size decides

theorem arrangeInstruction_eq_ok_iff {name : String} {rule : Rule} {modifier : Option GoPrefix}
    {group : List GoLine} (treated : rule.treatment = .plain ∨ rule.treatment = .shift) :
    arrangeInstruction context isLast name rule modifier go operands = .ok group ↔
      ∃ rendered, renderOperands rule.treatment context.tables operands = .ok rendered ∧
        group = [.instruction modifier go (rule.order.arrange rendered)] := by
  have single {run : Except RenderFault (List GoOperand)} :
      (do
        let rendered ← run.mapError RenderFault.cause
        return [GoLine.instruction modifier go (rule.order.arrange rendered)] :
          Except Cause (List GoLine)) = .ok group ↔
        ∃ rendered, run = .ok rendered ∧
          group = [.instruction modifier go (rule.order.arrange rendered)] := by
    simp only [bind_eq_ok_iff, mapError_eq_ok_iff, pure, Except.pure, Except.ok.injEq,
      eq_comm (b := group)]
  rcases treated with plain | shift
  · simp only [arrangeInstruction, plain, renderOperands, reduceCtorEq, if_false]
    exact single
  · simp only [arrangeInstruction, shift, renderOperands, if_true]
    exact single

/-- An integer instruction is translated exactly if its prefix is accepted, its operands can be read and
rendered, and the first size among them is one of integers.  No other size is asked for, and the Go
name tells the size of all value operands exactly if no two of them differ. -/
theorem instructionLines_sized_iff (context : BodyContext) (isLast : Bool) {selection : Selection}
    (found : Selection.find? (Statement.ofText text).mnemonic
      ((readableOperands (Statement.ofText text).operands).any Operand.isVector) = some selection)
    (sized : selection.rule.spelling.isSized)
    (treated : selection.rule.treatment = .plain ∨ selection.rule.treatment = .shift) :
    (∀ group, instructionLines context isLast text = .ok group ↔
      ∃ modifier operands size go rendered,
        (Statement.ofText text).modifiers.foldlM (keepModifier selection.rule.treatment) none =
          .ok modifier ∧
        selection.operands (Statement.ofText text).operands = .ok operands ∧
        SizedName selection.rule.spelling operands size go ∧
        renderOperands selection.rule.treatment context.tables operands = .ok rendered ∧
        group = [.instruction modifier go (selection.rule.order.arrange rendered)]) ∧
    ∀ operands size go, SizedName selection.rule.spelling operands size go →
      ((∀ operand ∈ valueOperands selection.rule.treatment operands,
          ∀ own ∈ operand.integerSize?, own = size) ↔
        ∀ first ∈ valueOperands selection.rule.treatment operands,
          ∀ second ∈ valueOperands selection.rule.treatment operands,
            ∀ own ∈ first.integerSize?, ∀ other ∈ second.integerSize?, own = other) := by
  refine ⟨fun group => ?_, fun operands size go named => named.size_eq_iff _⟩
  constructor
  · intro translated
    obtain ⟨own, modifier, operands, go, parts⟩ := exists_assembled translated
    obtain rfl := Option.some.inj (parts.found.symm.trans found)
    obtain ⟨size, named⟩ := (goMnemonic_eq_ok_iff_sizedName sized).1 parts.spelled
    obtain ⟨rendered, renders, line⟩ := (arrangeInstruction_eq_ok_iff treated).1 parts.arranged
    exact ⟨modifier, operands, size, go, rendered, parts.kept, parts.read, named, renders, line⟩
  · rintro ⟨modifier, operands, size, go, rendered, kept, read, named, renders, line⟩
    exact Assembled.instructionLines_eq {
      found := found
      kept := kept
      read := read
      spelled := (goMnemonic_eq_ok_iff_sizedName sized).2 ⟨size, named⟩
      arranged := (arrangeInstruction_eq_ok_iff treated).2 ⟨rendered, renders, line⟩ }

/-- A shift of memory, whose count is narrower than all else. -/
theorem instructionLines_sized_iff_shift :
    Selection.find? (Statement.ofText "shld qword ptr [rdi], rsi, cl").mnemonic
      ((readableOperands (Statement.ofText "shld qword ptr [rdi], rsi, cl").operands).any
        Operand.isVector) = some ⟨"shld", none, Rule.shift "SHL"⟩ ∧
    instructionLines ⟨"f", [], []⟩ true "shld qword ptr [rdi], rsi, cl" =
      .ok [.instruction none "SHLQ" [.register (.general 1), .register (.general 6),
        .address (.based 0 (.general 7) none)]] ∧
    ∀ operand ∈ [Operand.memory { size := some .qword, base := some (.general .qword 7) },
        .register (.general .qword 6)],
      ∀ own ∈ operand.integerSize?, own = .qword := by
  have found : Selection.find? (Statement.ofText "shld qword ptr [rdi], rsi, cl").mnemonic
      ((readableOperands (Statement.ofText "shld qword ptr [rdi], rsi, cl").operands).any
        Operand.isVector) = some ⟨"shld", none, Rule.shift "SHL"⟩ := by
    decide +kernel
  have read : (⟨"shld", none, Rule.shift "SHL"⟩ : Selection).operands
      (Statement.ofText "shld qword ptr [rdi], rsi, cl").operands =
        .ok [.memory { size := some .qword, base := some (.general .qword 7) },
          .register (.general .qword 6), .register (.general .byte 1)] := by
    decide +kernel
  have spelled : "SHL" ++ String.singleton 'Q' = "SHLQ" := by
    decide +kernel
  have named : SizedName (.suffixed "SHL" none)
      [.memory { size := some .qword, base := some (.general .qword 7) },
        .register (.general .qword 6), .register (.general .byte 1)] .qword "SHLQ" := by
    rw [← spelled]
    exact .suffixed "SHL" rfl rfl
  have rendered : renderOperands .shift []
      [.memory { size := some .qword, base := some (.general .qword 7) },
        .register (.general .qword 6), .register (.general .byte 1)] =
      .ok [.address (.based 0 (.general 7) none), .register (.general 6), .register (.general 1)] := by
    decide +kernel
  obtain ⟨translates, sizes⟩ := instructionLines_sized_iff ⟨"f", [], []⟩ true found rfl (.inr rfl)
  refine ⟨found, ?_, ?_⟩
  · exact (translates _).2 ⟨none, _, .qword, "SHLQ", _, by decide +kernel, read, named, rendered, rfl⟩
  · apply (sizes _ _ _ named).2
    decide

/-- Operands of two sizes, which are written like operands of one. -/
theorem sizes_disagree :
    instructionLines ⟨"f", [], []⟩ true "mov eax, rbx" =
      .ok [.instruction none "MOVL" [.register (.general 3), .register (.general 0)]] ∧
    instructionLines ⟨"f", [], []⟩ true "mov eax, ebx" =
      .ok [.instruction none "MOVL" [.register (.general 3), .register (.general 0)]] ∧
    Rule.find? "mov" false = some (Rule.suffixed "MOV") ∧
    (readOperand "rbx").toOption.bind Operand.integerSize? = some .qword ∧
    Size.goSuffix? .qword = some 'Q' ∧
    instructionLines ⟨"f", [], []⟩ true "add eax, qword ptr [rdi]" =
      .ok [.instruction none "ADDL" [.address (.based 0 (.general 7) none),
        .register (.general 0)]] := by
  decide +kernel

end AsmTranslit
