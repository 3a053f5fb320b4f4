import AsmTranslit.Proofs.JumpTargets
import AsmTranslit.Proofs.LineContents
import AsmTranslit.Proofs.OperandDerivations
import AsmTranslit.Proofs.SymbolTokens

/-!
# Resolution of branches

How a branch finds the label that it names.  The first look at a body collects the operands of branches
as texts, and the translation compares the names that it reads.  A symbol is its own text unless a zero
is added to it or subtracted, so the two agree on all other spellings; with a zero, a branch finds its
label only if the body has another branch that names the label by itself.
-/

namespace AsmTranslit

variable {cs : List Char} {start : Nat} {name operand text : String}

private theorem trim_of_scanFrom_eq_ident
    (h : (scanFrom start cs).map PlacedToken.token = [.ident name]) : trim cs = name.toList := by
  have isOnly : .ident name ∈ (scanFrom start cs).map PlacedToken.token := by simp [h]
  obtain ⟨some, symbols⟩ := isSymbolChar_of_ident isOnly
  have whole : ∀ c ∈ name.toList, isBlank c = false := by
    intro c member
    rw [Bool.eq_false_iff]
    intro blank
    exact Bool.false_ne_true ((isSymbolChar_of_isBlank blank).symm.trans (symbols c member))
  clear isOnly
  fun_induction scanFrom start cs with
  | case1 => cases h
  | case2 start c cs separates ih =>
    have blank : ∀ d ∈ [c], isBlank d := by simpa using isBlank_of_isSeparator separates
    rw [← List.singleton_append, trim, trimStart_append blank]
    exact ih h
  | case3 start c cs separates tail =>
    rename_i stop ih
    obtain ⟨isName, last⟩ := List.cons.inj h
    obtain ⟨begins, word⟩ := Token.ofLexeme_eq_ident isName
    have rest : ∀ d ∈ cs.drop tail.length, isBlank d :=
      isBlank_of_scanFrom_eq_nil (List.map_eq_nil_iff.1 last)
    have tailInText : tail ++ cs.drop tail.length = cs := lexemeTail_append_drop c cs
    have split : c :: cs = name.toList ++ cs.drop tail.length := by
      rw [word, List.cons_append, tailInText]
    have none : trimEnd (cs.drop tail.length) = [] := List.rdropWhile_eq_nil_iff.2 rest
    rw [split, trim, trimStart_word whole some, trimEnd_append whole, none, List.append_nil]

private theorem trim_of_mem_operands (member : operand ∈ (statementOf cs).operands) :
    trim operand.toList = operand.toList := by
  fun_induction statementOf cs with
  | case1 => simp at member
  | case2 c cs word rest more statement ih => exact ih member
  | case3 c cs word rest =>
    obtain ⟨part, -, same⟩ := exists_of_mem_fields member
    rw [same, trim_trim]

private theorem eq_zero_of_signedWord {negative : Bool} {n : UInt64} (h : signedWord negative n = 0) :
    n = 0 := by
  have word : n.toInt64 = 0 := by
    cases negative with
    | false => exact h
    | true =>
      have zero : -n.toInt64 = -0 := h
      exact Int64.neg_inj.1 zero
  exact congrArg Int64.toUInt64 word

/-- An operand of an instruction that is read as a symbol is the symbol, or has a zero behind it. -/
theorem eq_or_displaced (member : operand ∈ (Statement.ofText text).operands)
    (reads : readOperand operand = .ok (.symbol name 0)) :
    operand = name ∨ ∃ sign, tokens operand = [.ident name, sign, .number 0] := by
  obtain ⟨-, -, ⟨-, form, m, -, -, same⟩ | ⟨-, plain⟩⟩ := readTokens_eq_ok_iff.1 reads
  · cases same
  · obtain ⟨tree, yields, denotes⟩ := readPlain_eq_ok_iff.1 plain
    cases tree with
    | register r => cases denotes
    | number negated n => cases denotes
    | symbol other =>
      obtain ⟨rfl, -⟩ := Operand.symbol.inj denotes
      have whole : trim operand.toList = other.toList := trim_of_scanFrom_eq_ident yields.symm
      rw [trim_of_mem_operands member] at whole
      exact .inl (String.toList_inj.1 whole)
    | displaced other negative n =>
      obtain ⟨rfl, zero⟩ := Operand.symbol.inj denotes
      obtain rfl := eq_zero_of_signedWord zero
      exact .inr ⟨_, yields.symm⟩

def Segment.bodyContext (segment : Segment) (lines : List String) (tables : List DataTable) :
    BodyContext :=
  ⟨segment.name, tables, renameLabels segment.name (labelsOf (segment.body lines))
    (branchTexts (segment.body lines))⟩

private theorem definedLabels_of_nodup {routine : String} {body : List (String × Nat)}
    {seen : List String}
    (distinct : (labelsOf body).Nodup) (fresh : ∀ name ∈ labelsOf body, name ∉ seen) :
    definedLabels routine seen body = .ok (labelsOf body) := by
  fun_induction definedLabels routine seen body with
  | case1 => rfl
  | case2 seen text index body noLabel ih =>
    simp only [labelsOf, List.filterMap_cons, noLabel] at distinct fresh ⊢
    exact ih distinct fresh
  | case3 seen text index body name read repeated =>
    have member : name ∈ seen := by simpa using repeated
    exact absurd member (fresh name (by simp [labelsOf, read]))
  | case4 seen text index body name read new ih =>
    have split : labelsOf ((text, index) :: body) = name :: labelsOf body := by simp [labelsOf, read]
    rw [split, List.nodup_cons] at distinct
    rw [split] at fresh ⊢
    have later : ∀ other ∈ labelsOf body, other ∉ name :: seen := by
      intro other member
      rw [List.mem_cons, not_or]
      refine ⟨?_, fresh other (List.mem_cons_of_mem name member)⟩
      rintro rfl
      exact distinct.1 member
    rw [ih distinct.2 later]
    rfl

variable {segment : Segment} {lines : List String} {tables : List DataTable} {line : String × Nat}

private theorem ofSegment_of_nodup (distinct : (labelsOf (segment.body lines)).Nodup) :
    RoutineBody.ofSegment segment lines tables = (do
      let groups ← (segment.body lines).mapM (lineGroup (segment.bodyContext lines tables)
        (lastInstruction? (segment.body lines)))
      return ⟨groups, ((segment.body lines).filterMap fun line => instruction? line.1).length⟩) := by
  simp only [RoutineBody.ofSegment, definedLabels_of_nodup distinct fun _ _ => List.not_mem_nil]
  rfl

private theorem lineGroup_of_label (context : BodyContext) (last : Option Nat)
    (isLabel : label? line.1 = some name) :
    lineGroup context last line = .ok ((context.labels.lookup name).toList.map .label) := by
  simp only [lineGroup, label?_eq_some_iff.1 isLabel]

private theorem lineGroup_of_instruction (context : BodyContext) (last : Option Nat)
    (read : instruction? line.1 = some text) :
    lineGroup context last line =
      (instructionLines context (last == some line.2) text).mapError fun cause =>
        ⟨.at line.2 (some context.routine) text, cause⟩ := by
  simp only [lineGroup, instruction?_eq_some_iff.1 read]

private theorem instructionLines_symbol (context : BodyContext) (isLast : Bool)
    (isBranch : IsBranch (Statement.ofText text).mnemonic)
    (single : (Statement.ofText text).operands = [operand])
    (reads : readOperand operand = .ok (.symbol name 0)) :
    ∃ go, BranchName (Statement.ofText text).mnemonic go ∧
      instructionLines context isLast text = (do
        let modifier ← ((Statement.ofText text).modifiers.foldlM (keepModifier .branch) none).mapError
          .unsupportedOperand
        match context.labels.lookup name with
        | some target => .ok [.instruction modifier go [.label target]]
        | none => .error (.unresolvedReference name)) := by
  obtain ⟨go, named, line⟩ := instructionLines_of_isBranch isBranch
  refine ⟨go, named, line.trans ?_⟩
  have read : readOperands [operand] = .ok [.symbol name 0] := by
    simp [readOperands, reads, Except.mapError, bind, Except.bind, pure, Except.pure]
  rw [single, read]
  cases (Statement.ofText text).modifiers.foldlM (keepModifier .branch) none with
  | error fault => rfl
  | ok modifier =>
    cases known : context.labels.lookup name <;>
      simp [renderTarget, known, Except.mapError, bind, Except.bind, pure, Except.pure,
        RenderFault.cause]

/-- What becomes of a branch to a label of its body. -/
inductive BranchOutcome (context : BodyContext) (last : Option Nat) (source : List (String × Nat))
    (line : String × Nat) (text operand name : String) : Except Failure (List GoLine) → Prop
  /-- The branch goes to where the label stands, under the new name. -/
  | resolved {definition : String × Nat} {modifier : Option GoPrefix} {go target : String}
    (named : IsBranchOperand source name) (isBranch : BranchName (Statement.ofText text).mnemonic go)
    (member : definition ∈ source) (isLabel : label? definition.1 = some name)
    (there : lineGroup context last definition = .ok [.label target]) :
    BranchOutcome context last source line text operand name
      (.ok [.instruction modifier go [.label target]])
  /-- No branch has the name by itself for an operand, so this one has a zero behind it. -/
  | unresolved {sign : Token} (unnamed : ¬IsBranchOperand source name)
    (displaced : tokens operand = [.ident name, sign, .number 0]) :
    BranchOutcome context last source line text operand name
      (.error ⟨.at line.2 (some context.routine) text, .unresolvedReference name⟩)
  /-- A word in front of the branch cannot be kept. -/
  | refused {fault : InstructionFault}
    (refuses : (Statement.ofText text).modifiers.foldlM (keepModifier .branch) none = .error fault) :
    BranchOutcome context last source line text operand name
      (.error ⟨.at line.2 (some context.routine) text, .unsupportedOperand fault⟩)

/-- In a body with distinct labels, a branch to a label of the body goes to where the label stands,
unless a word in front of it cannot be kept or no branch of the body has the label's name by itself for
an operand.  In the latter case the branch has a zero behind the name and its reference is unresolved. -/
theorem branchOutcome_lineGroup (tables : List DataTable)
    (distinct : (labelsOf (segment.body lines)).Nodup) (member : line ∈ segment.body lines)
    (read : instruction? line.1 = some text) (isBranch : IsBranch (Statement.ofText text).mnemonic)
    (single : (Statement.ofText text).operands = [operand])
    (reads : readOperand operand = .ok (.symbol name 0))
    (defined : name ∈ labelsOf (segment.body lines)) :
    RoutineBody.ofSegment segment lines tables = (do
      let groups ← (segment.body lines).mapM (lineGroup (segment.bodyContext lines tables)
        (lastInstruction? (segment.body lines)))
      return ⟨groups, ((segment.body lines).filterMap fun line => instruction? line.1).length⟩) ∧
    BranchOutcome (segment.bodyContext lines tables) (lastInstruction? (segment.body lines))
      (segment.body lines) line text operand name
      (lineGroup (segment.bodyContext lines tables) (lastInstruction? (segment.body lines)) line) := by
  refine ⟨ofSegment_of_nodup distinct, ?_⟩
  have known : (segment.bodyContext lines tables).labels.lookup name =
      if name ∈ namedLabels (segment.body lines) (segment.body lines) then
        some (localLabel segment.name
          ((namedLabels (segment.body lines) (segment.body lines)).idxOf name))
      else none :=
    lookup_namedLabels segment.name (segment.body lines) name
  obtain ⟨go, goName, translates⟩ := instructionLines_symbol (segment.bodyContext lines tables)
    (lastInstruction? (segment.body lines) == some line.2) isBranch single reads
  rw [lineGroup_of_instruction _ _ read, translates]
  cases modifiers : (Statement.ofText text).modifiers.foldlM (keepModifier .branch) none with
  | error fault => exact .refused modifiers
  | ok modifier =>
    by_cases named : IsBranchOperand (segment.body lines) name
    · have inNamed : name ∈ namedLabels (segment.body lines) (segment.body lines) := by
        simp [namedLabels, defined, named]
      obtain ⟨definition, inBody, isLabel⟩ := List.mem_filterMap.1 defined
      rw [if_pos inNamed] at known
      have there := lineGroup_of_label (segment.bodyContext lines tables)
        (lastInstruction? (segment.body lines)) isLabel
      rw [known] at there ⊢
      exact .resolved named goName inBody isLabel there
    · have notNamed : name ∉ namedLabels (segment.body lines) (segment.body lines) := by
        simp [namedLabels, named]
      have isOperand : operand ∈ (Statement.ofText text).operands := by simp [single]
      rw [if_neg notNamed] at known
      rw [known]
      rcases eq_or_displaced isOperand reads with rfl | ⟨sign, displaced⟩
      · exact absurd ⟨line, member, text, read, isBranch, isOperand⟩ named
      · exact .unresolved named displaced

/-- A branch with a zero behind its symbol goes to the label, because another branch names it. -/
theorem branchOutcome_lineGroup_named :
    RoutineBody.ofSegment ⟨"f", 1, 4⟩ ["f:", ".L1:", "rep jmp .L1 - 0x0", "je .L1"] [] =
        .ok ⟨[[.label "f_L0"], [.instruction (some .rep) "JMP" [.label "f_L0"]],
          [.instruction none "JEQ" [.label "f_L0"]]], 2⟩ ∧
      (Statement.ofText "rep jmp .L1 - 0x0").operands = [".L1 - 0x0"] ∧
      readOperand ".L1 - 0x0" = .ok (.symbol ".L1" 0) ∧
      BranchOutcome ⟨"f", [], [(".L1", "f_L0")]⟩ (some 3)
        [(".L1:", 1), ("rep jmp .L1 - 0x0", 2), ("je .L1", 3)] ("rep jmp .L1 - 0x0", 2)
        "rep jmp .L1 - 0x0" ".L1 - 0x0" ".L1"
        (.ok [.instruction (some .rep) "JMP" [.label "f_L0"]]) := by
  have body : (⟨"f", 1, 4⟩ : Segment).body ["f:", ".L1:", "rep jmp .L1 - 0x0", "je .L1"] =
      [(".L1:", 1), ("rep jmp .L1 - 0x0", 2), ("je .L1", 3)] := by
    decide +kernel
  have labels : labelsOf ((⟨"f", 1, 4⟩ : Segment).body
      ["f:", ".L1:", "rep jmp .L1 - 0x0", "je .L1"]) = [".L1"] := by
    decide +kernel
  have context : (⟨"f", 1, 4⟩ : Segment).bodyContext
      ["f:", ".L1:", "rep jmp .L1 - 0x0", "je .L1"] [] = ⟨"f", [], [(".L1", "f_L0")]⟩ := by
    decide +kernel
  have last : lastInstruction? [(".L1:", 1), ("rep jmp .L1 - 0x0", 2), ("je .L1", 3)] = some 3 := by
    decide +kernel
  have group : lineGroup ⟨"f", [], [(".L1", "f_L0")]⟩ (some 3) ("rep jmp .L1 - 0x0", 2) =
      .ok [.instruction (some .rep) "JMP" [.label "f_L0"]] := by
    decide +kernel
  have mnemonic : (Statement.ofText "rep jmp .L1 - 0x0").mnemonic = "jmp" := by
    decide +kernel
  have isBranch : IsBranch (Statement.ofText "rep jmp .L1 - 0x0").mnemonic := by
    rw [mnemonic]
    exact .inl (by decide)
  have single : (Statement.ofText "rep jmp .L1 - 0x0").operands = [".L1 - 0x0"] := by
    decide +kernel
  have reads : readOperand ".L1 - 0x0" = .ok (.symbol ".L1" 0) := by
    decide +kernel
  have member : ("rep jmp .L1 - 0x0", 2) ∈ (⟨"f", 1, 4⟩ : Segment).body
      ["f:", ".L1:", "rep jmp .L1 - 0x0", "je .L1"] := by
    simp [body]
  have read : instruction? ("rep jmp .L1 - 0x0", 2).1 = some "rep jmp .L1 - 0x0" := by
    decide +kernel
  obtain ⟨-, outcome⟩ := branchOutcome_lineGroup [] (by simp [labels]) member read isBranch single reads
    (by simp [labels])
  rw [context, body, last, group] at outcome
  exact ⟨by decide +kernel, single, reads, outcome⟩

/-- A branch with a zero behind the only mention of its label does not find it. -/
theorem zero_behind_label_unresolved :
    RoutineBody.ofSegment ⟨"f", 1, 3⟩ ["f:", ".L1:", "jmp .L1+0"] [] =
        .error ⟨.at 2 (some "f") "jmp .L1+0", .unresolvedReference ".L1"⟩ ∧
      label? ".L1:" = some ".L1" ∧ readOperand ".L1+0" = .ok (.symbol ".L1" 0) ∧
      RoutineBody.ofSegment ⟨"f", 1, 3⟩ ["f:", ".L1:", "jmp .L1"] [] =
        .ok ⟨[[.label "f_L0"], [.instruction none "JMP" [.label "f_L0"]]], 1⟩ := by
  decide +kernel

end AsmTranslit
