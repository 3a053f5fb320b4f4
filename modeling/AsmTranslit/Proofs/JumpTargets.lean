import AsmTranslit.Proofs.ControlFlow
import AsmTranslit.Proofs.IndexRegisters
import AsmTranslit.Proofs.TableReferences

/-!
# Targets of branches

Where a branch goes, and whether its line in Go syntax goes there in the same way.  The name of a branch
keeps its condition.  A symbol becomes a label of the output for every branch.  Any other operand is
written out as for other instructions: a conditional jump then has a register or a place in memory for its
target, and a jump through a place that is only a table's symbol is read as a jump to the symbol itself.
-/

namespace AsmTranslit

/-- The Go names of branches.  A branch on flags is named for its condition. -/
inductive BranchName : String → String → Prop
  | jump : BranchName "jmp" "JMP"
  | quadCount : BranchName "jrcxz" "JCXZQ"
  | longCount : BranchName "jecxz" "JCXZL"
  | conditional {name : String} {condition : Condition}
    (known : Condition.ofIntel? name = some condition) :
    BranchName ("j" ++ name) ("J" ++ condition.goName)

variable {mnemonic text : String} {hasVector isLast : Bool} {rule : Rule} {context : BodyContext}
  {group : List GoLine} {tables : List DataTable}

private theorem branch_of_mem_entries : ∀ entry ∈ Catalog.entries, entry.2.treatment = .branch →
    entry ∈ [("jmp", Rule.branch "JMP"), ("jrcxz", Rule.branch "JCXZQ"),
      ("jecxz", Rule.branch "JCXZL")] := by
  decide +kernel

private theorem branchName_of_lookup (found : Catalog.entries.lookup mnemonic = some rule)
    (isBranch : rule.treatment = .branch) :
    ∃ go, BranchName mnemonic go ∧ rule.spelling = .fixed go := by
  have listed := branch_of_mem_entries _ (mem_entries_of_lookup found) isBranch
  simp only [List.mem_cons, Prod.mk.injEq, List.not_mem_nil, or_false] at listed
  obtain ⟨rfl, rfl⟩ | ⟨rfl, rfl⟩ | ⟨rfl, rfl⟩ := listed
  · exact ⟨"JMP", .jump, rfl⟩
  · exact ⟨"JCXZQ", .quadCount, rfl⟩
  · exact ⟨"JCXZL", .longCount, rfl⟩

private theorem branchName_of_conditionalRule? (found : conditionalRule? mnemonic = some rule)
    (isBranch : rule.treatment = .branch) :
    ∃ condition : Condition, BranchName mnemonic ("J" ++ condition.goName) ∧
      rule.spelling = .jump condition := by
  revert found
  fun_cases conditionalRule? mnemonic with
  | case1 condition read =>
    intro found
    obtain ⟨c, -, rfl⟩ := Option.map_eq_some_iff.1 found
    cases isBranch
  | case2 _ condition read =>
    intro found
    obtain ⟨c, -, rfl⟩ := Option.map_eq_some_iff.1 found
    cases isBranch
  | case3 _ _ condition read =>
    intro found
    obtain ⟨c, rfl, rfl⟩ := Option.map_eq_some_iff.1 found
    obtain ⟨rest, rfl, known⟩ := conditionAfter?_eq_some_iff.1 read
    exact ⟨c, .conditional known, rfl⟩
  | case4 => simp

private theorem branchName_of_find? (found : Rule.find? mnemonic hasVector = some rule)
    (isBranch : rule.treatment = .branch) :
    ∃ go, BranchName mnemonic go ∧
      ∀ operands, rule.spelling.goMnemonic mnemonic operands = .ok go := by
  revert found
  fun_cases Rule.find? mnemonic hasVector with
  | case1 =>
    intro found
    obtain rfl := Option.some.inj found
    cases isBranch
  | case2 =>
    intro found
    obtain rfl := Option.some.inj found
    cases isBranch
  | case3 =>
    intro found
    obtain rfl := Option.some.inj found
    cases isBranch
  | case4 =>
    intro found
    obtain listed | ⟨-, conditional⟩ := Option.or_eq_some_iff.1 found
    · obtain ⟨go, named, fixed⟩ := branchName_of_lookup listed isBranch
      exact ⟨go, named, fun operands => by rw [fixed, Spelling.goMnemonic]⟩
    · obtain ⟨condition, named, jump⟩ := branchName_of_conditionalRule? conditional isBranch
      exact ⟨_, named, fun operands => by rw [jump, Spelling.goMnemonic]⟩

theorem instructionLines_of_isBranch (isBranch : IsBranch (Statement.ofText text).mnemonic) :
    ∃ go, BranchName (Statement.ofText text).mnemonic go ∧
      instructionLines context isLast text = (do
        let modifier ← ((Statement.ofText text).modifiers.foldlM (keepModifier .branch) none).mapError
          .unsupportedOperand
        let operands ← (readOperands (Statement.ofText text).operands).mapError .unsupportedOperand
        let targets ← (operands.mapM (renderTarget context.tables context.labels)).mapError
          RenderFault.cause
        if targets.length = 1 then return [.instruction modifier go targets]
        else .error (.unsupportedOperand
          (.operandCount (Statement.ofText text).mnemonic targets.length))) := by
  have known : (Rule.find? (Statement.ofText text).mnemonic
      ((readableOperands (Statement.ofText text).operands).any Operand.isVector)).isSome :=
    isBranch.isSome_find?
  obtain ⟨rule, found⟩ := Option.isSome_iff_exists.1 known
  have treatment : rule.treatment = .branch := (controlOf_find? found).branch.2 isBranch
  obtain ⟨go, named, spells⟩ := branchName_of_find? found treatment
  refine ⟨go, named, ?_⟩
  have selected : Selection.find? (Statement.ofText text).mnemonic
      ((readableOperands (Statement.ofText text).operands).any Operand.isVector) =
        some ⟨(Statement.ofText text).mnemonic, none, rule⟩ := by
    rw [Selection.find?, found]
  have read (texts : List String) :
      Selection.operands ⟨(Statement.ofText text).mnemonic, none, rule⟩ texts = readOperands texts := by
    simp only [Selection.operands, treatment]
    cases readOperands texts <;> simp [withCount, bind, Except.bind, pure, Except.pure]
  simp only [instructionLines, selected, treatment, read, spells, arrangeInstruction]
  rfl

private theorem exists_target (translated : instructionLines context isLast text = .ok group)
    (isBranch : IsBranch (Statement.ofText text).mnemonic) :
    ∃ operandText operand modifier go target, (Statement.ofText text).operands = [operandText] ∧
      readOperand operandText = .ok operand ∧
      renderTarget context.tables context.labels operand = .ok target ∧
      BranchName (Statement.ofText text).mnemonic go ∧ group = [.instruction modifier go [target]] := by
  obtain ⟨go, named, line⟩ := instructionLines_of_isBranch isBranch
  rw [line] at translated
  obtain ⟨modifier, -, translated⟩ := bind_eq_ok_iff.1 translated
  obtain ⟨operands, read, translated⟩ := bind_eq_ok_iff.1 translated
  obtain ⟨targets, rendered, last⟩ := bind_eq_ok_iff.1 translated
  rw [mapError_eq_ok_iff, mapM_eq_ok_iff] at rendered
  rw [mapError_eq_ok_iff, readOperands, mapM_eq_ok_iff] at read
  split at last
  case isFalse => cases last
  case isTrue single =>
    obtain ⟨target, rfl⟩ := List.length_eq_one_iff.1 single
    obtain ⟨operand, rest, renders, none, rfl⟩ := List.forall₂_cons_right_iff.1 rendered
    obtain rfl := List.forall₂_nil_right_iff.1 none
    obtain ⟨operandText, rest, reads, none, texts⟩ := List.forall₂_cons_right_iff.1 read
    obtain rfl := List.forall₂_nil_right_iff.1 none
    exact ⟨operandText, operand, modifier, go, target, texts, mapError_eq_ok_iff.1 reads, renders,
      named, (Except.ok.inj last).symm⟩

/-- A symbol, perhaps with an offset, and nothing else.  As the operand of a branch that is the place to
go to, and not where the address to go to is stored. -/
def GoOperand.IsBareSymbol (operand : GoOperand) : Prop :=
  ∃ symbol offset, operand = .address (.symbolic symbol offset none)

/-- A branch with an operand goes to its target in Go syntax in the same way: any branch but `jmp` to a
label that is defined there, and one through memory still through memory. -/
structure KeepsTransfer (mnemonic : String) (operand : Operand) (defined : List String)
    (target : GoOperand) : Prop where
  direct : mnemonic ≠ "jmp" → ∃ name ∈ defined, target = .label name
  indirect : ∀ m, operand = .memory m → ¬target.IsBareSymbol

/-- The operands with which a branch can keep its kind of transfer.  Those of `jmp` may be a register,
and a place in memory that is not a symbol's alone; the instruction pointer is left out of an address. -/
inductive Operand.SuitsBranch (mnemonic : String) : Operand → Prop
  | symbol (name : String) (addend : Int64) : SuitsBranch mnemonic (.symbol name addend)
  | register (r : Register) (isJump : mnemonic = "jmp") : SuitsBranch mnemonic (.register r)
  | memory (m : MemoryOperand) (isJump : mnemonic = "jmp")
    (more : m.symbol = none ∨ ∃ r ∈ m.registers, r ≠ .instructionPointer) :
    SuitsBranch mnemonic (.memory m)

private theorem renderIndex_eq_none_iff {index : Option (Register × Scale)}
    {go : Option (GoRegister × Scale)}
    (rendered : renderIndex index = .ok go) : go = none ↔ index = none := by
  cases index with
  | none =>
    cases rendered
    simp
  | some entry =>
    simp only [renderIndex, bind_eq_ok_iff] at rendered
    obtain ⟨g, -, equal⟩ := rendered
    cases equal
    simp

theorem ne_instructionPointer_of_renderIndex {r : Register} {scale : Scale}
    {go : Option (GoRegister × Scale)} (rendered : renderIndex (some (r, scale)) = .ok go) :
    r ≠ .instructionPointer := by
  rintro rfl
  cases rendered

private theorem eq_none_iff_of_tableIndex {m : MemoryOperand} {index : Option (Register × Scale)}
    {go : Option (GoRegister × Scale)} (noIndex : m.isRipRelative = true → m.index = none)
    (place : m.TableIndex index) (rendered : renderIndex index = .ok go) :
    go = none ↔ ∀ r ∈ m.registers, r = .instructionPointer := by
  rw [renderIndex_eq_none_iff rendered]
  cases place with
  | relative base =>
    have relative : m.isRipRelative = true := by simp [MemoryOperand.isRipRelative, base]
    simp [MemoryOperand.registers, base, noIndex relative]
  | index free =>
    cases hasIndex : m.index with
    | none => simp [MemoryOperand.registers, free, hasIndex]
    | some entry =>
      rw [hasIndex] at rendered
      have general := ne_instructionPointer_of_renderIndex rendered
      simp [MemoryOperand.registers, free, hasIndex, general]
  | base taken free =>
    have general := ne_instructionPointer_of_renderIndex rendered
    simp [MemoryOperand.registers, taken, free, general]

private theorem isBareSymbol_of_renderMemory {m : MemoryOperand} {a : GoAddress}
    (noIndex : m.isRipRelative = true → m.index = none) (rendered : renderMemory tables m = .ok a) :
    (GoOperand.address a).IsBareSymbol ↔
      m.symbol ≠ none ∧ ∀ r ∈ m.registers, r = .instructionPointer := by
  rcases renderMemory_eq_ok_cases rendered with
    ⟨symbol, name, index, go, place, renders, rfl⟩ | ⟨symbol, plain⟩
  · rw [← eq_none_iff_of_tableIndex noIndex place renders, and_iff_right symbol]
    constructor
    · rintro ⟨name', offset, same⟩
      cases same
      rfl
    · rintro rfl
      exact ⟨_, _, rfl⟩
  · have noSymbol := symbol?_of_renderPlainAddress plain
    constructor
    · rintro ⟨name, offset, same⟩
      obtain rfl := GoOperand.address.inj same
      cases noSymbol
    · exact fun h => absurd symbol h.1

namespace RoutineBody

variable {segment : Segment} {lines : List String} {body : RoutineBody} {line : String × Nat} {i : Nat}

/-- A branch that is translated has one operand, and becomes one line with one target, under the name of
the branch.  It keeps its kind of transfer if its operand suits it, and only then. -/
theorem keepsTransfer_iff (h : ofSegment segment lines tables = .ok body)
    (here : (segment.body lines)[i]? = some line) (read : instruction? line.1 = some text)
    (isBranch : IsBranch (Statement.ofText text).mnemonic) :
    ∃ operandText operand modifier go target, (Statement.ofText text).operands = [operandText] ∧
      readOperand operandText = .ok operand ∧ BranchName (Statement.ofText text).mnemonic go ∧
      body.groups[i]? = some [.instruction modifier go [target]] ∧
      (KeepsTransfer (Statement.ofText text).mnemonic operand (definitions body.lines) target ↔
        operand.SuitsBranch (Statement.ofText text).mnemonic) := by
  obtain ⟨-, translated, -⟩ := exists_parts h
  obtain ⟨group, inOutput, translates⟩ := mapM_getElem? translated here
  obtain ⟨operandText, operand, modifier, go, target, single, reads, renders, named, rfl⟩ :=
    exists_target (lineGroup_instruction translates read) isBranch
  refine ⟨operandText, operand, modifier, go, target, single, reads, named, inOutput, ?_⟩
  cases operand with
  | symbol name addend =>
    have member : operandText ∈ (Statement.ofText text).operands := by simp [single]
    obtain ⟨renamed, _, _, _, _, branches, -, -, -, once⟩ :=
      branchesTo_of_symbol h here read isBranch member reads
    rw [inOutput] at branches
    obtain ⟨-, -, rfl⟩ : _ ∧ _ ∧ target = .label renamed := by simpa using branches
    have defined : renamed ∈ definitions body.lines := by
      rw [mem_definitions, ← List.count_pos_iff, once]
      exact Nat.one_pos
    constructor
    · exact fun _ => .symbol name addend
    · exact fun _ => ⟨fun _ => ⟨renamed, defined, rfl⟩, fun _ same => nomatch same⟩
  | register r =>
    obtain ⟨g, -, rfl⟩ := map_eq_ok_iff.1 renders
    constructor
    · intro keeps
      refine .register r (not_not.1 fun noJump => ?_)
      obtain ⟨_, _, same⟩ := keeps.direct noJump
      cases same
    · rintro (_ | ⟨_, isJump⟩)
      exact ⟨fun noJump => absurd isJump noJump, fun _ same => nomatch same⟩
  | memory m =>
    obtain ⟨a, rendered, rfl⟩ := map_eq_ok_iff.1 renders
    obtain ⟨form, -, denotes⟩ := readTokens_eq_memory reads
    have noIndex := (form.follows_of_reference denotes).2
    have free : ¬(GoOperand.address a).IsBareSymbol ↔
        m.symbol = none ∨ ∃ r ∈ m.registers, r ≠ .instructionPointer := by
      rw [isBareSymbol_of_renderMemory noIndex rendered]
      by_cases symbol : m.symbol = none <;> simp [symbol]
    constructor
    · intro keeps
      refine .memory m (not_not.1 fun noJump => ?_) (free.1 (keeps.indirect m rfl))
      obtain ⟨_, _, same⟩ := keeps.direct noJump
      cases same
    · rintro (_ | _ | ⟨_, isJump, more⟩)
      exact ⟨fun noJump => absurd isJump noJump, fun _ _ => free.2 more⟩
  | immediate n => cases renders

/-- A jump through a table of addresses, with an index that tells the place from the symbol. -/
theorem keepsTransfer_throughTable :
    ofSegment ⟨"f", 1, 4⟩ ["f:", ".L1:", "jmp qword ptr [T + 8*rax]", "jrcxz .L1"] [⟨"T", 8, []⟩] =
        .ok ⟨[[.label "f_L0"],
          [.instruction none "JMP" [.address (.symbolic "T<>" 0 (some (.general 0, .eight)))]],
          [.instruction none "JCXZQ" [.label "f_L0"]]], 2⟩ ∧
      KeepsTransfer "jmp"
        (.memory { size := some .qword, index := some (.general .qword 0, .eight), symbol := some "T" })
        ["f_L0"] (.address (.symbolic "T<>" 0 (some (.general 0, .eight)))) := by
  have h : ofSegment ⟨"f", 1, 4⟩ ["f:", ".L1:", "jmp qword ptr [T + 8*rax]", "jrcxz .L1"]
      [⟨"T", 8, []⟩] =
        .ok ⟨[[.label "f_L0"],
          [.instruction none "JMP" [.address (.symbolic "T<>" 0 (some (.general 0, .eight)))]],
          [.instruction none "JCXZQ" [.label "f_L0"]]], 2⟩ := by
    decide +kernel
  have mnemonic : (Statement.ofText "jmp qword ptr [T + 8*rax]").mnemonic = "jmp" := by
    decide +kernel
  have texts : (Statement.ofText "jmp qword ptr [T + 8*rax]").operands = ["qword ptr [T + 8*rax]"] := by
    decide +kernel
  have reads : readOperand "qword ptr [T + 8*rax]" = .ok (.memory
      { size := some .qword, index := some (.general .qword 0, .eight), symbol := some "T" }) := by
    decide +kernel
  have here : ((⟨"f", 1, 4⟩ : Segment).body
      ["f:", ".L1:", "jmp qword ptr [T + 8*rax]", "jrcxz .L1"])[1]? =
        some ("jmp qword ptr [T + 8*rax]", 2) := by
    decide +kernel
  have read : instruction? "jmp qword ptr [T + 8*rax]" = some "jmp qword ptr [T + 8*rax]" := by
    decide +kernel
  have isBranch : IsBranch (Statement.ofText "jmp qword ptr [T + 8*rax]").mnemonic := by
    rw [mnemonic]
    exact .inl (by decide)
  obtain ⟨operandText, operand, modifier, go, target, single, reads', -, line, keeps⟩ :=
    keepsTransfer_iff h here read isBranch
  obtain rfl : operandText = "qword ptr [T + 8*rax]" := by simpa [texts] using single.symm
  obtain rfl := Except.ok.inj (reads'.symm.trans reads)
  obtain ⟨-, -, rfl⟩ : _ ∧ _ ∧ _ = target := by simpa using line
  rw [mnemonic] at keeps
  exact ⟨h, keeps.2 (.memory _ rfl (.inr ⟨.general .qword 0, by simp [MemoryOperand.registers]⟩))⟩

/-- A jump through a place in memory that is written as a jump to that place, and a conditional jump that
is written with a register. -/
theorem transfer_changed :
    ofSegment ⟨"f", 1, 3⟩ ["f:", "jmp qword ptr [rip + T]", "jne rax"] [⟨"T", 8, []⟩] =
        .ok ⟨[[.instruction none "JMP" [.address (.symbolic "T<>" 0 none)]],
          [.instruction none "JNE" [.register (.general 0)]]], 2⟩ ∧
      (GoLine.instruction none "JMP" [.address (.symbolic "T<>" 0 none)]).text =
        "    JMP T<>(SB)" ∧
      (GoLine.instruction none "JNE" [.register (.general 0)]).text = "    JNE AX" ∧
      (∃ m, readOperand "qword ptr [rip + T]" = .ok (.memory m) ∧ ∀ defined,
        ¬KeepsTransfer "jmp" (.memory m) defined (.address (.symbolic "T<>" 0 none))) ∧
      ∀ defined, ¬KeepsTransfer "jne" (.register (.general .qword 0)) defined
        (.register (.general 0)) := by
  refine ⟨by decide +kernel, by decide +kernel, by decide +kernel, ?_, ?_⟩
  · refine ⟨{ size := some .qword, base := some .instructionPointer, symbol := some "T" },
      by decide +kernel, fun defined keeps => ?_⟩
    exact keeps.indirect _ rfl ⟨"T<>", 0, rfl⟩
  · intro defined keeps
    obtain ⟨_, _, same⟩ := keeps.direct (by decide)
    cases same

end RoutineBody

end AsmTranslit
