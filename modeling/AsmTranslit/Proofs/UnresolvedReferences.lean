import AsmTranslit.GoSource
import AsmTranslit.Proofs.SymbolTokens
import AsmTranslit.Proofs.TableReferences

/-!
# Unresolved references

A symbol stays unresolved if it is in a memory operand and no table of the routine has it as its label,
or if it is the target of a branch and no label of the routine is it.  The tables of a routine are
those that the text of its instructions mentions, and these are all that its memory operands name.  So
when all tables count, only the target of a branch fails to find a table of the listing.
-/

namespace AsmTranslit

variable {tables : List DataTable} {labels : List (String × String)} {symbol text : String}
  {m : MemoryOperand} {operand : Operand} {operands : List Operand}

theorem renderRegister_ne_unresolved (r : Register) (symbol : String) :
    renderRegister r ≠ .error (.unresolved symbol) := by
  rw [renderRegister]
  split <;> simp

theorem renderAddressRegister_ne_unresolved (r : Register) (symbol : String) :
    renderAddressRegister r ≠ .error (.unresolved symbol) := by
  rw [renderAddressRegister]
  split
  case isTrue => simp
  case isFalse => exact renderRegister_ne_unresolved r symbol

theorem renderIndex_ne_unresolved (index : Option (Register × Scale)) (symbol : String) :
    renderIndex index ≠ .error (.unresolved symbol) := by
  cases index with
  | none => simp [renderIndex]
  | some entry =>
    intro h
    rcases bind_eq_error_iff.1 h with failed | ⟨go, -, done⟩
    · exact renderAddressRegister_ne_unresolved entry.1 symbol failed
    · cases done

private theorem tableIndex_ne_unresolved (label : String) (m : MemoryOperand) (symbol : String) :
    tableIndex label m ≠ .error (.unresolved symbol) := by
  rw [tableIndex]
  split
  case isTrue => simp
  case isFalse => split <;> simp

private theorem renderPlainAddress_ne_unresolved (m : MemoryOperand) (symbol : String) :
    renderPlainAddress m ≠ .error (.unresolved symbol) := by
  rw [renderPlainAddress]
  split
  case h_1 => simp
  case h_2 =>
    intro h
    rcases bind_eq_error_iff.1 h with failed | ⟨base, -, h⟩
    · exact renderAddressRegister_ne_unresolved _ symbol failed
    · rcases bind_eq_error_iff.1 h with failed | ⟨go, -, done⟩
      · exact renderIndex_ne_unresolved _ symbol failed
      · cases done
  case h_3 =>
    intro h
    rcases bind_eq_error_iff.1 h with failed | ⟨go, -, done⟩
    · exact renderAddressRegister_ne_unresolved _ symbol failed
    · cases done

private theorem renderTableReference_eq_unresolved {label : String}
    (h : renderTableReference tables label m = .error (.unresolved symbol)) :
    label = symbol ∧ ∀ table ∈ tables, table.label ≠ symbol := by
  rw [renderTableReference] at h
  split at h
  case h_1 missing =>
    obtain rfl : label = symbol := by simpa using h
    exact ⟨rfl, by simpa using missing⟩
  case h_2 =>
    rcases bind_eq_error_iff.1 h with failed | ⟨index, -, h⟩
    · exact absurd failed (tableIndex_ne_unresolved label m symbol)
    · rcases bind_eq_error_iff.1 h with failed | ⟨go, -, done⟩
      · exact absurd failed (renderIndex_ne_unresolved index symbol)
      · cases done

/-- A memory operand stays unresolved only for want of a table with its symbol as label. -/
theorem renderMemory_eq_unresolved (h : renderMemory tables m = .error (.unresolved symbol)) :
    m.symbol = some symbol ∧ ∀ table ∈ tables, table.label ≠ symbol := by
  rw [renderMemory] at h
  split at h
  case h_1 => simp at h
  case h_2 =>
    split at h
    case h_1 label named =>
      obtain ⟨rfl, missing⟩ := renderTableReference_eq_unresolved h
      exact ⟨named, missing⟩
    case h_2 =>
      split at h
      case isTrue => simp at h
      case isFalse => exact absurd h (renderPlainAddress_ne_unresolved m symbol)

theorem renderOperand_eq_unresolved (h : renderOperand tables operand = .error (.unresolved symbol)) :
    ∃ m, operand = .memory m ∧ renderMemory tables m = .error (.unresolved symbol) := by
  cases operand with
  | register r => exact absurd (map_eq_error_iff.1 h) (renderRegister_ne_unresolved r symbol)
  | immediate n => simp [renderOperand] at h
  | memory m => exact ⟨m, rfl, map_eq_error_iff.1 h⟩
  | symbol name addend => simp [renderOperand] at h

private theorem renderCount_eq_unresolved (h : renderCount tables operand = .error (.unresolved symbol)) :
    renderOperand tables operand = .error (.unresolved symbol) := by
  rw [renderCount] at h
  split at h
  case isTrue => simp at h
  case isFalse => exact h

private theorem exists_operand_of_renderShift
    (h : renderShift tables operands = .error (.unresolved symbol)) :
    ∃ operand ∈ operands, renderOperand tables operand = .error (.unresolved symbol) := by
  fun_induction renderShift tables operands with
  | case1 => simp at h
  | case2 count =>
    rcases bind_eq_error_iff.1 h with failed | ⟨go, -, done⟩
    · exact ⟨count, List.mem_cons_self, renderCount_eq_unresolved failed⟩
    · cases done
  | case3 first rest _ ih =>
    rcases bind_eq_error_iff.1 h with failed | ⟨go, -, h⟩
    · exact ⟨first, List.mem_cons_self, failed⟩
    · rcases bind_eq_error_iff.1 h with later | ⟨all, -, done⟩
      · obtain ⟨operand, inRest, failed⟩ := ih later
        exact ⟨operand, List.mem_cons_of_mem _ inRest, failed⟩
      · cases done

private theorem renderTarget_eq_unresolved
    (h : renderTarget tables labels operand = .error (.unresolved symbol)) :
    operand = .symbol symbol 0 ∨
      ∃ m, operand = .memory m ∧ renderMemory tables m = .error (.unresolved symbol) := by
  cases operand with
  | register r => exact absurd (map_eq_error_iff.1 h) (renderRegister_ne_unresolved r symbol)
  | immediate n => simp [renderTarget] at h
  | memory m => exact .inr ⟨m, rfl, map_eq_error_iff.1 h⟩
  | symbol name addend =>
    simp only [renderTarget] at h
    split at h
    case isFalse => simp at h
    case isTrue zero =>
      split at h
      case h_1 => simp at h
      case h_2 =>
        obtain rfl : name = symbol := by simpa using h
        rw [zero]
        exact .inl rfl

theorem eq_unresolved_of_mapError {α : Type} {x : Except RenderFault α}
    (h : x.mapError RenderFault.cause = .error (.unresolvedReference symbol)) :
    x = .error (.unresolved symbol) := by
  obtain ⟨fault, failed, isCause⟩ := mapError_eq_error_iff.1 h
  cases fault with
  | unsupported form => simp [RenderFault.cause] at isCause
  | unresolved name =>
    obtain rfl : name = symbol := by simpa [RenderFault.cause] using isCause
    exact failed

theorem mapError_unsupportedOperand_ne {ε α : Type} {f : ε → InstructionFault} {x : Except ε α} :
    x.mapError (fun fault => Cause.unsupportedOperand (f fault)) ≠
      .error (.unresolvedReference symbol) := by
  intro h
  obtain ⟨fault, -, isCause⟩ := mapError_eq_error_iff.1 h
  simp at isCause

/-- An operand that a symbol is unresolved for: a memory operand without a table, or the target of a
branch. -/
def LeavesUnresolved (tables : List DataTable) (branches : Prop) (symbol : String)
    (operand : Operand) : Prop :=
  (∃ m, operand = .memory m ∧ renderMemory tables m = .error (.unresolved symbol)) ∨
    branches ∧ operand = .symbol symbol 0

section Instruction

variable {context : BodyContext} {isLast : Bool} {rule : Rule} {name go : String}
  {modifier : Option GoPrefix}

private theorem exists_operand_of_arrangeInstruction
    (h : arrangeInstruction context isLast name rule modifier go operands =
      .error (.unresolvedReference symbol)) :
    ∃ operand ∈ operands,
      LeavesUnresolved context.tables (rule.treatment = .branch) symbol operand := by
  cases treatment : rule.treatment with
  | ret =>
    simp only [arrangeInstruction, treatment] at h
    split at h
    case isTrue => simp at h
    case isFalse => split at h <;> simp at h
  | nop => simp [arrangeInstruction, treatment] at h
  | stringOp => simp [arrangeInstruction, treatment] at h
  | branch =>
    simp only [arrangeInstruction, treatment] at h
    rcases bind_eq_error_iff.1 h with failed | ⟨targets, -, h⟩
    · obtain ⟨operand, member, failed⟩ := exists_error_of_mapM (eq_unresolved_of_mapError failed)
      rcases renderTarget_eq_unresolved failed with isTarget | isMemory
      · exact ⟨operand, member, .inr ⟨rfl, isTarget⟩⟩
      · exact ⟨operand, member, .inl isMemory⟩
    · split at h
      case isTrue => cases h
      case isFalse => simp at h
  | plain =>
    simp only [arrangeInstruction, treatment] at h
    rcases bind_eq_error_iff.1 h with failed | ⟨rendered, -, done⟩
    · obtain ⟨operand, member, failed⟩ := exists_error_of_mapM (eq_unresolved_of_mapError failed)
      exact ⟨operand, member, .inl (renderOperand_eq_unresolved failed)⟩
    · cases done
  | shift =>
    simp only [arrangeInstruction, treatment] at h
    rcases bind_eq_error_iff.1 h with failed | ⟨rendered, -, done⟩
    · obtain ⟨operand, member, failed⟩ :=
        exists_operand_of_renderShift (eq_unresolved_of_mapError failed)
      exact ⟨operand, member, .inl (renderOperand_eq_unresolved failed)⟩
    · cases done

theorem exists_of_mem_readableOperands {texts : List String}
    (h : operand ∈ readableOperands texts) : ∃ text ∈ texts, readOperand text = .ok operand := by
  obtain ⟨text, member, read⟩ := List.mem_filterMap.1 h
  refine ⟨text, member, ?_⟩
  cases reading : readOperand text with
  | error fault => simp [reading, Except.toOption] at read
  | ok other => simpa [reading, Except.toOption] using read

private theorem mem_of_mem_withCount {treatment : Treatment}
    (h : operand ∈ withCount treatment operands) :
    operand ∈ operands ∨ ∃ n, operand = .immediate n := by
  rw [withCount] at h
  split at h
  case isTrue =>
    rcases List.mem_append.1 h with old | new
    · exact .inl old
    · exact .inr ⟨1, List.mem_singleton.1 new⟩
  case isFalse => exact .inl h

private theorem exists_text_of_mem_operands {selection : Selection} {texts : List String}
    (h : selection.operands texts = .ok operands) (member : operand ∈ operands) :
    (∃ text ∈ texts, readOperand text = .ok operand) ∨ ∃ n, operand = .immediate n := by
  rw [Selection.operands] at h
  split at h
  case h_1 =>
    obtain rfl := Except.ok.inj h
    exact .inl (exists_of_mem_readableOperands member)
  case h_2 =>
    obtain rfl := Except.ok.inj h
    exact .inl (exists_of_mem_readableOperands member)
  case h_3 =>
    obtain ⟨read, run, last⟩ := bind_eq_ok_iff.1 h
    obtain rfl := Except.ok.inj last
    rcases mem_of_mem_withCount member with inAll | isCount
    · rcases List.mem_append.1 inAll with inRead | isPredicate
      · obtain ⟨text, inTexts, reads⟩ := exists_of_mem_of_mapM run inRead
        exact .inl ⟨text, inTexts, mapError_eq_ok_iff.1 reads⟩
      · obtain ⟨n, -, rfl⟩ := List.mem_map.1 isPredicate
        exact .inr ⟨_, rfl⟩
    · exact .inr isCount

/-- An instruction with an unresolved symbol has an operand that the symbol is unresolved for. -/
theorem exists_operand_of_instructionLines
    (h : instructionLines context isLast text = .error (.unresolvedReference symbol)) :
    ∃ source ∈ (Statement.ofText text).operands, ∃ operand, readOperand source = .ok operand ∧
      LeavesUnresolved context.tables (IsBranch (Statement.ofText text).mnemonic) symbol operand := by
  simp only [instructionLines] at h
  split at h
  case h_1 => simp at h
  case h_2 selection found =>
    -- prefixes, readings and mnemonics fail with another cause
    rcases bind_eq_error_iff.1 h with failed | ⟨modifier, -, h⟩
    · exact absurd failed mapError_unsupportedOperand_ne
    rcases bind_eq_error_iff.1 h with failed | ⟨operands, read, h⟩
    · exact absurd failed mapError_unsupportedOperand_ne
    rcases bind_eq_error_iff.1 h with failed | ⟨go, -, failed⟩
    · exact absurd failed mapError_unsupportedOperand_ne
    obtain ⟨operand, member, leaves⟩ := exists_operand_of_arrangeInstruction failed
    rw [(controlOf_selection found).branch] at leaves
    rcases exists_text_of_mem_operands (mapError_eq_ok_iff.1 read) member with source | ⟨n, rfl⟩
    · obtain ⟨source, inTexts, reads⟩ := source
      exact ⟨source, inTexts, operand, reads, leaves⟩
    · simp [LeavesUnresolved] at leaves

end Instruction

namespace Segment

def HasInstruction (segment : Segment) (lines : List String) (index : Nat) (text : String) : Prop :=
  ∃ line, (line, index) ∈ segment.body lines ∧ instruction? line = some text

def HasMemoryOperand (segment : Segment) (lines : List String) (m : MemoryOperand) : Prop :=
  ∃ index text, segment.HasInstruction lines index text ∧
    ∃ source ∈ (Statement.ofText text).operands, readOperand source = .ok (.memory m)

end Segment

variable {lines : List String} {segment : Segment} {location : Location}

/-- The tables that a routine mentions are all that its memory operands name. -/
theorem mem_referencedTables (h : segment.HasMemoryOperand lines m) {table : DataTable} {place : Nat}
    (member : (table, place) ∈ tables.zipIdx) (named : m.symbol = some table.label) :
    (table, place) ∈ referencedTables segment lines tables := by
  obtain ⟨index, text, ⟨line, inBody, isInstruction⟩, source, inOperands, read⟩ := h
  have mentioned : mentions text table.label := mentions_of_readOperand inOperands read named
  have inTexts : text ∈ (segment.body lines).filterMap fun line => instruction? line.1 :=
    List.mem_filterMap.2 ⟨(line, index), inBody, isInstruction⟩
  apply List.mem_filter.2
  exact ⟨member, List.any_eq_true.2 ⟨text, inTexts, mentioned⟩⟩

/-- With all tables that its routine mentions, a memory operand that names a table is resolved. -/
theorem renderMemory_ne_unresolved (h : segment.HasMemoryOperand lines m) {table : DataTable}
    (member : table ∈ tables) (named : m.symbol = some table.label) (symbol : String) :
    renderMemory ((referencedTables segment lines tables).map Prod.fst) m ≠
      .error (.unresolved symbol) := by
  intro failed
  obtain ⟨isSymbol, missing⟩ := renderMemory_eq_unresolved failed
  obtain ⟨place, atPlace⟩ := List.getElem?_of_mem member
  have inZip : (table, place) ∈ tables.zipIdx := List.mem_zipIdx_iff_getElem?.2 atPlace
  have referenced := mem_referencedTables h inZip named
  apply missing table (List.mem_map_of_mem referenced)
  exact Option.some.inj (named.symm.trans isSymbol)

private theorem lineGroup_unresolved {context : BodyContext} {last : Option Nat} {line : String × Nat}
    (h : lineGroup context last line = .error ⟨location, .unresolvedReference symbol⟩) :
    ∃ text, instruction? line.1 = some text ∧ location = .at line.2 (some context.routine) text ∧
      instructionLines context (last == some line.2) text = .error (.unresolvedReference symbol) := by
  simp only [lineGroup] at h
  split at h
  case h_7 text read =>
    obtain ⟨cause, failed, same⟩ := mapError_eq_error_iff.1 h
    obtain ⟨rfl, rfl⟩ := Failure.mk.inj same
    exact ⟨text, instruction?_eq_some_iff.2 read, rfl, failed⟩
  all_goals simp at h

/-- The operand that a routine fails for when it fails with an unresolved symbol. -/
theorem RoutineBody.exists_operand_of_unresolved
    (h : ofSegment segment lines tables = .error ⟨location, .unresolvedReference symbol⟩) :
    ∃ index text, segment.HasInstruction lines index text ∧
      location = .at index (some segment.name) text ∧
      ∃ source ∈ (Statement.ofText text).operands, ∃ operand, readOperand source = .ok operand ∧
        LeavesUnresolved tables (IsBranch (Statement.ofText text).mnemonic) symbol operand := by
  rw [ofSegment] at h
  rcases bind_eq_error_iff.1 h with failed | ⟨defined, -, h⟩
  · obtain ⟨fault, structural⟩ := structural_of_definedLabels failed
    simp at structural
  · rcases bind_eq_error_iff.1 h with failed | ⟨groups, -, done⟩
    · obtain ⟨line, inBody, failed⟩ := exists_error_of_mapM failed
      obtain ⟨text, isInstruction, place, failed⟩ := lineGroup_unresolved failed
      exact ⟨line.2, text, ⟨line.1, inBody, isInstruction⟩, place,
        exists_operand_of_instructionLines failed⟩
    · cases done

/-- A failure of a whole listing that has routines and tables is one of a routine. -/
theorem GoSource.exists_segment_of_error {options : Options} {failure : Failure}
    {segmentation : Segmentation} (segmented : Segmentation.ofLines lines = .ok segmentation)
    (h : ofLines options lines = .error failure) :
    ∃ segment ∈ segmentation.segments, RoutineBody.ofSegment segment lines
      ((correlate options.policy segment lines segmentation.tables).tables.map Prod.fst) =
        .error failure := by
  rw [ofLines] at h
  rcases bind_eq_error_iff.1 h with failed | ⟨found, same, h⟩
  · simp [segmented] at failed
  · obtain rfl := Except.ok.inj (same.symm.trans segmented)
    rcases bind_eq_error_iff.1 h with failed | ⟨routines, -, done⟩
    · obtain ⟨segment, member, failed⟩ := exists_error_of_mapM failed
      rcases bind_eq_error_iff.1 failed with failed | ⟨body, -, done⟩
      · exact ⟨segment, member, failed⟩
      · cases done
    · cases done

namespace Segmentation

variable {segmentation : Segmentation}

/-- Memory operands find their tables.  If a memory operand of a routine names a table of the listing,
the table is among those that the routine mentions, and with these the operand is not unresolved.  If
all tables count, a failure with the label of a table as unresolved symbol is that of a branch whose
target is the symbol. -/
theorem memoryOperands_resolved (h : ofLines lines = .ok segmentation) :
    (∀ segment ∈ segmentation.segments, ∀ m, segment.HasMemoryOperand lines m →
      ∀ table place, (table, place) ∈ segmentation.tables.zipIdx → m.symbol = some table.label →
        (table, place) ∈ (correlate .allReferenced segment lines segmentation.tables).tables ∧
        ∀ symbol, renderMemory
          ((correlate .allReferenced segment lines segmentation.tables).tables.map Prod.fst) m ≠
            .error (.unresolved symbol)) ∧
    ∀ list location, ∀ table ∈ segmentation.tables,
      GoSource.ofLines ⟨.allReferenced, list⟩ lines =
          .error ⟨location, .unresolvedReference table.label⟩ →
        ∃ segment ∈ segmentation.segments, ∃ index text,
          segment.HasInstruction lines index text ∧
          location = .at index (some segment.name) text ∧
          IsBranch (Statement.ofText text).mnemonic ∧
          ∃ source ∈ (Statement.ofText text).operands,
            readOperand source = .ok (.symbol table.label 0) := by
  constructor
  · intro segment _ m hasOperand table place member named
    refine ⟨mem_referencedTables hasOperand member named, ?_⟩
    exact renderMemory_ne_unresolved hasOperand (List.fst_mem_of_mem_zipIdx member) named
  · intro list location table member failed
    obtain ⟨segment, inSegments, failed⟩ := GoSource.exists_segment_of_error h failed
    obtain ⟨index, text, hasInstruction, place, source, inOperands, operand, read, leaves⟩ :=
      RoutineBody.exists_operand_of_unresolved failed
    refine ⟨segment, inSegments, index, text, hasInstruction, place, ?_⟩
    rcases leaves with ⟨m, rfl, unresolved⟩ | ⟨isBranch, rfl⟩
    · have hasOperand : segment.HasMemoryOperand lines m :=
        ⟨index, text, hasInstruction, source, inOperands, read⟩
      have named := (renderMemory_eq_unresolved unresolved).1
      exact absurd unresolved (renderMemory_ne_unresolved hasOperand member named table.label)
    · exact ⟨isBranch, source, inOperands, read⟩

/-- A table that a load and a jump name: the load finds it, and the jump fails. -/
theorem memoryOperands_resolved_jump :
    ofLines [".rodata", "T:", ".quad 7", ".text", ".globl f", "f:",
        "mov rax, qword ptr [rip + T]", "jmp T", "ret"] =
      .ok ⟨[⟨"f", 6, 9⟩], [⟨"T", 1, [⟨.eight, 7⟩]⟩]⟩ ∧
    GoSource.ofLines {} [".rodata", "T:", ".quad 7", ".text", ".globl f", "f:",
        "mov rax, qword ptr [rip + T]", "jmp T", "ret"] =
      .error ⟨.at 7 (some "f") "jmp T", .unresolvedReference "T"⟩ ∧
    (⟨"T", 1, [⟨.eight, 7⟩]⟩, 0) ∈ (correlate .allReferenced ⟨"f", 6, 9⟩
      [".rodata", "T:", ".quad 7", ".text", ".globl f", "f:", "mov rax, qword ptr [rip + T]", "jmp T",
        "ret"] [⟨"T", 1, [⟨.eight, 7⟩]⟩]).tables ∧
    ∃ index text, Location.at 7 (some "f") "jmp T" = .at index (some "f") text ∧
      IsBranch (Statement.ofText text).mnemonic ∧
      ∃ source ∈ (Statement.ofText text).operands, readOperand source = .ok (.symbol "T" 0) := by
  have segmented : ofLines [".rodata", "T:", ".quad 7", ".text", ".globl f", "f:",
      "mov rax, qword ptr [rip + T]", "jmp T", "ret"] =
        .ok ⟨[⟨"f", 6, 9⟩], [⟨"T", 1, [⟨.eight, 7⟩]⟩]⟩ := by
    decide +kernel
  have failed : GoSource.ofLines {} [".rodata", "T:", ".quad 7", ".text", ".globl f", "f:",
      "mov rax, qword ptr [rip + T]", "jmp T", "ret"] =
        .error ⟨.at 7 (some "f") "jmp T", .unresolvedReference "T"⟩ := by
    decide +kernel
  have load : Segment.HasMemoryOperand ⟨"f", 6, 9⟩ [".rodata", "T:", ".quad 7", ".text", ".globl f",
      "f:", "mov rax, qword ptr [rip + T]", "jmp T", "ret"]
      { size := some .qword, base := some .instructionPointer, symbol := some "T" } := by
    refine ⟨6, "mov rax, qword ptr [rip + T]", ⟨"mov rax, qword ptr [rip + T]", ?_, ?_⟩,
      "qword ptr [rip + T]", ?_, ?_⟩ <;> decide +kernel
  obtain ⟨found, failures⟩ := memoryOperands_resolved segmented
  obtain ⟨correlated, -⟩ := found _ List.mem_cons_self _ load _ 0 List.mem_cons_self rfl
  obtain ⟨segment, isF, index, text, -, place, branch⟩ :=
    failures false _ _ List.mem_cons_self failed
  obtain rfl := List.mem_singleton.1 isF
  exact ⟨segmented, failed, correlated, index, text, place, branch⟩

end Segmentation

end AsmTranslit
