import AsmTranslit.Proofs.ControlFlow
import AsmTranslit.Proofs.MentionedSymbols

/-!
# Table references

Which tables the instructions of a body mention.  A memory operand becomes an address in a table only
if the table is one of those that the body may refer to, and a branch goes to a new label or to an
address as well; so every symbol in the text of an instruction is that of such a table.
-/

namespace AsmTranslit

variable {tables : List DataTable} {labels : List (String × String)} {rendered : GoOperand}
  {context : BodyContext} {group : List GoLine} {line : GoLine}

/-- An operand made from known names: a label is a new name, and a symbol that of a table. -/
structure GoOperand.Known (tables : List DataTable) (labels : List (String × String))
    (operand : GoOperand) : Prop where
  label : ∀ name, operand = .label name → ∃ old, labels.lookup old = some name
  symbol : ∀ symbol, operand.symbol? = some symbol → ∃ table ∈ tables, table.symbol = symbol

theorem GoOperand.Known.of_plain (noLabel : ∀ name, rendered ≠ .label name)
    (noSymbol : rendered.symbol? = none) : rendered.Known tables labels where
  label name same := absurd same (noLabel name)
  symbol symbol same := by simp [noSymbol] at same

private theorem exists_table_of_renderTableReference {label symbol : String} {m : MemoryOperand}
    {a : GoAddress} (h : renderTableReference tables label m = .ok a)
    (refers : a.symbol? = some symbol) : ∃ table ∈ tables, table.symbol = symbol := by
  rw [renderTableReference] at h
  split at h
  case h_1 => simp at h
  case h_2 table found =>
    obtain ⟨index, -, h⟩ := bind_eq_ok_iff.1 h
    obtain ⟨go, -, last⟩ := bind_eq_ok_iff.1 h
    obtain rfl := Except.ok.inj last
    exact ⟨table, List.mem_of_find?_eq_some found, Option.some.inj refers⟩

theorem symbol?_of_renderPlainAddress {m : MemoryOperand} {a : GoAddress}
    (h : renderPlainAddress m = .ok a) : a.symbol? = none := by
  rw [renderPlainAddress] at h
  split at h
  case h_1 => simp at h
  case h_2 =>
    obtain ⟨base, -, h⟩ := bind_eq_ok_iff.1 h
    obtain ⟨go, -, last⟩ := bind_eq_ok_iff.1 h
    obtain rfl := Except.ok.inj last
    rfl
  case h_3 =>
    obtain ⟨go, -, last⟩ := bind_eq_ok_iff.1 h
    obtain rfl := Except.ok.inj last
    rfl

private theorem exists_table_of_renderMemory {symbol : String} {m : MemoryOperand} {a : GoAddress}
    (h : renderMemory tables m = .ok a) (refers : a.symbol? = some symbol) :
    ∃ table ∈ tables, table.symbol = symbol := by
  rw [renderMemory] at h
  split at h
  case h_1 => simp at h
  case h_2 =>
    split at h
    case h_1 => exact exists_table_of_renderTableReference h refers
    case h_2 =>
      split at h
      case isTrue => simp at h
      case isFalse => simp [symbol?_of_renderPlainAddress h] at refers

theorem known_renderMemory {m : MemoryOperand} {a : GoAddress} (h : renderMemory tables m = .ok a) :
    (GoOperand.address a).Known tables labels where
  label := by simp
  symbol _ refers := exists_table_of_renderMemory h refers

theorem known_renderOperand {operand : Operand} (h : renderOperand tables operand = .ok rendered) :
    rendered.Known tables labels := by
  cases operand with
  | register r =>
    obtain ⟨go, -, rfl⟩ := map_eq_ok_iff.1 h
    exact .of_plain (by simp) rfl
  | immediate n =>
    obtain rfl := Except.ok.inj h
    exact .of_plain (by simp) rfl
  | memory m =>
    obtain ⟨a, address, rfl⟩ := map_eq_ok_iff.1 h
    exact known_renderMemory address
  | symbol name addend => simp [renderOperand] at h

private theorem known_renderCount {operand : Operand} (h : renderCount tables operand = .ok rendered) :
    rendered.Known tables labels := by
  rw [renderCount] at h
  split at h
  case isTrue =>
    obtain rfl := Except.ok.inj h
    exact .of_plain (by simp) rfl
  case isFalse => exact known_renderOperand h

private theorem known_renderTarget {operand : Operand}
    (h : renderTarget tables labels operand = .ok rendered) : rendered.Known tables labels := by
  cases operand with
  | register r =>
    obtain ⟨go, -, rfl⟩ := map_eq_ok_iff.1 h
    exact .of_plain (by simp) rfl
  | immediate n => simp [renderTarget] at h
  | memory m =>
    obtain ⟨a, address, rfl⟩ := map_eq_ok_iff.1 h
    exact known_renderMemory address
  | symbol name addend =>
    obtain ⟨renamed, known, rfl⟩ := renderTarget_symbol h
    refine ⟨?_, by simp [GoOperand.symbol?]⟩
    rintro _ ⟨⟩
    exact ⟨name, known⟩

private theorem known_renderShift {operands : List Operand} {all : List GoOperand}
    (h : renderShift tables operands = .ok all) :
    ∀ operand ∈ all, operand.Known tables labels := by
  fun_induction renderShift tables operands generalizing all with
  | case1 =>
    obtain rfl := Except.ok.inj h
    simp
  | case2 count =>
    obtain ⟨only, rendered, last⟩ := bind_eq_ok_iff.1 h
    obtain rfl := Except.ok.inj last
    intro operand member
    obtain rfl := List.mem_singleton.1 member
    exact known_renderCount rendered
  | case3 first rest _ ih =>
    obtain ⟨own, rendered, h⟩ := bind_eq_ok_iff.1 h
    obtain ⟨others, later, last⟩ := bind_eq_ok_iff.1 h
    obtain rfl := Except.ok.inj last
    intro operand member
    rcases List.mem_cons.1 member with rfl | inRest
    · exact known_renderOperand rendered
    · exact ih later operand inRest

theorem arrange_perm {α : Type} (order : OperandOrder) (xs : List α) : (order.arrange xs).Perm xs := by
  rw [OperandOrder.arrange.eq_def]
  split
  case h_1 => exact List.reverse_perm xs
  case h_2 a b rest => exact List.Perm.swap a b rest
  case h_3 => exact List.Perm.refl xs

/-- An instruction with an unmarked mnemonic and known operands. -/
def GoLine.KnownInstruction (tables : List DataTable) (labels : List (String × String))
    (line : GoLine) : Prop :=
  ∃ modifier mnemonic operands, line = .instruction modifier mnemonic operands ∧
    Unmarked mnemonic ∧ ∀ operand ∈ operands, operand.Known tables labels

private theorem knownInstruction_arrangeInstruction {isLast : Bool} {name go : String} {rule : Rule}
    {modifier : Option GoPrefix} {operands : List Operand}
    (h : arrangeInstruction context isLast name rule modifier go operands = .ok group)
    (unmarked : Unmarked go) (member : line ∈ group) :
    line.KnownInstruction context.tables context.labels := by
  have single {rendered : List GoOperand} (same : group = [.instruction modifier go rendered])
      (known : ∀ operand ∈ rendered, operand.Known context.tables context.labels) :
      line.KnownInstruction context.tables context.labels := by
    rw [same] at member
    exact ⟨modifier, go, rendered, List.mem_singleton.1 member, unmarked, known⟩
  cases treatment : rule.treatment with
  | ret =>
    rw [arrangeInstruction_ret h treatment] at member
    split at member
    case isTrue => simp at member
    case isFalse =>
      rcases List.mem_cons.1 member with rfl | last
      · exact ⟨_, _, _, rfl, by decide, by simp⟩
      · exact ⟨_, _, _, List.mem_singleton.1 last, unmarked, by simp⟩
  | branch =>
    obtain ⟨operand, target, -, rendered, same⟩ := arrangeInstruction_branch h treatment
    exact single same (by simpa using known_renderTarget rendered)
  | nop =>
    simp only [arrangeInstruction, treatment] at h
    exact single (Except.ok.inj h).symm (by simp)
  | stringOp =>
    simp only [arrangeInstruction, treatment] at h
    exact single (Except.ok.inj h).symm (by simp)
  | plain =>
    simp only [arrangeInstruction, treatment] at h
    obtain ⟨rendered, all, h⟩ := bind_eq_ok_iff.1 h
    apply single (Except.ok.inj h).symm
    intro operand inArranged
    obtain ⟨source, -, renders⟩ :=
      exists_of_mem_of_mapM (mapError_eq_ok_iff.1 all) ((arrange_perm _ _).mem_iff.1 inArranged)
    exact known_renderOperand renders
  | shift =>
    simp only [arrangeInstruction, treatment] at h
    obtain ⟨rendered, all, h⟩ := bind_eq_ok_iff.1 h
    apply single (Except.ok.inj h).symm
    intro operand inArranged
    exact known_renderShift (mapError_eq_ok_iff.1 all) operand ((arrange_perm _ _).mem_iff.1 inArranged)

theorem knownInstruction_instructionLines {isLast : Bool} {text : String}
    (h : instructionLines context isLast text = .ok group) (member : line ∈ group) :
    line.KnownInstruction context.tables context.labels := by
  obtain ⟨selection, modifier, operands, go, parts⟩ := exists_assembled h
  exact knownInstruction_arrangeInstruction parts.arranged parts.isWord.unmarked member

namespace RoutineBody

variable {segment : Segment} {lines : List String} {body : RoutineBody}

/-- A line of a body is a label, or comes from an instruction of the source. -/
theorem label_or_instruction (h : ofSegment segment lines tables = .ok body)
    (member : line ∈ body.lines) : (∃ name, line = .label name) ∨
      ∃ (context : BodyContext) (defined referenced : List String) (isLast : Bool) (text : String)
        (group : List GoLine), context.tables = tables ∧
          context.labels = renameLabels segment.name defined referenced ∧
          instructionLines context isLast text = .ok group ∧ line ∈ group := by
  obtain ⟨-, translated, -⟩ := exists_parts h
  obtain ⟨group, inGroups, inGroup⟩ := List.mem_flatten.1 member
  obtain ⟨source, -, becomes⟩ := exists_of_mem_of_mapM translated inGroups
  cases read : label? source.1 with
  | some name =>
    obtain rfl := lineGroup_label becomes read
    obtain ⟨renamed, -, rfl⟩ := List.mem_map.1 inGroup
    exact .inl ⟨renamed, rfl⟩
  | none =>
    cases isInstruction : instruction? source.1 with
    | none =>
      obtain rfl := lineGroup_other becomes read isInstruction
      simp at inGroup
    | some text =>
      exact .inr ⟨_, _, _, _, text, group, rfl, rfl, lineGroup_instruction becomes isInstruction,
        inGroup⟩

/-- A line of a body is a label or an instruction that is made from known names. -/
theorem label_or_known (h : ofSegment segment lines tables = .ok body) (member : line ∈ body.lines) :
    (∃ name, line = .label name) ∨ ∃ defined referenced,
      line.KnownInstruction tables (renameLabels segment.name defined referenced) := by
  rcases label_or_instruction h member with
    isLabel | ⟨context, defined, referenced, isLast, text, group, rfl, labels, becomes, inGroup⟩
  · exact .inl isLabel
  · have known := knownInstruction_instructionLines becomes inGroup
    rw [labels] at known
    exact .inr ⟨defined, referenced, known⟩

/-- The symbols that the instructions of a body mention are those of tables it may refer to. -/
theorem exists_table_of_mem_symbolsIn {modifier : Option GoPrefix} {mnemonic symbol : String}
    {operands : List GoOperand} (h : ofSegment segment lines tables = .ok body)
    (unmarked : Unmarked segment.name)
    (member : GoLine.instruction modifier mnemonic operands ∈ body.lines)
    (mentioned : symbol ∈ symbolsIn (GoLine.instruction modifier mnemonic operands).text) :
    ∃ table ∈ tables, table.symbol = symbol := by
  rcases label_or_known h member with ⟨name, same⟩ | ⟨_, _, _, _, _, same, mnemonicUnmarked, known⟩
  · cases same
  · obtain ⟨rfl, rfl, rfl⟩ := GoLine.instruction.inj same
    have named : ∀ operand ∈ operands, operand.WellNamed := by
      intro operand inOperands
      refine ⟨?_, ?_⟩
      · rintro name rfl
        obtain ⟨old, renames⟩ := (known _ inOperands).label name rfl
        rw [lookup_renameLabels, Option.ite_none_right_eq_some] at renames
        obtain rfl := Option.some.inj renames.2
        exact unmarked_append.2 ⟨unmarked_append.2 ⟨unmarked, by decide⟩, unmarked_toString _⟩
      · intro symbol refers
        obtain ⟨table, -, rfl⟩ := (known _ inOperands).symbol symbol refers
        exact ⟨table.label, rfl⟩
    rw [symbolsIn_instruction mnemonicUnmarked named] at mentioned
    obtain ⟨operand, inOperands, refers⟩ := List.mem_filterMap.1 mentioned
    exact (known operand inOperands).symbol symbol refers

end RoutineBody

end AsmTranslit
