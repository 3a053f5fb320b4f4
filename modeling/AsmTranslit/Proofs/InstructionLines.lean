import AsmTranslit.Proofs.CheckedRuns
import AsmTranslit.Proofs.RuleLookup

/-!
# Lines of an instruction

What an instruction becomes when it can be written: nothing or a return of its own for a return, and
exactly one line for all else.  The line of a branch to a symbol holds the new name of the label.
-/

namespace AsmTranslit

variable {context : BodyContext} {isLast : Bool} {text name mnemonic go : String} {rule : Rule}
  {modifier : Option GoPrefix} {operands : List Operand} {group : List GoLine}

/-- The parts that an instruction is put together from. -/
structure Assembled (context : BodyContext) (isLast : Bool) (statement : Statement)
    (group : List GoLine) (selection : Selection) (modifier : Option GoPrefix)
    (operands : List Operand) (go : String) : Prop where
  found : Selection.find? statement.mnemonic
    ((readableOperands statement.operands).any Operand.isVector) = some selection
  kept : statement.modifiers.foldlM (keepModifier selection.rule.treatment) none = .ok modifier
  read : selection.operands statement.operands = .ok operands
  spelled : selection.rule.spelling.goMnemonic selection.mnemonic operands = .ok go
  arranged : arrangeInstruction context isLast statement.mnemonic selection.rule modifier go
    operands = .ok group

theorem exists_assembled (h : instructionLines context isLast text = .ok group) :
    ∃ selection modifier operands go,
      Assembled context isLast (Statement.ofText text) group selection modifier operands go := by
  simp only [instructionLines] at h
  split at h
  case h_1 => simp at h
  case h_2 selection found =>
    obtain ⟨modifier, kept, h⟩ := bind_eq_ok_iff.1 h
    obtain ⟨operands, read, h⟩ := bind_eq_ok_iff.1 h
    obtain ⟨go, spelled, arranged⟩ := bind_eq_ok_iff.1 h
    exact ⟨selection, modifier, operands, go, found, mapError_eq_ok_iff.1 kept,
      mapError_eq_ok_iff.1 read, mapError_eq_ok_iff.1 spelled, arranged⟩

theorem Assembled.instructionLines_eq {selection : Selection}
    (parts : Assembled context isLast (Statement.ofText text) group selection modifier operands go) :
    instructionLines context isLast text = .ok group := by
  simp only [instructionLines, parts.found, bind_eq_ok_iff, mapError_eq_ok_iff]
  exact ⟨modifier, parts.kept, operands, parts.read, go, parts.spelled, parts.arranged⟩

theorem knownSizeLetter_eq_ok_iff {size : Option Size} {letter : String} :
    knownSizeLetter mnemonic size = .ok letter ↔
      ∃ known c, size = some known ∧ known.goSuffix? = some c ∧ letter = String.singleton c := by
  cases size with
  | none => simp [knownSizeLetter]
  | some known =>
    cases suffix : known.goSuffix? with
    | none => simp [knownSizeLetter, sizeLetter, suffix]
    | some c => simp [knownSizeLetter, sizeLetter, suffix, eq_comm]

theorem arrangeInstruction_ret
    (h : arrangeInstruction context isLast name rule modifier go operands = .ok group)
    (isRet : rule.treatment = .ret) :
    group = if isLast then [] else
      [.instruction none "VZEROUPPER" [], .instruction modifier go []] := by
  simp only [arrangeInstruction, isRet] at h
  split at h
  case isTrue => simp at h
  case isFalse =>
    split at h
    case isTrue last =>
      rw [if_pos last]
      exact (Except.ok.inj h).symm
    case isFalse early =>
      rw [if_neg early]
      exact (Except.ok.inj h).symm

theorem arrangeInstruction_branch
    (h : arrangeInstruction context isLast name rule modifier go operands = .ok group)
    (isBranch : rule.treatment = .branch) :
    ∃ operand target, operands = [operand] ∧
      renderTarget context.tables context.labels operand = .ok target ∧
      group = [.instruction modifier go [target]] := by
  simp only [arrangeInstruction, isBranch] at h
  obtain ⟨targets, rendered, last⟩ := bind_eq_ok_iff.1 h
  rw [mapError_eq_ok_iff, mapM_eq_ok_iff] at rendered
  split at last
  case isFalse => simp at last
  case isTrue single =>
    obtain ⟨target, rfl⟩ := List.length_eq_one_iff.1 single
    obtain ⟨operand, rest, first, none, rfl⟩ := List.forall₂_cons_right_iff.1 rendered
    obtain rfl := List.forall₂_nil_right_iff.1 none
    exact ⟨operand, target, rfl, first, (Except.ok.inj last).symm⟩

theorem arrangeInstruction_of_ne_ret
    (h : arrangeInstruction context isLast name rule modifier go operands = .ok group)
    (noRet : rule.treatment ≠ .ret) :
    ∃ rendered, group = [.instruction modifier go rendered] := by
  cases treatment : rule.treatment with
  | ret => exact absurd treatment noRet
  | nop =>
    simp only [arrangeInstruction, treatment] at h
    exact ⟨[], (Except.ok.inj h).symm⟩
  | stringOp =>
    simp only [arrangeInstruction, treatment] at h
    exact ⟨[], (Except.ok.inj h).symm⟩
  | branch =>
    obtain ⟨_, target, -, -, rfl⟩ := arrangeInstruction_branch h treatment
    exact ⟨[target], rfl⟩
  | plain =>
    simp only [arrangeInstruction, treatment] at h
    obtain ⟨rendered, -, h⟩ := bind_eq_ok_iff.1 h
    exact ⟨_, (Except.ok.inj h).symm⟩
  | shift =>
    simp only [arrangeInstruction, treatment] at h
    obtain ⟨rendered, -, h⟩ := bind_eq_ok_iff.1 h
    exact ⟨_, (Except.ok.inj h).symm⟩

/-- Every operand of a branch is read. -/
theorem operands_of_branch {selection : Selection} {texts : List String}
    (h : selection.operands texts = .ok operands) (isBranch : selection.rule.treatment = .branch) :
    ∃ read predicate, readOperands texts = .ok read ∧ operands = read ++ predicate := by
  rw [Selection.operands, isBranch] at h
  obtain ⟨read, run, last⟩ := bind_eq_ok_iff.1 h
  exact ⟨read, _, run, by simpa [withCount, pure, Except.pure] using last.symm⟩

theorem renderTarget_symbol {tables : List DataTable} {labels : List (String × String)}
    {addend : Int64} {target : GoOperand}
    (h : renderTarget tables labels (.symbol name addend) = .ok target) :
    ∃ renamed, labels.lookup name = some renamed ∧ target = .label renamed := by
  simp only [renderTarget] at h
  split at h
  case isFalse => simp at h
  case isTrue =>
    split at h
    case h_1 renamed known => exact ⟨renamed, known, (Except.ok.inj h).symm⟩
    case h_2 => simp at h

theorem instructionLines_ret (h : instructionLines context isLast text = .ok group)
    (isRet : (Statement.ofText text).mnemonic = "ret") :
    ∃ modifier, group = if isLast then [] else
      [.instruction none "VZEROUPPER" [], .instruction modifier "RET" []] := by
  obtain ⟨selection, modifier, operands, go, parts⟩ := exists_assembled h
  have control := controlOf_selection parts.found
  have treatment := control.ret.2 isRet
  have spelled := parts.spelled
  rw [control.spelling treatment] at spelled
  obtain rfl := Except.ok.inj spelled
  exact ⟨modifier, arrangeInstruction_ret parts.arranged treatment⟩

theorem instructionLines_of_ne_ret (h : instructionLines context isLast text = .ok group)
    (noRet : (Statement.ofText text).mnemonic ≠ "ret") :
    ∃ modifier go operands, group = [.instruction modifier go operands] := by
  obtain ⟨selection, modifier, operands, go, parts⟩ := exists_assembled h
  have treatment : selection.rule.treatment ≠ .ret := fun isRet =>
    noRet ((controlOf_selection parts.found).ret.1 isRet)
  obtain ⟨rendered, rfl⟩ := arrangeInstruction_of_ne_ret parts.arranged treatment
  exact ⟨modifier, go, rendered, rfl⟩

/-- A branch with a symbol among its operands has no other operand and goes to the symbol's label. -/
theorem instructionLines_branch {operand symbol : String} {addend : Int64}
    (h : instructionLines context isLast text = .ok group)
    (isBranch : IsBranch (Statement.ofText text).mnemonic)
    (member : operand ∈ (Statement.ofText text).operands)
    (reads : readOperand operand = .ok (.symbol symbol addend)) :
    ∃ target modifier go, context.labels.lookup symbol = some target ∧
      group = [.instruction modifier go [.label target]] := by
  obtain ⟨selection, modifier, operands, go, parts⟩ := exists_assembled h
  have treatment := (controlOf_selection parts.found).branch.2 isBranch
  obtain ⟨only, rendered, rfl, renders, rfl⟩ := arrangeInstruction_branch parts.arranged treatment
  obtain ⟨read, predicate, run, single⟩ := operands_of_branch parts.read treatment
  have symbolRead : Operand.symbol symbol addend ∈ read := by
    obtain ⟨other, inRead, same⟩ := exists_mem_of_mapM run member
    rw [mapError_eq_ok_iff, reads] at same
    obtain rfl := Except.ok.inj same
    exact inRead
  obtain rfl : only = .symbol symbol addend := by
    have inAll : Operand.symbol symbol addend ∈ [only] := by
      rw [single]
      exact List.mem_append_left _ symbolRead
    exact (List.mem_singleton.1 inAll).symm
  obtain ⟨target, known, rfl⟩ := renderTarget_symbol renders
  exact ⟨target, modifier, go, known, rfl⟩

end AsmTranslit
