import AsmTranslit.Proofs.AlikeStatements
import AsmTranslit.Proofs.NamedPredicates
import AsmTranslit.Proofs.OperandTexts
import AsmTranslit.Proofs.StringInstructions

/-!
# Short forms

Ways to leave something out of a statement or to put it elsewhere: the predicate of a comparison in its
name, a shift by one without its count, and terms of an address in front of the brackets.  A statement in
a short form has the same lines as the one that it is short for, or both fail.
-/

namespace AsmTranslit

-- A statement on the members of a list is decided along the list, never over every character.
attribute [local instance (high)] List.decidableBAll

/-- A text of a memory operand with a sum in front of its brackets, in which no register takes part, and
one with this sum at the front of that between its brackets. -/
inductive MovedInside : String → String → Prop
  | intro {text moved : String} {size : Option Size} {segment : Option (Fin 6)}
    {outer inner : List SignedTerm} {ts us : List Token} (outside : SumSpelling outer ts)
    (noRegister : ∀ t ∈ outer, t.term.hasRegister = false) (within : SumSpelling inner us)
    (bare : us.head? ≠ some .minus)
    (inFront : tokens text = sizeTokens size ++ (segmentTokens segment ++
      (ts ++ .leftBracket :: (us ++ [.rightBracket]))))
    (inBrackets : tokens moved = sizeTokens size ++ (segmentTokens segment ++
      .leftBracket :: (ts ++ .plus :: us ++ [.rightBracket]))) : MovedInside text moved

/-- A statement in a short form, and the statement that it is short for. -/
inductive Statement.ShortFor : Statement → Statement → Prop
  | comparison {modifiers operands : List String} {mnemonic comparison : String} {predicate : Nat}
    (stands : comparison? mnemonic = some (comparison, predicate)) :
    ShortFor ⟨modifiers, mnemonic, operands⟩
      ⟨modifiers, comparison, operands ++ [toString predicate]⟩
  | shift {modifiers : List String} {mnemonic operand : String} {rule : Rule} {hasVector : Bool}
    (found : Rule.find? mnemonic hasVector = some rule) (isShift : rule.treatment = .shift) :
    ShortFor ⟨modifiers, mnemonic, [operand]⟩ ⟨modifiers, mnemonic, [operand, "1"]⟩
  | memory {modifiers before after : List String} {mnemonic operand moved : String}
    (inside : MovedInside operand moved) :
    ShortFor ⟨modifiers, mnemonic, before ++ operand :: after⟩
      ⟨modifiers, mnemonic, before ++ moved :: after⟩

variable {text text' number mnemonic comparison : String} {texts : List String} {operand : Operand}
  {predicate : Nat} {n : Int64} {hasVector : Bool} {rule : Rule} {ts us : List Token}

theorem SignedSpelling.append {terms others : List SignedTerm} (h : SignedSpelling terms ts)
    (h' : SignedSpelling others us) : SignedSpelling (terms ++ others) (ts ++ us) := by
  induction h with
  | nil => exact h'
  | cons subtracts head _ ih =>
    rw [List.cons_append, List.cons_append, List.append_assoc]
    exact .cons subtracts head ih

/-- Sums are joined by a plus sign, unless the second has a sign in front. -/
theorem SumSpelling.append {terms others : List SignedTerm} (h : SumSpelling terms ts)
    (h' : SumSpelling others us) (bare : us.head? ≠ some .minus) :
    SumSpelling (terms ++ others) (ts ++ .plus :: us) := by
  have joined : SignedSpelling others (.plus :: us) := by
    cases h' with
    | bare head tail => exact .cons rfl head tail
    | negated => exact absurd rfl bare
  cases h with
  | bare head tail =>
    rw [List.cons_append, List.append_assoc]
    exact .bare head (tail.append joined)
  | negated head tail =>
    rw [List.cons_append, List.cons_append, List.append_assoc]
    exact .negated head (tail.append joined)

theorem MemoryForm.Spelling.readTokens_eq {form : MemoryForm} (h : form.Spelling ts) :
    readTokens ts = (form.reference.mapError .address).map .memory := by
  have read := readMemory_of_spelling h
  obtain ⟨tree, rfl, rfl⟩ := h.exists_tree
  have noError : tree.tokens.findSome? Token.errorLexeme? = none :=
    findSome?_errorLexeme?_eq_none_iff.2 fun lexeme member => (tree.isReadable _ member).2 lexeme rfl
  have noBrace : .leftBrace ∉ tree.tokens := fun member => (tree.isReadable _ member).1 rfl
  have bracket : .leftBracket ∈ tree.tokens := by simp [MemoryTree.tokens]
  simp only [readTokens, noError, List.contains_iff_mem, noBrace, bracket, if_false, if_true, read]
  cases tree.form.reference <;> rfl

theorem MovedInside.readOperand_eq {moved : String} (h : MovedInside text moved) :
    readOperand moved = readOperand text := by
  cases h with
  | @intro size segment outer inner ts us outside noRegister within bare inFront inBrackets =>
    have short : MemoryForm.Spelling ⟨size, segment, outer, inner⟩ (tokens text) :=
      inFront ▸ .intro (.present outside) within
    have explicit : MemoryForm.Spelling ⟨size, segment, [], outer ++ inner⟩ (tokens moved) :=
      inBrackets ▸ .intro .absent (outside.append within bare)
    have same : MemoryForm.reference ⟨size, segment, [], outer ++ inner⟩ =
        MemoryForm.reference ⟨size, segment, outer, inner⟩ := by
      have noneOutside : outer.any (·.term.hasRegister) = false := List.any_eq_false.2 fun t member => by
        rw [noRegister t member]
        exact Bool.false_ne_true
      simp [MemoryForm.reference, noneOutside]
    rw [readOperand, readOperand, short.readTokens_eq, explicit.readTokens_eq, same]

private theorem MovedInside.readAlike {moved : String} (h : MovedInside text moved) :
    ReadAlike text moved := by
  rw [ReadAlike, h.readOperand_eq]

private theorem movedInside_of_texts {front outside within : String} {size : Option Size}
    {segment : Option (Fin 6)} {outer inner : List SignedTerm}
    (start : ClosedAs front (sizeTokens size ++ segmentTokens segment))
    (outsideSum : SumSpelling outer (tokens outside))
    (noRegister : ∀ t ∈ outer, t.term.hasRegister = false)
    (withinSum : SumSpelling inner (tokens within)) (bare : (tokens within).head? ≠ some .minus) :
    MovedInside (front ++ (outside ++ ("[" ++ (within ++ "]"))))
      (front ++ ("[" ++ (outside ++ ("+" ++ (within ++ "]"))))) := by
  have left : ClosedAs "[" [.leftBracket] := closedAs_marks "[" (by decide)
  have plus : ClosedAs "+" [.plus] := closedAs_marks "+" (by decide)
  have right : ClosedAs "]" [.rightBracket] := closedAs_marks "]" (by decide)
  have closing : ClosedAs (within ++ "]") (tokens within ++ [.rightBracket]) :=
    (scannedAs_tokens within).closed right ⟨']', rfl, by decide⟩
  have short := start.append_closed <| (scannedAs_tokens outside).closed (left.append_closed closing)
    ⟨'[', by rw [String.toList_append]; rfl, by decide⟩
  have explicit := start.append_closed <| left.append_closed <|
    (scannedAs_tokens outside).closed (plus.append_closed closing)
      ⟨'+', by rw [String.toList_append]; rfl, by decide⟩
  have inFront := short.scannedAs.tokens_eq
  have inBrackets := explicit.scannedAs.tokens_eq
  simp only [List.append_assoc, List.singleton_append] at inFront inBrackets
  exact .intro outsideSum noRegister withinSum bare inFront (by simpa using inBrackets)

private theorem readableOperands_concat (reads : readOperand number = .ok operand) :
    readableOperands (texts ++ [number]) = readableOperands texts ++ [operand] := by
  rw [readableOperands, List.filterMap_append, readableOperands]
  simp [reads, Except.toOption]

theorem readOperands_concat (reads : readOperand number = .ok operand) :
    readOperands (texts ++ [number]) = (readOperands texts).map (· ++ [operand]) := by
  have split : readOperands (texts ++ [number]) = (do
      let first ← readOperands texts
      let last ← readOperands [number]
      return first ++ last) := List.mapM_append
  have single : readOperands [number] = .ok [operand] := by
    rw [readOperands, mapM_eq_ok_iff]
    exact .cons (by rw [reads]; rfl) .nil
  rw [split, single]
  cases readOperands texts <;> rfl

private theorem readOperand_predicate : ∀ n < comparePredicates.length,
    readOperand (toString n) = .ok (.immediate (Int64.ofNat n)) := by
  decide +kernel

private theorem selection_of_numbered (stands : comparison? mnemonic = some (comparison, predicate)) :
    Selection.find? mnemonic hasVector =
        some ⟨comparison, some predicate, comparisonRule comparison hasVector⟩ ∧
      Selection.find? comparison hasVector =
        some ⟨comparison, none, comparisonRule comparison hasVector⟩ := by
  have known : ∀ other ∈ numberedComparisons, ∀ hasVector, (Rule.find? other hasVector).isSome := by
    decide +kernel
  have member := mem_numberedComparisons stands
  obtain ⟨rule, found⟩ := Option.isSome_iff_exists.1 (known comparison member hasVector)
  obtain rfl := rule_of_find? member found
  constructor
  · simp only [Selection.find?, find?_eq_none_of_comparison? stands, stands, found, Option.map_some]
  · rw [Selection.find?, found]

private theorem selection_of_shift (found : Rule.find? mnemonic hasVector = some rule)
    (isShift : rule.treatment = .shift) (other : Bool) :
    Selection.find? mnemonic other = some ⟨mnemonic, none, rule⟩ := by
  have noString (known : mnemonic ∈ ["movsd", "cmpsd"]) : False := by
    have treatments : ∀ shared ∈ ["movsd", "cmpsd"], ∀ hasVector, ∀ rule ∈ Rule.find? shared hasVector,
        rule.treatment ≠ .shift := by
      decide +kernel
    exact treatments mnemonic known hasVector rule found isShift
  have single (hasVector : Bool) : Rule.find? mnemonic hasVector =
      (Catalog.entries.lookup mnemonic).or (conditionalRule? mnemonic) := by
    rw [Rule.find?.eq_def]
    split
    case h_4 => rfl
    all_goals exact absurd (by simp) noString
  rw [Selection.find?, single, ← single hasVector, found]

variable {context : BodyContext} {isLast : Bool}

theorem Selection.lines_of_string {selection : Selection} {statement : Statement} {go : String}
    {order : OperandOrder} (string : selection.rule = ⟨.fixed go, order, .stringOp⟩) :
    selection.lines context isLast statement =
      ((statement.modifiers.foldlM (keepModifier .stringOp) none).mapError .unsupportedOperand).map
        fun modifier => [.instruction modifier go []] := by
  rw [lines, operands, string]
  cases statement.modifiers.foldlM (keepModifier .stringOp) none <;> rfl

theorem Selection.operands_eq_map {selection : Selection}
    (noString : selection.rule.treatment ≠ .stringOp) (noNop : selection.rule.treatment ≠ .nop) :
    selection.operands texts = (readOperands texts).map fun operands =>
      withCount selection.rule.treatment
        (operands ++ selection.predicate.toList.map fun n => .immediate (Int64.ofNat n)) := by
  rw [Selection.operands.eq_def]
  split
  case h_1 isString => exact absurd isString noString
  case h_2 isNop => exact absurd isNop noNop
  case h_3 => cases readOperands texts <;> rfl

private theorem isVector_concat (reads : readOperand number = .ok (.immediate n)) :
    (readableOperands (texts ++ [number])).any Operand.isVector =
      (readableOperands texts).any Operand.isVector := by
  rw [readableOperands_concat reads, List.any_append]
  simp [Operand.isVector]

private theorem paired_lines_of_comparison {modifiers operands : List String}
    (stands : comparison? mnemonic = some (comparison, predicate)) :
    Paired False Eq (Statement.lines context isLast ⟨modifiers, mnemonic, operands⟩)
      (Statement.lines context isLast ⟨modifiers, comparison, operands ++ [toString predicate]⟩) := by
  obtain ⟨_, _, _, _, _, -, -, bound⟩ := eq_append_of_comparison? stands
  have reads := readOperand_predicate predicate bound
  have vectors : (readableOperands (operands ++ [toString predicate])).any Operand.isVector =
    (readableOperands operands).any Operand.isVector := isVector_concat reads
  have selected (hasVector : Bool) : Selection.find? mnemonic hasVector = _ ∧
      Selection.find? comparison hasVector = _ := selection_of_numbered stands
  rw [Statement.lines, Statement.lines, vectors]
  generalize (readableOperands operands).any Operand.isVector = hasVector
  simp only [(selected hasVector).1, (selected hasVector).2]
  by_cases isString : comparison = "cmpsd" ∧ hasVector = false
  · have rule : comparisonRule comparison hasVector = ⟨.fixed "CMPSL", .reverse, .stringOp⟩ :=
      if_pos isString
    rw [Selection.lines_of_string rule, Selection.lines_of_string rule]
    exact .same _
  · have rule : comparisonRule comparison hasVector =
        ⟨.same, comparisonOrder comparison, .plain⟩ := if_neg isString
    rw [rule]
    refine Selection.paired_lines rfl rfl rfl ?_
    rw [Selection.operands_eq_map (by simp) (by simp), Selection.operands_eq_map (by simp) (by simp),
      readOperands_concat reads]
    cases readOperands operands with
    | error fault => exact .error _ _
    | ok read =>
      refine .ok ?_
      simp

private theorem paired_lines_of_shift {modifiers : List String} {operand : String}
    (found : Rule.find? mnemonic hasVector = some rule) (isShift : rule.treatment = .shift) :
    Paired False Eq (Statement.lines context isLast ⟨modifiers, mnemonic, [operand]⟩)
      (Statement.lines context isLast ⟨modifiers, mnemonic, [operand, "1"]⟩) := by
  have reads : readOperand "1" = .ok (.immediate 1) := by decide +kernel
  have selected := selection_of_shift found isShift
  rw [Statement.lines_of_found (selected _), Statement.lines_of_found (selected _)]
  refine Selection.paired_lines rfl rfl rfl ?_
  have counted : readOperands ([operand] ++ ["1"]) =
      (readOperands [operand]).map (· ++ [.immediate 1]) := readOperands_concat reads
  rw [List.singleton_append] at counted
  have noString : rule.treatment ≠ .stringOp := by simp [isShift]
  have noNop : rule.treatment ≠ .nop := by simp [isShift]
  rw [Selection.operands_eq_map noString noNop, Selection.operands_eq_map noString noNop, counted]
  cases read : readOperands [operand] with
  | error fault => exact .error _ _
  | ok operands =>
    have single : operands.length = 1 := (mapM_eq_ok_iff.1 read).length_eq.symm
    refine .ok ?_
    simp [withCount, isShift, single]

/-- Statements in a short form have the same lines as those that they are short for, or both fail. -/
theorem Statement.ShortFor.paired_lines {statement full : Statement} (short : statement.ShortFor full) :
    Paired False Eq (statement.lines context isLast) (full.lines context isLast) := by
  cases short with
  | comparison stands => exact paired_lines_of_comparison stands
  | shift found isShift => exact paired_lines_of_shift found isShift
  | @memory modifiers before after mnemonic operand moved inside =>
    have same (texts : List String) : List.Forall₂ ReadAlike texts texts :=
      List.forall₂_same.2 fun _ _ => rfl
    have alike : Statement.Alike ⟨modifiers, mnemonic, before ++ operand :: after⟩
        ⟨modifiers, mnemonic, before ++ moved :: after⟩ :=
      ⟨rfl, rfl, List.rel_append (same before) (.cons inside.readAlike (same after))⟩
    exact alike.paired_lines

/-- Instructions are translated like those that they are short for.  That goes for comparisons with their
predicate in the name, for shifts by one without a count, and for memory operands with a sum in front of
their brackets. -/
theorem instructionLines_of_shortFor
    (short : (Statement.ofText text).ShortFor (Statement.ofText text')) :
    (instructionLines context isLast text').toOption =
      (instructionLines context isLast text).toOption := by
  rw [instructionLines_eq_lines, instructionLines_eq_lines]
  exact short.paired_lines.toOption_eq

/-- A comparison, a shift and an address in both forms. -/
theorem instructionLines_of_shortFor_each :
    (instructionLines ⟨"f", [], []⟩ true "cmpps xmm0, xmm1, 1").toOption =
      some [.instruction none "CMPPS" [.register (.vector .xmm 1), .register (.vector .xmm 0),
        .immediate 1]] ∧
    (instructionLines ⟨"f", [], []⟩ true "shl eax, 1").toOption =
      some [.instruction none "SHLL" [.immediate 1, .register (.general 0)]] ∧
    (instructionLines ⟨"f", [], []⟩ true "mov eax, dword ptr [8+rcx]").toOption =
      some [.instruction none "MOVL" [.address (.based 8 (.general 1) none),
        .register (.general 0)]] := by
  have comparison : (Statement.ofText "cmpltps xmm0, xmm1").ShortFor
      (Statement.ofText "cmpps xmm0, xmm1, 1") := by
    have named : Statement.ofText "cmpltps xmm0, xmm1" = ⟨[], "cmpltps", ["xmm0", "xmm1"]⟩ := by
      decide +kernel
    have numbered : Statement.ofText "cmpps xmm0, xmm1, 1" =
        ⟨[], "cmpps", ["xmm0", "xmm1"] ++ [toString 1]⟩ := by
      decide +kernel
    rw [named, numbered]
    exact .comparison (by decide +kernel)
  have shift : (Statement.ofText "shl eax").ShortFor (Statement.ofText "shl eax, 1") := by
    have implied : Statement.ofText "shl eax" = ⟨[], "shl", ["eax"]⟩ := by decide +kernel
    have counted : Statement.ofText "shl eax, 1" = ⟨[], "shl", ["eax", "1"]⟩ := by decide +kernel
    have found : Rule.find? "shl" false = some (.shift "SHL") := by decide +kernel
    rw [implied, counted]
    exact .shift found rfl
  have memory : (Statement.ofText "mov eax, dword ptr 8[rcx]").ShortFor
      (Statement.ofText "mov eax, dword ptr [8+rcx]") := by
    have inside : MovedInside ("dword ptr " ++ ("8" ++ ("[" ++ ("rcx" ++ "]"))))
        ("dword ptr " ++ ("[" ++ ("8" ++ ("+" ++ ("rcx" ++ "]"))))) := by
      have number : tokens "8" = [.number 8] := by decide +kernel
      have register : tokens "rcx" = [.register (.general .qword 1)] := by decide +kernel
      have start : ClosedAs "dword ptr " (sizeTokens (some .dword) ++ segmentTokens none) :=
        closedAs_sizeText (some .dword)
      have outsideSum : SumSpelling [⟨false, .number 8⟩] (tokens "8") := number ▸ .bare (.number 8) .nil
      have withinSum : SumSpelling [⟨false, .register (.general .qword 1)⟩] (tokens "rcx") :=
        register ▸ .bare (.register _) .nil
      exact movedInside_of_texts start outsideSum (by decide) withinSum (by simp [register])
    have outside : Statement.ofText "mov eax, dword ptr 8[rcx]" =
        ⟨[], "mov", ["eax"] ++ ("dword ptr " ++ ("8" ++ ("[" ++ ("rcx" ++ "]")))) :: []⟩ := by
      decide +kernel
    have within : Statement.ofText "mov eax, dword ptr [8+rcx]" =
        ⟨[], "mov", ["eax"] ++ ("dword ptr " ++ ("[" ++ ("8" ++ ("+" ++ ("rcx" ++ "]"))))) :: []⟩ := by
      decide +kernel
    rw [outside, within]
    exact .memory inside
  refine ⟨(instructionLines_of_shortFor comparison).trans ?_,
    (instructionLines_of_shortFor shift).trans ?_, (instructionLines_of_shortFor memory).trans ?_⟩
  all_goals decide +kernel

end AsmTranslit
