import AsmTranslit.Proofs.InstructionLines

/-!
# Predicates in names

Comparisons that have their predicate in the mnemonic.  None of them has a rule of its own: each stands
for a comparison that takes the number of its predicate as one more operand.  Go gets this number
wherever the other comparison is one of vectors.  The name `cmpsd` is that of a string instruction as
well, and where no operand is a vector register the predicate is lost in it.
-/

namespace AsmTranslit

def numberedComparisons : List String :=
  ["vcmpps", "vcmppd", "vcmpss", "vcmpsd", "cmpps", "cmppd", "cmpss", "cmpsd"]

def comparisonOrder (comparison : String) : OperandOrder :=
  if "vcmp".toList.isPrefixOf comparison.toList then .reverse else .swapFirstTwo

def comparisonRule (comparison : String) (hasVector : Bool) : Rule :=
  if comparison = "cmpsd" ∧ hasVector = false then ⟨.fixed "CMPSL", .reverse, .stringOp⟩
  else ⟨.same, comparisonOrder comparison, .plain⟩

variable {mnemonic comparison : String} {predicate : Nat} {hasVector : Bool} {rule : Rule}

theorem mem_numberedComparisons (h : comparison? mnemonic = some (comparison, predicate)) :
    comparison ∈ numberedComparisons := by
  obtain ⟨family, isFamily, _, type, isType, -, rfl, -⟩ := eq_append_of_comparison? h
  have all : ∀ family ∈ ["vcmp", "cmp"], ∀ type ∈ ["ps", "pd", "ss", "sd"],
      family ++ type ∈ numberedComparisons := by
    decide
  exact all family isFamily type isType

/-- Whether a mnemonic starts like that of a comparison, by its bytes. -/
def startsLikeComparison (mnemonic : String) : Bool :=
  ["vcmp", "cmp"].any fun family =>
    family.toByteArray.data.toList.isPrefixOf mnemonic.toByteArray.data.toList

private theorem startsLikeComparison_append {family : String} (h : family ∈ ["vcmp", "cmp"])
    (rest : String) : startsLikeComparison (family ++ rest) := by
  rw [startsLikeComparison, List.any_eq_true]
  refine ⟨family, h, ?_⟩
  rw [String.toByteArray_append, ByteArray.data_append, Array.toList_append]
  exact List.isPrefixOf_iff_prefix.2 (List.prefix_append _ _)

theorem comparisons_of_mem_entries : ∀ entry ∈ Catalog.entries, startsLikeComparison entry.1 →
    comparison? entry.1 = none ∧
      (entry.1 ∈ numberedComparisons → entry.2 = ⟨.same, comparisonOrder entry.1, .plain⟩) := by
  decide +kernel

private theorem conditionalRule?_eq_none {family : String} (h : family ∈ ["vcmp", "cmp"])
    (rest : String) : conditionalRule? (family ++ rest) = none := by
  simp only [List.mem_cons, List.not_mem_nil, or_false] at h
  rcases h with rfl | rfl <;> simp [conditionalRule?, conditionAfter?, List.isPrefixOf?]

theorem find?_eq_none_of_comparison? (h : comparison? mnemonic = some (comparison, predicate)) :
    Rule.find? mnemonic hasVector = none := by
  have own : comparison? "movsd" = none ∧ comparison? "cmpsd" = none := by decide
  obtain ⟨family, isFamily, rest, _, -, same, -, -⟩ := eq_append_of_comparison? h
  fun_cases Rule.find? mnemonic hasVector with
  | case1 => simp [own] at h
  | case2 => simp [own] at h
  | case3 => simp [own] at h
  | case4 =>
    rw [Option.or_eq_none_iff]
    constructor
    · rw [Option.eq_none_iff_forall_ne_some]
      intro rule listed
      have inCatalog := comparisons_of_mem_entries _ (mem_entries_of_lookup listed)
      have notNamed := (inCatalog (same ▸ startsLikeComparison_append isFamily rest)).1
      simp [notNamed] at h
    · rw [same]
      exact conditionalRule?_eq_none isFamily rest

theorem rule_of_find? (member : comparison ∈ numberedComparisons)
    (found : Rule.find? comparison hasVector = some rule) :
    rule = comparisonRule comparison hasVector := by
  revert found
  fun_cases Rule.find? comparison hasVector with
  | case1 => simp [numberedComparisons] at member
  | case2 =>
    intro found
    exact (Option.some.inj found).symm
  | case3 =>
    intro found
    exact (Option.some.inj found).symm
  | case4 _ _ _ noString _ =>
    intro found
    have starts : ∀ other ∈ numberedComparisons, startsLikeComparison other := by decide
    have unconditional : ∀ other ∈ numberedComparisons, conditionalRule? other = none := by decide
    rw [unconditional comparison member, Option.or_none] at found
    have inCatalog := comparisons_of_mem_entries _ (mem_entries_of_lookup found)
    have vectors : ¬ (comparison = "cmpsd" ∧ hasVector = false) := fun h => noString h.1 h.2
    rw [comparisonRule, if_neg vectors]
    exact (inCatalog (starts comparison member)).2 member

private theorem selection_of_comparison? {selection : Selection}
    (stands : comparison? mnemonic = some (comparison, predicate))
    (found : Selection.find? mnemonic hasVector = some selection) :
    selection = ⟨comparison, some predicate, comparisonRule comparison hasVector⟩ := by
  rw [Selection.find?, find?_eq_none_of_comparison? stands, stands] at found
  obtain ⟨rule, ofComparison, rfl⟩ := Option.map_eq_some_iff.1 found
  rw [rule_of_find? (mem_numberedComparisons stands) ofComparison]

private theorem text_predicate : ∀ n < comparePredicates.length,
    (GoOperand.immediate (Int64.ofNat n)).text = "$" ++ toString n := by
  decide +kernel

variable {context : BodyContext} {isLast : Bool} {text : String} {group : List GoLine}

/-- A comparison with its predicate in the name keeps it, as the last operand in the order of the
listing, unless it is read as a string instruction: that is where it stands for `cmpsd` and none of its
operands is read as a vector register. -/
theorem instructionLines_comparison
    (stands : comparison? (Statement.ofText text).mnemonic = some (comparison, predicate))
    (translated : instructionLines context isLast text = .ok group) :
    ∃ modifier,
      if comparison = "cmpsd" ∧
          (readableOperands (Statement.ofText text).operands).any Operand.isVector = false then
        group = [.instruction modifier "CMPSL" []]
      else
        (GoOperand.immediate (Int64.ofNat predicate)).text = "$" ++ toString predicate ∧
          ∃ operands rendered, readOperands (Statement.ofText text).operands = .ok operands ∧
            operands.mapM (renderOperand context.tables) = .ok rendered ∧
            group = [.instruction modifier (upperCase comparison)
              ((comparisonOrder comparison).arrange
                (rendered ++ [.immediate (Int64.ofNat predicate)]))] := by
  obtain ⟨selection, modifier, operands, go, parts⟩ := exists_assembled translated
  obtain rfl := selection_of_comparison? stands parts.found
  refine ⟨modifier, ?_⟩
  have arranged := parts.arranged
  split
  case isTrue isString =>
    have spelled := parts.spelled
    rw [comparisonRule, if_pos isString] at spelled
    obtain rfl := Except.ok.inj spelled
    simp only [arrangeInstruction, comparisonRule, if_pos isString] at arranged
    exact (Except.ok.inj arranged).symm
  case isFalse noString =>
    obtain ⟨_, _, _, _, _, -, -, bound⟩ := eq_append_of_comparison? stands
    have spelled := parts.spelled
    rw [comparisonRule, if_neg noString] at spelled
    obtain rfl := Except.ok.inj spelled
    have read := parts.read
    simp only [Selection.operands, comparisonRule, if_neg noString] at read
    obtain ⟨given, reads, last⟩ := bind_eq_ok_iff.1 read
    obtain rfl := Except.ok.inj last
    simp only [arrangeInstruction, comparisonRule, if_neg noString] at arranged
    obtain ⟨rendered, renders, line⟩ := bind_eq_ok_iff.1 arranged
    rw [mapError_eq_ok_iff] at renders
    simp only [withCount, reduceCtorEq, false_and, if_false, List.mapM_append] at renders
    obtain ⟨own, ofOperands, renders⟩ := bind_eq_ok_iff.1 renders
    obtain ⟨number, ofPredicate, last⟩ := bind_eq_ok_iff.1 renders
    obtain rfl := Except.ok.inj last
    obtain rfl : [GoOperand.immediate (Int64.ofNat predicate)] = number := Except.ok.inj ofPredicate
    exact ⟨text_predicate predicate bound, given, own, reads, ofOperands, (Except.ok.inj line).symm⟩

/-- A comparison of vectors with a predicate in its name, which goes in front of the operands. -/
theorem instructionLines_comparison_notEqual :
    comparison? (Statement.ofText "vcmpneq_oqpd ymm0, ymm1, ymm2").mnemonic = some ("vcmppd", 12) ∧
    instructionLines ⟨"f", [], []⟩ true "vcmpneq_oqpd ymm0, ymm1, ymm2" =
      .ok [.instruction none "VCMPPD" [.immediate 12, .register (.vector .ymm 2),
        .register (.vector .ymm 1), .register (.vector .ymm 0)]] ∧
    (GoOperand.immediate (Int64.ofNat 12)).text = "$12" := by
  have stands : comparison? (Statement.ofText "vcmpneq_oqpd ymm0, ymm1, ymm2").mnemonic =
      some ("vcmppd", 12) := by
    decide +kernel
  have translated : instructionLines ⟨"f", [], []⟩ true "vcmpneq_oqpd ymm0, ymm1, ymm2" =
      .ok [.instruction none "VCMPPD" [.immediate 12, .register (.vector .ymm 2),
        .register (.vector .ymm 1), .register (.vector .ymm 0)]] := by
    decide +kernel
  obtain ⟨modifier, line⟩ := instructionLines_comparison stands translated
  rw [if_neg (by simp)] at line
  exact ⟨stands, translated, line.1⟩

/-- A comparison of two places in memory, read as a string instruction, has lost its predicate. -/
theorem predicate_missing_from_line :
    comparison? (Statement.ofText "cmpltsd qword ptr [rdi], qword ptr [rsi]").mnemonic =
      some ("cmpsd", 1) ∧
    Rule.find? (Statement.ofText "cmpltsd qword ptr [rdi], qword ptr [rsi]").mnemonic false = none ∧
    instructionLines ⟨"f", [], []⟩ true "cmpltsd qword ptr [rdi], qword ptr [rsi]" =
      .ok [.instruction none "CMPSL" []] ∧
    instructionLines ⟨"f", [], []⟩ true "cmpltss qword ptr [rdi], qword ptr [rsi]" =
      .ok [.instruction none "CMPSS" [.address (.based 0 (.general 6) none),
        .address (.based 0 (.general 7) none), .immediate 1]] := by
  decide +kernel

end AsmTranslit
