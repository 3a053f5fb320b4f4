import AsmTranslit.Proofs.InstructionLines
import AsmTranslit.Proofs.LocalLabels

/-!
# Control flow

What the lines of a body become, in order.  Labels that a branch names are renamed and the others
dropped, instructions keep their places, and only a return at the end is left out.  The first look at
a body and the translation agree on what a branch is, so every branch to a symbol goes to the one
place where the symbol's label stands.
-/

namespace AsmTranslit

def IsBranchOperand (source : List (String × Nat)) (operand : String) : Prop :=
  ∃ line ∈ source, ∃ text, instruction? line.1 = some text ∧
    IsBranch (Statement.ofText text).mnemonic ∧ operand ∈ (Statement.ofText text).operands

variable {source before after : List (String × Nat)} {line : String × Nat}
  {routine operand text name : String} {tables : List DataTable} {group : List GoLine}

private theorem mem_branchOperands : operand ∈ branchOperands text ↔
    IsBranch (Statement.ofText text).mnemonic ∧ operand ∈ (Statement.ofText text).operands := by
  fun_cases branchOperands text with
  | case1 statement rule found isBranch =>
    have jumps : IsBranch statement.mnemonic := (controlOf_find? found).branch.1 isBranch
    exact ⟨fun member => ⟨jumps, member⟩, fun h => h.2⟩
  | case2 statement rule found noBranch =>
    constructor
    · simp
    · exact fun h => absurd ((controlOf_find? found).branch.2 h.1) noBranch
  | case3 statement none =>
    constructor
    · simp
    · intro h
      have known : (Rule.find? statement.mnemonic false).isSome := h.1.isSome_find?
      simp [none] at known

theorem mem_branchTexts : operand ∈ branchTexts source ↔ IsBranchOperand source operand := by
  simp only [branchTexts, List.mem_flatMap, List.mem_filterMap, mem_branchOperands, IsBranchOperand]
  constructor
  · rintro ⟨text, ⟨line, member, read⟩, h⟩
    exact ⟨line, member, text, read, h⟩
  · rintro ⟨line, member, text, read, h⟩
    exact ⟨text, ⟨line, member, read⟩, h⟩

instance (source : List (String × Nat)) (operand : String) :
    Decidable (IsBranchOperand source operand) :=
  decidable_of_iff _ mem_branchTexts

/-- The labels among some lines that the branches of a body name, in order. -/
def namedLabels (source lines : List (String × Nat)) : List String :=
  (labelsOf lines).filter (IsBranchOperand source ·)

/-- The Go lines of a line of a body, by the lines before and after it. -/
inductive ControlGroup (routine : String) (source before after : List (String × Nat))
    (text : String) : List GoLine → Prop
  | label {name : String} (read : label? text = some name) (named : IsBranchOperand source name) :
    ControlGroup routine source before after text
      [.label (routine ++ "_L" ++ toString (namedLabels source before).length)]
  | unnamed {name : String} (read : label? text = some name)
    (unnamed : ¬IsBranchOperand source name) : ControlGroup routine source before after text []
  | single {instruction : String} {modifier : Option GoPrefix} {go : String}
    {operands : List GoOperand} (read : instruction? text = some instruction)
    (noReturn : (Statement.ofText instruction).mnemonic ≠ "ret") :
    ControlGroup routine source before after text [.instruction modifier go operands]
  | lastReturn {instruction : String} (read : instruction? text = some instruction)
    (isReturn : (Statement.ofText instruction).mnemonic = "ret")
    (last : ∀ line ∈ after, instruction? line.1 = none) :
    ControlGroup routine source before after text []
  | earlyReturn {instruction : String} {modifier : Option GoPrefix}
    (read : instruction? text = some instruction)
    (isReturn : (Statement.ofText instruction).mnemonic = "ret")
    (early : ∃ line ∈ after, (instruction? line.1).isSome) :
    ControlGroup routine source before after text
      [.instruction none "VZEROUPPER" [], .instruction modifier "RET" []]
  | other (noLabel : label? text = none) (noInstruction : instruction? text = none) :
    ControlGroup routine source before after text []

theorem lookup_namedLabels (routine : String) (source : List (String × Nat)) (name : String) :
    (renameLabels routine (labelsOf source) (branchTexts source)).lookup name =
      if name ∈ namedLabels source source then
        some (localLabel routine ((namedLabels source source).idxOf name))
      else none := by
  have same : (labelsOf source).filter (branchTexts source).contains = namedLabels source source := by
    apply List.filter_congr
    intro name _
    rw [List.contains_eq_mem, decide_eq_decide, mem_branchTexts]
  rw [lookup_renameLabels, same]

/-- The number of a label counts the labels before it. -/
theorem idxOf_namedLabels (distinct : (labelsOf (before ++ line :: after)).Nodup)
    (read : label? line.1 = some name) (named : IsBranchOperand source name) :
    (namedLabels source (before ++ line :: after)).idxOf name =
      (namedLabels source before).length := by
  have split : labelsOf (before ++ line :: after) = labelsOf before ++ name :: labelsOf after := by
    simp [labelsOf, read]
  have first : name ∉ namedLabels source before := by
    intro member
    rw [split, List.nodup_append] at distinct
    exact distinct.2.2 name (List.mem_of_mem_filter member) name List.mem_cons_self rfl
  have kept : namedLabels source (before ++ line :: after) =
      namedLabels source before ++ name :: namedLabels source after := by
    simp [namedLabels, split, named]
  rw [kept, List.idxOf_append_of_notMem first, List.idxOf_cons_self, Nat.add_zero]

private theorem lastInstruction?_eq_some_iff
    (increasing : (before ++ line :: after).Pairwise fun a b => a.2 < b.2)
    (read : instruction? line.1 = some text) :
    lastInstruction? (before ++ line :: after) = some line.2 ↔
      ∀ other ∈ after, instruction? other.1 = none := by
  have later : ∀ other ∈ after, line.2 < other.2 := by
    rw [List.pairwise_append, List.pairwise_cons] at increasing
    exact increasing.2.1.1
  have kept : ((before ++ line :: after).filter fun line => (instruction? line.1).isSome).getLast? =
      some (((after.filter fun line => (instruction? line.1).isSome).getLast?).getD line) := by
    simp [read, List.getLast?_cons]
  rw [lastInstruction?, kept, Option.map_some, Option.some.injEq]
  cases last : (after.filter fun line => (instruction? line.1).isSome).getLast? with
  | none =>
    have none := List.getLast?_eq_none_iff.1 last
    simpa using none
  | some other =>
    obtain ⟨member, isInstruction⟩ := List.mem_filter.1 (List.mem_of_getLast? last)
    have past := later other member
    constructor
    · intro same
      simp only [Option.getD_some] at same
      omega
    · intro noInstruction
      simp [noInstruction other member] at isInstruction

private theorem Segment.exists_body_eq_zipIdx (segment : Segment) (lines : List String) :
    ∃ texts : List String, segment.body lines = texts.zipIdx segment.start := by
  rw [Segment.body]
  split
  · exact ⟨_, rfl⟩
  · exact ⟨[], rfl⟩

private theorem Segment.pairwise_body (segment : Segment) (lines : List String) :
    (segment.body lines).Pairwise fun a b => a.2 < b.2 := by
  obtain ⟨texts, same⟩ := segment.exists_body_eq_zipIdx lines
  rw [same]
  exact pairwise_zipIdx texts _

section LineGroup

variable {context : BodyContext} {last : Option Nat}

theorem lineGroup_label (h : lineGroup context last line = .ok group)
    (read : label? line.1 = some name) : group = (context.labels.lookup name).toList.map .label := by
  have isLabel := label?_eq_some_iff.1 read
  simp only [lineGroup, isLabel] at h
  exact (Except.ok.inj h).symm

theorem lineGroup_instruction (h : lineGroup context last line = .ok group)
    (read : instruction? line.1 = some text) :
    instructionLines context (last == some line.2) text = .ok group := by
  have isInstruction := instruction?_eq_some_iff.1 read
  simp only [lineGroup, isInstruction] at h
  exact mapError_eq_ok_iff.1 h

theorem lineGroup_other (h : lineGroup context last line = .ok group)
    (noLabel : label? line.1 = none) (noInstruction : instruction? line.1 = none) : group = [] := by
  simp only [lineGroup] at h
  split at h
  case h_1 => simp at h
  case h_2 => exact (Except.ok.inj h).symm
  case h_3 name read => simp [label?, read] at noLabel
  case h_4 => exact (Except.ok.inj h).symm
  case h_5 => exact (Except.ok.inj h).symm
  case h_6 => simp at h
  case h_7 text read => simp [instruction?, read] at noInstruction

private theorem definitions_lineGroup (h : lineGroup context last line = .ok group) :
    definitions group = ((label? line.1).bind (context.labels.lookup ·)).toList := by
  cases read : label? line.1 with
  | some name =>
    rw [lineGroup_label h read, definitions_map_label, Option.bind_some]
  | none =>
    cases isInstruction : instruction? line.1 with
    | none =>
      obtain rfl := lineGroup_other h read isInstruction
      rfl
    | some text =>
      have lines := lineGroup_instruction h isInstruction
      by_cases isReturn : (Statement.ofText text).mnemonic = "ret"
      · obtain ⟨modifier, rfl⟩ := instructionLines_ret lines isReturn
        split <;> rfl
      · obtain ⟨modifier, go, operands, rfl⟩ := instructionLines_of_ne_ret lines isReturn
        rfl

private theorem definitions_flatten {groups : List (List GoLine)}
    (h : source.mapM (lineGroup context last) = .ok groups) :
    definitions groups.flatten = (labelsOf source).filterMap (context.labels.lookup ·) := by
  rw [mapM_eq_ok_iff] at h
  induction h with
  | nil => rfl
  | cons first _ ih =>
    rw [List.flatten_cons, definitions_append, ih, definitions_lineGroup first, labelsOf,
      labelsOf, List.filterMap_filterMap, List.filterMap_filterMap, List.filterMap_cons]
    split
    case h_1 none => rw [none, Option.toList_none, List.nil_append]
    case h_2 renamed some => rw [some, Option.toList_some, List.singleton_append]

end LineGroup

private theorem controlGroup_of_lineGroup
    (increasing : (before ++ line :: after).Pairwise fun a b => a.2 < b.2)
    (distinct : (labelsOf (before ++ line :: after)).Nodup)
    (h : lineGroup ⟨routine, tables, renameLabels routine (labelsOf (before ++ line :: after))
      (branchTexts (before ++ line :: after))⟩ (lastInstruction? (before ++ line :: after)) line =
        .ok group) :
    ControlGroup routine (before ++ line :: after) before after line.1 group := by
  cases read : label? line.1 with
  | some name =>
    obtain rfl := lineGroup_label h read
    rw [lookup_namedLabels]
    by_cases named : IsBranchOperand (before ++ line :: after) name
    · have member : name ∈ namedLabels (before ++ line :: after) (before ++ line :: after) := by
        simp [namedLabels, labelsOf, read, named]
      rw [if_pos member, idxOf_namedLabels distinct read named]
      exact .label read named
    · have noMember : name ∉ namedLabels (before ++ line :: after) (before ++ line :: after) := by
        simp [namedLabels, named]
      rw [if_neg noMember]
      exact .unnamed read named
  | none =>
    cases isInstruction : instruction? line.1 with
    | none =>
      obtain rfl := lineGroup_other h read isInstruction
      exact .other read isInstruction
    | some text =>
      have lines := lineGroup_instruction h isInstruction
      by_cases isReturn : (Statement.ofText text).mnemonic = "ret"
      · obtain ⟨modifier, rfl⟩ := instructionLines_ret lines isReturn
        have atEnd := lastInstruction?_eq_some_iff increasing isInstruction
        by_cases last : ∀ other ∈ after, instruction? other.1 = none
        · rw [if_pos (by simpa using atEnd.2 last)]
          exact .lastReturn isInstruction isReturn last
        · rw [if_neg (by simpa using fun same => last (atEnd.1 same))]
          refine .earlyReturn isInstruction isReturn ?_
          simpa [Option.isSome_iff_ne_none] using last
      · obtain ⟨modifier, go, operands, rfl⟩ := instructionLines_of_ne_ret lines isReturn
        exact .single isInstruction isReturn

namespace RoutineBody

variable {segment : Segment} {lines : List String} {body : RoutineBody}

theorem exists_parts (h : ofSegment segment lines tables = .ok body) :
    (labelsOf (segment.body lines)).Nodup ∧
    (segment.body lines).mapM (lineGroup
      ⟨segment.name, tables, renameLabels segment.name (labelsOf (segment.body lines))
        (branchTexts (segment.body lines))⟩ (lastInstruction? (segment.body lines))) =
          .ok body.groups ∧
    body.instructions = ((segment.body lines).filterMap fun line => instruction? line.1).length := by
  rw [ofSegment] at h
  obtain ⟨defined, scanned, h⟩ := bind_eq_ok_iff.1 h
  obtain ⟨rfl, distinct, -⟩ := definedLabels_eq_ok scanned
  obtain ⟨groups, translated, h⟩ := bind_eq_ok_iff.1 h
  obtain rfl := Except.ok.inj h
  exact ⟨distinct, translated, rfl⟩

theorem definitions_lines (h : ofSegment segment lines tables = .ok body) :
    definitions body.lines = (labelsOf (segment.body lines)).filterMap
      ((renameLabels segment.name (labelsOf (segment.body lines))
        (branchTexts (segment.body lines))).lookup ·) :=
  definitions_flatten (exists_parts h).2.1

theorem nodup_definitions (h : ofSegment segment lines tables = .ok body) :
    (definitions body.lines).Nodup := by
  obtain ⟨distinct, -, -⟩ := exists_parts h
  rw [definitions_lines h]
  apply List.Nodup.filterMap _ distinct
  intro first second renamed hfirst hsecond
  exact lookup_renameLabels_inj hfirst hsecond

/-- The line with the given index became a branch to the label of a symbol, and that label is defined
once, where the source has it. -/
def BranchesTo (body : RoutineBody) (source : List (String × Nat)) (i : Nat) (symbol : String) :
    Prop :=
  ∃ (target : String) (modifier : Option GoPrefix) (go : String) (j : Nat)
    (definition : String × Nat),
    body.groups[i]? = some [GoLine.instruction modifier go [.label target]] ∧
    source[j]? = some definition ∧ label? definition.1 = some symbol ∧
    body.groups[j]? = some [GoLine.label target] ∧ body.lines.count (.label target) = 1

theorem branchesTo_of_symbol {i : Nat} {symbol : String} {addend : Int64}
    (h : ofSegment segment lines tables = .ok body) (here : (segment.body lines)[i]? = some line)
    (read : instruction? line.1 = some text) (isBranch : IsBranch (Statement.ofText text).mnemonic)
    (member : operand ∈ (Statement.ofText text).operands)
    (reads : readOperand operand = .ok (.symbol symbol addend)) :
    body.BranchesTo (segment.body lines) i symbol := by
  obtain ⟨-, translated, -⟩ := exists_parts h
  obtain ⟨group, inOutput, translates⟩ := mapM_getElem? translated here
  obtain ⟨target, modifier, go, known, rfl⟩ :=
    instructionLines_branch (lineGroup_instruction translates read) isBranch member reads
  have defined : symbol ∈ labelsOf (segment.body lines) := by
    rw [lookup_namedLabels, Option.ite_none_right_eq_some] at known
    exact List.mem_of_mem_filter known.1
  obtain ⟨definition, inBody, isLabel⟩ := List.mem_filterMap.1 defined
  obtain ⟨j, there⟩ := List.getElem?_of_mem inBody
  obtain ⟨group, inOutput', translates'⟩ := mapM_getElem? translated there
  have single : group = [.label target] := by
    rw [lineGroup_label translates' isLabel, known]
    rfl
  rw [single] at inOutput'
  have emitted : GoLine.label target ∈ body.lines :=
    List.mem_flatten.2 ⟨_, List.mem_of_getElem? inOutput', List.mem_singleton_self _⟩
  refine ⟨target, modifier, go, j, definition, inOutput, there, isLabel, inOutput', ?_⟩
  have once := List.nodup_iff_count_le_one.1 (nodup_definitions h) target
  have some := List.count_pos_iff.2 emitted
  rw [count_label] at some ⊢
  omega

/-- Control flow and the order of instructions are kept.  A body is the groups of its source lines in
order, each as control flow has it; a branch to a symbol goes to the one place where the label of
that name stands; and every instruction is counted. -/
theorem controlFlow_ofSegment (h : ofSegment segment lines tables = .ok body) :
    body.lines = body.groups.flatten ∧ body.groups.length = (segment.body lines).length ∧
    (∀ before (line : String × Nat) after, segment.body lines = before ++ line :: after →
      ∃ group, body.groups[before.length]? = some group ∧
        ControlGroup segment.name (segment.body lines) before after line.1 group) ∧
    (∀ (i : Nat) (line : String × Nat) text operand symbol addend,
      (segment.body lines)[i]? = some line → instruction? line.1 = some text →
      IsBranch (Statement.ofText text).mnemonic → operand ∈ (Statement.ofText text).operands →
      readOperand operand = .ok (.symbol symbol addend) →
      body.BranchesTo (segment.body lines) i symbol) ∧
    body.instructions = (segment.body lines).countP fun line => (instruction? line.1).isSome := by
  obtain ⟨distinct, translated, counted⟩ := exists_parts h
  refine ⟨rfl, ?_, ?_, ?_, ?_⟩
  · exact (mapM_eq_ok_iff.1 translated).length_eq.symm
  · intro before line after split
    have here : (segment.body lines)[before.length]? = some line := by
      rw [split]
      simp
    obtain ⟨group, inOutput, translates⟩ := mapM_getElem? translated here
    refine ⟨group, inOutput, ?_⟩
    have increasing := segment.pairwise_body lines
    rw [split] at increasing distinct translates ⊢
    exact controlGroup_of_lineGroup increasing distinct translates
  · intro i line text operand symbol addend here read isBranch member reads
    exact branchesTo_of_symbol h here read isBranch member reads
  · rw [counted, List.length_filterMap_eq_countP]

/-- Branches in both directions, a label that none names, and a return before the last one. -/
theorem controlFlow_ofSegment_returns :
    ofSegment ⟨"f", 1, 8⟩ ["f:", ".L1:", "je .L2", "ret", ".L3:", ".L2:", "jmp .L1", "ret"] [] =
      .ok ⟨[[.label "f_L0"], [.instruction none "JEQ" [.label "f_L1"]],
        [.instruction none "VZEROUPPER" [], .instruction none "RET" []], [], [.label "f_L1"],
        [.instruction none "JMP" [.label "f_L0"]], []], 4⟩ ∧
    BranchesTo ⟨[[.label "f_L0"], [.instruction none "JEQ" [.label "f_L1"]],
        [.instruction none "VZEROUPPER" [], .instruction none "RET" []], [], [.label "f_L1"],
        [.instruction none "JMP" [.label "f_L0"]], []], 4⟩
      [(".L1:", 1), ("je .L2", 2), ("ret", 3), (".L3:", 4), (".L2:", 5), ("jmp .L1", 6), ("ret", 7)]
      1 ".L2" := by
  have h : ofSegment ⟨"f", 1, 8⟩
      ["f:", ".L1:", "je .L2", "ret", ".L3:", ".L2:", "jmp .L1", "ret"] [] =
      .ok ⟨[[.label "f_L0"], [.instruction none "JEQ" [.label "f_L1"]],
        [.instruction none "VZEROUPPER" [], .instruction none "RET" []], [], [.label "f_L1"],
        [.instruction none "JMP" [.label "f_L0"]], []], 4⟩ := by
    decide +kernel
  have isBranch : IsBranch (Statement.ofText "je .L2").mnemonic :=
    .inr ⟨"e", rfl, by decide +kernel⟩
  obtain ⟨-, -, -, branches, -⟩ := controlFlow_ofSegment h
  exact ⟨h, branches 1 ("je .L2", 2) "je .L2" ".L2" ".L2" 0 rfl (by decide +kernel) isBranch
    (by decide +kernel) (by decide +kernel)⟩

end RoutineBody

end AsmTranslit
