import AsmTranslit.Proofs.OutputTables
import AsmTranslit.Proofs.PairedRuns

/-!
# Table policies

What is lost when only the first table of a routine counts.  The tables of a routine are then the first
of all that it mentions, and the warning names them all in order.  More tables never spoil a line that
is written with fewer, so an output for the first tables alone has a counterpart for all of them, with
the same code and every table.
-/

namespace AsmTranslit

variable {tables more : List DataTable} {context : BodyContext}

/-- A table that is found stays the one that is found when tables are added behind. -/
theorem paired_renderTableReference (h : tables <+: more) (label : String) (m : MemoryOperand) :
    Paired True Eq (renderTableReference tables label m) (renderTableReference more label m) := by
  simp only [renderTableReference]
  cases found : tables.find? (fun table => table.label == label) with
  | none => exact .of_error trivial _ _
  | some table =>
    rw [h.find?_eq_some found]
    exact .same _

theorem paired_renderMemory (h : tables <+: more) (m : MemoryOperand) :
    Paired True Eq (renderMemory tables m) (renderMemory more m) := by
  simp only [renderMemory]
  cases m.segment with
  | some n => exact .same _
  | none =>
    cases m.symbol with
    | some label => exact paired_renderTableReference h label m
    | none => exact .same _

theorem paired_renderOperand (h : tables <+: more) (operand : Operand) :
    Paired True Eq (renderOperand tables operand) (renderOperand more operand) := by
  cases operand with
  | memory m => exact (paired_renderMemory h m).map fun _ _ same => congrArg GoOperand.address same
  | _ => exact .same _

private theorem paired_renderCount (h : tables <+: more) (operand : Operand) :
    Paired True Eq (renderCount tables operand) (renderCount more operand) := by
  rw [renderCount, renderCount]
  split
  case isTrue => exact .same _
  case isFalse => exact paired_renderOperand h operand

private theorem paired_renderTarget (h : tables <+: more) (labels : List (String × String))
    (operand : Operand) :
    Paired True Eq (renderTarget tables labels operand) (renderTarget more labels operand) := by
  cases operand with
  | memory m => exact (paired_renderMemory h m).map fun _ _ same => congrArg GoOperand.address same
  | _ => exact .same _

private theorem paired_renderShift (h : tables <+: more) (operands : List Operand) :
    Paired True Eq (renderShift tables operands) (renderShift more operands) := by
  fun_induction renderShift tables operands with
  | case1 => exact .same _
  | case2 count =>
    apply (paired_renderCount h count).bind_eq
    intro rendered
    exact .ok rfl
  | case3 operand rest several ih =>
    rw [renderShift]
    · apply (paired_renderOperand h operand).bind_eq
      intro rendered
      apply ih.bind_eq
      intro others
      exact .ok rfl
    · exact several

def BodyContext.withTables (context : BodyContext) (more : List DataTable) : BodyContext :=
  { context with tables := more }

private theorem paired_arrangeInstruction (h : context.tables <+: more) (isLast : Bool) (name : String)
    (rule : Rule) (modifier : Option GoPrefix) (go : String) (operands : List Operand) :
    Paired True Eq (arrangeInstruction context isLast name rule modifier go operands)
      (arrangeInstruction (context.withTables more) isLast name rule modifier go operands) := by
  simp only [arrangeInstruction]
  cases rule.treatment with
  | ret => exact .same _
  | nop => exact .same _
  | stringOp => exact .same _
  | branch =>
    apply (Paired.mapM_eq (paired_renderTarget h context.labels) operands).mapError.bind_eq
    intro targets
    exact .same _
  | plain =>
    apply (Paired.mapM_eq (paired_renderOperand h) operands).mapError.bind_eq
    intro rendered
    exact .ok rfl
  | shift =>
    apply (paired_renderShift h operands).mapError.bind_eq
    intro rendered
    exact .ok rfl

private theorem paired_instructionLines (h : context.tables <+: more) (isLast : Bool) (text : String) :
    Paired True Eq (instructionLines context isLast text)
      (instructionLines (context.withTables more) isLast text) := by
  simp only [instructionLines]
  split
  case h_1 => exact .same _
  case h_2 selection found =>
    -- prefixes, readings and mnemonics have nothing to do with tables
    apply (Paired.same _).bind_eq
    intro modifier
    apply (Paired.same _).bind_eq
    intro operands
    apply (Paired.same _).bind_eq
    intro go
    exact paired_arrangeInstruction h _ _ _ _ _ _

private theorem paired_lineGroup (h : context.tables <+: more) (last : Option Nat) (line : String × Nat) :
    Paired True Eq (lineGroup context last line) (lineGroup (context.withTables more) last line) := by
  simp only [lineGroup]
  split
  case h_7 content _ => exact (paired_instructionLines h _ content).mapError
  all_goals exact .same _

/-- A body that can be written with some tables is written the same with more. -/
theorem RoutineBody.paired_ofSegment (h : tables <+: more) (segment : Segment) (lines : List String) :
    Paired True Eq (ofSegment segment lines tables) (ofSegment segment lines more) := by
  simp only [ofSegment]
  apply (Paired.same _).bind_eq
  intro defined
  apply Paired.bind_eq
  · apply Paired.mapM_eq
    intro line
    exact paired_lineGroup h _ line
  intro groups
  exact .ok rfl

/-- A correlation with the first of some tables alone.  It warns if there are others, and the warning
names all of them in order. -/
structure Correlation.FirstOf (routine : String) (all : List (DataTable × Nat))
    (correlation : Correlation) : Prop where
  tables : correlation.tables = all.head?.toList
  warns : correlation.warning.isSome ↔ 1 < all.length
  names : ∀ warning, correlation.warning = some warning → warning.routine = routine ∧
    warning.honoured :: warning.ignored = all.map fun entry => entry.1.label

private theorem firstOf_correlate (segment : Segment) (lines : List String) (tables : List DataTable) :
    (correlate .firstMatch segment lines tables).FirstOf segment.name
      (correlate .allReferenced segment lines tables).tables := by
  simp only [correlate]
  cases referencedTables segment lines tables with
  | nil => constructor <;> simp [warning?]
  | cons first others =>
    cases others with
    | nil => constructor <;> simp [warning?]
    | cons second rest =>
      refine ⟨rfl, by simp [warning?], ?_⟩
      rintro warning ⟨⟩
      exact ⟨rfl, rfl⟩

theorem correlate_firstMatch_isPrefix (segment : Segment) (lines : List String)
    (tables : List DataTable) :
    (correlate .firstMatch segment lines tables).tables.map Prod.fst <+:
      (correlate .allReferenced segment lines tables).tables.map Prod.fst :=
  (List.take_prefix 1 _).map Prod.fst

def GoLine.isCode : GoLine → Bool
  | entry _ => true
  | label _ => true
  | instruction .. => true
  | _ => false

/-- What a summary says of the code of a routine: its name, its lines and how many instructions it
has. -/
def RoutineSummary.code (summary : RoutineSummary) : String × Nat × Nat × Nat :=
  (summary.name, summary.first, summary.last, summary.instructions)

namespace RoutineUnit

/-- Two routines that differ in their tables at most. -/
structure SameBody (first second : RoutineUnit) : Prop where
  segment : first.segment = second.segment
  body : first.body = second.body

variable {first second : RoutineUnit}

theorem SameBody.routineLines (same : first.SameBody second) :
    first.routineLines = second.routineLines := by
  simp only [RoutineUnit.routineLines, same.segment, same.body]

private theorem SameBody.code_summary (same : first.SameBody second) :
    first.summary.code = second.summary.code := by
  simp only [RoutineSummary.code, summary, same.segment, same.body]

private theorem filter_isCode_tableLines (written : List Nat) (routine : RoutineUnit) :
    (routine.tableLines written).filter GoLine.isCode = [] := by
  rw [List.filter_eq_nil_iff]
  intro line member
  rcases eq_blank_or_of_mem_tableLines member with rfl | ⟨symbol, ofTable⟩
  · simp [GoLine.isCode]
  · cases line <;> simp_all [GoLine.isCode, GoLine.tableSymbol?]

theorem paired_ofSegment (list : Bool) (lines : List String) (tables : List DataTable)
    (segment : Segment) :
    Paired True SameBody (ofSegment ⟨.firstMatch, list⟩ lines tables segment)
      (ofSegment ⟨.allReferenced, list⟩ lines tables segment) := by
  have bodies := RoutineBody.paired_ofSegment
    (correlate_firstMatch_isPrefix segment lines tables) segment lines
  apply bodies.bind
  rintro body _ rfl
  exact .ok ⟨rfl, rfl⟩

end RoutineUnit

private theorem filter_isCode_routineBlocks (written : List Nat) (routines : List RoutineUnit) :
    (List.intercalate [.blank, .blank] (routineBlocks written routines)).filter GoLine.isCode =
      routines.flatMap fun routine => routine.routineLines.filter GoLine.isCode := by
  rw [← List.filterMap_eq_filter, filterMap_intercalate rfl, List.filterMap_eq_filter]
  induction routines generalizing written with
  | nil => rfl
  | cons routine routines ih =>
    rw [routineBlocks, List.flatMap_cons, List.flatMap_cons, ih, List.filter_append,
      routine.filter_isCode_tableLines, List.nil_append]

namespace GoSource

variable {options : Options} {lines : List String} {source : GoSource}

/-- The output holds the lines of these tables, one after another, and no other line of a table. -/
def Emits (source : GoSource) (tables : List DataTable) : Prop :=
  source.lines.filter (·.tableSymbol?.isSome) = tables.flatMap DataTable.lines

theorem ofLines_eq_ok_iff : ofLines options lines = .ok source ↔
    ∃ segmentation routines, Segmentation.ofLines lines = .ok segmentation ∧
      segmentation.segments.mapM (RoutineUnit.ofSegment options lines segmentation.tables) =
        .ok routines ∧
      source = ofRoutines options routines := by
  simp only [ofLines, bind_eq_ok_iff, pure, Except.pure, Except.ok.injEq]
  constructor
  · rintro ⟨segmentation, segmented, routines, run, rfl⟩
    exact ⟨segmentation, routines, segmented, run, rfl⟩
  · rintro ⟨segmentation, routines, segmented, run, rfl⟩
    exact ⟨segmentation, segmented, routines, run, rfl⟩

/-- The tables that an output holds are those associated with its routines. -/
theorem exists_emits (h : ofLines options lines = .ok source) {segmentation : Segmentation}
    (segmented : Segmentation.ofLines lines = .ok segmentation) :
    ∃ emitted, source.Emits emitted ∧ ∀ table, table ∈ emitted ↔
      ∃ segment ∈ segmentation.segments,
        table ∈ (correlate options.policy segment lines segmentation.tables).tables.map Prod.fst := by
  obtain ⟨found, routines, same, made, rfl⟩ := exists_routinesOf h
  obtain rfl := Except.ok.inj (same.symm.trans segmented)
  exact ⟨_, made.filter_tableSymbol?, fun _ => made.mem_tables⟩

theorem filter_isCode_ofRoutines (options : Options) (routines : List RoutineUnit) :
    (ofRoutines options routines).lines.filter GoLine.isCode =
      (routines.map RoutineUnit.routineLines).flatMap (List.filter GoLine.isCode) := by
  rw [ofRoutines, filter_isCode_routineBlocks, List.flatMap_map]

def codeSummaries (source : GoSource) : Option (List (String × Nat × Nat × Nat)) :=
  source.listing.map fun listing => listing.routines.map RoutineSummary.code

theorem codeSummaries_ofRoutines (options : Options) (routines : List RoutineUnit) :
    (ofRoutines options routines).codeSummaries =
      if options.list then some (routines.map fun routine => routine.summary.code) else none := by
  cases h : options.list <;> simp [codeSummaries, ofRoutines, h, Function.comp_def]

/-- Counting the first table of a routine alone is a restriction of counting all of them.  The table
associated with a routine is the first of all that it mentions, with a warning if there are more, which
names all in order.  A listing that can be written so can be written with all tables; the entries,
labels and instructions are the same, in their order, and so are the counts of instructions, and no
table of the listing is lost. -/
theorem firstMatch_restricts :
    (∀ segment lines tables,
      (correlate .allReferenced segment lines tables).tables.Sublist tables.zipIdx ∧
      (correlate .firstMatch segment lines tables).FirstOf segment.name
        (correlate .allReferenced segment lines tables).tables) ∧
    ∀ list lines source, ofLines ⟨.firstMatch, list⟩ lines = .ok source →
      ∃ full, ofLines ⟨.allReferenced, list⟩ lines = .ok full ∧
        full.lines.filter GoLine.isCode = source.lines.filter GoLine.isCode ∧
        full.codeSummaries = source.codeSummaries ∧
        ∃ segmentation emitted more, Segmentation.ofLines lines = .ok segmentation ∧
          source.Emits emitted ∧ full.Emits more ∧ emitted ⊆ more ∧ more ⊆ segmentation.tables := by
  constructor
  · intro segment lines tables
    exact ⟨correlate_sublist _ _ _ _, firstOf_correlate segment lines tables⟩
  · intro list lines source h
    obtain ⟨segmentation, routines, segmented, run, rfl⟩ := ofLines_eq_ok_iff.1 h
    have segments : List.Forall₂ Eq segmentation.segments segmentation.segments :=
      List.forall₂_same.2 fun _ _ => rfl
    have runs : Paired True (List.Forall₂ RoutineUnit.SameBody)
        (segmentation.segments.mapM
          (RoutineUnit.ofSegment ⟨.firstMatch, list⟩ lines segmentation.tables))
        (segmentation.segments.mapM
          (RoutineUnit.ofSegment ⟨.allReferenced, list⟩ lines segmentation.tables)) := by
      apply Paired.mapM segments
      rintro segment _ rfl
      exact RoutineUnit.paired_ofSegment list lines segmentation.tables segment
    obtain ⟨others, run', same⟩ := runs.exists_of_eq_ok run
    have h' : ofLines ⟨.allReferenced, list⟩ lines = .ok (ofRoutines ⟨.allReferenced, list⟩ others) :=
      ofLines_eq_ok_iff.2 ⟨segmentation, others, segmented, run', rfl⟩
    obtain ⟨emitted, emits, isEmitted⟩ := exists_emits h segmented
    obtain ⟨more, emitsMore, isMore⟩ := exists_emits h' segmented
    refine ⟨_, h', ?_, ?_, segmentation, emitted, more, segmented, emits, emitsMore, ?_, ?_⟩
    · rw [filter_isCode_ofRoutines, filter_isCode_ofRoutines,
        map_eq_of_forall₂ same fun _ _ pair => pair.routineLines]
    · rw [codeSummaries_ofRoutines, codeSummaries_ofRoutines,
        map_eq_of_forall₂ same fun _ _ pair => pair.code_summary]
    · intro table member
      obtain ⟨segment, isSegment, used⟩ := (isEmitted table).1 member
      exact (isMore table).2
        ⟨segment, isSegment, (correlate_firstMatch_isPrefix segment lines _).subset used⟩
    · intro table member
      obtain ⟨segment, -, used⟩ := (isMore table).1 member
      obtain ⟨⟨_, place⟩, isUsed, rfl⟩ := List.mem_map.1 used
      exact List.fst_mem_of_mem_zipIdx ((correlate_sublist _ _ _ _).subset isUsed)

/-- The second table is mentioned only where operands are dropped, so its lines are not missed. -/
theorem firstMatch_restricts_nop :
    ofLines ⟨.firstMatch, true⟩ [".rodata", "T:", ".quad 7", "U:", ".quad 8", ".text", ".globl f",
        "f:", "mov rax, qword ptr [rip + T]", "nop dword ptr [rip + U]", "ret"] =
      .ok ⟨[.datum "T<>" 0 ⟨.eight, 7⟩, .global "T<>" 8, .blank, .entry "f", .blank,
          .instruction none "MOVQ" [.address (.symbolic "T<>" 0 none), .register (.general 0)],
          .instruction none "NOP" [], .instruction none "VZEROUPPER" [], .instruction none "RET" []],
        [⟨"f", "T", ["U"]⟩], some ⟨[⟨"f", 9, 11, 3, ["T"]⟩]⟩⟩ ∧
    ∃ full,
      ofLines ⟨.allReferenced, true⟩ [".rodata", "T:", ".quad 7", "U:", ".quad 8", ".text",
        ".globl f", "f:", "mov rax, qword ptr [rip + T]", "nop dword ptr [rip + U]", "ret"] =
          .ok full ∧
      full.lines.filter GoLine.isCode =
        [.entry "f",
          .instruction none "MOVQ" [.address (.symbolic "T<>" 0 none), .register (.general 0)],
          .instruction none "NOP" [], .instruction none "VZEROUPPER" [],
          .instruction none "RET" []] ∧
      full.codeSummaries = some [("f", 9, 11, 3)] := by
  have h : ofLines ⟨.firstMatch, true⟩ [".rodata", "T:", ".quad 7", "U:", ".quad 8", ".text",
        ".globl f", "f:", "mov rax, qword ptr [rip + T]", "nop dword ptr [rip + U]", "ret"] =
      .ok ⟨[.datum "T<>" 0 ⟨.eight, 7⟩, .global "T<>" 8, .blank, .entry "f", .blank,
          .instruction none "MOVQ" [.address (.symbolic "T<>" 0 none), .register (.general 0)],
          .instruction none "NOP" [], .instruction none "VZEROUPPER" [], .instruction none "RET" []],
        [⟨"f", "T", ["U"]⟩], some ⟨[⟨"f", 9, 11, 3, ["T"]⟩]⟩⟩ := by
    decide +kernel
  obtain ⟨full, translated, code, summaries, -⟩ := firstMatch_restricts.2 true _ _ h
  exact ⟨h, full, translated, code, summaries⟩

end GoSource

end AsmTranslit
