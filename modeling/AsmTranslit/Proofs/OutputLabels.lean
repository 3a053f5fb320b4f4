import AsmTranslit.GoSource
import AsmTranslit.Proofs.ControlFlow
import AsmTranslit.Proofs.RoutineSpans

/-!
# Labels of the output

The labels of the whole output.  Only bodies define labels, each under its routine's name, and these
names differ, so no label is defined twice.  A branch to a symbol stays in the routine it is in.
-/

namespace AsmTranslit

variable {options : Options} {lines : List String} {source : GoSource} {segment : Segment}
  {routine : RoutineUnit} {routines : List RoutineUnit} {tables : List DataTable}

private theorem map_text_filter_defines? (lines : List GoLine) :
    (lines.filter (·.defines?.isSome)).map GoLine.text = (definitions lines).map (· ++ ":") := by
  induction lines with
  | nil => rfl
  | cons line lines ih =>
    cases line with
    | label name => exact congrArg ((name ++ ":") :: ·) ih
    | _ => exact ih

private theorem definitions_datumLines (symbol : String) (offset : Nat) (items : List DataItem) :
    definitions (datumLines symbol offset items) = [] := by
  induction items generalizing offset with
  | nil => rfl
  | cons item items ih => exact ih _

private theorem definitions_table (table : DataTable) : definitions table.lines = [] := by
  rw [DataTable.lines, definitions_append, definitions_datumLines]
  rfl

namespace RoutineUnit

private theorem definitions_tableLines (written : List Nat) (routine : RoutineUnit) :
    definitions (routine.tableLines written) = [] := by
  rw [tableLines]
  induction routine.correlation.tables.filter _ with
  | nil => rfl
  | cons entry entries ih =>
    rw [List.flatMap_cons, definitions_append, ih, definitions_append, definitions_table]
    rfl

private theorem definitions_routineLines (routine : RoutineUnit) :
    definitions routine.routineLines = definitions routine.body.lines := by
  have entry : definitions [.entry routine.segment.name, .blank] = [] := rfl
  have closing : definitions [.instruction none "VZEROUPPER" [], .instruction none "RET" []] = [] :=
    rfl
  rw [routineLines, definitions_append, definitions_append, entry, closing, List.nil_append,
    List.append_nil]

end RoutineUnit

theorem filterMap_intercalate {β : Type} {f : GoLine → Option β} (blank : f .blank = none)
    (blocks : List (List GoLine)) :
    (List.intercalate [.blank, .blank] blocks).filterMap f = blocks.flatMap (List.filterMap f) := by
  induction blocks with
  | nil => rfl
  | cons block blocks ih =>
    cases blocks with
    | nil => simp
    | cons next rest =>
      have separator : [GoLine.blank, .blank].filterMap f = [] := by simp [blank]
      rw [List.intercalate_cons_cons, List.filterMap_append, List.filterMap_append, separator, ih,
        List.append_nil]
      rfl

private theorem definitions_routineBlocks (written : List Nat) (routines : List RoutineUnit) :
    definitions (List.intercalate [.blank, .blank] (routineBlocks written routines)) =
      routines.flatMap fun routine => definitions routine.body.lines := by
  rw [definitions, filterMap_intercalate rfl]
  induction routines generalizing written with
  | nil => rfl
  | cons routine routines ih =>
    have block : definitions (routine.tableLines written ++ routine.routineLines) =
        definitions routine.body.lines := by
      rw [definitions_append, routine.definitions_tableLines, routine.definitions_routineLines,
        List.nil_append]
    rw [routineBlocks, List.flatMap_cons, List.flatMap_cons, ← block, ih]
    rfl

private theorem exists_append_of_mem_intercalate {α : Type} {separator block : List α}
    {blocks : List (List α)} (member : block ∈ blocks) :
    ∃ front back, separator.intercalate blocks = front ++ block ++ back := by
  induction blocks with
  | nil => simp at member
  | cons first rest ih =>
    obtain rfl | later := List.mem_cons.1 member
    · cases rest with
      | nil => exact ⟨[], [], by simp⟩
      | cons next rest =>
        refine ⟨[], separator ++ separator.intercalate (next :: rest), ?_⟩
        rw [List.intercalate_cons_cons, List.nil_append, List.append_assoc]
    · obtain ⟨front, back, split⟩ := ih later
      refine ⟨first ++ separator ++ front, back, ?_⟩
      rw [List.intercalate_cons_of_ne_nil (List.ne_nil_of_mem later), split]
      simp only [List.append_assoc]

private theorem exists_mem_routineBlocks (written : List Nat) (member : routine ∈ routines) :
    ∃ before, routine.tableLines before ++ routine.routineLines ∈ routineBlocks written routines := by
  induction routines generalizing written with
  | nil => simp at member
  | cons first rest ih =>
    obtain rfl | later := List.mem_cons.1 member
    · exact ⟨written, List.mem_cons_self⟩
    · obtain ⟨before, inBlocks⟩ := ih (written ++ first.tablePlaces) later
      exact ⟨before, List.mem_cons_of_mem _ inBlocks⟩

/-- Every routine stands in the output from its entry to its closing return. -/
theorem exists_append_routineLines (options : Options) (member : routine ∈ routines) :
    ∃ front back, (GoSource.ofRoutines options routines).lines =
      front ++ routine.routineLines ++ back := by
  obtain ⟨before, inBlocks⟩ := exists_mem_routineBlocks [] member
  obtain ⟨front, back, split⟩ := exists_append_of_mem_intercalate inBlocks
  refine ⟨front ++ routine.tableLines before, back, ?_⟩
  rw [GoSource.ofRoutines, split]
  simp only [List.append_assoc]

/-- What is written for a routine is made from its segment and from the tables associated with it. -/
structure RoutineUnit.Translated (options : Options) (lines : List String) (tables : List DataTable)
    (routine : RoutineUnit) : Prop where
  correlation : routine.correlation = correlate options.policy routine.segment lines tables
  body : RoutineBody.ofSegment routine.segment lines (routine.correlation.tables.map Prod.fst) =
    .ok routine.body

private theorem RoutineUnit.of_mapM {segments : List Segment}
    (h : segments.mapM (RoutineUnit.ofSegment options lines tables) = .ok routines) :
    routines.map RoutineUnit.segment = segments ∧
      ∀ routine ∈ routines, routine.Translated options lines tables := by
  rw [mapM_eq_ok_iff] at h
  induction h with
  | nil => simp
  | @cons segment routine segments routines first _ ih =>
    obtain ⟨body, translated, last⟩ := bind_eq_ok_iff.1 first
    obtain rfl := Except.ok.inj last
    refine ⟨by rw [List.map_cons, ih.1], ?_⟩
    intro routine member
    obtain rfl | later := List.mem_cons.1 member
    · exact ⟨rfl, translated⟩
    · exact ih.2 routine later

/-- A body defines labels under its routine's name alone. -/
theorem RoutineBody.exists_localLabel_of_mem {body : RoutineBody} {name : String}
    (h : RoutineBody.ofSegment segment lines tables = .ok body)
    (member : name ∈ definitions body.lines) : ∃ n, name = localLabel segment.name n := by
  rw [definitions_lines h] at member
  obtain ⟨label, -, known⟩ := List.mem_filterMap.1 member
  rw [lookup_renameLabels, Option.ite_none_right_eq_some] at known
  exact ⟨_, (Option.some.inj known.2).symm⟩

namespace GoSource

theorem exists_routines (h : GoSource.ofLines options lines = .ok source) :
    ∃ segmentation routines, Segmentation.ofLines lines = .ok segmentation ∧
      routines.map RoutineUnit.segment = segmentation.segments ∧
      (∀ routine ∈ routines, routine.Translated options lines segmentation.tables) ∧
      source = ofRoutines options routines := by
  rw [ofLines] at h
  obtain ⟨segmentation, segmented, h⟩ := bind_eq_ok_iff.1 h
  obtain ⟨routines, run, last⟩ := bind_eq_ok_iff.1 h
  obtain ⟨segments, translated⟩ := RoutineUnit.of_mapM run
  exact ⟨segmentation, routines, segmented, segments, translated, (Except.ok.inj last).symm⟩

theorem nodup_definitions (h : GoSource.ofLines options lines = .ok source) :
    (definitions source.lines).Nodup := by
  obtain ⟨segmentation, routines, segmented, segments, translated, rfl⟩ := exists_routines h
  have names : (routines.map fun routine => routine.segment.name).Nodup := by
    have distinct := Segmentation.nodup_segment_names segmented
    rwa [← segments, List.map_map] at distinct
  rw [ofRoutines, definitions_routineBlocks, List.nodup_flatMap]
  constructor
  · intro routine member
    exact RoutineBody.nodup_definitions (translated routine member).body
  · apply (List.pairwise_map.1 names).imp_of_mem
    intro first second firstMember secondMember differ label inFirst inSecond
    obtain ⟨m, rfl⟩ :=
      RoutineBody.exists_localLabel_of_mem (translated first firstMember).body inFirst
    obtain ⟨n, same⟩ :=
      RoutineBody.exists_localLabel_of_mem (translated second secondMember).body inSecond
    exact differ (localLabel_inj.1 same).1

/-- The routine that a line of a listing is in, as it stands in the output: from its entry to the
return that closes it. -/
structure EnclosingRoutine (lines : List String) (output : List GoLine) (i : Nat) (segment : Segment)
    (body : RoutineBody) (front back : List GoLine) : Prop where
  isRoutine : segment ∈ routineSpans (declaredRoutines lines) lines
  contains : segment.Contains i
  translated : ∃ tables, RoutineBody.ofSegment segment lines tables = .ok body
  split : output = front ++ ([.entry segment.name, .blank] ++ body.lines ++
    [.instruction none "VZEROUPPER" [], .instruction none "RET" []]) ++ back

private theorem EnclosingRoutine.getElem?_body {i : Nat} {line : String} {output front back : List GoLine}
    {body : RoutineBody} (h : EnclosingRoutine lines output i segment body front back)
    (here : lines[i]? = some line) : (segment.body lines)[i - segment.start]? = some (line, i) := by
  have bounds := bounds_of_mem_routineSpans h.isRoutine
  obtain ⟨after, before⟩ := h.contains
  have place : segment.start + (i - segment.start) = i := by omega
  have inside : i - segment.start < segment.stop - segment.start := by omega
  rw [Segment.body, if_pos bounds, List.getElem?_zipIdx, List.getElem?_take_of_lt inside,
    List.getElem?_drop, place, here]
  rfl

private theorem EnclosingRoutine.label_notMem {i : Nat} {output front back : List GoLine}
    {body : RoutineBody} {label : String}
    (h : EnclosingRoutine lines output i segment body front back)
    (distinct : (definitions output).Nodup) (inside : GoLine.label label ∈ body.lines) :
    GoLine.label label ∉ front ∧ GoLine.label label ∉ back := by
  rw [← mem_definitions] at inside
  rw [h.split, definitions_append, definitions_append, definitions_append, definitions_append,
    List.nodup_append, List.nodup_append] at distinct
  obtain ⟨⟨-, -, before⟩, -, after⟩ := distinct
  constructor
  · intro outside
    exact before label (mem_definitions.2 outside) label (by simp [inside]) rfl
  · intro outside
    exact after label (by simp [inside]) label (mem_definitions.2 outside) rfl

private theorem exists_enclosingRoutine {i : Nat} {line : String}
    (h : GoSource.ofLines options lines = .ok source) (here : lines[i]? = some line)
    (isInstruction : (instruction? line).isSome) :
    ∃ segment body front back, EnclosingRoutine lines source.lines i segment body front back := by
  obtain ⟨segmentation, routines, segmented, segments, translated, rfl⟩ := exists_routines h
  obtain ⟨segment, isSegment, contains⟩ :=
    Segmentation.exists_segment_of_instruction segmented here isInstruction
  have isRoutine := isSegment
  rw [Segmentation.segments_eq_routineSpans segmented] at isRoutine
  rw [← segments] at isSegment
  obtain ⟨routine, member, rfl⟩ := List.mem_map.1 isSegment
  obtain ⟨front, back, split⟩ := exists_append_routineLines options member
  exact ⟨routine.segment, routine.body, front, back, isRoutine, contains,
    ⟨_, (translated routine member).body⟩, split⟩

/-- Labels never collide, whatever the names of the routines are.  The lines that define labels differ
in their texts, and a branch to a symbol goes to a label that its own routine defines and no other
part of the output does. -/
theorem labels_ofLines (h : GoSource.ofLines options lines = .ok source) :
    ((source.lines.filter (·.defines?.isSome)).map GoLine.text).Nodup ∧
    ∀ i line text operand symbol addend, lines[i]? = some line → instruction? line = some text →
      IsBranch (Statement.ofText text).mnemonic → operand ∈ (Statement.ofText text).operands →
      readOperand operand = .ok (.symbol symbol addend) →
      ∃ segment body front back, EnclosingRoutine lines source.lines i segment body front back ∧
        ∃ target modifier go,
          body.groups[i - segment.start]? = some [GoLine.instruction modifier go [.label target]] ∧
          GoLine.label target ∈ body.lines ∧ GoLine.label target ∉ front ∧
          GoLine.label target ∉ back := by
  have distinct := nodup_definitions h
  constructor
  · rw [map_text_filter_defines?]
    apply distinct.map
    intro first second same
    exact (String.append_left_inj ":").1 same
  · intro i line text operand symbol addend here read isBranch member reads
    obtain ⟨segment, body, front, back, routine⟩ :=
      exists_enclosingRoutine h here (by simp [read])
    obtain ⟨tables, translated⟩ := routine.translated
    refine ⟨segment, body, front, back, routine, ?_⟩
    obtain ⟨target, modifier, go, j, definition, emitted, -, -, defined, -⟩ :=
      RoutineBody.branchesTo_of_symbol translated (routine.getElem?_body here) read isBranch member
        reads
    have inLines : GoLine.label target ∈ body.lines :=
      List.mem_flatten.2 ⟨_, List.mem_of_getElem? defined, List.mem_singleton_self _⟩
    exact ⟨target, modifier, go, emitted, inLines, routine.label_notMem distinct inLines⟩

/-- A routine that has the name of another one's label, and the same local label in both. -/
theorem labels_ofLines_sharedName :
    GoSource.ofLines {} [".globl f", ".globl f_L0", "f:", ".L:", "jmp .L", "ret", "f_L0:", ".L:",
        "jmp .L", "ret"] =
      .ok ⟨[.entry "f", .blank, .label "f_L0", .instruction none "JMP" [.label "f_L0"],
        .instruction none "VZEROUPPER" [], .instruction none "RET" [], .blank, .blank,
        .entry "f_L0", .blank, .label "f_L0_L0", .instruction none "JMP" [.label "f_L0_L0"],
        .instruction none "VZEROUPPER" [], .instruction none "RET" []], [], none⟩ ∧
    ["f_L0:", "f_L0_L0:"].Nodup ∧
    ∃ (segment : Segment) (body : RoutineBody) (target : String) (modifier : Option GoPrefix)
      (go : String), segment.Contains 8 ∧
        body.groups[8 - segment.start]? = some [GoLine.instruction modifier go [.label target]] ∧
        GoLine.label target ∈ body.lines := by
  have h : GoSource.ofLines {} [".globl f", ".globl f_L0", "f:", ".L:", "jmp .L", "ret", "f_L0:",
        ".L:", "jmp .L", "ret"] =
      .ok ⟨[.entry "f", .blank, .label "f_L0", .instruction none "JMP" [.label "f_L0"],
        .instruction none "VZEROUPPER" [], .instruction none "RET" [], .blank, .blank,
        .entry "f_L0", .blank, .label "f_L0_L0", .instruction none "JMP" [.label "f_L0_L0"],
        .instruction none "VZEROUPPER" [], .instruction none "RET" []], [], none⟩ := by
    decide +kernel
  obtain ⟨distinct, branches⟩ := labels_ofLines h
  have isBranch : IsBranch (Statement.ofText "jmp .L").mnemonic := by
    have jump : (Statement.ofText "jmp .L").mnemonic = "jmp" := by decide +kernel
    exact .inl (by simp [jump])
  obtain ⟨segment, body, _, _, routine, target, modifier, go, emitted, inside, -⟩ :=
    branches 8 "jmp .L" "jmp .L" ".L" ".L" 0 rfl (by decide +kernel) isBranch (by decide +kernel)
      (by decide +kernel)
  exact ⟨h, distinct, segment, body, target, modifier, go, routine.contains, emitted, inside⟩

end GoSource

end AsmTranslit
