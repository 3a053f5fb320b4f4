import AsmTranslit.Proofs.OutputLabels
import AsmTranslit.Proofs.TableContents
import AsmTranslit.Proofs.TableReferences

/-!
# Tables of the output

The tables of the whole output.  A routine brings the tables associated with it that no routine before
it has brought, and these stand in front of its entry.  So every table is written once, whole, and in
front of all instructions that mention it.
-/

namespace AsmTranslit

variable {options : Options} {lines : List String} {source : GoSource} {tables : List DataTable}
  {routine : RoutineUnit} {routines : List RoutineUnit} {written : List Nat}

namespace GoLine

def isInstruction : GoLine → Bool
  | instruction .. => true
  | _ => false

def tableSymbol? : GoLine → Option String
  | datum symbol _ _ => some symbol
  | global symbol _ => some symbol
  | _ => none

def global? : GoLine → Option String
  | global symbol _ => some symbol
  | _ => none

def routine? : GoLine → Option String
  | entry routine => some routine
  | _ => none

end GoLine

/-- The tables that routines bring, those with places in `written` being there before. -/
def broughtTables (written : List Nat) : List RoutineUnit → List (DataTable × Nat)
  | [] => []
  | routine :: routines =>
    routine.correlation.tables.filter (fun entry => !written.contains entry.2) ++
      broughtTables (written ++ routine.tablePlaces) routines

/-- Routines whose tables are those at their places in a list. -/
def UseTables (tables : List DataTable) (routines : List RoutineUnit) : Prop :=
  ∀ routine ∈ routines, ∀ entry ∈ routine.correlation.tables, entry ∈ tables.zipIdx

theorem UseTables.tail (use : UseTables tables (routine :: routines)) : UseTables tables routines :=
  fun other member => use other (List.mem_cons_of_mem routine member)

private theorem eq_of_mem_zipIdx {first second : DataTable × Nat} (h : first ∈ tables.zipIdx)
    (h' : second ∈ tables.zipIdx) (same : first.2 = second.2) : first = second := by
  rw [List.mem_zipIdx_iff_getElem?] at h h'
  rw [same] at h
  exact Prod.ext (Option.some.inj (h.symm.trans h')) same

/-- A table that a later routine uses, but not the first one, is not written with the first one. -/
theorem UseTables.notMem_places (use : UseTables tables (routine :: routines)) {other : RoutineUnit}
    {entry : DataTable × Nat} (member : other ∈ routines) (uses : entry ∈ other.correlation.tables)
    (notOwn : entry ∉ routine.correlation.tables) (fresh : entry.2 ∉ written) :
    entry.2 ∉ written ++ routine.tablePlaces := by
  intro place
  rcases List.mem_append.1 place with old | inPlaces
  · exact fresh old
  · obtain ⟨brought, uses', same⟩ := List.mem_map.1 inPlaces
    have known := use routine List.mem_cons_self brought uses'
    have known' := use other (List.mem_cons_of_mem _ member) entry uses
    rw [eq_of_mem_zipIdx known known' same] at uses'
    exact notOwn uses'

theorem mem_broughtTables (use : UseTables tables routines) {entry : DataTable × Nat} :
    entry ∈ broughtTables written routines ↔
      entry.2 ∉ written ∧ ∃ routine ∈ routines, entry ∈ routine.correlation.tables := by
  induction routines generalizing written with
  | nil => simp [broughtTables]
  | cons routine routines ih =>
    rw [broughtTables, List.mem_append, List.mem_filter, ih use.tail]
    constructor
    · rintro (⟨own, fresh⟩ | ⟨fresh, other, member, uses⟩)
      · exact ⟨by simpa using fresh, routine, List.mem_cons_self, own⟩
      · exact ⟨fun old => fresh (List.mem_append_left _ old), other,
          List.mem_cons_of_mem _ member, uses⟩
    · rintro ⟨fresh, other, member, uses⟩
      by_cases own : entry ∈ routine.correlation.tables
      · exact .inl ⟨own, by simpa using fresh⟩
      · rcases List.mem_cons.1 member with rfl | later
        · exact absurd uses own
        · exact .inr ⟨use.notMem_places later uses own fresh, other, later, uses⟩

private theorem nodup_broughtTables (use : UseTables tables routines)
    (distinct : ∀ routine ∈ routines, routine.correlation.tables.Nodup) :
    (broughtTables written routines).Nodup := by
  induction routines generalizing written with
  | nil => exact List.nodup_nil
  | cons routine routines ih =>
    rw [broughtTables, List.nodup_append]
    refine ⟨(distinct routine List.mem_cons_self).filter _,
      ih use.tail fun other member => distinct other (List.mem_cons_of_mem _ member), ?_⟩
    rintro entry own other later rfl
    have place : entry.2 ∈ routine.tablePlaces :=
      List.mem_map_of_mem (List.mem_filter.1 own).1
    exact ((mem_broughtTables use.tail).1 later).1 (List.mem_append_right _ place)

/-- A function that finds nothing in code: in blank lines, labels and instructions. -/
structure PassesCode {β : Type} (f : GoLine → Option β) : Prop where
  blank : f .blank = none
  label : ∀ name, f (.label name) = none
  instruction : ∀ modifier mnemonic operands, f (.instruction modifier mnemonic operands) = none

/-- Routines whose bodies are labels and instructions. -/
def HaveCode (routines : List RoutineUnit) : Prop :=
  ∀ routine ∈ routines, ∀ line ∈ routine.body.lines, (∃ name, line = .label name) ∨
    ∃ modifier mnemonic operands, line = .instruction modifier mnemonic operands

theorem HaveCode.tail (code : HaveCode (routine :: routines)) : HaveCode routines :=
  fun other member => code other (List.mem_cons_of_mem routine member)

section PassesCode

variable {β : Type} {f : GoLine → Option β}

theorem PassesCode.routineLines (passes : PassesCode f) (code : HaveCode (routine :: routines)) :
    routine.routineLines.filterMap f = (f (.entry routine.segment.name)).toList := by
  have body : routine.body.lines.filterMap f = [] := by
    rw [List.filterMap_eq_nil_iff]
    intro line member
    rcases code routine List.mem_cons_self line member with ⟨name, rfl⟩ | ⟨_, _, _, rfl⟩
    · exact passes.label name
    · exact passes.instruction _ _ _
  have entry : [GoLine.entry routine.segment.name, .blank].filterMap f =
      (f (.entry routine.segment.name)).toList := by
    cases found : f (.entry routine.segment.name) <;> simp [found, passes.blank]
  have closing : [GoLine.instruction none "VZEROUPPER" [], .instruction none "RET" []].filterMap f =
      [] := by
    simp [passes.instruction]
  rw [RoutineUnit.routineLines, List.filterMap_append, List.filterMap_append, body, entry, closing,
    List.append_nil, List.append_nil]

theorem PassesCode.tableLines (passes : PassesCode f) (written : List Nat) (routine : RoutineUnit) :
    (routine.tableLines written).filterMap f =
      (routine.correlation.tables.filter fun entry => !written.contains entry.2).flatMap
        fun entry => entry.1.lines.filterMap f := by
  rw [RoutineUnit.tableLines, List.filterMap_flatMap]
  simp [passes.blank]

/-- What is found in tables alone is found in the brought tables, one after another. -/
theorem PassesCode.filterMap_of_tables (passes : PassesCode f) (noEntry : ∀ name, f (.entry name) = none)
    (code : HaveCode routines) :
    (List.intercalate [.blank, .blank] (routineBlocks written routines)).filterMap f =
      (broughtTables written routines).flatMap fun entry => entry.1.lines.filterMap f := by
  rw [filterMap_intercalate passes.blank]
  induction routines generalizing written with
  | nil => rfl
  | cons routine routines ih =>
    rw [routineBlocks, List.flatMap_cons, ih code.tail, List.filterMap_append,
      passes.tableLines written, passes.routineLines code, noEntry, Option.toList_none,
      List.append_nil, broughtTables, List.flatMap_append]

/-- What is found in entries alone is found in the routines' entries, in order. -/
theorem PassesCode.filterMap_of_entries (passes : PassesCode f)
    (noTable : ∀ table : DataTable, table.lines.filterMap f = []) (code : HaveCode routines) :
    (List.intercalate [.blank, .blank] (routineBlocks written routines)).filterMap f =
      routines.filterMap fun routine => f (.entry routine.segment.name) := by
  rw [filterMap_intercalate passes.blank]
  induction routines generalizing written with
  | nil => rfl
  | cons routine routines ih =>
    have none : (routine.tableLines written).filterMap f = [] := by
      rw [passes.tableLines written]
      simp [noTable]
    rw [routineBlocks, List.flatMap_cons, ih code.tail, List.filterMap_append, none, List.nil_append,
      passes.routineLines code]
    cases found : f (.entry routine.segment.name) <;> simp [found]

end PassesCode

theorem exists_append_of_notMem {α : Type} {xs ys before after : List α} {x : α}
    (h : xs ++ ys = before ++ x :: after) (notMem : x ∉ xs) :
    ∃ rest, before = xs ++ rest ∧ ys = rest ++ x :: after := by
  rcases List.append_eq_append_iff.1 h with ⟨rest, rfl, rfl⟩ | ⟨rest, rfl, split⟩
  · exact ⟨rest, rfl, rfl⟩
  · cases rest with
    | nil => exact ⟨[], by simp, by simpa using split.symm⟩
    | cons first others =>
      obtain ⟨rfl, -⟩ := List.cons.inj split
      exact absurd (by simp) notMem

private theorem RoutineUnit.exists_append_tableLines {entry : DataTable × Nat}
    (uses : entry ∈ routine.correlation.tables) (fresh : entry.2 ∉ written) :
    ∃ front back, routine.tableLines written = front ++ entry.1.lines ++ back := by
  have kept : entry ∈ routine.correlation.tables.filter fun entry => !written.contains entry.2 :=
    List.mem_filter.2 ⟨uses, by simpa using fresh⟩
  obtain ⟨before, after, split⟩ := List.append_of_mem kept
  refine ⟨before.flatMap fun entry => entry.1.lines ++ [.blank],
    .blank :: after.flatMap fun entry => entry.1.lines ++ [.blank], ?_⟩
  rw [RoutineUnit.tableLines, split, List.flatMap_append, List.flatMap_cons]
  simp only [List.append_assoc, List.singleton_append]

private theorem tableSymbol?_of_mem_datumLines {symbol : String} {offset : Nat} {items : List DataItem}
    {line : GoLine} (member : line ∈ datumLines symbol offset items) :
    line.tableSymbol? = some symbol := by
  induction items generalizing offset with
  | nil => simp [datumLines] at member
  | cons item items ih =>
    rcases List.mem_cons.1 member with rfl | later
    · rfl
    · exact ih later

theorem tableSymbol?_of_mem_lines {table : DataTable} {line : GoLine} (member : line ∈ table.lines) :
    line.tableSymbol? = some table.symbol := by
  rcases List.mem_append.1 member with datum | last
  · exact tableSymbol?_of_mem_datumLines datum
  · obtain rfl := List.mem_singleton.1 last
    rfl

theorem eq_blank_or_of_mem_tableLines {line : GoLine} (member : line ∈ routine.tableLines written) :
    line = .blank ∨ ∃ table : DataTable, line.tableSymbol? = some table.symbol := by
  obtain ⟨entry, -, inEntry⟩ := List.mem_flatMap.1 member
  rcases List.mem_append.1 inEntry with inTable | blank
  · exact .inr ⟨_, tableSymbol?_of_mem_lines inTable⟩
  · exact .inl (List.mem_singleton.1 blank)

theorem intercalate_cons {α : Type} (separator block : List α) (blocks : List (List α)) :
    separator.intercalate (block :: blocks) =
      block ++ if blocks = [] then [] else separator ++ separator.intercalate blocks := by
  cases blocks with
  | nil => simp
  | cons next rest => simp [List.intercalate_cons_cons]

/-- An instruction of the output is in a routine, all of whose tables stand in front of it. -/
theorem exists_routine_of_instruction (use : UseTables tables routines) {line : GoLine}
    {before after : List GoLine} (isInstruction : line.isInstruction)
    (split : List.intercalate [.blank, .blank] (routineBlocks written routines) =
      before ++ line :: after) :
    ∃ routine ∈ routines, line ∈ routine.routineLines ∧
      ∀ entry ∈ routine.correlation.tables, entry.2 ∉ written →
        ∃ front back, before = front ++ entry.1.lines ++ back := by
  induction routines generalizing written before with
  | nil => simp [routineBlocks] at split
  | cons routine routines ih =>
    rw [routineBlocks, intercalate_cons, List.append_assoc] at split
    have notInTables : line ∉ routine.tableLines written := by
      intro member
      rcases eq_blank_or_of_mem_tableLines member with rfl | ⟨table, ofTable⟩
      · cases isInstruction
      · cases line with
        | instruction => cases ofTable
        | _ => cases isInstruction
    obtain ⟨behindTables, rfl, inRoutine⟩ := exists_append_of_notMem split notInTables
    have own {entry : DataTable × Nat} (uses : entry ∈ routine.correlation.tables)
        (fresh : entry.2 ∉ written) (rest : List GoLine) :
        ∃ front back, routine.tableLines written ++ rest = front ++ entry.1.lines ++ back := by
      obtain ⟨front, back, inFront⟩ := RoutineUnit.exists_append_tableLines uses fresh
      exact ⟨front, back ++ rest, by rw [inFront, List.append_assoc]⟩
    -- tables and blank lines hold no instruction, so it is in this routine or in a later block
    by_cases here : line ∈ routine.routineLines
    · exact ⟨routine, List.mem_cons_self, here, fun entry uses fresh => own uses fresh _⟩
    · obtain ⟨behindRoutine, rfl, inRest⟩ := exists_append_of_notMem inRoutine here
      split_ifs at inRest with last
      · simp at inRest
      · have notBlank : line ∉ [GoLine.blank, .blank] := by
          intro member
          obtain rfl : line = .blank := by simpa using member
          cases isInstruction
        obtain ⟨behindBlanks, rfl, inBlocks⟩ := exists_append_of_notMem inRest notBlank
        obtain ⟨other, member, inside, earlier⟩ := ih use.tail inBlocks
        refine ⟨other, List.mem_cons_of_mem _ member, inside, ?_⟩
        intro entry uses fresh
        -- a table that this routine uses as well stands here, and not in front of the later one
        by_cases shared : entry ∈ routine.correlation.tables
        · exact own shared fresh _
        · obtain ⟨front, back, rfl⟩ :=
            earlier entry uses (use.notMem_places member uses shared fresh)
          refine ⟨routine.tableLines written ++ (routine.routineLines ++ ([.blank, .blank] ++ front)),
            back, ?_⟩
          simp only [List.append_assoc]

private theorem count_flatMap_replicate {α β : Type} [DecidableEq β] {key : α → β} (size : α → Nat)
    {xs : List α} {x : α} (distinct : (xs.map key).Nodup) (member : x ∈ xs) :
    (xs.flatMap fun x => List.replicate (size x) (key x)).count (key x) = size x := by
  obtain ⟨before, after, rfl⟩ := List.append_of_mem member
  rw [List.map_append, List.map_cons, List.nodup_append, List.nodup_cons] at distinct
  obtain ⟨-, ⟨notAfter, -⟩, differs⟩ := distinct
  have absent {ys : List α} (notMem : key x ∉ ys.map key) :
      (ys.flatMap fun x => List.replicate (size x) (key x)).count (key x) = 0 := by
    rw [List.count_eq_zero]
    intro found
    obtain ⟨y, inYs, copy⟩ := List.mem_flatMap.1 found
    exact notMem (List.mem_map.2 ⟨y, inYs, (List.eq_of_mem_replicate copy).symm⟩)
  have notBefore : key x ∉ before.map key :=
    fun found => differs _ found _ List.mem_cons_self rfl
  rw [List.flatMap_append, List.flatMap_cons, List.count_append, List.count_append,
    absent notBefore, absent notAfter, List.count_replicate_self]
  omega

theorem filterMap_tableSymbol?_lines (table : DataTable) :
    table.lines.filterMap GoLine.tableSymbol? =
      List.replicate table.lines.length table.symbol := by
  rw [List.filterMap_congr fun line member => tableSymbol?_of_mem_lines member,
    List.filterMap_eq_map', List.map_const']

/-- Where every table is written once, the lines of a table stand together. -/
theorem tableSymbol?_ne_of_split {entries : List (DataTable × Nat)} {entry : DataTable × Nat}
    {output front back : List GoLine}
    (all : output.filterMap GoLine.tableSymbol? =
      entries.flatMap fun entry => entry.1.lines.filterMap GoLine.tableSymbol?)
    (distinct : (entries.map fun entry => entry.1.symbol).Nodup) (member : entry ∈ entries)
    (split : output = front ++ entry.1.lines ++ back) :
    ∀ line ∈ front ++ back, line.tableSymbol? ≠ some entry.1.symbol := by
  have total : (output.filterMap GoLine.tableSymbol?).count entry.1.symbol = entry.1.lines.length := by
    simp only [all, filterMap_tableSymbol?_lines]
    exact count_flatMap_replicate (fun entry => entry.1.lines.length) distinct member
  rw [split, List.filterMap_append, List.filterMap_append, filterMap_tableSymbol?_lines,
    List.count_append, List.count_append, List.count_replicate_self] at total
  intro line inside symbol
  have found : entry.1.symbol ∈ (front ++ back).filterMap GoLine.tableSymbol? :=
    List.mem_filterMap.2 ⟨line, inside, symbol⟩
  have some := List.count_pos_iff.2 found
  rw [List.filterMap_append, List.count_append] at some
  omega

theorem correlate_sublist (policy : TablePolicy) (segment : Segment) (lines : List String)
    (tables : List DataTable) :
    (correlate policy segment lines tables).tables.Sublist tables.zipIdx := by
  have referenced : (referencedTables segment lines tables).Sublist tables.zipIdx :=
    List.filter_sublist
  cases policy with
  | allReferenced => exact referenced
  | firstMatch => exact (List.take_sublist 1 _).trans referenced

private theorem nodup_zipIdx {α : Type} (xs : List α) : xs.zipIdx.Nodup := by
  apply (pairwise_zipIdx xs 0).imp
  rintro first second before rfl
  exact Nat.lt_irrefl _ before

/-- The block of lines that a routine is written as.  It starts with the tables that the routine
brings and ends with the return from it. -/
def IsBlockOf (segment : Segment) (block : List GoLine) : Prop :=
  ∃ tableLines bodyLines, block = tableLines ++ ([.entry segment.name, .blank] ++ bodyLines ++
      [.instruction none "VZEROUPPER" [], .instruction none "RET" []]) ∧
    ∀ line ∈ tableLines ++ bodyLines, line.routine? = none

/-- All lines of a table stand together in front of a place, and no other line in front of the place
or behind it is one of the table's symbol. -/
def HaveTable (table : DataTable) (before after : List GoLine) : Prop :=
  ∃ front back, before = front ++ table.lines ++ back ∧
    ∀ line ∈ front ++ back ++ after, line.tableSymbol? ≠ some table.symbol

namespace GoSource

variable {segmentation : Segmentation}

/-- The routines that an output is made of, with the tables that they may bring. -/
structure RoutinesOf (options : Options) (lines : List String) (segmentation : Segmentation)
    (routines : List RoutineUnit) : Prop where
  segments : routines.map RoutineUnit.segment = segmentation.segments
  translated : ∀ routine ∈ routines, routine.Translated options lines segmentation.tables
  symbols : (segmentation.tables.map DataTable.symbol).Nodup
  named : ∀ routine ∈ routines, Unmarked routine.segment.name

theorem exists_routinesOf (h : GoSource.ofLines options lines = .ok source) :
    ∃ segmentation routines, Segmentation.ofLines lines = .ok segmentation ∧
      RoutinesOf options lines segmentation routines ∧ source = ofRoutines options routines := by
  obtain ⟨segmentation, routines, segmented, segments, translated, rfl⟩ := exists_routines h
  refine ⟨segmentation, routines, segmented,
    ⟨segments, translated, Segmentation.nodup_symbols segmented, ?_⟩, rfl⟩
  intro routine member
  have inSegments : routine.segment ∈ segmentation.segments :=
    segments ▸ List.mem_map_of_mem member
  intro mark
  exact absurd (Segmentation.isSymbolChar_of_mem_name segmented inSegments mark) (by decide)

namespace RoutinesOf

variable (made : RoutinesOf options lines segmentation routines)

include made

theorem useTables : UseTables segmentation.tables routines := by
  intro routine member entry uses
  rw [(made.translated routine member).correlation] at uses
  exact (correlate_sublist _ _ _ _).mem uses

theorem haveCode : HaveCode routines := by
  intro routine member line inBody
  rcases RoutineBody.label_or_known (made.translated routine member).body inBody with
    ⟨name, same⟩ | ⟨_, _, modifier, mnemonic, operands, same, -⟩
  · exact .inl ⟨name, same⟩
  · exact .inr ⟨modifier, mnemonic, operands, same⟩

theorem nodup_symbols :
    ((broughtTables [] routines).map fun entry => entry.1.symbol).Nodup := by
  have places : (segmentation.tables.zipIdx.map fun entry => entry.1.symbol).Nodup := by
    have same := made.symbols
    rw [← List.zipIdx_map_fst 0 segmentation.tables, List.map_map] at same
    exact same
  have distinct : (broughtTables [] routines).Nodup := by
    apply nodup_broughtTables made.useTables
    intro routine member
    rw [(made.translated routine member).correlation]
    exact (nodup_zipIdx _).sublist (correlate_sublist _ _ _ _)
  apply List.Nodup.map_on _ distinct
  intro first firstMember second secondMember same
  obtain ⟨-, routine, member, uses⟩ := (mem_broughtTables made.useTables).1 firstMember
  obtain ⟨-, routine', member', uses'⟩ := (mem_broughtTables made.useTables).1 secondMember
  exact List.inj_on_of_nodup_map places (made.useTables routine member first uses)
    (made.useTables routine' member' second uses') same

theorem mem_tables {table : DataTable} :
    table ∈ (broughtTables [] routines).map Prod.fst ↔ ∃ segment ∈ segmentation.segments,
      table ∈ (correlate options.policy segment lines segmentation.tables).tables.map Prod.fst := by
  have uses (routine : RoutineUnit) (member : routine ∈ routines) :=
    (made.translated routine member).correlation
  simp only [List.mem_map, mem_broughtTables made.useTables, List.not_mem_nil, not_false_eq_true,
    true_and, ← made.segments]
  constructor
  · rintro ⟨entry, ⟨routine, member, used⟩, rfl⟩
    exact ⟨_, ⟨routine, member, rfl⟩, entry, uses routine member ▸ used, rfl⟩
  · rintro ⟨_, ⟨routine, member, rfl⟩, entry, used, rfl⟩
    exact ⟨entry, ⟨routine, member, (uses routine member).symm ▸ used⟩, rfl⟩

theorem filterMap_lines {β : Type} {f : GoLine → Option β} (passes : PassesCode f)
    (noEntry : ∀ name, f (.entry name) = none) :
    (ofRoutines options routines).lines.filterMap f =
      ((broughtTables [] routines).map Prod.fst).flatMap fun table => table.lines.filterMap f := by
  rw [ofRoutines, passes.filterMap_of_tables noEntry made.haveCode, List.flatMap_map]

private theorem exists_uses_of_mem_symbolsIn {line : GoLine} {symbol : String}
    (member : routine ∈ routines)
    (inside : line ∈ routine.routineLines) (isInstruction : line.isInstruction)
    (mentioned : symbol ∈ symbolsIn line.text) :
    ∃ entry ∈ routine.correlation.tables, entry.1.symbol = symbol := by
  rcases List.mem_append.1 inside with front | closing
  · rcases List.mem_append.1 front with entry | inBody
    · rcases List.mem_cons.1 entry with rfl | blank
      · cases isInstruction
      · obtain rfl := List.mem_singleton.1 blank
        cases isInstruction
    · cases line with
      | instruction modifier mnemonic operands =>
        have body := (made.translated routine member).body
        obtain ⟨table, used, same⟩ := RoutineBody.exists_table_of_mem_symbolsIn body
          (made.named routine member) inBody mentioned
        obtain ⟨entry, uses, rfl⟩ := List.mem_map.1 used
        exact ⟨entry, uses, same⟩
      | _ => cases isInstruction
  · have unmarked : symbolsIn line.text = [] := by
      rcases List.mem_cons.1 closing with rfl | last
      · decide +kernel
      · obtain rfl := List.mem_singleton.1 last
        decide +kernel
    simp [unmarked] at mentioned

private theorem haveTable {line : GoLine} {before after : List GoLine} {symbol : String}
    (split : (ofRoutines options routines).lines = before ++ line :: after)
    (isInstruction : line.isInstruction) (mentioned : symbol ∈ symbolsIn line.text) :
    ∃ table ∈ (broughtTables [] routines).map Prod.fst, table.symbol = symbol ∧
      HaveTable table before after := by
  obtain ⟨routine, member, inside, earlier⟩ :=
    exists_routine_of_instruction made.useTables isInstruction split
  obtain ⟨entry, uses, rfl⟩ :=
    made.exists_uses_of_mem_symbolsIn member inside isInstruction mentioned
  have brought : entry ∈ broughtTables [] routines :=
    (mem_broughtTables made.useTables).2 ⟨List.not_mem_nil, routine, member, uses⟩
  obtain ⟨front, back, rfl⟩ := earlier entry uses List.not_mem_nil
  refine ⟨entry.1, List.mem_map_of_mem brought, rfl, front, back, rfl, ?_⟩
  have passes : PassesCode GoLine.tableSymbol? := ⟨rfl, fun _ => rfl, fun _ _ _ => rfl⟩
  have all := made.filterMap_lines passes fun _ => rfl
  rw [List.flatMap_map] at all
  have whole : (ofRoutines options routines).lines =
      front ++ entry.1.lines ++ (back ++ line :: after) := by
    rw [split, List.append_assoc]
  have elsewhere := tableSymbol?_ne_of_split all made.nodup_symbols brought whole
  intro other outside
  apply elsewhere other
  simp only [List.mem_append, List.mem_cons] at outside ⊢
  tauto

theorem filter_tableSymbol? :
    (ofRoutines options routines).lines.filter (·.tableSymbol?.isSome) =
      ((broughtTables [] routines).map Prod.fst).flatMap DataTable.lines := by
  have whole (table : DataTable) : table.lines.filter (·.tableSymbol?.isSome) = table.lines := by
    rw [List.filter_eq_self]
    intro line member
    rw [tableSymbol?_of_mem_lines member, Option.isSome_some]
  have passes : PassesCode (Option.guard fun line : GoLine => line.tableSymbol?.isSome) :=
    ⟨rfl, fun _ => rfl, fun _ _ _ => rfl⟩
  have all := made.filterMap_lines passes fun _ => rfl
  simpa only [List.filterMap_eq_filter, whole] using all

private theorem filterMap_global? :
    (ofRoutines options routines).lines.filterMap GoLine.global? =
      (broughtTables [] routines).map fun entry => entry.1.symbol := by
  have single (table : DataTable) : table.lines.filterMap GoLine.global? = [table.symbol] := by
    have items (offset : Nat) :
        (datumLines table.symbol offset table.items).filterMap GoLine.global? = [] := by
      induction table.items generalizing offset with
      | nil => rfl
      | cons item items ih => exact ih _
    rw [DataTable.lines, List.filterMap_append, items]
    rfl
  have passes : PassesCode GoLine.global? := ⟨rfl, fun _ => rfl, fun _ _ _ => rfl⟩
  rw [made.filterMap_lines passes fun _ => rfl, List.flatMap_map, List.map_eq_flatMap]
  simp only [single]

private theorem filterMap_routine? :
    (ofRoutines options routines).lines.filterMap GoLine.routine? =
      segmentation.segments.map Segment.name := by
  have noTable (table : DataTable) : table.lines.filterMap GoLine.routine? = [] := by
    rw [List.filterMap_eq_nil_iff]
    intro line member
    have symbol := tableSymbol?_of_mem_lines member
    cases line with
    | entry => cases symbol
    | _ => rfl
  have passes : PassesCode GoLine.routine? := ⟨rfl, fun _ => rfl, fun _ _ _ => rfl⟩
  rw [ofRoutines, passes.filterMap_of_entries noTable made.haveCode, ← made.segments,
    List.map_map, ← List.filterMap_eq_map]
  rfl

end RoutinesOf

private theorem map_text_filter_routine? (lines : List GoLine) :
    (lines.filter (·.routine?.isSome)).map GoLine.text =
      (lines.filterMap GoLine.routine?).map fun name => "TEXT ·_" ++ name ++ "(SB), 7, $0" := by
  induction lines with
  | nil => rfl
  | cons line lines ih =>
    cases line with
    | entry name => exact congrArg (("TEXT ·_" ++ name ++ "(SB), 7, $0") :: ·) ih
    | _ => exact ih

private theorem forall₂_isBlockOf (code : HaveCode routines) (written : List Nat) :
    List.Forall₂ IsBlockOf (routines.map RoutineUnit.segment) (routineBlocks written routines) := by
  induction routines generalizing written with
  | nil => exact .nil
  | cons routine routines ih =>
    refine .cons ⟨routine.tableLines written, routine.body.lines, rfl, ?_⟩ (ih code.tail _)
    intro line member
    rcases List.mem_append.1 member with inTables | inBody
    · rcases eq_blank_or_of_mem_tableLines inTables with rfl | ⟨table, ofTable⟩
      · rfl
      · cases line with
        | entry => cases ofTable
        | _ => rfl
    · rcases code routine List.mem_cons_self line inBody with ⟨name, rfl⟩ | ⟨_, _, _, rfl⟩
      · rfl
      · rfl

/-- Every table is written once and before its use.  The symbols that tables end with differ, and the
tables written are those associated with a routine.  Where an instruction mentions a symbol, all lines
of its table stand together in front of it, and no other line is one of that symbol's.  The entries
name the routines, in order, and each routine's block ends with the return from it. -/
theorem tables_ofLines (h : GoSource.ofLines options lines = .ok source) :
    ∃ (segmentation : Segmentation) (emitted : List DataTable) (blocks : List (List GoLine)),
      Segmentation.ofLines lines = .ok segmentation ∧
      (source.lines.filterMap GoLine.global?).Nodup ∧
      source.lines.filter (·.tableSymbol?.isSome) = emitted.flatMap DataTable.lines ∧
      (∀ table, table ∈ emitted ↔ ∃ segment ∈ segmentation.segments,
        table ∈ (correlate options.policy segment lines segmentation.tables).tables.map Prod.fst) ∧
      (∀ before line after symbol, source.lines = before ++ line :: after → line.isInstruction →
        symbol ∈ symbolsIn line.text →
          ∃ table ∈ emitted, table.symbol = symbol ∧ HaveTable table before after) ∧
      (source.lines.filter (·.routine?.isSome)).map GoLine.text =
        segmentation.segments.map (fun segment => "TEXT ·_" ++ segment.name ++ "(SB), 7, $0") ∧
      source.lines = List.intercalate [.blank, .blank] blocks ∧
      List.Forall₂ IsBlockOf segmentation.segments blocks := by
  obtain ⟨segmentation, routines, segmented, made, rfl⟩ := exists_routinesOf h
  refine ⟨segmentation, (broughtTables [] routines).map Prod.fst, routineBlocks [] routines, segmented,
    ?_, ?_, fun table => made.mem_tables, ?_, ?_, rfl, ?_⟩
  · rw [made.filterMap_global?]
    exact made.nodup_symbols
  · exact made.filter_tableSymbol?
  · intro before line after symbol split isInstruction mentioned
    exact made.haveTable split isInstruction mentioned
  · rw [map_text_filter_routine?, made.filterMap_routine?, List.map_map]
    rfl
  · rw [← made.segments]
    exact forall₂_isBlockOf made.haveCode []

/-- Two routines that share a table, which is written in front of the first one and found from the
second. -/
theorem tables_ofLines_shared :
    GoSource.ofLines {} [".rodata", "T:", ".quad 7", ".text", ".globl f", ".globl g", "f:",
        "mov rax, qword ptr [rip + T]", "ret", "g:", "mov rbx, qword ptr [T + 8*rax]", "ret"] =
      .ok ⟨[.datum "T<>" 0 ⟨.eight, 7⟩, .global "T<>" 8, .blank, .entry "f", .blank,
          .instruction none "MOVQ" [.address (.symbolic "T<>" 0 none), .register (.general 0)],
          .instruction none "VZEROUPPER" [], .instruction none "RET" [], .blank, .blank, .entry "g",
          .blank] ++
        .instruction none "MOVQ" [.address (.symbolic "T<>" 0 (some (.general 0, .eight))),
          .register (.general 3)] ::
        [.instruction none "VZEROUPPER" [], .instruction none "RET" []], [], none⟩ ∧
    ∃ table, table.symbol = "T<>" ∧ HaveTable table
        [.datum "T<>" 0 ⟨.eight, 7⟩, .global "T<>" 8, .blank, .entry "f", .blank,
          .instruction none "MOVQ" [.address (.symbolic "T<>" 0 none), .register (.general 0)],
          .instruction none "VZEROUPPER" [], .instruction none "RET" [], .blank, .blank, .entry "g",
          .blank]
        [.instruction none "VZEROUPPER" [], .instruction none "RET" []] := by
  have h : GoSource.ofLines {} [".rodata", "T:", ".quad 7", ".text", ".globl f", ".globl g", "f:",
        "mov rax, qword ptr [rip + T]", "ret", "g:", "mov rbx, qword ptr [T + 8*rax]", "ret"] =
      .ok ⟨[.datum "T<>" 0 ⟨.eight, 7⟩, .global "T<>" 8, .blank, .entry "f", .blank,
          .instruction none "MOVQ" [.address (.symbolic "T<>" 0 none), .register (.general 0)],
          .instruction none "VZEROUPPER" [], .instruction none "RET" [], .blank, .blank, .entry "g",
          .blank] ++
        .instruction none "MOVQ" [.address (.symbolic "T<>" 0 (some (.general 0, .eight))),
          .register (.general 3)] ::
        [.instruction none "VZEROUPPER" [], .instruction none "RET" []], [], none⟩ := by
    decide +kernel
  obtain ⟨-, emitted, -, -, -, -, -, uses, -⟩ := tables_ofLines h
  obtain ⟨table, -, symbol, inFront⟩ := uses _ _ _ "T<>" rfl rfl (by decide +kernel)
  exact ⟨h, table, symbol, inFront⟩

end GoSource

end AsmTranslit
