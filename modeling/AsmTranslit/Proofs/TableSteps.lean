import AsmTranslit.Proofs.SegmenterStep
import AsmTranslit.RoutineBody

/-!
# Table steps

What one line does to the tables of a segmenter.  Only a read-only section holds tables: there a label
ends the open table and starts the next one, data goes into the open table, and an alignment waits for
either.  A switch of section ends the open table wherever it stands.
-/

namespace AsmTranslit

/-- The name and the arguments of the data directive that a line is, if it is one. -/
def data? (line : String) : Option (String × String) :=
  match classify line with
  | .ok (.directive (.data name arguments)) => some (name, arguments)
  | _ => none

/-- The alignment in bytes that a line asks for in an object format, if it asks for one. -/
def alignment? (format : ObjectFormat) (line : String) : Option Nat :=
  match classify line with
  | .ok (.directive (.align alignment)) => (alignment.resolve format).toOption
  | _ => none

/-- A line that bears on no table: it neither switches the section nor is a label, data or an
alignment. -/
structure PlainLine (format : ObjectFormat) (line : String) : Prop where
  noSwitch : switchKind? line = none
  noLabel : label? line = none
  noData : data? line = none
  noAlignment : alignment? format line = none

variable {format : ObjectFormat} {line : String}

theorem data?_eq_some_iff {name arguments : String} :
    data? line = some (name, arguments) ↔
      classify line = .ok (.directive (.data name arguments)) := by
  fun_cases data? line with
  | case1 _ _ read => simp [read]
  | case2 noData => simpa using noData name arguments

/-! A line is of one kind alone. -/

theorem noSwitch_of_label? {name : String} (h : label? line = some name) :
    switchKind? line = none := by
  simp [switchKind?, label?_eq_some_iff.1 h]

theorem noLabel_of_switchKind? {kind : SectionKind} (h : switchKind? line = some kind) :
    label? line = none := by
  revert h
  fun_cases switchKind? line with
  | case1 kind read => simp [label?, read]
  | case2 => simp

theorem noSwitch_noLabel_of_data? {entry : String × String} (h : data? line = some entry) :
    switchKind? line = none ∧ label? line = none := by
  have read := data?_eq_some_iff.1 h
  simp [switchKind?, label?, read]

theorem noSwitch_noLabel_noData_of_alignment? {bytes : Nat} (h : alignment? format line = some bytes) :
    switchKind? line = none ∧ label? line = none ∧ data? line = none := by
  revert h
  fun_cases alignment? format line with
  | case1 alignment read => simp [switchKind?, label?, data?, read]
  | case2 => simp

private theorem plainLine_blank (read : classify line = .ok .blank) : PlainLine format line := by
  constructor <;> simp [switchKind?, label?, data?, alignment?, read]

private theorem plainLine_instruction {text : String} (read : classify line = .ok (.instruction text)) :
    PlainLine format line := by
  constructor <;> simp [switchKind?, label?, data?, alignment?, read]

/-- Whether a directive may change the tables or the alignment that is pending. -/
def Directive.bearsOnTables : Directive → Bool
  | switch _ => true
  | align _ => true
  | data _ _ => true
  | _ => false

theorem plainLine_directive {d : Directive} (read : classify line = .ok (.directive d))
    (neutral : d.bearsOnTables = false) : PlainLine format line := by
  cases d with
  | switch kind => simp [Directive.bearsOnTables] at neutral
  | align alignment => simp [Directive.bearsOnTables] at neutral
  | data name arguments => simp [Directive.bearsOnTables] at neutral
  | _ => constructor <;> simp [switchKind?, label?, data?, alignment?, read]

namespace SegmenterState

variable {context : ListingContext} {state next : SegmenterState} {index : Nat} {text : String}

def openTable? (state : SegmenterState) : Option DataTable :=
  state.table.map TableBuilder.finish

theorem closeTable_tables (state : SegmenterState) :
    state.closeTable.tables = state.tables ++ state.openTable?.toList := by
  fun_cases closeTable state with
  | case1 closed => simp [openTable?, closed]
  | case2 builder opened => simp [openTable?, opened]

@[simp] theorem closeTable_table (state : SegmenterState) : state.closeTable.table = none := by
  fun_cases closeTable state with
  | case1 closed => exact closed
  | case2 => rfl

theorem closeRoutine_tables (state : SegmenterState) (index : Nat) :
    (state.closeRoutine index).tables = state.tables ∧
    (state.closeRoutine index).table = state.table ∧
    (state.closeRoutine index).pendingAlign = state.pendingAlign := by
  fun_cases closeRoutine state index <;> exact ⟨rfl, rfl, rfl⟩

/-- Where tables are open in read-only sections alone, none is open elsewhere. -/
theorem table_eq_none (inData : state.table.isSome → state.area = .readOnlyData)
    (area : state.area ≠ .readOnlyData) : state.table = none := by
  cases opened : state.table with
  | none => rfl
  | some builder => exact absurd (inData (by simp [opened])) area

theorem closeTable_of_none (h : state.table = none) : state.closeTable = state := by
  simp [closeTable, h]

/-- Two states that agree on the tables and the waiting alignment, whatever their routines are. -/
structure SameTables (state next : SegmenterState) : Prop where
  tables : next.tables = state.tables
  table : next.table = state.table
  pending : next.pendingAlign = state.pendingAlign

theorem SameTables.refl (state : SegmenterState) : SameTables state state :=
  ⟨rfl, rfl, rfl⟩

theorem sameTables_closeRoutine (state : SegmenterState) (index : Nat) :
    SameTables state (state.closeRoutine index) :=
  let ⟨tables, table, pending⟩ := closeRoutine_tables state index
  ⟨tables, table, pending⟩

/-- What a line does to the tables. -/
inductive TableStep (format : ObjectFormat) (line : String) (state next : SegmenterState) : Prop
  | switch {kind : SectionKind} (read : switchKind? line = some kind)
    (tables : next.tables = state.tables ++ state.openTable?.toList) (table : next.table = none)
    (pending : next.pendingAlign = none)
  | outside (area : state.area ≠ .readOnlyData) (noSwitch : switchKind? line = none)
    (tables : next.tables = state.tables) (table : next.table = none)
  | label {name : String} (area : state.area = .readOnlyData) (read : label? line = some name)
    (tables : next.tables = state.tables ++ state.openTable?.toList)
    (table : next.table = some { label := name, align := state.pendingAlign.getD 1 })
    (pending : next.pendingAlign = none)
    (fresh : goSymbol name ∉ next.tables.map DataTable.symbol)
  | data {name arguments : String} {builder defined : TableBuilder}
    (area : state.area = .readOnlyData) (read : data? line = some (name, arguments))
    (opened : state.table = some builder)
    (defines : (builder.padTo (state.pendingAlign.getD 1)).define name arguments = (defined, none))
    (tables : next.tables = state.tables) (table : next.table = some defined)
    (pending : next.pendingAlign = none)
  | align {bytes : Nat} (area : state.area = .readOnlyData)
    (read : alignment? format line = some bytes) (tables : next.tables = state.tables)
    (table : next.table = state.table)
    (pending : next.pendingAlign = some (max (state.pendingAlign.getD 0) bytes))
  | plain (area : state.area = .readOnlyData) (plain : PlainLine format line)
    (same : SameTables state next)

theorem TableStep.of_outside (area : state.area ≠ .readOnlyData) (noSwitch : switchKind? line = none)
    (same : SameTables state next) (closed : state.table = none) :
    TableStep format line state next :=
  .outside area noSwitch same.tables (same.table.trans closed)

theorem TableStep.of_closeTable (area : state.area ≠ .readOnlyData)
    (noSwitch : switchKind? line = none) (closed : state.table = none) :
    TableStep format line state state.closeTable := by
  rw [closeTable_of_none closed]
  exact .of_outside area noSwitch (.refl state) closed

theorem TableStep.of_plain (plain : PlainLine format line) (same : SameTables state next)
    (inData : state.table.isSome → state.area = .readOnlyData) : TableStep format line state next := by
  by_cases area : state.area = .readOnlyData
  · exact .plain area plain same
  · exact .of_outside area plain.noSwitch same (table_eq_none inData area)

private theorem tableStep_openTable {name : String} (h : state.openTable index line name = .ok next)
    (area : state.area = .readOnlyData) (read : label? line = some name) :
    TableStep format line state next := by
  revert h
  fun_cases openTable state index line name with
  | case1 => simp
  | case2 closed unknown =>
    intro h
    obtain rfl := Except.ok.inj h
    have tables : closed.tables = state.tables ++ state.openTable?.toList := closeTable_tables state
    refine .label area read tables rfl rfl ?_
    intro member
    obtain ⟨table, inTables, same⟩ := List.mem_map.1 member
    have differs := List.find?_eq_none.1 unknown table inTables
    simp [same] at differs

private theorem tableStep_label {name : String} (h : state.label context index line name = .ok next)
    (read : classify line = .ok (.label name))
    (inData : state.table.isSome → state.area = .readOnlyData) :
    TableStep context.format line state next := by
  have isLabel : label? line = some name := label?_eq_some_iff.2 read
  have noSwitch := noSwitch_of_label? isLabel
  have closed := table_eq_none inData
  revert h
  fun_cases label context state index line name with
  | case1 area declared =>
    intro h
    have outside : state.area ≠ .readOnlyData := by simp [area]
    revert h
    fun_cases openRoutine state index line name with
    | case1 => simp
    | case2 afterwards fresh =>
      intro h
      obtain rfl := Except.ok.inj h
      have same : SameTables state afterwards := by
        have ended := sameTables_closeRoutine state index
        rwa [← closeTable_of_none (ended.table.trans (closed outside))] at ended
      exact .of_outside outside noSwitch ⟨same.tables, same.table, same.pending⟩ (closed outside)
  | case2 area undeclared =>
    intro h
    obtain rfl := Except.ok.inj h
    have outside : state.area ≠ .readOnlyData := by simp [area]
    exact .of_outside outside noSwitch (.refl state) (closed outside)
  | case3 area =>
    intro h
    exact tableStep_openTable h area isLabel
  | case4 area =>
    intro h
    obtain rfl := Except.ok.inj h
    have outside : state.area ≠ .readOnlyData := by simp [area]
    exact .of_closeTable outside noSwitch (closed outside)
  | case5 area =>
    intro h
    obtain rfl := Except.ok.inj h
    have outside : state.area ≠ .readOnlyData := by simp [area]
    exact .of_closeTable outside noSwitch (closed outside)

/-- To ask for an alignment of one byte is to ask for nothing. -/
theorem padTo_one (builder : TableBuilder) : builder.padTo 1 = builder := by
  simp [TableBuilder.padTo, TableBuilder.appendBytes, Nat.mod_one]

private theorem tableStep_data {name arguments : String}
    (h : state.data index line name arguments = .ok next) (read : data? line = some (name, arguments))
    (inData : state.table.isSome → state.area = .readOnlyData) :
    TableStep format line state next := by
  have noSwitch := (noSwitch_noLabel_of_data? read).1
  revert h
  fun_cases data state index line name arguments with
  | case1 => simp
  | case2 => simp
  | case3 area builder opened padded defined defines =>
    intro h
    obtain rfl := Except.ok.inj h
    refine .data area read opened ?_ rfl rfl rfl
    have same : padded = builder.padTo (state.pendingAlign.getD 1) := by
      cases pending : state.pendingAlign with
      | none => simp [padded, pending, padTo_one]
      | some align => simp [padded, pending]
    rw [← same]
    exact defines
  | case4 outside =>
    intro h
    obtain rfl := Except.ok.inj h
    exact .of_outside outside noSwitch (.refl state) (table_eq_none inData outside)

private theorem tableStep_switch {kind : SectionKind} (read : switchKind? line = some kind) :
    TableStep format line state (state.switch index kind) := by
  have same : SameTables state (if kind = .text then state else state.closeRoutine index) := by
    split
    · exact .refl state
    · exact sameTables_closeRoutine state index
  refine .switch read ?_ ?_ rfl
  · simp only [switch, closeTable_tables, same.tables, openTable?, same.table]
  · simp only [switch, closeTable_table]

private theorem tableStep_directive {d : Directive} (h : state.directive context index line d = .ok next)
    (read : classify line = .ok (.directive d))
    (inData : state.table.isSome → state.area = .readOnlyData) :
    TableStep context.format line state next := by
  cases d with
  | switch kind =>
    obtain rfl := Except.ok.inj h
    exact tableStep_switch (by simp [switchKind?, read])
  | global symbol =>
    obtain rfl := Except.ok.inj h
    exact .of_plain (plainLine_directive read rfl) (sameTables_closeRoutine state index) inData
  | symbolType symbol isFunction =>
    cases isFunction with
    | true =>
      obtain rfl := Except.ok.inj h
      exact .of_plain (plainLine_directive read rfl) (sameTables_closeRoutine state index) inData
    | false =>
      obtain rfl := Except.ok.inj h
      exact .of_plain (plainLine_directive read rfl) (.refl state) inData
  | symbolSize symbol =>
    obtain rfl := Except.ok.inj h
    refine .of_plain (plainLine_directive read rfl) ?_ inData
    split
    · exact sameTables_closeRoutine state index
    · exact .refl state
  | align alignment =>
    cases resolved : alignment.resolve context.format with
    | error fault => simp [directive, resolved] at h
    | ok bytes =>
      obtain rfl : _ = next := by simpa [directive, resolved] using h
      by_cases area : state.area = .readOnlyData
      · exact .align area (by simp [alignment?, read, resolved, Except.toOption]) rfl rfl rfl
      · exact .outside area (by simp [switchKind?, read]) rfl (table_eq_none inData area)
  | data name arguments => exact tableStep_data h (by simp [data?, read]) inData
  | bookkeeping name =>
    obtain rfl := Except.ok.inj h
    exact .of_plain (plainLine_directive read rfl) (.refl state) inData
  | other name =>
    obtain rfl := Except.ok.inj h
    exact .of_plain (plainLine_directive read rfl) (.refl state) inData

/-- What a line does to the tables, provided that they are open in read-only sections alone. -/
theorem tableStep_step (h : state.step context (line, index) = .ok next)
    (inData : state.table.isSome → state.area = .readOnlyData) :
    TableStep context.format line state next := by
  cases read : classify line with
  | error fault => simp [step, read] at h
  | ok kind =>
    cases kind with
    | blank =>
      simp only [step, read] at h
      obtain rfl := Except.ok.inj h
      exact .of_plain (plainLine_blank read) (.refl state) inData
    | label name =>
      simp only [step, read] at h
      exact tableStep_label h read inData
    | directive d =>
      simp only [step, read] at h
      exact tableStep_directive h read inData
    | instruction text =>
      simp only [step, read] at h
      split at h
      case isTrue =>
        obtain rfl := Except.ok.inj h
        exact .of_plain (plainLine_instruction read) (.refl state) inData
      case isFalse => simp at h

end SegmenterState

end AsmTranslit
