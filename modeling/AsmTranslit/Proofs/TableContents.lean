import AsmTranslit.Proofs.DataLines
import AsmTranslit.Proofs.RoutineSpans
import AsmTranslit.Proofs.TableSteps
import Mathlib.Data.List.DropRight

/-!
# Table contents

The tables of a listing, said without the pass that finds them.  A table stands at each label in a
read-only section, and goes on to the next label or switch of section.  Its image is laid out from
the data below the label, one directive after another, with zeros where an alignment stands in front
of the data.  The pass gives exactly these images, and so do the lines that tables are written as.
-/

namespace AsmTranslit

def tableLabel? (area : SectionKind) (line : String) : Option String :=
  if area = .readOnlyData then label? line else none

/-- The labels that start tables, with their indexes. -/
def tableLabels (lines : List String) : List (String × Nat) :=
  sectionLabels tableLabel? lines

/-- Whether a line is one from which on earlier alignments count no more. -/
def dropsAlignment (line : String) : Bool :=
  (switchKind? line).isSome || (label? line).isSome || (data? line).isSome

/-- The greatest alignment that is asked for in front of the line with the given index, none of those
counting that stand before a switch, a label or data. -/
def alignmentBefore (format : ObjectFormat) (lines : List String) (index : Nat) : Option Nat :=
  (((lines.take index).rtakeWhile (!dropsAlignment ·)).filterMap (alignment? format)).max?

/-- Whether a line ends the table in front of it. -/
def endsTable (line : String) : Bool :=
  (switchKind? line).isSome || (label? line).isSome

/-- The lines of the table whose label has the given index. -/
def tableBody (lines : List String) (index : Nat) : List String :=
  (lines.drop (index + 1)).takeWhile (!endsTable ·)

/-- The fewest zeros that make a size a multiple of an alignment. -/
def fewestZeros (align size : Nat) : Nat :=
  ((List.range align).find? fun zeros => (size + zeros) % align == 0).getD 0

/-- The data of the table whose label has the given index, each with the alignment in front of it. -/
def tableData (format : ObjectFormat) (lines : List String) (index : Nat) :
    List (Nat × String × String) :=
  ((tableBody lines index).zipIdx (index + 1)).filterMap fun (line, place) =>
    (data? line).map (((alignmentBefore format lines place).getD 1, ·))

/-- An image with zeros up to an alignment and then the bytes of data behind it. -/
def layData? (image : List UInt8) : Nat × String × String → Option (List UInt8)
  | (align, name, arguments) => (definedBytes? name arguments).map fun bytes =>
      image ++ List.replicate (fewestZeros align image.length) 0 ++ bytes

/-- The image of the table whose label has the given index. -/
def tableImage? (format : ObjectFormat) (lines : List String) (index : Nat) : Option (List UInt8) :=
  (tableData format lines index).foldlM layData? []

example : tableImage? .elf [".rodata", "T:", ".byte 1", ".p2align 1", ".p2align 2", ".short -2", "U:"] 1 =
    some [1, 0, 0, 0, 0xfe, 0xff] := by
  decide +kernel

theorem fewestZeros_eq (align size : Nat) :
    fewestZeros align size = (align - size % align) % align := by
  rcases Nat.eq_zero_or_pos align with rfl | positive
  · simp [fewestZeros]
  have bound := Nat.mod_lt size positive
  have least : (List.range align).find? (fun zeros => (size + zeros) % align == 0) =
      some ((align - size % align) % align) := by
    simp only [List.find?_range_eq_some, List.mem_range, beq_iff_eq, Bool.not_eq_true',
      beq_eq_false_iff_ne, ← Nat.mod_add_mod size align]
    rcases Nat.eq_zero_or_pos (size % align) with aligned | rest
    · simp [aligned, positive]
    · rw [Nat.mod_eq_of_lt (by omega : align - size % align < align)]
      refine ⟨?_, by omega, ?_⟩
      · rw [Nat.add_sub_cancel' (Nat.le_of_lt bound), Nat.mod_self]
      · intro zeros fewer
        rw [Nat.mod_eq_of_lt (by omega)]
        omega
  rw [fewestZeros, least, Option.getD_some]

variable {format : ObjectFormat} {lines done : List String} {line : String} {index : Nat}

theorem alignmentBefore_append (format : ObjectFormat) (inside : index ≤ done.length) (line : String) :
    alignmentBefore format (done ++ [line]) index = alignmentBefore format done index := by
  rw [alignmentBefore, List.take_append_of_le_length inside, alignmentBefore]

private theorem max?_concat (numbers : List Nat) (n : Nat) :
    (numbers ++ [n]).max? = some (max (numbers.max?.getD 0) n) := by
  cases numbers with
  | nil => simp
  | cons first rest =>
    rw [List.cons_append, List.max?_cons', List.max?_cons', List.foldl_append]
    rfl

private theorem alignmentBefore_length_append (format : ObjectFormat) (done : List String)
    (line : String) :
    alignmentBefore format (done ++ [line]) (done ++ [line]).length =
      if dropsAlignment line then none
      else match alignment? format line with
        | none => alignmentBefore format done done.length
        | some bytes => some (max ((alignmentBefore format done done.length).getD 0) bytes) := by
  simp only [alignmentBefore, List.take_length, List.rtakeWhile_concat]
  by_cases drops : dropsAlignment line
  · simp [drops]
  · simp only [drops, Bool.not_false, if_true, List.filterMap_append]
    cases asks : alignment? format line with
    | none => simp [asks]
    | some bytes => simp [asks, max?_concat]

def tableEnded (lines : List String) (index : Nat) : Bool :=
  (lines.drop (index + 1)).any endsTable

theorem tableEnded_append (inside : index < done.length) (line : String) :
    tableEnded (done ++ [line]) index = (tableEnded done index || endsTable line) := by
  rw [tableEnded, List.drop_append_of_le_length (Nat.succ_le_of_lt inside), List.any_append, tableEnded]
  simp

theorem tableBody_of_not_ended (goesOn : tableEnded lines index = false) :
    tableBody lines index = lines.drop (index + 1) := by
  rw [tableBody, List.takeWhile_eq_self_iff]
  simpa [tableEnded] using goesOn

private theorem tableBody_append (inside : index < done.length) (line : String) :
    tableBody (done ++ [line]) index =
      if tableEnded (done ++ [line]) index then tableBody done index
      else tableBody done index ++ [line] := by
  have longer : (done ++ [line]).drop (index + 1) = done.drop (index + 1) ++ [line] :=
    List.drop_append_of_le_length (Nat.succ_le_of_lt inside)
  rw [tableEnded_append inside, tableBody, longer, List.takeWhile_append, tableBody]
  by_cases ended : tableEnded done index
  · obtain ⟨last, member, ends⟩ := List.any_eq_true.1 ended
    have shorter : ¬ ((done.drop (index + 1)).takeWhile (!endsTable ·)).length =
        (done.drop (index + 1)).length := by
      intro same
      have all := (List.takeWhile_prefix (!endsTable ·)).eq_of_length same
      have keeps := List.takeWhile_eq_self_iff.1 all last member
      simp [ends] at keeps
    rw [if_neg shorter]
    simp [ended]
  · have all := tableBody_of_not_ended (Bool.eq_false_of_not_eq_true ended)
    rw [tableBody] at all
    rw [all, if_pos rfl]
    cases ends : endsTable line <;> simp [ended, ends]

theorem tableData_append (inside : index < done.length) (line : String) :
    tableData format (done ++ [line]) index = tableData format done index ++
      if tableEnded (done ++ [line]) index then []
      else ((data? line).map (((alignmentBefore format done done.length).getD 1, ·))).toList := by
  have bound : index + 1 + (tableBody done index).length ≤ done.length := by
    have shorter := (List.takeWhile_sublist (!endsTable ·) (l := done.drop (index + 1))).length_le
    rw [List.length_drop] at shorter
    rw [tableBody]
    omega
  have same : ((tableBody done index).zipIdx (index + 1)).filterMap (fun (text, place) =>
      (data? text).map (((alignmentBefore format (done ++ [line]) place).getD 1, ·))) =
        tableData format done index := by
    apply List.filterMap_congr
    rintro ⟨text, place⟩ member
    have before : place < index + 1 + (tableBody done index).length :=
      List.snd_lt_add_of_mem_zipIdx member
    simp only [alignmentBefore_append format (by omega : place ≤ done.length)]
  rw [tableData, tableBody_append inside]
  by_cases ended : tableEnded (done ++ [line]) index
  · rw [if_pos ended, if_pos ended, same, List.append_nil]
  · have goesOn : tableEnded done index = false := by
      rw [tableEnded_append inside] at ended
      simp_all
    have last : index + 1 + (tableBody done index).length = done.length := by
      rw [tableBody_of_not_ended goesOn, List.length_drop]
      omega
    have asked := alignmentBefore_append format (Nat.le_refl done.length) line
    rw [if_neg ended, if_neg ended, List.zipIdx_append, List.filterMap_append, same, last]
    cases isData : data? line <;> simp [isData, asked]

private theorem tableImage?_append_of_ended (inside : index < done.length)
    (ended : tableEnded (done ++ [line]) index) :
    tableImage? format (done ++ [line]) index = tableImage? format done index := by
  rw [tableImage?, tableData_append inside, if_pos ended, List.append_nil, tableImage?]

private theorem tableImage?_append (inside : index < done.length)
    (goesOn : tableEnded (done ++ [line]) index = false) :
    tableImage? format (done ++ [line]) index = match data? line with
      | none => tableImage? format done index
      | some entry => (tableImage? format done index).bind fun image =>
          layData? image ((alignmentBefore format done done.length).getD 1, entry) := by
  rw [tableImage?, tableData_append inside, goesOn]
  cases isData : data? line with
  | none => simp [tableImage?]
  | some entry => simp [tableImage?, List.foldlM_append]

private theorem tableImage?_start (format : ObjectFormat) (done : List String) (line : String) :
    tableImage? format (done ++ [line]) done.length = some [] := by
  have none : (done ++ [line]).drop (done.length + 1) = [] := List.drop_eq_nil_of_le (by simp)
  rw [tableImage?, tableData, tableBody, none]
  rfl

namespace TableBuilder

variable {builder next : TableBuilder}

theorem bytes_padTo (builder : TableBuilder) (align : Nat) :
    (builder.padTo align).bytes =
      builder.bytes ++ List.replicate (fewestZeros align builder.bytes.length) 0 := by
  rw [padTo, bytes_appendBytes, fewestZeros_eq, size_eq_length_bytes]

theorem frame_define {name arguments : String} {fault : Option DataFault}
    (h : builder.define name arguments = (next, fault)) :
    next.label = builder.label ∧ next.align = builder.align := by
  rw [define] at h
  split at h
  case h_1 =>
    obtain ⟨rfl, -⟩ := Prod.mk.inj h
    exact ⟨rfl, rfl⟩
  case h_2 directive known =>
    cases directive with
    | fill =>
      simp only [defineAs] at h
      split at h
      case h_1 =>
        obtain ⟨rfl, -⟩ := Prod.mk.inj h
        exact ⟨rfl, rfl⟩
      case h_2 =>
        obtain ⟨rfl, -⟩ := Prod.mk.inj h
        exact ⟨rfl, rfl⟩
    | _ =>
      obtain ⟨rfl, -⟩ := Prod.mk.inj h
      exact ⟨rfl, rfl⟩

private theorem layData?_bytes {align : Nat} {name arguments : String}
    (h : (builder.padTo align).define name arguments = (next, none)) :
    layData? builder.bytes (align, name, arguments) = some next.bytes := by
  obtain ⟨bytes, defined, appended⟩ := bytes_define h
  rw [layData?, defined, Option.map_some, appended, bytes_padTo]

@[simp] theorem bytes_finish (builder : TableBuilder) : builder.finish.bytes = builder.bytes := by
  rw [← bytes_flush builder]
  simp [finish, DataTable.bytes, TableBuilder.bytes, flush]

end TableBuilder

/-- A table with the label, the alignment and the image that lines give it. -/
structure TableOf (format : ObjectFormat) (lines : List String) (entry : String × Nat)
    (table : DataTable) : Prop where
  inside : entry.2 < lines.length
  label : table.label = entry.1
  align : table.align = (alignmentBefore format lines entry.2).getD 1
  image : tableImage? format lines entry.2 = some table.bytes

/-- A table of the lines read so far, of which it is known whether it has ended. -/
structure TableUpTo (format : ObjectFormat) (ended : Bool) (done : List String)
    (entry : String × Nat) (table : DataTable) : Prop extends TableOf format done entry table where
  ends : tableEnded done entry.2 = ended

section TableUpTo

variable {ended : Bool} {entry : String × Nat} {table : DataTable}

theorem TableUpTo.append_of_ended (upTo : TableUpTo format ended done entry table)
    (ends : tableEnded (done ++ [line]) entry.2) : TableUpTo format true (done ++ [line]) entry table where
  inside := by
    have inside := upTo.inside
    rw [List.length_append]
    omega
  label := upTo.label
  align := by rw [alignmentBefore_append format (Nat.le_of_lt upTo.inside), upTo.align]
  image := by rw [tableImage?_append_of_ended upTo.inside ends, upTo.image]
  ends := ends

theorem TableUpTo.append_closed (upTo : TableUpTo format true done entry table) :
    TableUpTo format true (done ++ [line]) entry table :=
  upTo.append_of_ended (by rw [tableEnded_append upTo.inside, upTo.ends, Bool.true_or])

private theorem TableUpTo.append_end (upTo : TableUpTo format false done entry table)
    (ends : endsTable line) : TableUpTo format true (done ++ [line]) entry table :=
  upTo.append_of_ended (by rw [tableEnded_append upTo.inside, ends, Bool.or_true])

/-- A line that does not end the open table leaves its label, alignment and image as they are, unless
it is data, which is laid behind the image. -/
theorem TableUpTo.append_open (upTo : TableUpTo format false done entry table)
    (goesOn : endsTable line = false) {next : DataTable} (label : next.label = table.label)
    (align : next.align = table.align)
    (image : (match data? line with
      | none => some table.bytes
      | some data => layData? table.bytes ((alignmentBefore format done done.length).getD 1, data)) =
        some next.bytes) :
    TableUpTo format false (done ++ [line]) entry next where
  inside := by
    have inside := upTo.inside
    rw [List.length_append]
    omega
  label := label.trans upTo.label
  align := by rw [alignmentBefore_append format (Nat.le_of_lt upTo.inside), ← upTo.align, align]
  image := by
    have ends : tableEnded (done ++ [line]) entry.2 = false := by
      rw [tableEnded_append upTo.inside, upTo.ends, goesOn, Bool.or_false]
    rw [tableImage?_append upTo.inside ends, upTo.image, ← image]
    rfl
  ends := by rw [tableEnded_append upTo.inside, upTo.ends, goesOn, Bool.or_false]

end TableUpTo

namespace SegmenterState

variable {context : ListingContext} {state next : SegmenterState}

/-- What the state knows of the tables in the lines read so far.  All tables but the open one have
ended. -/
structure TracksTables (format : ObjectFormat) (done : List String) (state : SegmenterState) :
    Prop where
  inData : state.table.isSome → state.area = .readOnlyData
  pending : state.area = .readOnlyData →
    state.pendingAlign = alignmentBefore format done done.length
  tables : ∃ closed open?, tableLabels done = closed ++ Option.toList open? ∧
    List.Forall₂ (TableUpTo format true done) closed state.tables ∧
    Option.Rel (TableUpTo format false done) open? state.openTable?
  symbols : ((state.tables ++ state.openTable?.toList).map DataTable.symbol).Nodup

private theorem tracksTables_initial (format : ObjectFormat) : TracksTables format [] {} where
  inData := by simp
  pending := by simp
  tables := ⟨[], none, rfl, .nil, .none⟩
  symbols := List.nodup_nil

private theorem step_inData (area : next.area = (switchKind? line).getD state.area)
    (step : TableStep format line state next) (opened : next.table.isSome) :
    next.area = .readOnlyData := by
  rw [area]
  cases step with
  | switch read tables table => simp [table] at opened
  | outside _ _ _ table => simp [table] at opened
  | label here read => rw [noSwitch_of_label? read, Option.getD_none, here]
  | data here read => rw [(noSwitch_noLabel_of_data? read).1, Option.getD_none, here]
  | align here read => rw [(noSwitch_noLabel_noData_of_alignment? read).1, Option.getD_none, here]
  | plain here plain => rw [plain.noSwitch, Option.getD_none, here]

private theorem TracksTables.step_pending (tracks : TracksTables format done state)
    (area : next.area = (switchKind? line).getD state.area)
    (step : TableStep format line state next) (inData : next.area = .readOnlyData) :
    next.pendingAlign = alignmentBefore format (done ++ [line]) (done ++ [line]).length := by
  rw [alignmentBefore_length_append]
  cases step with
  | switch read _ _ pending => simp [dropsAlignment, read, pending]
  | outside elsewhere noSwitch =>
    rw [noSwitch, Option.getD_none] at area
    exact absurd (area.symm.trans inData) elsewhere
  | label _ read _ _ pending => simp [dropsAlignment, read, pending]
  | data _ read _ _ _ _ pending => simp [dropsAlignment, read, pending]
  | align here read _ _ pending =>
    obtain ⟨noSwitch, noLabel, noData⟩ := noSwitch_noLabel_noData_of_alignment? read
    simp [dropsAlignment, noSwitch, noLabel, noData, read, pending, tracks.pending here]
  | plain here plain same =>
    simp [dropsAlignment, plain.noSwitch, plain.noLabel, plain.noData, plain.noAlignment, same.pending,
      tracks.pending here]

theorem TracksTables.closed_tables (tracks : TracksTables format done state)
    (ends : endsTable line) :
    List.Forall₂ (TableUpTo format true (done ++ [line])) (tableLabels done)
      (state.tables ++ state.openTable?.toList) := by
  obtain ⟨closed, open?, labels, tables, current⟩ := tracks.tables
  rw [labels]
  apply List.rel_append
  · exact tables.imp fun _ _ upTo => upTo.append_closed
  · generalize state.openTable? = table? at current
    cases current with
    | none => exact .nil
    | some upTo => exact .cons (upTo.append_end ends) .nil

theorem TracksTables.open_tables (tracks : TracksTables format done state)
    (starts : tableLabel? (areaAfter done) line = none) (tables : next.tables = state.tables)
    (current : ∀ open?, Option.Rel (TableUpTo format false done) open? state.openTable? →
      Option.Rel (TableUpTo format false (done ++ [line])) open? next.openTable?) :
    ∃ closed open?, tableLabels (done ++ [line]) = closed ++ Option.toList open? ∧
      List.Forall₂ (TableUpTo format true (done ++ [line])) closed next.tables ∧
      Option.Rel (TableUpTo format false (done ++ [line])) open? next.openTable? := by
  obtain ⟨closed, open?, labels, upTo, opened⟩ := tracks.tables
  refine ⟨closed, open?, ?_, ?_, current open? opened⟩
  · rw [tableLabels, sectionLabels_append, starts, ← tableLabels, labels]
    simp
  · rw [tables]
    exact upTo.imp fun _ _ upTo => upTo.append_closed

theorem rel_openTable?_append (goesOn : endsTable line = false) (noData : data? line = none)
    (same : next.table = state.table) (open? : Option (String × Nat))
    (opened : Option.Rel (TableUpTo format false done) open? state.openTable?) :
    Option.Rel (TableUpTo format false (done ++ [line])) open? next.openTable? := by
  rw [openTable?, same, ← openTable?]
  generalize state.openTable? = table? at opened
  cases opened with
  | none => exact .none
  | some upTo => exact .some (upTo.append_open goesOn rfl rfl (by rw [noData]))

private theorem TracksTables.step_tables (tracks : TracksTables format done state)
    (here : state.area = areaAfter done) (step : TableStep format line state next) :
    ∃ closed open?, tableLabels (done ++ [line]) = closed ++ Option.toList open? ∧
      List.Forall₂ (TableUpTo format true (done ++ [line])) closed next.tables ∧
      Option.Rel (TableUpTo format false (done ++ [line])) open? next.openTable? := by
  have noStart (noLabel : label? line = none) : tableLabel? (areaAfter done) line = none := by
    rw [tableLabel?, noLabel, ite_self]
  -- only a switch or a label moves the open table to the closed ones
  cases step with
  | switch read tables closed =>
    have ends : endsTable line := by simp [endsTable, read]
    refine ⟨tableLabels done, none, ?_, ?_, ?_⟩
    · rw [tableLabels, sectionLabels_append, noStart (noLabel_of_switchKind? read)]
      rfl
    · rw [tables]
      exact tracks.closed_tables ends
    · rw [openTable?, closed]
      exact .none
  | outside elsewhere noSwitch tables closed =>
    have starts : tableLabel? (areaAfter done) line = none := by
      rw [tableLabel?, ← here, if_neg elsewhere]
    apply tracks.open_tables starts tables
    intro open? opened
    rw [openTable?, table_eq_none tracks.inData elsewhere] at opened
    rw [openTable?, closed]
    cases opened with
    | none => exact .none
  | @label name inData read tables started =>
    have ends : endsTable line := by simp [endsTable, read]
    refine ⟨tableLabels done, some (name, done.length), ?_, ?_, ?_⟩
    · rw [tableLabels, sectionLabels_append, tableLabel?, ← here, if_pos inData, read]
      rfl
    · rw [tables]
      exact tracks.closed_tables ends
    · rw [openTable?, started]
      refine .some ⟨⟨?_, rfl, ?_, ?_⟩, ?_⟩
      · simp
      · rw [alignmentBefore_append format (Nat.le_refl _), ← tracks.pending inData]
        rfl
      · rw [TableBuilder.bytes_finish]
        exact tableImage?_start format done line
      · simp [tableEnded]
  | @data name arguments builder defined inData read opened defines tables table =>
    obtain ⟨noSwitch, noLabel⟩ := noSwitch_noLabel_of_data? read
    have goesOn : endsTable line = false := by simp [endsTable, noSwitch, noLabel]
    apply tracks.open_tables (noStart noLabel) tables
    intro open? upTo
    rw [openTable?, opened] at upTo
    rw [openTable?, table]
    obtain ⟨label, align⟩ := TableBuilder.frame_define defines
    cases upTo with
    | some upTo =>
      refine .some (upTo.append_open goesOn label align ?_)
      rw [read, ← tracks.pending inData]
      simpa using TableBuilder.layData?_bytes defines
  | align inData read tables same =>
    obtain ⟨noSwitch, noLabel, noData⟩ := noSwitch_noLabel_noData_of_alignment? read
    have goesOn : endsTable line = false := by simp [endsTable, noSwitch, noLabel]
    exact tracks.open_tables (noStart noLabel) tables (rel_openTable?_append goesOn noData same)
  | plain inData plain same =>
    have goesOn : endsTable line = false := by simp [endsTable, plain.noSwitch, plain.noLabel]
    exact tracks.open_tables (noStart plain.noLabel) same.tables
      (rel_openTable?_append goesOn plain.noData same.table)

private theorem TracksTables.step_symbols (tracks : TracksTables format done state)
    (step : TableStep format line state next) :
    ((next.tables ++ next.openTable?.toList).map DataTable.symbol).Nodup := by
  have before := tracks.symbols
  cases step with
  | switch _ tables closed => simpa [tables, openTable?, closed] using before
  | outside elsewhere _ tables closed =>
    have noTable := table_eq_none tracks.inData elsewhere
    simpa [tables, openTable?, closed, noTable] using before
  | label _ _ tables started _ fresh =>
    rw [← tables] at before
    rw [openTable?, started, List.map_append]
    refine List.nodup_append.2 ⟨before, List.pairwise_singleton _ _, ?_⟩
    rintro symbol known other new rfl
    obtain rfl := List.mem_singleton.1 new
    exact fresh known
  | @data _ _ builder defined _ _ opened defines tables table =>
    have label : defined.label = builder.label := (TableBuilder.frame_define defines).1
    rw [openTable?, opened] at before
    rw [openTable?, table, tables]
    simpa [DataTable.symbol, TableBuilder.finish, label] using before
  | align _ _ tables same => rwa [openTable?, same, ← openTable?, tables]
  | plain _ _ same => rwa [openTable?, same.table, ← openTable?, same.tables]

theorem TracksTables.step (tracks : TracksTables format done state)
    (here : state.area = areaAfter done) (area : next.area = (switchKind? line).getD state.area)
    (step : TableStep format line state next) : TracksTables format (done ++ [line]) next where
  inData := step_inData area step
  pending := tracks.step_pending area step
  tables := tracks.step_tables here step
  symbols := tracks.step_symbols step

theorem tracksTables_run (h : lines.zipIdx.foldlM (SegmenterState.step context) {} = .ok state) :
    TracksTables context.format lines state := by
  have keep (done : List String) (line : String) (state next : SegmenterState)
      (tracks : Tracks context.declared done state ∧ TracksTables context.format done state)
      (step : state.step context (line, done.length) = .ok next) :
      Tracks context.declared (done ++ [line]) next ∧
        TracksTables context.format (done ++ [line]) next := by
    obtain ⟨code, tables⟩ := tracks
    have advances := advances_step step code.openInText
    exact ⟨code.step advances,
      tables.step code.area advances.area (tableStep_step step tables.inData)⟩
  have run := foldlM_zipIdx_invariant keep
    ⟨tracks_initial context.declared, tracksTables_initial context.format⟩ h
  simpa using run.2

end SegmenterState

/-- The table of the label with the given index, as the lines of the listing have it.  The lines it is
written as put each byte of the image once, in its place, and put nothing else. -/
structure TableAt (lines : List String) (entry : String × Nat) (table : DataTable) : Prop where
  label : table.label = entry.1
  align : table.align = (alignmentBefore (.ofLines lines) lines entry.2).getD 1
  symbol : ∀ line ∈ table.dataLines, line.symbol = table.symbol
  image : ∃ image, tableImage? (.ofLines lines) lines entry.2 = some image ∧
    table.size = image.length ∧ ∀ address, bytesAt table.dataLines address = image[address]?.toList

theorem TableUpTo.tableAt {ended : Bool} {entry : String × Nat} {table : DataTable}
    (upTo : TableUpTo (.ofLines lines) ended lines entry table) : TableAt lines entry table where
  label := upTo.label
  align := upTo.align
  symbol line member := by
    rw [dataLines_eq_itemLines] at member
    exact symbol_of_mem_itemLines member
  image := ⟨table.bytes, upTo.image, table.size_eq_length_bytes, bytesAt_dataLines table⟩

namespace Segmentation

variable {segmentation : Segmentation}

theorem exists_tracksTables (h : Segmentation.ofLines lines = .ok segmentation) :
    ∃ state, SegmenterState.TracksTables (.ofLines lines) lines state ∧
      segmentation.tables = state.tables ++ state.openTable?.toList := by
  obtain ⟨state, run, rfl⟩ := exists_run h
  have ended := SegmenterState.sameTables_closeRoutine state lines.length
  refine ⟨state, SegmenterState.tracksTables_run run, ?_⟩
  rw [SegmenterState.finish, SegmenterState.closeTable_tables, ended.tables,
    SegmenterState.openTable?, ended.table, SegmenterState.openTable?]

theorem nodup_symbols (h : Segmentation.ofLines lines = .ok segmentation) :
    (segmentation.tables.map DataTable.symbol).Nodup := by
  obtain ⟨state, tracks, tables⟩ := exists_tracksTables h
  rw [tables]
  exact tracks.symbols

/-- The tables of a listing are those of its labels in read-only sections, in order.  Each has the
alignment asked for in front of its label, and its lines give the image of the data below. -/
theorem tables_exact (h : Segmentation.ofLines lines = .ok segmentation) :
    List.Forall₂ (TableAt lines) (tableLabels lines) segmentation.tables := by
  obtain ⟨state, tracks, all⟩ := exists_tracksTables h
  obtain ⟨closed, open?, labels, tables, opened⟩ := tracks.tables
  rw [labels, all]
  generalize state.openTable? = table? at opened
  apply List.rel_append
  · exact tables.imp fun _ _ upTo => upTo.tableAt
  · cases opened with
    | none => exact .nil
    | some upTo => exact .cons upTo.tableAt .nil

/-- A listing with two tables, the second of them aligned and with padding inside. -/
theorem tables_exact_of_padded :
    Segmentation.ofLines [".rodata", "T:", ".byte 7", ".p2align 2", "U:", ".byte 1", ".p2align 1",
        ".p2align 2", ".short -2"] =
      .ok ⟨[], [⟨"T", 1, [⟨.one, 7⟩]⟩,
        ⟨"U", 4, [⟨.one, 1⟩, ⟨.two, 0⟩, ⟨.one, 0⟩, ⟨.two, 0xfffe⟩]⟩]⟩ ∧
    List.Forall₂ (TableAt [".rodata", "T:", ".byte 7", ".p2align 2", "U:", ".byte 1", ".p2align 1",
        ".p2align 2", ".short -2"]) [("T", 1), ("U", 4)]
      [⟨"T", 1, [⟨.one, 7⟩]⟩, ⟨"U", 4, [⟨.one, 1⟩, ⟨.two, 0⟩, ⟨.one, 0⟩, ⟨.two, 0xfffe⟩]⟩] := by
  have h : Segmentation.ofLines [".rodata", "T:", ".byte 7", ".p2align 2", "U:", ".byte 1",
        ".p2align 1", ".p2align 2", ".short -2"] =
      .ok ⟨[], [⟨"T", 1, [⟨.one, 7⟩]⟩,
        ⟨"U", 4, [⟨.one, 1⟩, ⟨.two, 0⟩, ⟨.one, 0⟩, ⟨.two, 0xfffe⟩]⟩]⟩ := by
    decide +kernel
  exact ⟨h, tables_exact h⟩

end Segmentation

end AsmTranslit
