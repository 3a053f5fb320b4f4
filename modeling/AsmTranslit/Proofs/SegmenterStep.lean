import AsmTranslit.Correlation

/-!
# Segmenter steps

What one line does to the section and to the routines of a segmenter.  It may switch the section,
start a routine and end the open one, and these three depend on the line and the section alone.
Tables and alignments never matter to the routines.
-/

namespace AsmTranslit

/-- The kind of section that a line switches to, if it does. -/
def switchKind? (line : String) : Option SectionKind :=
  match classify line with
  | .ok (.directive (.switch kind)) => some kind
  | _ => none

/-- The routine that a line starts if it stands in the given kind of section. -/
def routineLabel? (declared : List String) (area : SectionKind) (line : String) : Option String :=
  match classify line with
  | .ok (.label name) => if area = .text ∧ name ∈ declared then some name else none
  | _ => none

/-- Whether a line ends the routine of the given name. -/
def endsRoutine (declared : List String) (routine line : String) : Bool :=
  match classify line with
  | .ok (.label name) => declared.contains name
  | .ok (.directive (.global _)) => true
  | .ok (.directive (.symbolType _ isFunction)) => isFunction
  | .ok (.directive (.symbolSize symbol)) => symbol == routine
  | .ok (.directive (.switch kind)) => kind != .text
  | _ => false

variable {declared : List String} {line name : String} {index : Nat}

theorem endsRoutine_of_routineLabel? {area : SectionKind} {label : String} (routine : String)
    (h : routineLabel? declared area line = some label) : endsRoutine declared routine line := by
  revert h
  fun_cases routineLabel? declared area line with
  | case1 name text started =>
    intro _
    simp [endsRoutine, text, started.2]
  | case2 => simp
  | case3 => simp

theorem classify_of_routineLabel? {area : SectionKind} {label : String}
    (h : routineLabel? declared area line = some label) : classify line = .ok (.label label) := by
  revert h
  fun_cases routineLabel? declared area line with
  | case1 name text started =>
    intro h
    rw [text, Option.some.inj h]
  | case2 => simp
  | case3 => simp

theorem area_of_routineLabel? {area : SectionKind} {label : String}
    (h : routineLabel? declared area line = some label) : area = .text := by
  revert h
  fun_cases routineLabel? declared area line with
  | case1 name text started => simp [started.1]
  | case2 => simp
  | case3 => simp

theorem switchKind?_of_routineLabel? {area : SectionKind} {label : String}
    (h : routineLabel? declared area line = some label) : switchKind? line = none := by
  revert h
  fun_cases routineLabel? declared area line with
  | case1 name text => simp [switchKind?, text]
  | case2 => simp
  | case3 => simp

theorem switchKind?_of_not_endsRoutine {routine : String} {kind : SectionKind}
    (keeps : endsRoutine declared routine line = false) (h : switchKind? line = some kind) :
    kind = .text := by
  revert h
  fun_cases switchKind? line with
  | case1 target text =>
    intro h
    obtain rfl := Option.some.inj h
    simpa [endsRoutine, text] using keeps
  | case2 => simp

/-- A line that neither switches the section nor starts or ends a routine. -/
structure NeutralLine (declared : List String) (line : String) : Prop where
  noSwitch : switchKind? line = none
  noStart : ∀ area, routineLabel? declared area line = none
  noEnd : ∀ routine, endsRoutine declared routine line = false

private theorem neutralLine_blank (read : classify line = .ok .blank) : NeutralLine declared line := by
  constructor <;> simp [switchKind?, routineLabel?, endsRoutine, read]

theorem neutralLine_instruction {text : String} (read : classify line = .ok (.instruction text)) :
    NeutralLine declared line := by
  constructor <;> simp [switchKind?, routineLabel?, endsRoutine, read]

/-- Sections and declarations apart, directives are neutral. -/
theorem neutralLine_directive {d : Directive} (read : classify line = .ok (.directive d))
    (noSwitch : ∀ kind, d ≠ .switch kind) (noGlobal : ∀ symbol, d ≠ .global symbol)
    (noFunction : ∀ symbol, d ≠ .symbolType symbol true)
    (noSize : ∀ symbol, d ≠ .symbolSize symbol) : NeutralLine declared line := by
  cases d with
  | switch kind => exact absurd rfl (noSwitch kind)
  | global symbol => exact absurd rfl (noGlobal symbol)
  | symbolType symbol isFunction =>
    cases isFunction with
    | true => exact absurd rfl (noFunction symbol)
    | false => constructor <;> simp [switchKind?, routineLabel?, endsRoutine, read]
  | symbolSize symbol => exact absurd rfl (noSize symbol)
  | _ => constructor <;> simp [switchKind?, routineLabel?, endsRoutine, read]

namespace SegmenterState

variable {context : ListingContext} {state next : SegmenterState} {text : String}

@[simp] theorem closeTable_area (state : SegmenterState) : state.closeTable.area = state.area := by
  fun_cases closeTable state <;> rfl

@[simp] theorem closeTable_routine (state : SegmenterState) :
    state.closeTable.routine = state.routine := by
  fun_cases closeTable state <;> rfl

@[simp] theorem closeTable_segments (state : SegmenterState) :
    state.closeTable.segments = state.segments := by
  fun_cases closeTable state <;> rfl

@[simp] theorem closeRoutine_area (state : SegmenterState) (index : Nat) :
    (state.closeRoutine index).area = state.area := by
  fun_cases closeRoutine state index <;> rfl

@[simp] theorem closeRoutine_routine (state : SegmenterState) (index : Nat) :
    (state.closeRoutine index).routine = none := by
  fun_cases closeRoutine state index with
  | case1 closed => exact closed
  | case2 => rfl

/-- The open routine as if it ended before the given index. -/
def openSpan (state : SegmenterState) (index : Nat) : Option Segment :=
  state.routine.map fun (name, start) => ⟨name, start, index⟩

@[simp] theorem closeRoutine_segments (state : SegmenterState) (index : Nat) :
    (state.closeRoutine index).segments = state.segments ++ (state.openSpan index).toList := by
  fun_cases closeRoutine state index with
  | case1 closed => simp [openSpan, closed]
  | case2 name start opened => simp [openSpan, opened]

/-- Two states that agree on the section and on the routines, whatever their tables are. -/
structure SameCode (state next : SegmenterState) : Prop where
  area : next.area = state.area
  routine : next.routine = state.routine
  segments : next.segments = state.segments

theorem SameCode.refl (state : SegmenterState) : SameCode state state :=
  ⟨rfl, rfl, rfl⟩

theorem sameCode_closeTable (state : SegmenterState) : SameCode state state.closeTable :=
  ⟨closeTable_area state, closeTable_routine state, closeTable_segments state⟩

private theorem sameCode_openTable (h : state.openTable index text name = .ok next) :
    SameCode state next := by
  have closed := sameCode_closeTable state
  revert h
  fun_cases openTable state index text name with
  | case1 => simp
  | case2 =>
    intro h
    obtain rfl := Except.ok.inj h
    exact ⟨closed.area, closed.routine, closed.segments⟩

private theorem sameCode_data {arguments : String} (h : state.data index text name arguments = .ok next) :
    SameCode state next := by
  revert h
  fun_cases data state index text name arguments with
  | case1 => simp
  | case2 => simp
  | case3 =>
    intro h
    obtain rfl := Except.ok.inj h
    exact ⟨rfl, rfl, rfl⟩
  | case4 =>
    intro h
    obtain rfl := Except.ok.inj h
    exact .refl state

/-- Whether a line ends the open routine, if there is one. -/
def endsOpen (declared : List String) (state : SegmenterState) (line : String) : Bool :=
  state.routine.any fun (name, _) => endsRoutine declared name line

theorem endsOpen_eq_false
    (h : ∀ name start, state.routine = some (name, start) → endsRoutine declared name line = false) :
    state.endsOpen declared line = false := by
  cases opened : state.routine with
  | none => simp [endsOpen, opened]
  | some routine => simpa [endsOpen, opened] using h routine.1 routine.2 opened

/-- What a line with the given index does to the section and the routines. -/
structure Advances (declared : List String) (line : String) (index : Nat)
    (state next : SegmenterState) : Prop where
  area : next.area = (switchKind? line).getD state.area
  segments : next.segments =
    state.segments ++ if state.endsOpen declared line then (state.openSpan index).toList else []
  routine : next.routine = ((routineLabel? declared state.area line).map (·, index + 1)).or
    (if state.endsOpen declared line then none else state.routine)
  fresh : ∀ name, routineLabel? declared state.area line = some name →
    name ∉ next.segments.map Segment.name
  inRoutine : (instruction? line).isSome → state.routine.isSome

theorem Advances.of_sameCode (same : SameCode state next) (noSwitch : switchKind? line = none)
    (noStart : routineLabel? declared state.area line = none)
    (noEnd : state.endsOpen declared line = false)
    (inRoutine : (instruction? line).isSome → state.routine.isSome) :
    Advances declared line index state next where
  area := by simp [noSwitch, same.area]
  segments := by simp [noEnd, same.segments]
  routine := by simp [noEnd, noStart, same.routine]
  fresh := by simp [noStart]
  inRoutine := inRoutine

theorem Advances.of_neutral (same : SameCode state next) (neutral : NeutralLine declared line)
    (inRoutine : (instruction? line).isSome → state.routine.isSome) :
    Advances declared line index state next :=
  .of_sameCode same neutral.noSwitch (neutral.noStart _)
    (endsOpen_eq_false fun name _ _ => neutral.noEnd name) inRoutine

/-- A line that ends the open routine and does nothing else to the routines. -/
theorem Advances.of_closeRoutine (noSwitch : switchKind? line = none)
    (noStart : routineLabel? declared state.area line = none)
    (ends : ∀ name start, state.routine = some (name, start) → endsRoutine declared name line)
    (inRoutine : (instruction? line).isSome → state.routine.isSome) :
    Advances declared line index state (state.closeRoutine index) where
  area := by simp [noSwitch]
  segments := by
    cases opened : state.routine with
    | none => simp [endsOpen, openSpan, opened]
    | some routine => simp [endsOpen, openSpan, opened, ends routine.1 routine.2 opened]
  routine := by
    cases opened : state.routine with
    | none => simp [endsOpen, noStart, opened]
    | some routine => simp [endsOpen, noStart, opened, ends routine.1 routine.2 opened]
  fresh := by simp [noStart]
  inRoutine := inRoutine

private theorem advances_openRoutine (h : state.openRoutine index line name = .ok next)
    (read : classify line = .ok (.label name)) (inText : state.area = .text)
    (declares : name ∈ declared) : Advances declared line index state next := by
  have starts : routineLabel? declared state.area line = some name := by
    simp [routineLabel?, read, inText, declares]
  revert h
  fun_cases openRoutine state index line name with
  | case1 => simp
  | case2 closed fresh =>
    intro h
    obtain rfl := Except.ok.inj h
    refine ⟨?_, ?_, ?_, ?_, ?_⟩
    · simp [closed, switchKind?, read]
    · cases opened : state.routine with
      | none => simp [closed, endsOpen, openSpan, opened]
      | some routine =>
        simp [closed, endsOpen, openSpan, opened, endsRoutine_of_routineLabel? routine.1 starts]
    · simp [starts]
    · intro other same
      obtain rfl : name = other := by simpa [starts] using same
      simpa using fresh
    · simp [instruction?, read]

private theorem advances_label (h : state.label context index line name = .ok next)
    (read : classify line = .ok (.label name))
    (openInText : state.routine.isSome → state.area = .text) :
    Advances context.declared line index state next := by
  have outside (area : state.area ≠ .text) (same : SameCode state next) :
      Advances context.declared line index state next := by
    have closed : state.routine = none := by
      cases opened : state.routine with
      | none => rfl
      | some routine => exact absurd (openInText (by simp [opened])) area
    apply Advances.of_sameCode same
    · simp [switchKind?, read]
    · simp [routineLabel?, read, area]
    · simp [endsOpen, closed]
    · simp [instruction?, read]
  revert h
  fun_cases label context state index line name with
  | case1 inText declares =>
    intro h
    exact advances_openRoutine h read inText (by simpa using declares)
  | case2 inText notDeclared =>
    intro h
    obtain rfl := Except.ok.inj h
    apply Advances.of_sameCode (.refl state)
    · simp [switchKind?, read]
    · simpa [routineLabel?, read] using fun _ => notDeclared
    · exact endsOpen_eq_false fun _ _ _ => by simpa [endsRoutine, read] using notDeclared
    · simp [instruction?, read]
  | case3 area =>
    intro h
    exact outside (by simp [area]) (sameCode_openTable h)
  | case4 area =>
    intro h
    obtain rfl := Except.ok.inj h
    exact outside (by simp [area]) (sameCode_closeTable state)
  | case5 area =>
    intro h
    obtain rfl := Except.ok.inj h
    exact outside (by simp [area]) (sameCode_closeTable state)

private theorem advances_switch {kind : SectionKind}
    (read : classify line = .ok (.directive (.switch kind))) :
    Advances declared line index state (state.switch index kind) := by
  have ends (routine : String) : endsRoutine declared routine line = (kind != .text) := by
    simp [endsRoutine, read]
  refine ⟨?_, ?_, ?_, ?_, ?_⟩
  · simp [switch, switchKind?, read]
  · by_cases stays : kind = .text
    · simp [switch, endsOpen, ends, stays]
    · cases opened : state.routine <;> simp [switch, endsOpen, ends, stays, opened, openSpan]
  · by_cases stays : kind = .text
    · simp [switch, endsOpen, ends, stays, routineLabel?, read]
    · cases opened : state.routine <;>
        simp [switch, endsOpen, ends, stays, opened, routineLabel?, read]
  · simp [routineLabel?, read]
  · simp [instruction?, read]

private theorem advances_directive {d : Directive} (h : state.directive context index line d = .ok next)
    (read : classify line = .ok (.directive d)) :
    Advances declared line index state next := by
  have noStart : routineLabel? declared state.area line = none := by simp [routineLabel?, read]
  have noInstruction : (instruction? line).isSome → state.routine.isSome := by
    simp [instruction?, read]
  cases d with
  | switch kind =>
    obtain rfl := Except.ok.inj h
    exact advances_switch read
  | global symbol =>
    obtain rfl := Except.ok.inj h
    exact .of_closeRoutine (by simp [switchKind?, read]) noStart (by simp [endsRoutine, read])
      noInstruction
  | symbolType symbol isFunction =>
    cases isFunction with
    | true =>
      obtain rfl := Except.ok.inj h
      exact .of_closeRoutine (by simp [switchKind?, read]) noStart (by simp [endsRoutine, read])
        noInstruction
    | false =>
      obtain rfl := Except.ok.inj h
      exact .of_neutral (.refl state) (neutralLine_directive read nofun nofun nofun nofun)
        noInstruction
  | symbolSize symbol =>
    obtain rfl := Except.ok.inj h
    by_cases own : state.routine.map Prod.fst = some symbol
    · rw [if_pos own]
      apply Advances.of_closeRoutine (by simp [switchKind?, read]) noStart _ noInstruction
      intro name start opened
      have same : name = symbol := by simpa [opened] using own
      simp [endsRoutine, read, same]
    · rw [if_neg own]
      apply Advances.of_sameCode (.refl state) (by simp [switchKind?, read]) noStart _ noInstruction
      apply endsOpen_eq_false
      intro name start opened
      have differs : name ≠ symbol := by simpa [opened] using own
      simp [endsRoutine, read, differs.symm]
  | align alignment =>
    cases resolved : alignment.resolve context.format with
    | error fault => simp [directive, resolved] at h
    | ok align =>
      obtain rfl : _ = next := by simpa [directive, resolved] using h
      exact .of_neutral ⟨rfl, rfl, rfl⟩ (neutralLine_directive read nofun nofun nofun nofun)
        noInstruction
  | data name arguments =>
    exact .of_neutral (sameCode_data h) (neutralLine_directive read nofun nofun nofun nofun)
      noInstruction
  | bookkeeping name =>
    obtain rfl := Except.ok.inj h
    exact .of_neutral (.refl state) (neutralLine_directive read nofun nofun nofun nofun)
      noInstruction
  | other name =>
    obtain rfl := Except.ok.inj h
    exact .of_neutral (.refl state) (neutralLine_directive read nofun nofun nofun nofun)
      noInstruction

/-- What a line does to the section and the routines, provided that routines are open in text
alone. -/
theorem advances_step (h : state.step context (line, index) = .ok next)
    (openInText : state.routine.isSome → state.area = .text) :
    Advances context.declared line index state next := by
  cases read : classify line with
  | error fault => simp [step, read] at h
  | ok kind =>
    cases kind with
    | blank =>
      simp only [step, read] at h
      obtain rfl := Except.ok.inj h
      exact .of_neutral (.refl state) (neutralLine_blank read) (by simp [instruction?, read])
    | label name =>
      simp only [step, read] at h
      exact advances_label h read openInText
    | directive d =>
      simp only [step, read] at h
      exact advances_directive h read
    | instruction text =>
      simp only [step, read] at h
      split at h
      case isTrue inRoutine =>
        obtain rfl := Except.ok.inj h
        exact .of_neutral (.refl state) (neutralLine_instruction read) fun _ => inRoutine
      case isFalse => simp at h

theorem endsOpen_of_starts (starts : routineLabel? declared state.area line = some name)
    (opened : state.routine.isSome) : state.endsOpen declared line := by
  obtain ⟨routine, opened⟩ := Option.isSome_iff_exists.1 opened
  simp [endsOpen, opened, endsRoutine_of_routineLabel? routine.1 starts]

/-- A line that starts a routine leaves no earlier one open. -/
theorem Advances.segments_of_starts (step : Advances declared line index state next)
    (starts : routineLabel? declared state.area line = some name) :
    next.segments = state.segments ++ (state.openSpan index).toList := by
  rw [step.segments]
  by_cases opened : state.routine.isSome
  · rw [if_pos (endsOpen_of_starts starts opened)]
  · have closed : state.routine = none := by simpa using opened
    simp [openSpan, closed]

theorem Advances.segments_append_openSpan (step : Advances declared line index state next) :
    next.segments ++ (next.openSpan (index + 1)).toList =
      state.segments ++ (state.openSpan
          (if state.endsOpen declared line then index else index + 1)).toList ++
        ((routineLabel? declared state.area line).map fun name =>
          (⟨name, index + 1, index + 1⟩ : Segment)).toList := by
  have routine := step.routine
  cases starts : routineLabel? declared state.area line with
  | none =>
    rw [starts] at routine
    cases ends : state.endsOpen declared line <;> simp [step.segments, openSpan, routine, ends]
  | some name =>
    rw [starts] at routine
    have newest : next.openSpan (index + 1) = some ⟨name, index + 1, index + 1⟩ := by
      simp [openSpan, routine]
    rw [step.segments_of_starts starts, newest]
    by_cases opened : state.routine.isSome
    · simp [endsOpen_of_starts starts opened]
    · have closed : state.routine = none := by simpa using opened
      simp [openSpan, closed]

end SegmenterState

end AsmTranslit
