import AsmTranslit.Failure

/-!
# Segmentation

The routines and the read-only tables of a listing, found in one pass.  A routine starts at a label in
a text section whose name is declared anywhere in the listing; it ends at the next such label, at a
declaration, at its own size, or at a switch to another kind of section.  A table starts at a label in
a read-only section and ends at the next label or switch.
-/

namespace AsmTranslit

/-- The body of a routine: the lines with indexes from `start` up to but not including `stop`. -/
structure Segment where
  name : String
  start : Nat
  stop : Nat
  deriving DecidableEq, Repr

/-- The numbers of the first and the last line of the body, counted from one; both are the line after
the label if the body is empty. -/
def Segment.lineRange (segment : Segment) : Nat × Nat :=
  (segment.start + 1, max segment.stop (segment.start + 1))

def Segment.isEmpty (segment : Segment) : Bool :=
  segment.start == segment.stop

/-- The lines of the body with their indexes; none if the range is not one of the listing. -/
def Segment.body (segment : Segment) (lines : List String) : List (String × Nat) :=
  if segment.start ≤ segment.stop ∧ segment.stop ≤ lines.length then
    ((lines.drop segment.start).take (segment.stop - segment.start)).zipIdx segment.start
  else []

structure Segmentation where
  segments : List Segment
  tables : List DataTable
  deriving DecidableEq, Repr

def declaredRoutine? (line : String) : Option String :=
  match classify line with
  | .ok (.directive (.global symbol)) => some symbol
  | .ok (.directive (.symbolType symbol true)) => some symbol
  | _ => none

/-- The symbols that are declared to be routines anywhere in a listing. -/
def declaredRoutines (lines : List String) : List String :=
  lines.filterMap declaredRoutine?

structure ListingContext where
  declared : List String
  format : ObjectFormat
  deriving DecidableEq, Repr

def ListingContext.ofLines (lines : List String) : ListingContext :=
  ⟨declaredRoutines lines, .ofLines lines⟩

structure SegmenterState where
  area : SectionKind := .text
  /-- The name of the open routine and the index of its first line. -/
  routine : Option (String × Nat) := none
  table : Option TableBuilder := none
  /-- The greatest alignment since the last switch, label or data in read-only sections. -/
  pendingAlign : Option Nat := none
  segments : List Segment := []
  tables : List DataTable := []
  deriving DecidableEq, Repr

namespace SegmenterState

def closeRoutine (state : SegmenterState) (index : Nat) : SegmenterState :=
  match state.routine with
  | none => state
  | some (name, start) =>
    { state with routine := none, segments := state.segments ++ [⟨name, start, index⟩] }

def closeTable (state : SegmenterState) : SegmenterState :=
  match state.table with
  | none => state
  | some builder => { state with table := none, tables := state.tables ++ [builder.finish] }

def failure (state : SegmenterState) (index : Nat) (text : String) (fault : StructuralFault) :
    Failure :=
  ⟨.at index (state.routine.map Prod.fst) text, .structural fault⟩

def openRoutine (state : SegmenterState) (index : Nat) (text name : String) :
    Except Failure SegmenterState :=
  let closed := (state.closeRoutine index).closeTable
  if closed.segments.any (·.name == name) then
    .error (closed.failure index text (.repeatedRoutine name))
  else .ok { closed with routine := some (name, index + 1) }

def openTable (state : SegmenterState) (index : Nat) (text label : String) :
    Except Failure SegmenterState :=
  let closed := { state.closeTable with pendingAlign := none }
  match closed.tables.find? (fun table => table.symbol == goSymbol label) with
  | some table =>
    .error (closed.failure index text
      (if table.label = label then .repeatedTable label
      else .symbolClash table.label label (goSymbol label)))
  | none => .ok { closed with table := some { label, align := state.pendingAlign.getD 1 } }

def label (context : ListingContext) (state : SegmenterState) (index : Nat) (text name : String) :
    Except Failure SegmenterState :=
  match state.area with
  | .text => if context.declared.contains name then state.openRoutine index text name else .ok state
  | .readOnlyData => state.openTable index text name
  | .writableData => .ok state.closeTable
  | .other => .ok state.closeTable

def data (state : SegmenterState) (index : Nat) (text name arguments : String) :
    Except Failure SegmenterState :=
  match state.area with
  | .readOnlyData =>
    match state.table with
    | none => .error (state.failure index text .unlabelledData)
    | some builder =>
      let padded := match state.pendingAlign with
        | some align => builder.padTo align
        | none => builder
      match padded.define name arguments with
      | (_, some fault) => .error (state.failure index text (.data builder.label fault))
      | (defined, none) => .ok { state with table := some defined, pendingAlign := none }
  | _ => .ok state

/-- Take in a switch of section, which ends the open table and, unless it stays in text, the open
routine. -/
def switch (state : SegmenterState) (index : Nat) (kind : SectionKind) : SegmenterState :=
  let closed := if kind = .text then state else state.closeRoutine index
  { closed.closeTable with pendingAlign := none, area := kind }

def directive (context : ListingContext) (state : SegmenterState) (index : Nat) (text : String) :
    Directive → Except Failure SegmenterState
  | .switch kind => .ok (state.switch index kind)
  | .global _ => .ok (state.closeRoutine index)
  | .symbolType _ true => .ok (state.closeRoutine index)
  | .symbolSize symbol =>
    .ok (if state.routine.map Prod.fst = some symbol then state.closeRoutine index else state)
  | .align alignment =>
    match alignment.resolve context.format with
    | .error fault => .error (state.failure index text (.alignment fault))
    | .ok align => .ok { state with pendingAlign := some (max (state.pendingAlign.getD 0) align) }
  | .data name arguments => state.data index text name arguments
  | _ => .ok state

def step (context : ListingContext) (state : SegmenterState) (line : String × Nat) :
    Except Failure SegmenterState :=
  let (text, index) := line
  match classify text with
  | .error fault => .error (state.failure index text (.line fault))
  | .ok .blank => .ok state
  | .ok (.label name) => state.label context index text name
  | .ok (.directive d) => state.directive context index text d
  | .ok (.instruction _) =>
    if state.routine.isSome then .ok state else .error (state.failure index text .strayInstruction)

def finish (state : SegmenterState) (index : Nat) : Segmentation :=
  let closed := (state.closeRoutine index).closeTable
  ⟨closed.segments, closed.tables⟩

end SegmenterState

def Segmentation.ofLines (lines : List String) : Except Failure Segmentation := do
  let context := ListingContext.ofLines lines
  let state ← lines.zipIdx.foldlM (SegmenterState.step context) {}
  return state.finish lines.length

end AsmTranslit
