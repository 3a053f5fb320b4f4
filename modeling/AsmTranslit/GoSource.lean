import AsmTranslit.Listing
import AsmTranslit.RoutineBody

/-!
# Go assembler source

The whole result for a listing.  Routines keep their order; in front of each stand the tables it uses
that no routine before it has brought, so every table is written once and before its first use.  One
failure anywhere means no result.
-/

namespace AsmTranslit

structure Options where
  policy : TablePolicy := .allReferenced
  list : Bool := false
  deriving DecidableEq, Repr

structure RoutineUnit where
  segment : Segment
  correlation : Correlation
  body : RoutineBody
  deriving DecidableEq, Repr

namespace RoutineUnit

def ofSegment (options : Options) (lines : List String) (tables : List DataTable)
    (segment : Segment) : Except Failure RoutineUnit := do
  let correlation := correlate options.policy segment lines tables
  let body ← RoutineBody.ofSegment segment lines (correlation.tables.map Prod.fst)
  return ⟨segment, correlation, body⟩

def tablePlaces (routine : RoutineUnit) : List Nat :=
  routine.correlation.tables.map Prod.snd

/-- The lines of the routine's tables that are not among those written before. -/
def tableLines (written : List Nat) (routine : RoutineUnit) : List GoLine :=
  (routine.correlation.tables.filter fun entry => !written.contains entry.2).flatMap fun entry =>
    entry.1.lines ++ [.blank]

def routineLines (routine : RoutineUnit) : List GoLine :=
  [.entry routine.segment.name, .blank] ++ routine.body.lines ++
    [.instruction none "VZEROUPPER" [], .instruction none "RET" []]

def summary (routine : RoutineUnit) : RoutineSummary where
  name := routine.segment.name
  first := routine.segment.lineRange.1
  last := routine.segment.lineRange.2
  instructions := routine.body.instructions
  tables := routine.correlation.tables.map fun entry => entry.1.label

end RoutineUnit

def routineBlocks (written : List Nat) : List RoutineUnit → List (List GoLine)
  | [] => []
  | routine :: routines =>
    (routine.tableLines written ++ routine.routineLines) ::
      routineBlocks (written ++ routine.tablePlaces) routines

structure GoSource where
  /-- The lines after the header. -/
  lines : List GoLine
  warnings : List Warning
  listing : Option Listing
  deriving DecidableEq, Repr

namespace GoSource

def header : List String :=
  ["//+build !noasm !appengine", "// AUTO-GENERATED BY C2GOASM -- DO NOT EDIT", ""]

/-- The result that routines make; two blank lines separate them. -/
def ofRoutines (options : Options) (routines : List RoutineUnit) : GoSource where
  lines := List.intercalate [.blank, .blank] (routineBlocks [] routines)
  warnings := routines.filterMap fun routine => routine.correlation.warning
  listing := if options.list then some ⟨routines.map RoutineUnit.summary⟩ else none

def ofLines (options : Options) (lines : List String) : Except Failure GoSource := do
  let segmentation ← Segmentation.ofLines lines
  let routines ← segmentation.segments.mapM
    (RoutineUnit.ofSegment options lines segmentation.tables)
  return ofRoutines options routines

/-- The text of the file, header included, every line of which is ended. -/
def text (source : GoSource) : String :=
  String.join ((header ++ source.lines.map GoLine.text).map (· ++ "\n"))

end GoSource

end AsmTranslit
