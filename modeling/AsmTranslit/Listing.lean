/-!
# Listings

A summary of a result: a heading and a row for each routine, in columns.  Widths count code points,
and a text wider than its column pushes the rest to the right.
-/

namespace AsmTranslit

structure RoutineSummary where
  name : String
  /-- The numbers of the first and the last line of the body. -/
  first : Nat
  last : Nat
  instructions : Nat
  /-- The labels of the tables associated with the routine. -/
  tables : List String
  deriving DecidableEq, Repr

def alignLeft (width : Nat) (text : String) : String :=
  String.ofList (text.toList.rightpad width ' ')

def alignRight (width : Nat) (text : String) : String :=
  String.ofList (text.toList.leftpad width ' ')

def columns (name lines instructions : String) : String :=
  alignLeft 24 name ++ " " ++ alignRight 13 lines ++ " " ++ alignRight 6 instructions

def RoutineSummary.text (summary : RoutineSummary) : String :=
  columns summary.name (toString summary.first ++ "-" ++ toString summary.last)
      (toString summary.instructions) ++
    (if summary.tables.isEmpty then "" else "  " ++ " ".intercalate summary.tables)

structure Listing where
  routines : List RoutineSummary
  deriving DecidableEq, Repr

/-- The text of a listing, which ends every line. -/
def Listing.text (listing : Listing) : String :=
  String.join (((columns "ROUTINE" "LINES" "INSNS" ++ "  TABLES") ::
    listing.routines.map RoutineSummary.text).map (· ++ "\n"))

end AsmTranslit
