import AsmTranslit.Segmentation

/-!
# Correlation

Which tables a routine uses.  A routine uses a table if one of its instructions mentions the table's
label as a whole symbol.  A policy decides whether all of these tables are associated with the routine
or the first alone.
-/

namespace AsmTranslit

inductive TablePolicy
  | allReferenced
  /-- The first in table order; references to the others stay unresolved. -/
  | firstMatch
  deriving DecidableEq, Repr

/-- Whether a neighbouring character, if there is one, keeps a match from being a whole symbol. -/
def joins (neighbour : Option Char) : Bool :=
  neighbour.any isSymbolChar

/-- Whether the symbol with the characters `s :: ss` stands by itself in a text that `before`
precedes.  Matches are taken from the left and do not overlap. -/
def mentionsAfter (before : Option Char) (s : Char) (ss : List Char) : List Char → Bool
  | [] => false
  | c :: cs =>
    if (s :: ss).isPrefixOf (c :: cs) then
      let after := cs.drop ss.length
      (!joins before && !joins after.head?) || mentionsAfter (s :: ss).getLast? s ss after
    else mentionsAfter (some c) s ss cs
termination_by cs => cs.length
decreasing_by
  · simp only [List.length_drop, List.length_cons]
    omega
  · simp

/-- Whether a text mentions a symbol as a whole; the empty symbol is never mentioned. -/
def mentions (text symbol : String) : Bool :=
  match symbol.toList with
  | [] => false
  | s :: ss => mentionsAfter none s ss text.toList

def instruction? (line : String) : Option String :=
  match classify line with
  | .ok (.instruction text) => some text
  | _ => none

theorem instruction?_eq_some_iff {line text : String} :
    instruction? line = some text ↔ classify line = .ok (.instruction text) := by
  fun_cases instruction? line with
  | case1 other read => simp [read]
  | case2 noInstruction => simpa using noInstruction text

def referencedTables (segment : Segment) (lines : List String) (tables : List DataTable) :
    List (DataTable × Nat) :=
  let texts := (segment.body lines).filterMap fun line => instruction? line.1
  tables.zipIdx.filter fun entry => texts.any fun text => mentions text entry.1.label

/-- The tables associated with a routine, with their places in the list, and the warning that some
others are not. -/
structure Correlation where
  tables : List (DataTable × Nat)
  warning : Option Warning
  deriving DecidableEq, Repr

def warning? (routine : String) : List (DataTable × Nat) → Option Warning
  | first :: second :: rest =>
    some ⟨routine, first.1.label, (second :: rest).map fun entry => entry.1.label⟩
  | _ => none

def correlate (policy : TablePolicy) (segment : Segment) (lines : List String)
    (tables : List DataTable) : Correlation :=
  let referenced := referencedTables segment lines tables
  match policy with
  | .allReferenced => ⟨referenced, none⟩
  | .firstMatch => ⟨referenced.take 1, warning? segment.name referenced⟩

end AsmTranslit
