import AsmTranslit.Correlation
import AsmTranslit.Proofs.PairedRuns
import Mathlib.Order.Monotone.Basic

/-!
# Renumbered listings

What the segmenter makes of a listing that was edited where nothing counts: comments are taken away,
and so are lines that are passed over.  The lines that stay have new numbers.  The steps on a line and
on its counterpart lead to states that differ by these numbers alone, and a line that went away made no
step, so both passes fail, or both find the same tables, and the same routines at their new places.
-/

namespace AsmTranslit

universe u

/-- A line that is passed over: blank or bookkeeping, and no sign of an object format. -/
structure PassedOver (line : String) : Prop where
  skipped : classify line = .ok .blank ∨ ∃ name, classify line = .ok (.directive (.bookkeeping name))
  noFormat : isMachOOnly line = false

/-- Numbered lines with some taken away that are passed over.  Those that stay keep their content, and
`place` says where they go. -/
inductive Skims (place : Nat → Nat) : List (String × Nat) → List (String × Nat) → Prop
  | nil : Skims place [] []
  | keep {line other : String} {index : Nat} {rest others : List (String × Nat)}
      (same : lineContent other = lineContent line) (next : place (index + 1) = place index + 1)
      (later : Skims place rest others) :
      Skims place ((line, index) :: rest) ((other, place index) :: others)
  | drop {line : String} {index : Nat} {rest others : List (String × Nat)}
      (passed : PassedOver line) (later : Skims place rest others) :
      Skims place ((line, index) :: rest) others

/-- A whole listing with some lines taken away. -/
structure Renumbers (place : Nat → Nat) (lines edited : List String) : Prop where
  monotone : Monotone place
  skims : Skims place lines.zipIdx edited.zipIdx
  length : place lines.length = edited.length

variable {α : Type u} {place : Nat → Nat} {lines edited : List String} {line other : String}
  {index : Nat} {numbered others : List (String × Nat)} {context : ListingContext}
  {state : SegmenterState}

theorem lineContent_stripComment (line : String) :
    lineContent (stripComment line) = lineContent line := by
  simp [lineContent, stripComment]

theorem classify_congr (same : lineContent other = lineContent line) :
    classify other = classify line :=
  congrArg classifyContent same

private theorem isMachOOnly_congr (same : lineContent other = lineContent line) :
    isMachOOnly other = isMachOOnly line := by
  simp only [isMachOOnly, same]

private theorem declaredRoutine?_congr (same : lineContent other = lineContent line) :
    declaredRoutine? other = declaredRoutine? line := by
  simp only [declaredRoutine?, classify_congr same]

theorem instruction?_congr (same : lineContent other = lineContent line) :
    instruction? other = instruction? line := by
  simp only [instruction?, classify_congr same]

private theorem PassedOver.declaredRoutine?_eq_none (passed : PassedOver line) :
    declaredRoutine? line = none := by
  rcases passed.skipped with blank | ⟨name, directive⟩
  · simp [declaredRoutine?, blank]
  · simp [declaredRoutine?, directive]

theorem PassedOver.instruction?_eq_none (passed : PassedOver line) :
    instruction? line = none := by
  rcases passed.skipped with blank | ⟨name, directive⟩
  · simp [instruction?, blank]
  · simp [instruction?, directive]

namespace Skims

theorem append {more moreOthers : List (String × Nat)} (first : Skims place numbered others)
    (second : Skims place more moreOthers) : Skims place (numbered ++ more) (others ++ moreOthers) := by
  induction first with
  | nil => exact second
  | keep same next _ ih => exact .keep same next ih
  | drop passed _ ih => exact .drop passed ih

/-- Lines that keep their distances. -/
theorem of_zipIdx (lines : List String) (start : Nat)
    (next : ∀ index, start ≤ index → index < start + lines.length →
      place (index + 1) = place index + 1) :
    Skims place (lines.zipIdx start) (lines.zipIdx (place start)) := by
  induction lines generalizing start with
  | nil => exact .nil
  | cons line lines ih =>
    have here : place (start + 1) = place start + 1 := next start le_rfl (by simp)
    have later := ih (start + 1) fun index behind bound =>
      next index (by omega) (by rw [List.length_cons]; omega)
    rw [here] at later
    exact .keep rfl here later

/-- What is looked up in the content of the lines alone, and is not found in those that go. -/
theorem filterMap_eq {f : String → Option α} (h : Skims place numbered others)
    (content : ∀ line other, lineContent other = lineContent line → f other = f line)
    (nothing : ∀ line, PassedOver line → f line = none) :
    others.filterMap (fun entry => f entry.1) = numbered.filterMap fun entry => f entry.1 := by
  induction h with
  | nil => rfl
  | keep same _ _ ih => simp only [List.filterMap_cons, content _ _ same, ih]
  | drop passed _ ih => simp only [List.filterMap_cons, nothing _ passed, ih]

private theorem any_isMachOOnly (h : Skims place numbered others) :
    others.any (fun entry => isMachOOnly entry.1) = numbered.any fun entry => isMachOOnly entry.1 := by
  induction h with
  | nil => rfl
  | keep same _ _ ih => rw [List.any_cons, List.any_cons, isMachOOnly_congr same, ih]
  | drop passed _ ih => rw [List.any_cons, passed.noFormat, Bool.false_or, ih]

/-- A choice of lines by their numbers. -/
theorem filter {p q : Nat → Bool} (h : Skims place numbered others)
    (agree : ∀ index, place (index + 1) = place index + 1 → q (place index) = p index) :
    Skims place (numbered.filter fun entry => p entry.2) (others.filter fun entry => q entry.2) := by
  induction h with
  | nil => exact .nil
  | @keep _ _ index _ _ same next _ ih =>
    rw [List.filter_cons, List.filter_cons, agree index next]
    cases p index with
    | true => exact .keep same next ih
    | false => exact ih
  | @drop _ index _ _ passed _ ih =>
    rw [List.filter_cons]
    cases p index with
    | true => exact .drop passed ih
    | false => exact ih

end Skims

/-- A line in the place of another with the same content. -/
theorem renumbers_replace (before after : List String) (same : lineContent other = lineContent line) :
    Renumbers id (before ++ line :: after) (before ++ other :: after) where
  monotone := monotone_id
  skims := by
    have front : Skims id before.zipIdx before.zipIdx := .of_zipIdx before 0 fun _ _ _ => rfl
    have behind : Skims id (after.zipIdx (before.length + 1)) (after.zipIdx (before.length + 1)) :=
      .of_zipIdx after _ fun _ _ _ => rfl
    simp only [List.zipIdx_append, List.zipIdx_cons, Nat.zero_add]
    exact front.append (.keep same rfl behind)
  length := by simp

/-- Where lines go if the one with the given number is taken away. -/
def placeWithout (gone index : Nat) : Nat :=
  if index ≤ gone then index else index - 1

theorem placeWithout_of_le {gone : Nat} (h : index ≤ gone) : placeWithout gone index = index :=
  if_pos h

theorem placeWithout_succ {gone : Nat} (h : gone ≤ index) : placeWithout gone (index + 1) = index :=
  if_neg (by omega)

private theorem monotone_placeWithout (gone : Nat) : Monotone (placeWithout gone) := by
  intro i j le
  simp only [placeWithout]
  split <;> split <;> omega

theorem renumbers_delete (before after : List String) (passed : PassedOver line) :
    Renumbers (placeWithout before.length) (before ++ line :: after) (before ++ after) where
  monotone := monotone_placeWithout before.length
  skims := by
    have front : Skims (placeWithout before.length) before.zipIdx before.zipIdx := by
      apply Skims.of_zipIdx before 0
      intro index _ bound
      rw [placeWithout_of_le (by omega), placeWithout_of_le (by omega)]
    have behind : Skims (placeWithout before.length) (after.zipIdx (before.length + 1))
        (after.zipIdx (placeWithout before.length (before.length + 1))) := by
      apply Skims.of_zipIdx
      intro index bound _
      obtain ⟨n, rfl⟩ : ∃ n, index = n + 1 := ⟨index - 1, by omega⟩
      rw [placeWithout_succ (by omega), placeWithout_succ (by omega)]
    rw [placeWithout_succ le_rfl] at behind
    simp only [List.zipIdx_append, List.zipIdx_cons, Nat.zero_add]
    exact front.append (.drop passed behind)
  length := by
    rw [List.length_append, List.length_cons, ← Nat.add_assoc, placeWithout_succ (by omega),
      List.length_append]

/-- What the whole listing says is said by the lines that stay. -/
theorem ListingContext.ofLines_renumbers (h : Renumbers place lines edited) :
    ListingContext.ofLines edited = ListingContext.ofLines lines := by
  have unnumbered (lines : List String) : lines = lines.zipIdx.map Prod.fst :=
    (List.zipIdx_map_fst 0 lines).symm
  have declared : declaredRoutines edited = declaredRoutines lines := by
    rw [declaredRoutines, declaredRoutines, unnumbered edited, unnumbered lines, List.filterMap_map,
      List.filterMap_map]
    exact h.skims.filterMap_eq (fun _ _ => declaredRoutine?_congr) fun _ => (·.declaredRoutine?_eq_none)
  have format : ObjectFormat.ofLines edited = ObjectFormat.ofLines lines := by
    rw [ObjectFormat.ofLines, ObjectFormat.ofLines, unnumbered edited, unnumbered lines,
      List.any_map, List.any_map]
    exact congrArg (fun found : Bool => if found then ObjectFormat.machO else .elf)
      h.skims.any_isMachOOnly
  rw [ListingContext.ofLines, ListingContext.ofLines, declared, format]

def Segment.renumber (place : Nat → Nat) (segment : Segment) : Segment :=
  ⟨segment.name, place segment.start, place segment.stop⟩

namespace SegmenterState

/-- A state with its routines at their new places. -/
def renumber (place : Nat → Nat) (state : SegmenterState) : SegmenterState :=
  { state with
    routine := state.routine.map fun routine => (routine.1, place routine.2)
    segments := state.segments.map (Segment.renumber place) }

@[simp] theorem area_renumber (place : Nat → Nat) (state : SegmenterState) :
    (state.renumber place).area = state.area := rfl

@[simp] theorem table_renumber (place : Nat → Nat) (state : SegmenterState) :
    (state.renumber place).table = state.table := rfl

@[simp] theorem pendingAlign_renumber (place : Nat → Nat) (state : SegmenterState) :
    (state.renumber place).pendingAlign = state.pendingAlign := rfl

@[simp] theorem tables_renumber (place : Nat → Nat) (state : SegmenterState) :
    (state.renumber place).tables = state.tables := rfl

@[simp] theorem map_fst_routine_renumber (place : Nat → Nat) (state : SegmenterState) :
    (state.renumber place).routine.map Prod.fst = state.routine.map Prod.fst := by
  simp [renumber, Function.comp_def]

@[simp] theorem isSome_routine_renumber (place : Nat → Nat) (state : SegmenterState) :
    (state.renumber place).routine.isSome = state.routine.isSome := by
  simp [renumber]

@[simp] theorem any_name_renumber (place : Nat → Nat) (state : SegmenterState) (name : String) :
    (state.renumber place).segments.any (·.name == name) = state.segments.any (·.name == name) := by
  simp [renumber, Segment.renumber, Function.comp_def]

@[simp] theorem closeRoutine_renumber (place : Nat → Nat) (state : SegmenterState) (index : Nat) :
    (state.renumber place).closeRoutine (place index) = (state.closeRoutine index).renumber place := by
  cases opened : state.routine <;> simp [closeRoutine, renumber, opened, Segment.renumber]

@[simp] theorem closeTable_renumber (place : Nat → Nat) (state : SegmenterState) :
    (state.renumber place).closeTable = state.closeTable.renumber place := by
  cases opened : state.table <;> simp [closeTable, renumber, opened]

/-- The states of two passes that differ in the places of the routines alone. -/
def Follows (place : Nat → Nat) (state other : SegmenterState) : Prop :=
  other = state.renumber place

private theorem paired_openRoutine (state : SegmenterState) (next : place (index + 1) = place index + 1)
    (text new name : String) :
    Paired False (Follows place) (state.openRoutine index text name)
      ((state.renumber place).openRoutine (place index) new name) := by
  simp only [openRoutine, closeRoutine_renumber, closeTable_renumber, any_name_renumber]
  split
  case isTrue => exact .error _ _
  case isFalse => exact .ok (by simp [Follows, renumber, next])

private theorem paired_openTable (state : SegmenterState) (text new label : String) :
    Paired False (Follows place) (state.openTable index text label)
      ((state.renumber place).openTable (place index) new label) := by
  simp only [openTable, closeTable_renumber, tables_renumber, pendingAlign_renumber]
  split
  case h_1 => exact .error _ _
  case h_2 => exact .ok rfl

private theorem paired_label (state : SegmenterState) (next : place (index + 1) = place index + 1)
    (text new name : String) :
    Paired False (Follows place) (state.label context index text name)
      ((state.renumber place).label context (place index) new name) := by
  simp only [label, area_renumber, closeTable_renumber]
  cases state.area with
  | text =>
    dsimp only
    split
    case isTrue => exact paired_openRoutine state next text new name
    case isFalse => exact .ok rfl
  | readOnlyData => exact paired_openTable state text new name
  | writableData => exact .ok rfl
  | other => exact .ok rfl

private theorem paired_data (state : SegmenterState) (text new name arguments : String) :
    Paired False (Follows place) (state.data index text name arguments)
      ((state.renumber place).data (place index) new name arguments) := by
  simp only [data, area_renumber, table_renumber, pendingAlign_renumber]
  cases state.area with
  | readOnlyData =>
    cases state.table with
    | none => exact .error _ _
    | some builder =>
      dsimp only
      split
      case h_1 => exact .error _ _
      case h_2 => exact .ok rfl
  | _ => exact .ok rfl

private theorem switch_renumber (place : Nat → Nat) (state : SegmenterState) (index : Nat)
    (kind : SectionKind) :
    (state.renumber place).switch (place index) kind = (state.switch index kind).renumber place := by
  simp only [switch]
  split
  case isTrue => rw [closeTable_renumber]; rfl
  case isFalse => rw [closeRoutine_renumber, closeTable_renumber]; rfl

private theorem paired_directive (state : SegmenterState) (text new : String) (d : Directive) :
    Paired False (Follows place) (state.directive context index text d)
      ((state.renumber place).directive context (place index) new d) := by
  cases d with
  | switch kind => exact .ok (switch_renumber place state index kind)
  | global symbol => exact .ok (closeRoutine_renumber place state index)
  | symbolType symbol isFunction =>
    cases isFunction with
    | true => exact .ok (closeRoutine_renumber place state index)
    | false => exact .ok rfl
  | symbolSize symbol =>
    simp only [directive, map_fst_routine_renumber, closeRoutine_renumber]
    split
    case isTrue => exact .ok rfl
    case isFalse => exact .ok rfl
  | align alignment =>
    simp only [directive, pendingAlign_renumber]
    cases alignment.resolve context.format with
    | error fault => exact .error _ _
    | ok align => exact .ok rfl
  | data name arguments => exact paired_data state text new name arguments
  | bookkeeping name => exact .ok rfl
  | other name => exact .ok rfl

/-- A line that stays makes the step that it made. -/
theorem paired_step (state : SegmenterState) (same : lineContent other = lineContent line)
    (next : place (index + 1) = place index + 1) :
    Paired False (Follows place) (state.step context (line, index))
      ((state.renumber place).step context (other, place index)) := by
  simp only [step, classify_congr same, isSome_routine_renumber]
  split
  case h_1 => exact .error _ _
  case h_2 => exact .ok rfl
  case h_3 name _ => exact paired_label state next line other name
  case h_4 d _ => exact paired_directive state line other d
  case h_5 =>
    split
    case isTrue => exact .ok rfl
    case isFalse => exact .error _ _

/-- A line that is passed over makes no step. -/
theorem step_of_passedOver (context : ListingContext) (state : SegmenterState)
    (passed : PassedOver line) (index : Nat) : state.step context (line, index) = .ok state := by
  rcases passed.skipped with blank | ⟨name, bookkeeping⟩
  · simp only [step, blank]
  · simp only [step, bookkeeping, directive]

private theorem paired_run (h : Skims place numbered others) (state : SegmenterState) :
    Paired False (Follows place) (numbered.foldlM (step context) state)
      (others.foldlM (step context) (state.renumber place)) := by
  induction h generalizing state with
  | nil => exact .ok rfl
  | keep same next _ ih =>
    rw [List.foldlM_cons, List.foldlM_cons]
    apply (paired_step state same next).bind
    rintro reached _ rfl
    exact ih reached
  | @drop _ index _ _ passed _ ih =>
    rw [List.foldlM_cons, step_of_passedOver context state passed index]
    exact ih state

end SegmenterState

def Segmentation.renumber (place : Nat → Nat) (segmentation : Segmentation) : Segmentation :=
  ⟨segmentation.segments.map (Segment.renumber place), segmentation.tables⟩

private theorem SegmenterState.finish_renumber (place : Nat → Nat) (state : SegmenterState)
    (index : Nat) :
    (state.renumber place).finish (place index) = (state.finish index).renumber place := by
  simp only [finish, closeRoutine_renumber, closeTable_renumber]
  rfl

/-- The edited listing has the same tables, and the same routines at their new places. -/
theorem Segmentation.paired_ofLines (h : Renumbers place lines edited) :
    Paired False (fun segmentation other => other = segmentation.renumber place)
      (Segmentation.ofLines lines) (Segmentation.ofLines edited) := by
  simp only [Segmentation.ofLines, ListingContext.ofLines_renumbers h]
  apply (SegmenterState.paired_run h.skims {}).bind
  rintro reached _ rfl
  refine .ok ?_
  rw [← h.length, SegmenterState.finish_renumber]

end AsmTranslit
