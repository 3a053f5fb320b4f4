import AsmTranslit.Proofs.LineContents
import AsmTranslit.Proofs.RoutineSpans
import AsmTranslit.Proofs.UnresolvedReferences

/-!
# Failure locations

Where a failure says that it is.  It names a line of the listing by its number, and if it names a
routine, the line is one of the routine's.  Faults of the structure and of directives quote the line as
it is written; faults of an instruction quote it without its comment.
-/

namespace AsmTranslit

variable {declared lines : List String} {line text name : String} {index : Nat}
  {failure : Failure}

private theorem trimText_of_classify (read : classify line = .ok (.instruction text)) :
    trimText text = trimText (stripComment line) := by
  have isContent : text = String.ofList (lineContent line) := by
    rw [classify] at read
    revert read
    fun_cases classifyContent (lineContent line) with
    | case4 _ _ name arguments =>
      cases readDirective name (trim arguments) <;> simp [Except.map]
    | case5 =>
      intro read
      simpa using read.symm
    | _ => simp
  rw [isContent, trimText, trimText, stripComment, String.toList_ofList, String.toList_ofList]
  exact congrArg String.ofList (trim_trim _)

/-- Whether a cause is found in the parts of an instruction. -/
def Cause.isOfInstruction : Cause → Bool
  | structural _ => false
  | unsupportedDirective _ => false
  | _ => true

structure Failure.IsAt (failure : Failure) (line : String) (index : Nat) : Prop where
  number : failure.location.line = index + 1
  text : failure.location.text =
    trimText (if failure.cause.isOfInstruction then stripComment line else line)

theorem isAt_structural (routine : Option String) (line : String) (index : Nat)
    (fault : StructuralFault) :
    Failure.IsAt ⟨.at index routine line, .structural fault⟩ line index where
  number := rfl
  text := rfl

namespace SegmenterState

variable {context : ListingContext} {state closed : SegmenterState}

/-- How a line fails.  The failure names no routine but the open one, and that only if the line does
not end it. -/
structure FailsAt (declared : List String) (state : SegmenterState) (line : String) (index : Nat)
    (failure : Failure) : Prop where
  isAt : failure.IsAt line index
  inRoutine : ∀ name, failure.location.routine = some name →
    state.routine.map Prod.fst = some name ∧ endsRoutine declared name line = false

theorem failsAt_failure (keeps : ∀ name, endsRoutine declared name line = false)
    (fault : StructuralFault) :
    FailsAt declared state line index (state.failure index line fault) where
  isAt := isAt_structural _ _ _ _
  inRoutine := fun name named => ⟨named, keeps name⟩

theorem failsAt_of_closed (noRoutine : closed.routine = none) (fault : StructuralFault) :
    FailsAt declared state line index (closed.failure index line fault) where
  isAt := isAt_structural _ _ _ _
  inRoutine := by simp [failure, Location.at, noRoutine]

private theorem fails_openRoutine :
    FailsWith (FailsAt declared state line index) (state.openRoutine index line name) := by
  rw [openRoutine]
  split
  case isTrue => exact .error (failsAt_of_closed (by simp) _)
  case isFalse => exact .ok _

private theorem fails_openTable (noRoutine : state.routine = none) :
    FailsWith (FailsAt declared state line index) (state.openTable index line name) := by
  rw [openTable]
  split
  case h_1 => exact .error (failsAt_of_closed (by simp [noRoutine]) _)
  case h_2 => exact .ok _

private theorem fails_label (noRoutine : state.area ≠ .text → state.routine = none) :
    FailsWith (FailsAt declared state line index) (state.label context index line name) := by
  rw [label]
  split
  case h_1 =>
    split
    -- the open routine ends before the new name is looked up, so the fault names no routine
    case isTrue => exact fails_openRoutine
    case isFalse => exact .ok _
  case h_2 area => exact fails_openTable (noRoutine (by simp [area]))
  case h_3 => exact .ok _
  case h_4 => exact .ok _

private theorem fails_data (noRoutine : state.area ≠ .text → state.routine = none) (arguments : String) :
    FailsWith (FailsAt declared state line index) (state.data index line name arguments) := by
  fun_cases data state index line name arguments with
  | case1 area => exact .error (failsAt_of_closed (noRoutine (by simp [area])) _)
  | case2 area => exact .error (failsAt_of_closed (noRoutine (by simp [area])) _)
  | case3 => exact .ok _
  | case4 => exact .ok _

private theorem fails_directive (noRoutine : state.area ≠ .text → state.routine = none) {d : Directive}
    (read : classify line = .ok (.directive d)) :
    FailsWith (FailsAt declared state line index) (state.directive context index line d) := by
  cases d with
  | align alignment =>
    have neutral : NeutralLine declared line := neutralLine_directive read nofun nofun nofun nofun
    rw [directive]
    split
    case h_1 => exact .error (failsAt_failure neutral.noEnd _)
    case h_2 => exact .ok _
  | data name arguments => exact fails_data noRoutine arguments
  | symbolType symbol isFunction => cases isFunction <;> exact .ok _
  | _ => exact .ok _

private theorem fails_step (openInText : state.routine.isSome → state.area = .text) :
    FailsWith (FailsAt declared state line index) (state.step context (line, index)) := by
  have noRoutine (area : state.area ≠ .text) : state.routine = none := by
    rw [← Option.not_isSome_iff_eq_none]
    exact fun opened => area (openInText opened)
  simp only [step]
  split
  case h_1 fault malformed =>
    exact .error (failsAt_failure (fun name => by simp [endsRoutine, malformed]) _)
  case h_2 => exact .ok _
  case h_3 => exact fails_label noRoutine
  case h_4 read => exact fails_directive noRoutine read
  case h_5 =>
    split
    case isTrue => exact .ok _
    case isFalse closed => exact .error (failsAt_of_closed (by simpa using closed) _)

end SegmenterState

/-- A failure points into a listing: to a line, and to the routine that the line belongs to. -/
structure Failure.PointsAt (failure : Failure) (lines : List String) (line : String) (index : Nat) :
    Prop where
  read : lines[index]? = some line
  isAt : failure.IsAt line index
  inRoutine : ∀ name, failure.location.routine = some name →
    ∃ span ∈ routineSpans (declaredRoutines lines) lines, span.name = name ∧ span.Contains index

theorem Segmentation.exists_pointsAt (h : Segmentation.ofLines lines = .error failure) :
    ∃ line index, failure.PointsAt lines line index := by
  rw [Segmentation.ofLines] at h
  rcases bind_eq_error_iff.1 h with h | ⟨state, -, done⟩
  · obtain ⟨done, line, rest, state, split, run, failed⟩ := exists_error_of_foldlM h
    -- the run up to the failing line tracks its routines by the declarations of the whole listing
    have tracks := SegmenterState.tracks_run run
    rw [Nat.zero_add] at failed
    have failsAt : SegmenterState.FailsAt (ListingContext.ofLines lines).declared state line
        done.length failure := SegmenterState.fails_step tracks.openInText failure failed
    refine ⟨line, done.length, ?_, failsAt.isAt, ?_⟩
    · simp [split]
    · intro name named
      obtain ⟨opened, keeps⟩ := failsAt.inRoutine name named
      obtain ⟨span, member, isName, inside⟩ := tracks.exists_span opened keeps
      obtain ⟨later, isSpan, sameName, inLater⟩ := exists_span_append member inside rest
      refine ⟨later, ?_, sameName.trans isName, inLater⟩
      simpa [split, ListingContext.ofLines] using isSpan
  · cases done

section Body

variable {context : BodyContext} {last : Option Nat} {segment : Segment} {tables : List DataTable}

theorem isOfInstruction_renderFault (fault : RenderFault) : fault.cause.isOfInstruction := by
  cases fault <;> rfl

private theorem fails_arrangeInstruction (isLast : Bool) (name : String) (rule : Rule)
    (modifier : Option GoPrefix) (go : String) (operands : List Operand) :
    FailsWith (fun cause => cause.isOfInstruction)
      (arrangeInstruction context isLast name rule modifier go operands) := by
  rw [arrangeInstruction]
  split
  case h_1 =>
    split
    case isTrue => exact .error rfl
    case isFalse => split <;> exact .ok _
  case h_2 => exact .ok _
  case h_3 => exact .ok _
  case h_4 =>
    apply FailsWith.bind
    · exact .mapError _ isOfInstruction_renderFault
    · intro targets
      split
      case isTrue => exact .ok _
      case isFalse => exact .error rfl
  case h_5 =>
    apply FailsWith.bind
    · exact .mapError _ isOfInstruction_renderFault
    · intro rendered
      exact .ok _
  case h_6 =>
    apply FailsWith.bind
    · exact .mapError _ isOfInstruction_renderFault
    · intro rendered
      exact .ok _

private theorem fails_instructionLines (isLast : Bool) (text : String) :
    FailsWith (fun cause => cause.isOfInstruction) (instructionLines context isLast text) := by
  simp only [instructionLines]
  split
  case h_1 => exact .error rfl
  case h_2 =>
    apply FailsWith.bind
    · exact .mapError _ fun _ => rfl
    intro modifier
    apply FailsWith.bind
    · exact .mapError _ fun _ => rfl
    intro operands
    apply FailsWith.bind
    · exact .mapError _ fun _ => rfl
    intro go
    exact fails_arrangeInstruction _ _ _ _ _ _

def Failure.InBody (failure : Failure) (routine : String) (body : List (String × Nat)) : Prop :=
  failure.location.routine = some routine ∧ ∃ entry ∈ body, failure.IsAt entry.1 entry.2

theorem Failure.InBody.cons {routine : String} {body : List (String × Nat)}
    (h : failure.InBody routine body) (entry : String × Nat) :
    failure.InBody routine (entry :: body) := by
  obtain ⟨named, other, member, isAt⟩ := h
  exact ⟨named, other, List.mem_cons_of_mem _ member, isAt⟩

private theorem fails_definedLabels (routine : String) (seen : List String) (body : List (String × Nat)) :
    FailsWith (·.InBody routine body) (definedLabels routine seen body) := by
  fun_induction definedLabels routine seen body with
  | case1 => exact .ok _
  | case2 seen text index body noLabel ih =>
    intro failure h
    exact (ih failure h).cons _
  | case3 seen text index body name isLabel repeated =>
    exact .error ⟨rfl, _, List.mem_cons_self, isAt_structural _ _ _ _⟩
  | case4 seen text index body name isLabel fresh ih =>
    apply FailsWith.bind
    · intro failure h
      exact (ih failure h).cons _
    · intro names
      exact .ok _

private theorem fails_lineGroup (line : String) (index : Nat) :
    FailsWith (fun failure => failure.location.routine = some context.routine ∧
      failure.IsAt line index) (lineGroup context last (line, index)) := by
  simp only [lineGroup]
  split
  case h_1 => exact .error ⟨rfl, isAt_structural _ _ _ _⟩
  case h_6 => exact .error ⟨rfl, rfl, rfl⟩
  case h_7 content read =>
    intro failure h
    obtain ⟨cause, failed, rfl⟩ := mapError_eq_error_iff.1 h
    have ofInstruction : cause.isOfInstruction := fails_instructionLines _ _ _ failed
    refine ⟨rfl, rfl, ?_⟩
    simp only [ofInstruction, if_true]
    exact trimText_of_classify read
  all_goals exact .ok _

private theorem RoutineBody.fails_ofSegment :
    FailsWith (·.InBody segment.name (segment.body lines)) (ofSegment segment lines tables) := by
  rw [ofSegment]
  apply (fails_definedLabels segment.name [] (segment.body lines)).bind
  intro defined
  apply FailsWith.bind
  · intro failure h
    obtain ⟨entry, member, failed⟩ := exists_error_of_mapM h
    obtain ⟨named, isAt⟩ := fails_lineGroup entry.1 entry.2 failure failed
    exact ⟨named, entry, member, isAt⟩
  · intro groups
    exact .ok _

end Body

namespace GoSource

variable {options : Options}

theorem exists_pointsAt (h : ofLines options lines = .error failure) :
    ∃ line index, failure.PointsAt lines line index := by
  cases segmented : Segmentation.ofLines lines with
  | error fault =>
    obtain rfl : fault = failure := by simpa [ofLines, segmented, bind, Except.bind] using h
    exact Segmentation.exists_pointsAt segmented
  | ok segmentation =>
    obtain ⟨segment, member, failed⟩ := exists_segment_of_error segmented h
    rw [Segmentation.segments_eq_routineSpans segmented] at member
    obtain ⟨begun, ended⟩ := bounds_of_mem_routineSpans member
    obtain ⟨named, ⟨line, index⟩, inBody, isAt⟩ := RoutineBody.fails_ofSegment failure failed
    obtain ⟨read, inside⟩ := (segment.mem_body_iff begun ended).1 inBody
    refine ⟨line, index, read, isAt, ?_⟩
    intro name isName
    obtain rfl : segment.name = name := Option.some.inj (named.symm.trans isName)
    exact ⟨segment, member, rfl, inside⟩

/-- Where a failure is.  It names one of the lines by its number, counted from one, and quotes it
without surrounding blanks, and without its comment if the cause is found in an instruction.  If it
names a routine, the line is between the label of the routine and its end. -/
theorem failure_located (h : ofLines options lines = .error failure) :
    1 ≤ failure.location.line ∧ failure.location.line ≤ lines.length ∧
    ∃ line index, lines[index]? = some line ∧ failure.location.line = index + 1 ∧
      failure.location.text =
        trimText (if failure.cause.isOfInstruction then stripComment line else line) ∧
      ∀ name, failure.location.routine = some name →
        ∃ span ∈ routineSpans (declaredRoutines lines) lines, span.name = name ∧
          span.Contains index := by
  obtain ⟨line, index, points⟩ := exists_pointsAt h
  have number := points.isAt.number
  have inside : index < lines.length := (List.getElem?_eq_some_iff.1 points.read).1
  refine ⟨?_, ?_, line, index, points.read, number, points.isAt.text, points.inRoutine⟩
  · omega
  · omega

/-- A data directive in a routine is quoted as it is written. -/
theorem failure_located_directive :
    ofLines {} [".globl f", "f:", "  .quad 1 # one", "ret"] =
      .error ⟨⟨3, some "f", ".quad 1 # one"⟩, .unsupportedDirective ".quad"⟩ ∧
    ∃ span ∈ routineSpans (declaredRoutines [".globl f", "f:", "  .quad 1 # one", "ret"])
      [".globl f", "f:", "  .quad 1 # one", "ret"], span.name = "f" ∧ span.Contains 2 := by
  have failed : ofLines {} [".globl f", "f:", "  .quad 1 # one", "ret"] =
      .error ⟨⟨3, some "f", ".quad 1 # one"⟩, .unsupportedDirective ".quad"⟩ := by
    decide +kernel
  obtain ⟨-, -, line, index, -, number, -, inRoutine⟩ := failure_located failed
  obtain rfl : 2 = index := Nat.succ.inj number
  exact ⟨failed, inRoutine "f" rfl⟩

/-- An instruction is not quoted as it is written: its comment is missing. -/
theorem comment_missing_from_location :
    ofLines {} [".globl f", "f:", "foo # bar"] =
      .error ⟨⟨3, some "f", "foo"⟩, .unsupportedInstruction "foo"⟩ ∧
    trimText "foo # bar" = "foo # bar" := by
  decide +kernel

end GoSource

end AsmTranslit
