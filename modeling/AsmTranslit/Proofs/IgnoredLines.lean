import AsmTranslit.GoSource
import AsmTranslit.Proofs.RenumberedListings
import AsmTranslit.Proofs.RoutineSpans

/-!
# Ignored lines

Comments, blank lines and bookkeeping leave no trace in the output.  A body from which such lines are
taken away has the same labels, branches and instructions in the same order, so it is written in the
same way or fails as well, and a line that went away had no Go lines.
-/

namespace AsmTranslit

variable {place : Nat → Nat} {lines edited : List String} {line other : String} {index : Nat}
  {numbered others : List (String × Nat)}

private theorem label?_congr (same : lineContent other = lineContent line) :
    label? other = label? line := by
  simp only [label?, classify_congr same]

private theorem PassedOver.label?_eq_none (passed : PassedOver line) : label? line = none := by
  rcases passed.skipped with blank | ⟨name, bookkeeping⟩
  · simp [label?, blank]
  · simp [label?, bookkeeping]

private theorem PassedOver.lineGroup_eq_nil (passed : PassedOver line) (context : BodyContext)
    (last : Option Nat) (index : Nat) : lineGroup context last (line, index) = .ok [] := by
  rcases passed.skipped with blank | ⟨name, bookkeeping⟩
  · simp [lineGroup, blank]
  · simp [lineGroup, bookkeeping]

section Places

variable (monotone : Monotone place) {i j : Nat}

include monotone

private theorem place_lt_iff (next : place (i + 1) = place i + 1) : place i < place j ↔ i < j := by
  constructor
  · intro lt
    by_contra behind
    have reached := monotone (Nat.le_of_not_lt behind)
    omega
  · intro lt
    have reached : place (i + 1) ≤ place j := monotone lt
    omega

theorem place_le_iff (next : place (j + 1) = place j + 1) : place i ≤ place j ↔ i ≤ j := by
  constructor
  · intro le
    by_contra behind
    have reached : place (j + 1) ≤ place i := monotone (Nat.lt_of_not_le behind)
    omega
  · intro le
    exact monotone le

private theorem place_eq_iff (first : place (i + 1) = place i + 1)
    (second : place (j + 1) = place j + 1) : place i = place j ↔ i = j := by
  rw [Nat.eq_iff_le_and_ge, Nat.eq_iff_le_and_ge, place_le_iff monotone first,
    place_le_iff monotone second]

end Places

/-- A body with lines taken away is the body of the routine at its new place. -/
theorem Renumbers.skims_body (h : Renumbers place lines edited) {segment : Segment}
    (begun : segment.start ≤ segment.stop) (ended : segment.stop ≤ lines.length) :
    Skims place (segment.body lines) ((segment.renumber place).body edited) := by
  have begun' : (segment.renumber place).start ≤ (segment.renumber place).stop := h.monotone begun
  have ended' : (segment.renumber place).stop ≤ edited.length := by
    rw [← h.length]
    exact h.monotone ended
  rw [segment.body_eq_filter begun ended, (segment.renumber place).body_eq_filter begun' ended']
  -- the line behind one that stays goes one place further, so no bound of the body slips past it
  apply h.skims.filter
  intro index next
  rw [Bool.eq_iff_iff, Segment.covers_eq_true_iff, Segment.covers_eq_true_iff]
  exact and_congr (place_le_iff h.monotone next) (place_lt_iff h.monotone next)

namespace Skims

private theorem branchTexts_eq (h : Skims place numbered others) :
    branchTexts others = branchTexts numbered := by
  rw [branchTexts, branchTexts,
    h.filterMap_eq (fun _ _ => instruction?_congr) fun _ => (·.instruction?_eq_none)]

private theorem paired_definedLabels (h : Skims place numbered others) (routine : String)
    (seen : List String) :
    Paired False Eq (definedLabels routine seen numbered) (definedLabels routine seen others) := by
  induction h generalizing seen with
  | nil => exact .same _
  | @keep line _ _ _ _ same _ _ ih =>
    simp only [definedLabels, label?_congr same]
    cases label? line with
    | none => exact ih seen
    | some name =>
      dsimp only
      split
      case isTrue => exact .error _ _
      case isFalse =>
        apply (ih (name :: seen)).bind_eq
        intro names
        exact .ok rfl
  | drop passed _ ih =>
    simp only [definedLabels, passed.label?_eq_none]
    exact ih seen

private theorem instruction_places (h : Skims place numbered others) :
    (others.filter fun entry => (instruction? entry.1).isSome).map Prod.snd =
      ((numbered.filter fun entry => (instruction? entry.1).isSome).map Prod.snd).map place := by
  induction h with
  | nil => rfl
  | @keep line _ _ _ _ same _ _ ih =>
    rw [List.filter_cons, List.filter_cons, instruction?_congr same]
    split
    case isTrue => rw [List.map_cons, List.map_cons, List.map_cons, ih]
    case isFalse => exact ih
  | drop passed _ ih =>
    rw [List.filter_cons, passed.instruction?_eq_none]
    exact ih

private theorem lastInstruction?_eq (h : Skims place numbered others) :
    lastInstruction? others = (lastInstruction? numbered).map place := by
  rw [lastInstruction?, lastInstruction?, ← List.getLast?_map, ← List.getLast?_map,
    h.instruction_places, List.getLast?_map]

private theorem next_of_instruction (h : Skims place numbered others) (member : (line, index) ∈ numbered)
    (isInstruction : (instruction? line).isSome) : place (index + 1) = place index + 1 := by
  induction h with
  | nil => simp at member
  | keep _ next _ ih =>
    rcases List.mem_cons.1 member with same | later
    · obtain ⟨rfl, rfl⟩ := Prod.mk.inj same
      exact next
    · exact ih later
  | drop passed _ ih =>
    rcases List.mem_cons.1 member with same | later
    · obtain ⟨rfl, rfl⟩ := Prod.mk.inj same
      simp [passed.instruction?_eq_none] at isInstruction
    · exact ih later

end Skims

private theorem Skims.isLast_eq (h : Skims place numbered others) (monotone : Monotone place)
    (next : place (index + 1) = place index + 1) :
    (lastInstruction? others == some (place index)) = (lastInstruction? numbered == some index) := by
  rw [h.lastInstruction?_eq]
  cases last : lastInstruction? numbered with
  | none => rfl
  | some found =>
    have stays : place (found + 1) = place found + 1 := by
      obtain ⟨entry, isLast, rfl⟩ := Option.map_eq_some_iff.1 last
      obtain ⟨member, isInstruction⟩ := List.mem_filter.1 (List.mem_of_getLast? isLast)
      exact h.next_of_instruction member isInstruction
    rw [Option.map_some, Bool.eq_iff_iff]
    simp [place_eq_iff monotone stays next]

/-- The groups of a body with lines taken away have the same lines. -/
theorem Skims.paired_groups (h : Skims place numbered others) (context : BodyContext)
    {last newLast : Option Nat}
    (isLast : ∀ index, place (index + 1) = place index + 1 →
      (newLast == some (place index)) = (last == some index)) :
    Paired False (fun groups other => other.flatten = groups.flatten)
      (numbered.mapM (lineGroup context last)) (others.mapM (lineGroup context newLast)) := by
  induction h with
  | nil => exact .ok rfl
  | @keep line other index _ _ same next _ ih =>
    have here : Paired False Eq (lineGroup context last (line, index))
        (lineGroup context newLast (other, place index)) := by
      simp only [lineGroup, classify_congr same, isLast index next]
      split
      case h_1 => exact .error _ _
      case h_6 => exact .error _ _
      case h_7 => exact (Paired.same _).mapError
      all_goals exact .ok rfl
    rw [List.mapM_cons, List.mapM_cons]
    apply here.bind_eq
    intro group
    apply ih.bind
    intro groups more equal
    exact .ok (by rw [List.flatten_cons, List.flatten_cons, equal])
  | drop passed _ ih =>
    rw [List.mapM_cons, passed.lineGroup_eq_nil, ← bind_pure (List.mapM (lineGroup context newLast) _)]
    apply ih.bind
    intro groups more equal
    exact .ok equal

namespace RoutineBody

theorem paired_renumber (h : Renumbers place lines edited) {segment : Segment}
    (begun : segment.start ≤ segment.stop) (ended : segment.stop ≤ lines.length)
    (tables : List DataTable) :
    Paired False (fun body other => other.lines = body.lines) (ofSegment segment lines tables)
      (ofSegment (segment.renumber place) edited tables) := by
  have skims := h.skims_body begun ended
  have name : (segment.renumber place).name = segment.name := rfl
  simp only [ofSegment, name, skims.branchTexts_eq]
  apply (skims.paired_definedLabels segment.name []).bind_eq
  intro defined
  apply (skims.paired_groups _ fun index => skims.isLast_eq h.monotone).bind
  intro groups other equal
  exact .ok equal

end RoutineBody

private theorem correlate_renumber (h : Renumbers place lines edited) {segment : Segment}
    (begun : segment.start ≤ segment.stop) (ended : segment.stop ≤ lines.length)
    (policy : TablePolicy) (tables : List DataTable) :
    correlate policy (segment.renumber place) edited tables =
      correlate policy segment lines tables := by
  have skims := h.skims_body begun ended
  have name : (segment.renumber place).name = segment.name := rfl
  have referenced : referencedTables (segment.renumber place) edited tables =
      referencedTables segment lines tables := by
    simp only [referencedTables,
      skims.filterMap_eq (fun _ _ => instruction?_congr) fun _ => (·.instruction?_eq_none)]
  simp only [correlate, referenced, name]

namespace RoutineUnit

/-- Two routines that show the same in the output. -/
structure SameOutput (first second : RoutineUnit) : Prop where
  name : second.segment.name = first.segment.name
  correlation : second.correlation = first.correlation
  lines : second.body.lines = first.body.lines

theorem paired_renumber (h : Renumbers place lines edited) {segment : Segment}
    (begun : segment.start ≤ segment.stop) (ended : segment.stop ≤ lines.length)
    (options : Options) (tables : List DataTable) :
    Paired False SameOutput (ofSegment options lines tables segment)
      (ofSegment options edited tables (segment.renumber place)) := by
  simp only [ofSegment, correlate_renumber h begun ended]
  apply (RoutineBody.paired_renumber h begun ended _).bind
  intro body other equal
  exact .ok ⟨rfl, rfl, equal⟩

end RoutineUnit

private theorem routineBlocks_eq_of_forall₂ {routines others : List RoutineUnit}
    (h : List.Forall₂ RoutineUnit.SameOutput routines others) (written : List Nat) :
    routineBlocks written others = routineBlocks written routines := by
  induction h generalizing written with
  | nil => rfl
  | cons same _ ih =>
    simp only [routineBlocks, RoutineUnit.tableLines, RoutineUnit.routineLines,
      RoutineUnit.tablePlaces, same.name, same.correlation, same.lines, ih]

private theorem warnings_eq_of_forall₂ {routines others : List RoutineUnit}
    (h : List.Forall₂ RoutineUnit.SameOutput routines others) :
    others.filterMap (fun routine => routine.correlation.warning) =
      routines.filterMap fun routine => routine.correlation.warning := by
  induction h with
  | nil => rfl
  | cons same _ ih => simp only [List.filterMap_cons, same.correlation, ih]

namespace GoSource

/-- What is put out for a listing, if it can be written: the lines of the file and the warnings. -/
def outcome (options : Options) (lines : List String) : Option (List GoLine × List Warning) :=
  (ofLines options lines).toOption.map fun source => (source.lines, source.warnings)

theorem outcome_eq_of_renumbers (h : Renumbers place lines edited) (options : Options) :
    outcome options edited = outcome options lines := by
  apply Paired.toOption_map_eq
  simp only [ofLines]
  apply (Segmentation.paired_ofLines h).remember.bind
  rintro segmentation _ ⟨segmented, rfl⟩
  have places : List.Forall₂
      (fun segment other => segment ∈ segmentation.segments ∧ other = segment.renumber place)
      segmentation.segments (segmentation.renumber place).segments :=
    List.forall₂_map_right_iff.2 (List.forall₂_same.2 fun segment member => ⟨member, rfl⟩)
  have routines : Paired False (List.Forall₂ RoutineUnit.SameOutput)
      (segmentation.segments.mapM (RoutineUnit.ofSegment options lines segmentation.tables))
      ((segmentation.renumber place).segments.mapM
        (RoutineUnit.ofSegment options edited segmentation.tables)) := by
    apply Paired.mapM places
    rintro segment _ ⟨member, rfl⟩
    rw [Segmentation.segments_eq_routineSpans segmented] at member
    obtain ⟨begun, ended⟩ := bounds_of_mem_routineSpans member
    exact RoutineUnit.paired_renumber h begun ended options segmentation.tables
  apply routines.bind
  intro routines others same
  refine .ok (Prod.ext ?_ ?_)
  · exact congrArg (List.intercalate _) (routineBlocks_eq_of_forall₂ same []).symm
  · exact (warnings_eq_of_forall₂ same).symm

/-- Comments, blank lines and bookkeeping leave no trace.  Without the comment of a line, or without a
blank or bookkeeping line that tells nothing of the object format, a listing can be written if it could
before, and the output and the warnings are the same. -/
theorem outcome_edit (options : Options) (before after : List String) (line : String) :
    outcome options (before ++ stripComment line :: after) =
      outcome options (before ++ line :: after) ∧
    (PassedOver line →
      outcome options (before ++ after) = outcome options (before ++ line :: after)) := by
  constructor
  · exact outcome_eq_of_renumbers
      (renumbers_replace before after (lineContent_stripComment line)) options
  · intro passed
    exact outcome_eq_of_renumbers (renumbers_delete before after passed) options

/-- A bookkeeping line with a quoted number sign and a comment, between a label and the branch to
it. -/
theorem outcome_edit_file :
    PassedOver ".file \"a#b.c\" # source" ∧
    outcome {} [".globl f", "f:", ".L:", "jne .L", "ret"] =
      some ([.entry "f", .blank, .label "f_L0", .instruction none "JNE" [.label "f_L0"],
        .instruction none "VZEROUPPER" [], .instruction none "RET" []], []) ∧
    outcome {} [".globl f", "f:", ".L:", ".file \"a#b.c\" # source", "jne .L", "ret"] =
      some ([.entry "f", .blank, .label "f_L0", .instruction none "JNE" [.label "f_L0"],
        .instruction none "VZEROUPPER" [], .instruction none "RET" []], []) := by
  have passed : PassedOver ".file \"a#b.c\" # source" :=
    ⟨.inr ⟨".file", by decide +kernel⟩, by decide +kernel⟩
  have without : outcome {} [".globl f", "f:", ".L:", "jne .L", "ret"] =
      some ([.entry "f", .blank, .label "f_L0", .instruction none "JNE" [.label "f_L0"],
        .instruction none "VZEROUPPER" [], .instruction none "RET" []], []) := by
    decide +kernel
  have same := (outcome_edit {} [".globl f", "f:", ".L:"] ["jne .L", "ret"]
    ".file \"a#b.c\" # source").2 passed
  exact ⟨passed, without, same.symm.trans without⟩

end GoSource

end AsmTranslit
