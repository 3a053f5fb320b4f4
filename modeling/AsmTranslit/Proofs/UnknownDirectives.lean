import AsmTranslit.Proofs.TableContents

/-!
# Unknown directives

The segmenter passes over directives that it does not know, wherever they stand.  A listing gives the
same routines and tables, or fails in the same way, with a blank line in the place of each of them, so
that data which such a directive defines is missing from its table.
-/

namespace AsmTranslit

/-- Whether a line is a directive that is not known. -/
def isUnknownDirective (line : String) : Bool :=
  match classify line with
  | .ok (.directive (.other _)) => true
  | _ => false

/-- A line, or a blank one in the place of an unknown directive. -/
def blankUnknown (line : String) : String :=
  if isUnknownDirective line then "" else line

variable {lines : List String} {line : String}

theorem exists_classify_of_isUnknownDirective (unknown : isUnknownDirective line) :
    ∃ name, classify line = .ok (.directive (.other name)) := by
  revert unknown
  fun_cases isUnknownDirective line with
  | case1 name read =>
    intro _
    exact ⟨name, read⟩
  | case2 => simp

/-- A name that Mach-O listings alone have is known. -/
theorem readDirective_ne_other {name : String} (h : name ∈ ".section" :: machONames)
    (arguments : List Char) (other : String) : readDirective name arguments ≠ .ok (.other other) := by
  simp only [machONames, List.mem_cons, List.not_mem_nil, or_false] at h
  rcases h with rfl | rfl | rfl | rfl | rfl | rfl | rfl | rfl | rfl | rfl | rfl | rfl | rfl <;>
    simp [readDirective, DataDirective.ofName?, bookkeepingNames]

private theorem isMachOOnly_of_isUnknownDirective (unknown : isUnknownDirective line) :
    isMachOOnly line = false := by
  obtain ⟨other, read⟩ := exists_classify_of_isUnknownDirective unknown
  obtain ⟨name, arguments, parts, reads⟩ := directiveParts?_of_classify read
  have known : name ∉ ".section" :: machONames :=
    fun member => readDirective_ne_other member (trim arguments) other reads
  obtain ⟨noSection, noMachO⟩ := not_or.1 (List.mem_cons.not.1 known)
  simp [isMachOOnly, parts, noSection, noMachO]

private theorem isMachOOnly_blankUnknown (line : String) :
    isMachOOnly (blankUnknown line) = isMachOOnly line := by
  by_cases unknown : isUnknownDirective line
  · rw [blankUnknown, if_pos unknown, isMachOOnly_of_isUnknownDirective unknown]
    decide
  · rw [blankUnknown, if_neg unknown]

private theorem declaredRoutine?_blankUnknown (line : String) :
    declaredRoutine? (blankUnknown line) = declaredRoutine? line := by
  by_cases unknown : isUnknownDirective line
  · obtain ⟨name, read⟩ := exists_classify_of_isUnknownDirective unknown
    have none : declaredRoutine? line = none := by simp [declaredRoutine?, read]
    rw [blankUnknown, if_pos unknown, none]
    decide
  · rw [blankUnknown, if_neg unknown]

private theorem ListingContext.ofLines_blankUnknown (lines : List String) :
    ListingContext.ofLines (lines.map blankUnknown) = ListingContext.ofLines lines := by
  have declared : declaredRoutines (lines.map blankUnknown) = declaredRoutines lines := by
    simp only [declaredRoutines, List.filterMap_map, Function.comp_def, declaredRoutine?_blankUnknown]
  have format : ObjectFormat.ofLines (lines.map blankUnknown) = ObjectFormat.ofLines lines := by
    simp only [ObjectFormat.ofLines, List.any_map, Function.comp_def, isMachOOnly_blankUnknown]
  simp only [ListingContext.ofLines, declared, format]

private theorem SegmenterState.step_blankUnknown (context : ListingContext) (state : SegmenterState)
    (line : String) (index : Nat) :
    state.step context (blankUnknown line, index) = state.step context (line, index) := by
  by_cases unknown : isUnknownDirective line
  · obtain ⟨name, read⟩ := exists_classify_of_isUnknownDirective unknown
    have blank : classify "" = .ok .blank := by decide +kernel
    rw [blankUnknown, if_pos unknown]
    simp only [step, read, blank, directive]
  · rw [blankUnknown, if_neg unknown]

namespace Segmentation

/-- No unknown directive counts for the routines and tables of a listing, nor for why it has none. -/
theorem ofLines_map_blankUnknown (lines : List String) :
    Segmentation.ofLines (lines.map blankUnknown) = Segmentation.ofLines lines := by
  simp only [Segmentation.ofLines, ListingContext.ofLines_blankUnknown, List.zipIdx_map,
    List.foldlM_map, List.length_map]
  simp only [Prod.map, SegmenterState.step_blankUnknown, id_eq]

/-- Sixteen bytes that an unknown directive defines below a label are missing from the table. -/
theorem octa_missing_from_table :
    Segmentation.ofLines [".rodata", "T:", ".octa 1", ".byte 7"] =
      .ok ⟨[], [⟨"T", 1, [⟨.one, 7⟩]⟩]⟩ ∧
    ("T", 1) ∈ tableLabels [".rodata", "T:", ".octa 1", ".byte 7"] ∧
    ".octa 1" ∈ tableBody [".rodata", "T:", ".octa 1", ".byte 7"] 1 ∧
    isUnknownDirective ".octa 1" := by
  decide +kernel

end Segmentation

end AsmTranslit
