import AsmTranslit.Proofs.DiskFiles
import AsmTranslit.Proofs.PrintableLines
import AsmTranslit.SourceFile

/-!
# The output file

What a conversion does to the files, wherever they are kept: nothing if it fails, whatever the reason,
and otherwise the output file holds the lines that are reported.  They can be read back from the file
as they are, because no line has a line feed in it or ends in a carriage return.
-/

namespace AsmTranslit

/-- A text that splitting into lines would neither break up nor shorten. -/
structure KeptWhole (line : String) : Prop where
  oneLine : '\n' ∉ line.toList
  noReturn : line.toList.getLast? ≠ some '\r'

theorem Printable.keptWhole {line : String} (printable : Printable line) : KeptWhole line where
  oneLine member := absurd (printable '\n' member) (by decide)
  noReturn last := absurd (printable '\r' (List.mem_of_getLast? last)) (by decide)

private theorem dropReturn_eq_self {cs : List Char} (h : cs.getLast? ≠ some '\r') :
    dropReturn cs = cs := by
  rw [dropReturn]
  split
  case h_1 rest reversed =>
    rw [List.getLast?_eq_head?_reverse, reversed] at h
    exact absurd rfl h
  case h_2 => rfl

private theorem pieces_join {lines : List String} (whole : ∀ line ∈ lines, KeptWhole line) :
    pieces (fun _ _ => ()) (fun _ c => c == '\n') ()
      (String.join (lines.map (· ++ "\n"))).toList = lines.map String.toList ++ [[]] := by
  induction lines with
  | nil => rfl
  | cons line lines ih =>
    have later := ih fun other member => whole other (List.mem_cons_of_mem _ member)
    have inside : ∀ c ∈ line.toList, (c == '\n') = false := by
      intro c member
      have differs : c ≠ '\n' := by
        rintro rfl
        exact (whole line List.mem_cons_self).oneLine member
      simpa using differs
    have text : (String.join ((line :: lines).map (· ++ "\n"))).toList =
        line.toList ++ '\n' :: (String.join (lines.map (· ++ "\n"))).toList := by
      simp
    rw [text, pieces_append_cons _ inside rfl, later]
    rfl

private theorem linesOfPieces_append_nil (parts : List (List Char)) :
    linesOfPieces (parts ++ [[]]) = parts.map dropReturn := by
  induction parts with
  | nil => rfl
  | cons part parts ih => cases parts <;> simp_all [linesOfPieces]

/-- Lines that splitting keeps whole are read back from the text in which each of them is ended. -/
theorem splitLines_join {lines : List String} (whole : ∀ line ∈ lines, KeptWhole line) :
    splitLines (String.join (lines.map (· ++ "\n"))) = lines := by
  have kept : (lines.map String.toList).map dropReturn = lines.map String.toList := by
    rw [List.map_map]
    exact List.map_congr_left fun line member => dropReturn_eq_self (whole line member).noReturn
  rw [splitLines, pieces_join whole, linesOfPieces_append_nil, kept, List.map_map]
  simp

namespace GoSource

variable {options : Options} {lines : List String} {source : GoSource}

private theorem splitLines_text (h : GoSource.ofLines options lines = .ok source) :
    splitLines source.text = header ++ source.lines.map GoLine.text := by
  apply splitLines_join
  intro line member
  rcases List.mem_append.1 member with inHeader | inLines
  · have printable : ∀ line ∈ header, Printable line := by decide
    exact (printable line inHeader).keptWhole
  · obtain ⟨goLine, isLine, rfl⟩ := List.mem_map.1 inLines
    exact (printable_text h isLine).keptWhole

private theorem exists_lines_of_ofContents {file : String} {contents : ByteArray}
    (h : GoSource.ofContents options file contents = .ok source) :
    ∃ lines, fileLines? contents = some lines ∧ GoSource.ofLines options lines = .ok source := by
  rw [ofContents] at h
  split at h
  case h_1 => cases h
  case h_2 lines found => exact ⟨lines, found, mapError_eq_ok_iff.1 h⟩

private theorem fileLines?_toUTF8 (text : String) : fileLines? text.toUTF8 = some (splitLines text) := by
  have valid : text.toUTF8.IsValidUTF8 := text.isValidUTF8
  rw [fileLines?, String.fromUTF8?, dif_pos valid]
  rfl

/-- The contents of a file are a result: its lines are the header and the lines of the result, none of
which splitting breaks up or shortens. -/
structure HeldBy (contents? : Option ByteArray) (source : GoSource) : Prop where
  lines : contents?.bind fileLines? = some (header ++ source.lines.map GoLine.text)
  whole : ∀ line ∈ source.lines, KeptWhole line.text

private theorem heldBy_text (h : GoSource.ofLines options lines = .ok source) :
    HeldBy (some source.text.toUTF8) source where
  lines := by rw [Option.bind_some, fileLines?_toUTF8, splitLines_text h]
  whole _ member := (printable_text h member).keptWhole

section

variable {σ : Type} {access : FileAccess (StateM σ)} {view : FileView access} {state after : σ}
  {input output : String} {failure : FileFailure}

/-- A conversion that fails changes no file: it has only read one, or its replacement has failed. -/
theorem contents?_convertFile_error (documented : view.Documented)
    (run : (convertFile access options input output).run state = (.error failure, after)) :
    view.contents? after = view.contents? state := by
  obtain ⟨found, opened, read, run⟩ := FileView.exists_of_run_bind run
  have kept := documented.read_keeps read
  cases found with
  | error =>
    obtain ⟨-, rfl⟩ := Prod.mk.inj run
    exact kept
  | ok contents =>
    dsimp only at run
    split at run
    case h_1 =>
      obtain ⟨-, rfl⟩ := Prod.mk.inj run
      exact kept
    case h_2 =>
      obtain ⟨replaced, written, replace, run⟩ := FileView.exists_of_run_bind run
      cases replaced with
      | error =>
        obtain ⟨-, rfl⟩ := Prod.mk.inj run
        rw [documented.contents?_replace_error replace, kept]
      | ok => cases (Prod.mk.inj run).1

theorem heldBy_convertFile_ok (documented : view.Documented)
    (run : (convertFile access options input output).run state = (.ok source, after)) :
    HeldBy (view.contents? after output) source ∧ ∃ contents,
      view.contents? state input = some contents ∧
        GoSource.ofContents options input contents = .ok source := by
  obtain ⟨found, opened, read, run⟩ := FileView.exists_of_run_bind run
  cases found with
  | error => cases (Prod.mk.inj run).1
  | ok contents =>
    dsimp only at run
    split at run
    case h_1 => cases (Prod.mk.inj run).1
    case h_2 result converted =>
      obtain ⟨replaced, written, replace, run⟩ := FileView.exists_of_run_bind run
      cases replaced with
      | error => cases (Prod.mk.inj run).1
      | ok =>
        obtain ⟨same, rfl⟩ := Prod.mk.inj run
        obtain rfl := Except.ok.inj same
        obtain ⟨lines, -, translated⟩ := exists_lines_of_ofContents converted
        rw [documented.contents?_replace_ok replace]
        exact ⟨heldBy_text translated, contents, documented.read_ok read, converted⟩

/-- A conversion is all or nothing.  If it fails, at whichever stage and operation, every file is as it
was; if it succeeds, the output file holds what the contents of the input file are converted to. -/
theorem convertFile_allOrNothing (documented : view.Documented) (options : Options)
    (input output : String) (state : σ) :
    match (convertFile access options input output).run state with
    | (.error _, after) => view.contents? after = view.contents? state
    | (.ok source, after) =>
      HeldBy (view.contents? after output) source ∧ ∃ contents,
        view.contents? state input = some contents ∧
          GoSource.ofContents options input contents = .ok source := by
  split
  case h_1 failed => exact contents?_convertFile_error documented failed
  case h_2 converted => exact heldBy_convertFile_ok documented converted

def listingDisk : Disk where
  workingFolder := ["home"]
  otherFolders := []
  files := [(["f.s", "home"], ".globl f\nf:\ncqo\nret\n".toUTF8),
    (["f_amd64.s", "home"], "// older\n".toUTF8)]

def listingSource : GoSource where
  lines := [.entry "f", .blank, .instruction none "CQO" [], .instruction none "VZEROUPPER" [],
    .instruction none "RET" []]
  warnings := []
  listing := none

/-- Where the room ends within the header, the conversion fails and the older file is still there; with
room enough the output file is replaced. -/
theorem convertFile_allOrNothing_fullDisk :
    (∃ after, (convertFile (Disk.accessWithin (some 60)) {} "f.s" "f_amd64.s").run listingDisk =
        (.error (.writing "f_amd64.s" .full), after) ∧
      (Disk.view (some 60)).contents? after = (Disk.view (some 60)).contents? listingDisk ∧
      (Disk.view (some 60)).contents? after "f_amd64.s" = some "// older\n".toUTF8) ∧
    ∃ after, (convertFile Disk.access {} "f.s" "f_amd64.s").run listingDisk =
        (.ok listingSource, after) ∧
      HeldBy ((Disk.view none).contents? after "f_amd64.s") listingSource := by
  constructor
  · obtain ⟨after, failed⟩ : ∃ after,
        (convertFile (Disk.accessWithin (some 60)) {} "f.s" "f_amd64.s").run listingDisk =
          (.error (.writing "f_amd64.s" .full), after) :=
      ⟨_, Prod.ext (by decide +kernel) rfl⟩
    have kept := convertFile_allOrNothing (Disk.documented (some 60)) {} "f.s" "f_amd64.s" listingDisk
    rw [failed] at kept
    have older : (Disk.view (some 60)).contents? listingDisk "f_amd64.s" =
        some "// older\n".toUTF8 := by
      decide +kernel
    exact ⟨after, failed, kept, kept ▸ older⟩
  · obtain ⟨after, converted⟩ : ∃ after,
        (convertFile Disk.access {} "f.s" "f_amd64.s").run listingDisk =
          (.ok listingSource, after) :=
      ⟨_, Prod.ext (by decide +kernel) rfl⟩
    have held := convertFile_allOrNothing (Disk.documented none) {} "f.s" "f_amd64.s" listingDisk
    rw [converted] at held
    exact ⟨after, converted, held.1⟩

end

end GoSource

end AsmTranslit
