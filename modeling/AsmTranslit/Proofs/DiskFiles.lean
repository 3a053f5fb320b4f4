import AsmTranslit.Disk
import AsmTranslit.Proofs.CheckedRuns
import AsmTranslit.Proofs.PairedRuns
import AsmTranslit.Proofs.TemporaryFiles

/-!
# Files on a disk

Where a path leads depends on the folders of a disk and never on its files.  So the operations on a
disk, limited or not, are as a replacement expects them.
-/

namespace AsmTranslit

namespace Disk

variable {disk : Disk} {place other : Place} {path : String}

private theorem file?_remove (disk : Disk) (place : Place) : (disk.remove place).file? place = none := by
  rw [file?, remove, List.lookup_eq_none_iff]
  intro entry member
  have kept := (List.mem_filter.1 member).2
  simpa [bne, BEq.comm] using kept

theorem file?_remove_of_ne (h : other ≠ place) : (disk.remove place).file? other = disk.file? other := by
  have differs : (other == place) = false := by simpa using h
  simp only [file?, remove]
  induction disk.files with
  | nil => rfl
  | cons entry rest ih =>
    obtain ⟨old, bytes⟩ := entry
    by_cases same : old = place
    · simp [same, ih, List.lookup_cons, differs]
    · simp [same, List.lookup_cons, ih]

theorem file?_put (disk : Disk) (place : Place) (contents : ByteArray) :
    (disk.put place contents).file? place = some contents := by
  simp [file?, put]

private theorem file?_put_of_ne {contents : ByteArray} (h : other ≠ place) :
    (disk.put place contents).file? other = disk.file? other := by
  have differs : (other == place) = false := by simpa using h
  have skipped : (disk.put place contents).file? other = (disk.remove place).file? other := by
    simp [file?, put, List.lookup_cons, differs]
  rw [skipped, file?_remove_of_ne h]

private theorem paired_enter (disk : Disk) (files : List (Place × ByteArray)) (folder : Place)
    (name : String) :
    Paired False Eq (enter { disk with files } folder name) (disk.enter folder name) := by
  have folders (place : Place) : isFolder { disk with files } place = disk.isFolder place := rfl
  simp only [enter, folders]
  split
  case isTrue => exact .ok rfl
  case isFalse =>
    split
    case isTrue => exact .ok rfl
    case isFalse =>
      split
      case isTrue => exact .error _ _
      case isFalse =>
        split
        case isTrue => exact .ok rfl
        case isFalse => split <;> split <;> exact .error _ _

private theorem paired_follow (disk : Disk) (files : List (Place × ByteArray)) (path : String) :
    Paired False Eq (follow { disk with files } path) (disk.follow path) := by
  rw [follow, follow]
  split
  case isTrue => exact .error _ _
  case isFalse =>
    split
    case h_1 => exact .ok rfl
    case h_2 => exact (Paired.foldlM_eq (paired_enter disk files) _ _).bind_eq fun _ => .same _

/-- Where a path leads, if a file can be there. -/
def place? (disk : Disk) (path : String) : Option Place :=
  (disk.target path).toOption

theorem place?_files (disk : Disk) (files : List (Place × ByteArray)) (path : String) :
    place? { disk with files } path = disk.place? path := by
  have paired : Paired False Eq (disk.target path) (target { disk with files } path) := by
    rw [target, target]
    apply Paired.bind_eq (.same _)
    intro _
    have folders (place : Place) : isFolder { disk with files } place = disk.isFolder place := rfl
    simp only [folders]
    have follows : Paired False Eq (disk.follow path) (follow { disk with files } path) :=
      .of_toOption_eq (paired_follow disk files path).toOption_eq.symm
    exact follows.bind_eq fun _ => .same _
  exact paired.toOption_eq

private theorem toOption_check (nul nul' : FileFault) (path : String) :
    (check nul path).toOption = (check nul' path).toOption := by
  rw [check, check]
  split
  case isTrue => rfl
  case isFalse => split <;> rfl

private theorem toOption_bind {ε α β : Type} (x : Except ε α) (f : α → Except ε β) :
    (x >>= f).toOption = x.toOption.bind fun a => (f a).toOption := by
  cases x <;> rfl

/-- What can be read at a path is the file that it leads to. -/
theorem toOption_contents (disk : Disk) (path : String) :
    (disk.contents path).toOption = (disk.place? path).bind disk.file? := by
  simp only [contents, place?, target, toOption_bind, Option.bind_assoc,
    toOption_check .nulInName .invalidName]
  congr
  funext _
  congr
  funext final
  cases final with
  | folder place => rfl
  | name place slashed =>
    cases slashed <;> cases inside : disk.isFolder place <;> cases found : disk.file? place <;>
      simp [inside, found, Except.toOption]

/-- What can be read at a path changes only with the file that it leads to. -/
private theorem toOption_contents_files (files : List (Place × ByteArray))
    (same : ∀ place, disk.place? path = some place →
      file? { disk with files } place = disk.file? place) :
    (contents { disk with files } path).toOption = (disk.contents path).toOption := by
  rw [toOption_contents, toOption_contents, place?_files]
  cases found : disk.place? path with
  | none => rfl
  | some place => exact same place found

private theorem file?_of_vacancy (h : disk.vacancy path = .ok place) : disk.file? place = none := by
  rw [vacancy, bind_eq_ok_iff] at h
  obtain ⟨-, -, h⟩ := h
  rw [bind_eq_ok_iff] at h
  obtain ⟨folder, -, h⟩ := h
  dsimp only at h
  split at h
  case h_1 => cases h
  case h_2 vacant found =>
    obtain rfl := Except.ok.inj h
    have free := List.find?_some found
    simp only [Bool.and_eq_true, Option.isNone_iff_eq_none] at free
    exact free.2

/-- What is there to be seen on a disk. -/
def view (room : Option Nat) : FileView (accessWithin room) where
  contents? disk path := (disk.contents path).toOption
  LeadsTo disk path place := disk.place? path = some place
  written := written

section

variable {room : Option Nat} {disk after : Disk} {bytes contents : ByteArray}

private theorem changesOnly_put : (view room).ChangesOnly place disk (disk.put place contents) where
  leads path := by
    have same : (disk.put place contents).place? path = disk.place? path := place?_files ..
    simp only [view, same]
  others path other := by
    apply toOption_contents_files
    intro reached found
    apply file?_put_of_ne
    rintro rfl
    exact other found

/-- Whether there is room for all bytes or not, only the file that they are written to changes. -/
private theorem changesOnly_append :
    (view room).ChangesOnly place disk (disk.append room place bytes).2 := by
  cases room <;> exact changesOnly_put

private theorem addsOnly_put (free : disk.file? place = none) :
    (view room).AddsOnly place disk (disk.put place contents) where
  fresh path leads := by
    have found : disk.place? path = some place := (changesOnly_put.leads path).1 leads
    simp only [view, toOption_contents, found, Option.bind_some, free]
  others path other := changesOnly_put.others path fun leads => other ((changesOnly_put.leads path).2 leads)

private theorem written_append (run : disk.append room place bytes = (.ok (), after)) :
    after.written place = disk.written place ++ bytes := by
  cases room with
  | none =>
    obtain ⟨-, rfl⟩ := Prod.mk.inj run
    rw [written, file?_put, Option.getD_some]
  | some limit =>
    obtain ⟨fits, rfl⟩ := Prod.mk.inj run
    split at fits
    case isTrue small =>
      have all : bytes.extract 0 (limit - disk.used) = bytes := by
        apply ByteArray.ext
        rw [ByteArray.data_extract]
        exact Array.extract_eq_self_of_le small
      rw [written, file?_put, Option.getD_some, all]
    case isFalse => cases fits

private theorem run_newIn (folder : String) : ((accessWithin room).newIn folder).run disk =
    match disk.vacancy folder with
    | .error fault => (Except.error fault, disk)
    | .ok place => (Except.ok place, disk.put place ByteArray.empty) := by
  simp only [accessWithin, StateT.run_bind, StateT.run_get, pure_bind]
  cases disk.vacancy folder <;> rfl

private theorem run_persist (file : (accessWithin room).Temporary) (path : String) :
    ((accessWithin room).persist file path).run disk =
      match disk.target path with
      | .error fault => (Except.error fault, disk)
      | .ok goal => (Except.ok (), (disk.remove file).put goal (disk.written file)) := by
  simp only [accessWithin, StateT.run_bind, StateT.run_get, pure_bind]
  cases disk.target path <;> rfl

/-- The operations on a disk, limited or not, do what a replacement relies on. -/
theorem documented (room : Option Nat) : (view room).Documented where
  read_keeps run := by
    obtain ⟨-, rfl⟩ := Prod.mk.inj run
    rfl
  read_ok run := by
    obtain ⟨found, rfl⟩ := Prod.mk.inj run
    simp [view, found, Except.toOption]
  newIn_error {folder state fault after} run := by
    rw [run_newIn] at run
    split at run
    case h_1 =>
      obtain ⟨-, rfl⟩ := Prod.mk.inj run
      rfl
    case h_2 => cases (Prod.mk.inj run).1
  newIn_ok run := by
    rw [run_newIn] at run
    split at run
    case h_1 => cases (Prod.mk.inj run).1
    case h_2 place vacant =>
      obtain ⟨same, rfl⟩ := Prod.mk.inj run
      obtain rfl := Except.ok.inj same
      refine ⟨addsOnly_put (file?_of_vacancy vacant), ?_⟩
      simp [view, written, file?_put]
  writeAll_keeps run := by
    obtain ⟨-, rfl⟩ := Prod.mk.inj run
    exact changesOnly_append
  writeAll_ok run := written_append run
  flush_keeps run := by
    obtain ⟨-, rfl⟩ := Prod.mk.inj run
    exact .refl ..
  flush_ok run := by
    obtain ⟨-, rfl⟩ := Prod.mk.inj run
    rfl
  persist_error run := by
    rw [run_persist] at run
    split at run
    case h_1 =>
      obtain ⟨-, rfl⟩ := Prod.mk.inj run
      exact .refl ..
    case h_2 => cases (Prod.mk.inj run).1
  persist_ok {file path state after} run := by
    rw [run_persist] at run
    split at run
    case h_1 => cases (Prod.mk.inj run).1
    case h_2 goal reached =>
      obtain ⟨-, rfl⟩ := Prod.mk.inj run
      have found : state.place? path = some goal := by rw [place?, reached]; rfl
      have moved : ((state.remove file).put goal (state.written file)).place? path = some goal := by
        rw [← found]
        exact place?_files state _ path
      simp only [view, toOption_contents, moved, Option.bind_some, file?_put]
  drop_keeps {file path state after} run other := by
    obtain ⟨-, rfl⟩ := Prod.mk.inj run
    apply toOption_contents_files
    intro reached found
    apply file?_remove_of_ne
    rintro rfl
    exact other found
  drop_deletes {file path state after} run leads := by
    obtain ⟨-, rfl⟩ := Prod.mk.inj run
    have found : (state.remove file).place? path = some file := by
      rw [← show state.place? path = some file from leads]
      exact place?_files state _ path
    simp only [view, toOption_contents, found]
    exact file?_remove state file

end

end Disk

end AsmTranslit
