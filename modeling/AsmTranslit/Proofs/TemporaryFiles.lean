import AsmTranslit.FileAccess

/-!
# Temporary files

What a replacement relies on, stated for any file system: that a temporary file is new, that writing to
it changes no other file, that moving it is one step which either happens or leaves the target alone,
and that it is gone once it is given up.  From this a replacement that fails, at whichever of its
operations, changes no file, and one that succeeds puts all bytes where the path leads.
-/

namespace AsmTranslit

/-- What can be told of the files in a state: the contents of the file that a path leads to, whether a
path leads to a temporary file, and what has been written to a temporary file. -/
structure FileView {σ : Type} (access : FileAccess (StateM σ)) where
  contents? : σ → String → Option ByteArray
  LeadsTo : σ → String → access.Temporary → Prop
  written : σ → access.Temporary → ByteArray

namespace FileView

variable {σ : Type} {access : FileAccess (StateM σ)}

/-- Between two states no file changes but one temporary file. -/
structure ChangesOnly (view : FileView access) (file : access.Temporary) (before after : σ) : Prop where
  leads : ∀ path, view.LeadsTo after path file ↔ view.LeadsTo before path file
  others : ∀ path, ¬view.LeadsTo before path file →
    view.contents? after path = view.contents? before path

/-- Between two states a temporary file appears, where there was no file. -/
structure AddsOnly (view : FileView access) (file : access.Temporary) (before after : σ) : Prop where
  fresh : ∀ path, view.LeadsTo after path file → view.contents? before path = none
  others : ∀ path, ¬view.LeadsTo after path file →
    view.contents? after path = view.contents? before path

/-- How the operations are documented, by the system and by the library of temporary files.  Whether one
of them succeeds is left open, and so is what a write that fails has written. -/
structure Documented (view : FileView access) : Prop where
  read_keeps : ∀ {path state result after}, (access.read path).run state = (result, after) →
    view.contents? after = view.contents? state
  read_ok : ∀ {path state bytes after}, (access.read path).run state = (.ok bytes, after) →
    view.contents? state path = some bytes
  newIn_error : ∀ {folder state fault after},
    (access.newIn folder).run state = (.error fault, after) →
    view.contents? after = view.contents? state
  newIn_ok : ∀ {folder state file after}, (access.newIn folder).run state = (.ok file, after) →
    view.AddsOnly file state after ∧ view.written after file = ByteArray.empty
  writeAll_keeps : ∀ {file bytes state result after},
    (access.writeAll file bytes).run state = (result, after) → view.ChangesOnly file state after
  writeAll_ok : ∀ {file bytes state after},
    (access.writeAll file bytes).run state = (.ok (), after) →
    view.written after file = view.written state file ++ bytes
  flush_keeps : ∀ {file state result after}, (access.flush file).run state = (result, after) →
    view.ChangesOnly file state after
  flush_ok : ∀ {file state after}, (access.flush file).run state = (.ok (), after) →
    view.written after file = view.written state file
  persist_error : ∀ {file path state fault after},
    (access.persist file path).run state = (.error fault, after) → view.ChangesOnly file state after
  persist_ok : ∀ {file path state after},
    (access.persist file path).run state = (.ok (), after) →
    view.contents? after path = some (view.written state file)
  drop_keeps : ∀ {file path state after}, (access.drop file).run state = ((), after) →
    ¬view.LeadsTo state path file → view.contents? after path = view.contents? state path
  drop_deletes : ∀ {file path state after}, (access.drop file).run state = ((), after) →
    view.LeadsTo state path file → view.contents? after path = none

variable {view : FileView access} {file : access.Temporary} {first state after : σ} {path : String}
  {contents : ByteArray} {fault : FileFault}

theorem ChangesOnly.refl (view : FileView access) (file : access.Temporary) (state : σ) :
    view.ChangesOnly file state state where
  leads _ := Iff.rfl
  others _ _ := rfl

theorem AddsOnly.trans (adds : view.AddsOnly file first state)
    (changes : view.ChangesOnly file state after) : view.AddsOnly file first after where
  fresh path leads := adds.fresh path ((changes.leads path).1 leads)
  others path other := by
    have otherBefore : ¬view.LeadsTo state path file := fun leads => other ((changes.leads path).2 leads)
    rw [changes.others path otherBefore, adds.others path otherBefore]

/-- Once the temporary file is deleted, all files are as they were before there was one. -/
theorem AddsOnly.contents?_drop (adds : view.AddsOnly file first state) (documented : Documented view)
    (run : (access.drop file).run state = ((), after)) : view.contents? after = view.contents? first := by
  funext path
  by_cases leads : view.LeadsTo state path file
  · rw [documented.drop_deletes run leads, adds.fresh path leads]
  · rw [documented.drop_keeps run leads, adds.others path leads]

theorem exists_of_run_bind {α β : Type} {x : StateM σ α} {f : α → StateM σ β} {b : β}
    (run : (x >>= f).run first = (b, after)) :
    ∃ a state, x.run first = (a, state) ∧ (f a).run state = (b, after) :=
  ⟨_, _, rfl, run⟩

namespace Documented

private theorem addsOnly_settle (documented : Documented view) (adds : view.AddsOnly file first state)
    (run : (access.settle file path contents).run state = (.error fault, after)) :
    view.AddsOnly file first after := by
  obtain ⟨wrote, filled, write, run⟩ := exists_of_run_bind run
  have adds := adds.trans (documented.writeAll_keeps write)
  cases wrote with
  | error =>
    obtain ⟨-, rfl⟩ := Prod.mk.inj run
    exact adds
  | ok =>
    obtain ⟨flushed, emptied, flush, run⟩ := exists_of_run_bind run
    have adds := adds.trans (documented.flush_keeps flush)
    cases flushed with
    | error =>
      obtain ⟨-, rfl⟩ := Prod.mk.inj run
      exact adds
    | ok => exact adds.trans (documented.persist_error run)

private theorem contents?_settle (documented : Documented view)
    (run : (access.settle file path contents).run state = (.ok (), after)) :
    view.contents? after path = some (view.written state file ++ contents) := by
  obtain ⟨wrote, filled, write, run⟩ := exists_of_run_bind run
  cases wrote with
  | error => cases (Prod.mk.inj run).1
  | ok =>
    obtain ⟨flushed, emptied, flush, run⟩ := exists_of_run_bind run
    cases flushed with
    | error => cases (Prod.mk.inj run).1
    | ok =>
      rw [documented.persist_ok run, documented.flush_ok flush, documented.writeAll_ok write]

/-- A replacement that fails changes no file, whichever of its operations it is that fails. -/
theorem contents?_replace_error (documented : Documented view)
    (run : (access.replace path contents).run state = (.error fault, after)) :
    view.contents? after = view.contents? state := by
  obtain ⟨made, opened, make, run⟩ := exists_of_run_bind run
  cases made with
  | error =>
    obtain ⟨-, rfl⟩ := Prod.mk.inj run
    exact documented.newIn_error make
  | ok file =>
    obtain ⟨adds, -⟩ := documented.newIn_ok make
    obtain ⟨settled, filled, settle, run⟩ := exists_of_run_bind run
    cases settled with
    | ok => cases (Prod.mk.inj run).1
    | error =>
      obtain ⟨_, dropped, drop, run⟩ := exists_of_run_bind run
      obtain ⟨-, rfl⟩ := Prod.mk.inj run
      exact (documented.addsOnly_settle adds settle).contents?_drop documented drop

theorem contents?_replace_ok (documented : Documented view)
    (run : (access.replace path contents).run state = (.ok (), after)) :
    view.contents? after path = some contents := by
  obtain ⟨made, opened, make, run⟩ := exists_of_run_bind run
  cases made with
  | error => cases (Prod.mk.inj run).1
  | ok file =>
    obtain ⟨-, empty⟩ := documented.newIn_ok make
    obtain ⟨settled, filled, settle, run⟩ := exists_of_run_bind run
    cases settled with
    | error =>
      obtain ⟨_, dropped, drop, run⟩ := exists_of_run_bind run
      cases (Prod.mk.inj run).1
    | ok =>
      obtain ⟨-, rfl⟩ := Prod.mk.inj run
      rw [documented.contents?_settle settle, empty, ByteArray.empty_append]

end Documented

end FileView

end AsmTranslit
