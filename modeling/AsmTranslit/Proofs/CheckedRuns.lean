import Mathlib.Data.List.Forall2

/-!
# Runs of checked steps

When a computation that may fail succeeds, so did each of its steps, and when it fails, so did one of
them.  The lemmas take a run apart: a sequence of two steps, a list of independent steps, and a walk
along a list that carries a state.  A property of the state that every step keeps holds at the end of
the walk.
-/

namespace AsmTranslit

universe u v w

variable {ε : Type u} {α : Type v} {β : Type v} {σ : Type v}

theorem bind_eq_ok_iff {x : Except ε α} {f : α → Except ε β} {b : β} :
    x >>= f = .ok b ↔ ∃ a, x = .ok a ∧ f a = .ok b := by
  cases x with
  | error e => simp [bind, Except.bind]
  | ok a => simp [bind, Except.bind]

@[simp] theorem mapError_eq_ok_iff {ε' : Type w} {x : Except ε α} {f : ε → ε'} {a : α} :
    x.mapError f = .ok a ↔ x = .ok a := by
  cases x with
  | error e => simp [Except.mapError]
  | ok b => simp [Except.mapError]

theorem bind_eq_error_iff {x : Except ε α} {f : α → Except ε β} {e : ε} :
    x >>= f = .error e ↔ x = .error e ∨ ∃ a, x = .ok a ∧ f a = .error e := by
  cases x with
  | error e' => simp [bind, Except.bind]
  | ok a => simp [bind, Except.bind]

theorem mapError_eq_error_iff {ε' : Type w} {x : Except ε α} {f : ε → ε'} {e : ε'} :
    x.mapError f = .error e ↔ ∃ e', x = .error e' ∧ f e' = e := by
  cases x with
  | error e' => simp [Except.mapError]
  | ok a => simp [Except.mapError]

theorem map_eq_error_iff {x : Except ε α} {f : α → β} {e : ε} :
    x.map f = .error e ↔ x = .error e := by
  cases x with
  | error e' => simp [Except.map]
  | ok a => simp [Except.map]

theorem map_eq_ok_iff {x : Except ε α} {f : α → β} {b : β} :
    x.map f = .ok b ↔ ∃ a, x = .ok a ∧ f a = b := by
  cases x with
  | error e => simp [Except.map]
  | ok a => simp [Except.map]

theorem mapM_eq_ok_iff {f : α → Except ε β} {xs : List α} {ys : List β} :
    xs.mapM f = .ok ys ↔ List.Forall₂ (fun x y => f x = .ok y) xs ys := by
  induction xs generalizing ys with
  | nil =>
    cases ys with
    | nil => simp [pure, Except.pure]
    | cons y ys => simp [pure, Except.pure]
  | cons x xs ih =>
    simp only [List.mapM_cons, bind_eq_ok_iff, ih, pure, Except.pure, Except.ok.injEq,
      List.forall₂_cons_left_iff]
    constructor
    · rintro ⟨y, hy, zs, hzs, rfl⟩
      exact ⟨y, zs, hy, hzs, rfl⟩
    · rintro ⟨y, zs, hy, hzs, rfl⟩
      exact ⟨y, hy, zs, hzs, rfl⟩

theorem mapM_getElem? {f : α → Except ε β} {xs : List α} {ys : List β} (h : xs.mapM f = .ok ys)
    {i : Nat} {x : α} (read : xs[i]? = some x) : ∃ y, ys[i]? = some y ∧ f x = .ok y := by
  rw [mapM_eq_ok_iff] at h
  induction h generalizing i with
  | nil => simp at read
  | cons first _ ih =>
    cases i with
    | zero =>
      obtain rfl := Option.some.inj read
      exact ⟨_, rfl, first⟩
    | succ i => exact ih read

theorem exists_mem_of_mapM {f : α → Except ε β} {xs : List α} {ys : List β}
    (h : xs.mapM f = .ok ys) {x : α} (member : x ∈ xs) : ∃ y ∈ ys, f x = .ok y := by
  obtain ⟨i, read⟩ := List.getElem?_of_mem member
  obtain ⟨y, here, step⟩ := mapM_getElem? h read
  exact ⟨y, List.mem_of_getElem? here, step⟩

theorem mapM_congr {f g : α → Except ε β} {xs : List α} (same : ∀ x ∈ xs, f x = g x) :
    xs.mapM f = xs.mapM g := by
  induction xs with
  | nil => rfl
  | cons x xs ih =>
    have later := ih fun y member => same y (List.mem_cons_of_mem x member)
    rw [List.mapM_cons, List.mapM_cons, same x List.mem_cons_self, later]

theorem exists_of_mem_of_mapM {f : α → Except ε β} {xs : List α} {ys : List β}
    (h : xs.mapM f = .ok ys) {y : β} (member : y ∈ ys) : ∃ x ∈ xs, f x = .ok y := by
  rw [mapM_eq_ok_iff] at h
  induction h with
  | nil => simp at member
  | cons first _ ih =>
    rcases List.mem_cons.1 member with rfl | later
    · exact ⟨_, List.mem_cons_self, first⟩
    · obtain ⟨x, inRest, step⟩ := ih later
      exact ⟨x, List.mem_cons_of_mem _ inRest, step⟩

theorem exists_error_of_mapM {f : α → Except ε β} {xs : List α} {e : ε}
    (h : xs.mapM f = .error e) : ∃ x ∈ xs, f x = .error e := by
  induction xs with
  | nil => simp [pure, Except.pure] at h
  | cons x xs ih =>
    rw [List.mapM_cons] at h
    rcases bind_eq_error_iff.1 h with first | ⟨y, -, h⟩
    · exact ⟨x, List.mem_cons_self, first⟩
    · rcases bind_eq_error_iff.1 h with later | ⟨ys, -, done⟩
      · obtain ⟨x', inRest, failed⟩ := ih later
        exact ⟨x', List.mem_cons_of_mem _ inRest, failed⟩
      · simp [pure, Except.pure] at done

/-- A walk along a list fails at one of its members, with the state that the walk up to there gives. -/
theorem exists_error_of_foldlM {step : σ → α × Nat → Except ε σ} {xs : List α} {n : Nat} {s : σ} {e : ε}
    (h : (xs.zipIdx n).foldlM step s = .error e) :
    ∃ done x rest t, xs = done ++ x :: rest ∧ (done.zipIdx n).foldlM step s = .ok t ∧
      step t (x, n + done.length) = .error e := by
  induction xs generalizing n s with
  | nil => simp [pure, Except.pure] at h
  | cons x xs ih =>
    rw [List.zipIdx_cons, List.foldlM_cons] at h
    rcases bind_eq_error_iff.1 h with first | ⟨next, first, later⟩
    · exact ⟨[], x, xs, s, rfl, rfl, first⟩
    · obtain ⟨done, y, rest, t, rfl, run, failed⟩ := ih later
      refine ⟨x :: done, y, rest, t, rfl, ?_, ?_⟩
      · rw [List.zipIdx_cons, List.foldlM_cons, bind_eq_ok_iff]
        exact ⟨next, first, run⟩
      · rwa [List.length_cons, Nat.add_comm done.length, ← Nat.add_assoc]

/-- Whatever failure there is has a property. -/
def FailsWith (P : ε → Prop) (x : Except ε α) : Prop :=
  ∀ e, x = .error e → P e

theorem FailsWith.ok {P : ε → Prop} (a : α) : FailsWith P (.ok a : Except ε α) := nofun

theorem FailsWith.error {P : ε → Prop} {e : ε} (h : P e) : FailsWith P (.error e : Except ε α) := by
  rintro _ ⟨⟩
  exact h

theorem FailsWith.bind {P : ε → Prop} {x : Except ε α} {f : α → Except ε β} (first : FailsWith P x)
    (second : ∀ a, FailsWith P (f a)) : FailsWith P (x >>= f) := by
  intro e h
  rcases bind_eq_error_iff.1 h with failed | ⟨a, -, failed⟩
  · exact first e failed
  · exact second a e failed

theorem FailsWith.mapError {ε' : Type w} {P : ε' → Prop} {f : ε → ε'} (x : Except ε α)
    (all : ∀ e, P (f e)) : FailsWith P (x.mapError f) := by
  intro e h
  obtain ⟨fault, -, rfl⟩ := mapError_eq_error_iff.1 h
  exact all fault

theorem pairwise_zipIdx (xs : List α) (start : Nat) :
    (xs.zipIdx start).Pairwise fun a b => a.2 < b.2 := by
  have increasing : ((xs.zipIdx start).map Prod.snd).Pairwise (· < ·) := by
    rw [List.zipIdx_map_snd]
    exact List.pairwise_lt_range'
  exact List.pairwise_map.1 increasing

/-- A walk along a list whose members are numbered: what relates the members read so far to the state
holds at the end if every step keeps it. -/
theorem foldlM_zipIdx_invariant {step : σ → α × Nat → Except ε σ} {P : List α → σ → Prop}
    (keep : ∀ done x s t, P done s → step s (x, done.length) = .ok t → P (done ++ [x]) t)
    {xs done : List α} {s t : σ} (start : P done s)
    (run : (xs.zipIdx done.length).foldlM step s = .ok t) : P (done ++ xs) t := by
  induction xs generalizing done s with
  | nil =>
    obtain rfl : s = t := by simpa [pure, Except.pure] using run
    simpa using start
  | cons x xs ih =>
    rw [List.zipIdx_cons, List.foldlM_cons, bind_eq_ok_iff] at run
    obtain ⟨next, first, rest⟩ := run
    have later := ih (keep done x s next start first) (by simpa using rest)
    simpa using later

end AsmTranslit
