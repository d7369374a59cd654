/-
  Throughput/Proofs/Failure/Outcomes.lean
  =======================================
  **Computations that can fail.**  A chain of them succeeds if every link does
  (`exceptBind_eq_ok`), a traversal if it does for every element (`mapM_eq_ok_iff`),
  and otherwise the first failure is the one of the traversal (`mapM_eq_error_iff`).
-/
import Mathlib.Data.List.Forall2
import Mathlib.Tactic.Common

namespace Throughput

/-! ### Results -/

section Results

variable {ε α β : Type} {x : Except ε α} {g : α → β}

theorem exceptBind_eq_ok {f : α → Except ε β} {b : β} :
    x >>= f = .ok b ↔ ∃ a, x = .ok a ∧ f a = .ok b := by
  cases x with
  | error e => simp [bind, Except.bind]
  | ok a => simp [bind, Except.bind]

theorem bind_pure_eq_map (x : Except ε α) (g : α → β) :
    (x >>= fun a => pure (g a)) = x.map g := by
  cases x <;> rfl

theorem map_eq_ok_iff {b : β} : x.map g = .ok b ↔ ∃ a, x = .ok a ∧ b = g a := by
  cases x <;> simp [Except.map, eq_comm]

theorem map_eq_error_iff {e : ε} : x.map g = .error e ↔ x = .error e := by
  cases x <;> simp [Except.map]

theorem mapError_eq_ok_iff {ε' : Type} {f : ε → ε'} {a : α} :
    x.mapError f = .ok a ↔ x = .ok a := by
  cases x <;> simp [Except.mapError]

end Results

/-! ### Traversals that can fail -/

theorem exists_right_of_forall₂ {α β : Type} {R : α → β → Prop} {xs : List α} {ys : List β}
    (h : List.Forall₂ R xs ys) {x : α} (hx : x ∈ xs) : ∃ y ∈ ys, R x y := by
  induction h with
  | nil => cases hx
  | cons hR _ ih =>
    rcases List.mem_cons.1 hx with rfl | hx
    · exact ⟨_, List.mem_cons_self, hR⟩
    · obtain ⟨y, hy, hR⟩ := ih hx
      exact ⟨y, List.mem_cons_of_mem _ hy, hR⟩

section Traversal

variable {ε α β : Type} {f : α → Except ε β}

theorem mapM_cons_of_ok {x : α} {y : β} (h : f x = .ok y) (xs : List α) :
    (x :: xs).mapM f = (xs.mapM f).map (y :: ·) := by
  rw [List.mapM_cons, h]
  cases xs.mapM f <;> rfl

theorem mapM_cons_of_error {x : α} {e : ε} (h : f x = .error e) (xs : List α) :
    (x :: xs).mapM f = .error e := by
  rw [List.mapM_cons, h]
  rfl

theorem mapM_eq_ok_iff {xs : List α} {ys : List β} :
    xs.mapM f = .ok ys ↔ List.Forall₂ (fun x y => f x = .ok y) xs ys := by
  induction xs generalizing ys with
  | nil => cases ys <;> simp [pure, Except.pure]
  | cons x xs ih =>
    cases hx : f x with
    | error e =>
      rw [mapM_cons_of_error hx]
      constructor
      · intro h; cases h
      · rintro (_ | ⟨h, -⟩)
        rw [hx] at h; cases h
    | ok y =>
      rw [mapM_cons_of_ok hx]
      cases hxs : xs.mapM f with
      | error e =>
        constructor
        · intro h; cases h
        · rintro (_ | ⟨-, hrest⟩)
          rw [← ih, hxs] at hrest; cases hrest
      | ok rest =>
        constructor
        · intro h
          cases h
          exact .cons hx (ih.1 hxs)
        · rintro (_ | ⟨h, hrest⟩)
          rw [hx] at h
          rw [← ih, hxs] at hrest
          cases h; cases hrest
          rfl

/-- The first of a list to fail fails with `e`. -/
def FirstFailure (f : α → Except ε β) (xs : List α) (e : ε) : Prop :=
  ∃ before x after, xs = before ++ x :: after ∧ (∀ y ∈ before, ∃ z, f y = .ok z) ∧ f x = .error e

theorem firstFailure_cons {x : α} {xs : List α} {e : ε} : FirstFailure f (x :: xs) e ↔
    f x = .error e ∨ (∃ z, f x = .ok z) ∧ FirstFailure f xs e := by
  constructor
  · rintro ⟨before, y, after, hxs, hbefore, hy⟩
    cases before with
    | nil =>
      cases hxs
      exact .inl hy
    | cons x' before =>
      cases hxs
      obtain ⟨hx, hbefore⟩ := List.forall_mem_cons.1 hbefore
      exact .inr ⟨hx, before, y, after, rfl, hbefore, hy⟩
  · rintro (hx | ⟨hx, before, y, after, rfl, hbefore, hy⟩)
    · exact ⟨[], x, xs, rfl, List.forall_mem_nil _, hx⟩
    · exact ⟨x :: before, y, after, rfl, List.forall_mem_cons.2 ⟨hx, hbefore⟩, hy⟩

theorem mapM_eq_error_iff {xs : List α} {e : ε} :
    xs.mapM f = .error e ↔ FirstFailure f xs e := by
  induction xs with
  | nil =>
    constructor
    · intro h
      cases h
    · rintro ⟨before, x, after, hxs, -⟩
      cases before <;> cases hxs
  | cons x xs ih =>
    rw [firstFailure_cons, ← ih]
    cases hx : f x with
    | error e' => simp [mapM_cons_of_error hx]
    | ok y =>
      rw [mapM_cons_of_ok hx, map_eq_error_iff]
      simp

/-- Where an element fails exactly if it has some property, the first one that has it
    fails first. -/
theorem firstFailure_iff_find? {p : α → Bool} {failure : α → ε}
    (h : ∀ x e, f x = .error e ↔ p x = true ∧ e = failure x) {xs : List α} {e : ε} :
    FirstFailure f xs e ↔ ∃ x, xs.find? p = some x ∧ e = failure x := by
  have hok : ∀ x, (∃ y, f x = .ok y) ↔ p x = false := by
    intro x
    cases hx : f x with
    | ok y =>
      have hnot : ¬ p x = true := by
        intro hp
        have hfails := (h x (failure x)).2 ⟨hp, rfl⟩
        rw [hx] at hfails
        cases hfails
      simpa using hnot
    | error e' => simp [((h x e').1 hx).1]
  constructor
  · rintro ⟨before, x, after, rfl, hbefore, hx⟩
    obtain ⟨hp, rfl⟩ := (h x e).1 hx
    refine ⟨x, List.find?_eq_some_iff_append.2 ⟨hp, before, after, rfl, ?_⟩, rfl⟩
    intro y hy
    rw [(hok y).1 (hbefore y hy)]
    rfl
  · rintro ⟨x, hfind, rfl⟩
    obtain ⟨hp, before, after, rfl, hbefore⟩ := List.find?_eq_some_iff_append.1 hfind
    refine ⟨before, x, after, rfl, ?_, (h x _).2 ⟨hp, rfl⟩⟩
    intro y hy
    exact (hok y).2 (by simpa using hbefore y hy)

/-- Folding up results one by one is folding up all of them. -/
theorem foldlM_map_eq_map_mapM {γ : Type} (g : γ → β → γ) (start : γ) (xs : List α) :
    xs.foldlM (fun total x => (f x).map (g total)) start =
      (xs.mapM f).map (·.foldl g start) := by
  induction xs generalizing start with
  | nil => rfl
  | cons x xs ih =>
    rw [List.foldlM_cons]
    cases hx : f x with
    | error e =>
      rw [mapM_cons_of_error hx]
      rfl
    | ok y =>
      rw [mapM_cons_of_ok hx]
      change xs.foldlM _ (g start y) = _
      rw [ih]
      cases xs.mapM f <;> rfl

theorem exists_mapM_eq_ok {xs : List α} (h : ∀ x ∈ xs, ∃ y, f x = .ok y) :
    ∃ ys, xs.mapM f = .ok ys := by
  induction xs with
  | nil => exact ⟨[], rfl⟩
  | cons x xs ih =>
    obtain ⟨y, hy⟩ := h x List.mem_cons_self
    obtain ⟨ys, hys⟩ := ih fun x' hx' => h x' (List.mem_cons_of_mem _ hx')
    exact ⟨y :: ys, by rw [mapM_cons_of_ok hy, hys]; rfl⟩

theorem exists_of_mem_mapM {xs : List α} {ys : List β} (h : xs.mapM f = .ok ys) {y : β}
    (hy : y ∈ ys) : ∃ x ∈ xs, f x = .ok y := by
  have hall := mapM_eq_ok_iff.1 h
  clear h
  induction hall with
  | nil => cases hy
  | cons hx _ ih =>
    rcases List.mem_cons.1 hy with rfl | hy
    · exact ⟨_, List.mem_cons_self, hx⟩
    · obtain ⟨x, hmem, hx⟩ := ih hy
      exact ⟨x, List.mem_cons_of_mem _ hmem, hx⟩

theorem mapM_congr_forall₂ {xs₁ xs₂ : List α}
    (h : List.Forall₂ (fun x₁ x₂ => f x₁ = f x₂) xs₁ xs₂) :
    xs₁.mapM f = xs₂.mapM f := by
  induction h with
  | nil => rfl
  | cons hx _ ih => rw [List.mapM_cons, List.mapM_cons, hx, ih]

/-- An invariant of a fold tells what its steps are. -/
theorem foldlM_eq_of_invariant {σ : Type} {step step' : σ → α → Except ε σ} {P : σ → Prop}
    (hstep : ∀ s x, P s → step s x = step' s x) (hkept : ∀ s x s', P s → step' s x = .ok s' → P s')
    {s : σ} (hs : P s) (xs : List α) : xs.foldlM step s = xs.foldlM step' s := by
  induction xs generalizing s with
  | nil => rfl
  | cons x xs ih =>
    rw [List.foldlM_cons, List.foldlM_cons, hstep s x hs]
    cases hx : step' s x with
    | error e => rfl
    | ok s' => exact ih (hkept s x s' hs hx)

end Traversal

end Throughput
