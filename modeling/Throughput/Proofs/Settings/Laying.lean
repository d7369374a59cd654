/-
  Throughput/Proofs/Settings/Laying.lean
  ======================================
  **What laying a value changes.**  Laid at a path of names, a value is what stands under
  these names (`find?_layAt_entries`), merged into what was there if both are tables, and
  whatever parts from the path is as before (`find?_layAt_of_parts`).  Only a number in
  brackets can lead out of an array (`exists_layAt`).
-/
import Throughput.Settings.Layers
import Throughput.Proofs.Failure.Outcomes

namespace Throughput.Toml

/-! ### Laying over a value -/

/-- What stands under names that lead from table to table. -/
def find? : List String → Option Toml → Option Toml
  | [], value => value
  | name :: names, value => find? names ((entriesOf value).lookup name)

/-- What stands where a value is laid over an old one. -/
def laid : Toml → Option Toml → Toml
  | table [], some old => old
  | table entries, old => table (layAll entries (entriesOf old))
  | value, _ => value

/-- What is no table takes the place of what was there. -/
theorem laid_eq_self {value : Toml} (h : ∀ entries, value ≠ table entries) (old : Option Toml) :
    laid value old = value := by
  cases value with
  | table entries => exact absurd rfl (h entries)
  | _ => rfl

/-- What stands where values are laid over each other. -/
def laidAll (values : List Toml) (old : Option Toml) : Option Toml :=
  values.foldl (fun old value => some (laid value old)) old

theorem laidAll_append (values more : List Toml) (old : Option Toml) :
    laidAll (values ++ more) old = laidAll more (laidAll values old) := List.foldl_append

/-- At most one value, and at most one that takes its place. -/
theorem laidAll_eq_or {first second : List Toml} (hfirst : first.length ≤ 1)
    (hsecond : second.length ≤ 1)
    (hlaid : ∀ value ∈ second, ∀ old, laid value old = value) :
    laidAll second (laidAll first none) =
      second.head?.or (first.head?.map (laid · none)) := by
  cases second with
  | nil =>
    cases first with
    | nil => rfl
    | cons value more =>
      obtain rfl : more = [] := by simpa using hfirst
      rfl
  | cons value more =>
    obtain rfl : more = [] := by simpa using hsecond
    exact congrArg some (hlaid value List.mem_cons_self _)

theorem lookup_lay (name other : String) (value : Toml) (entries : Entries) :
    (lay name value entries).lookup other =
      if other == name then some (laid value (entries.lookup name)) else entries.lookup other := by
  cases value with
  | table inner =>
    cases inner with
    | nil =>
      rw [lay]
      split
      next old hold =>
        split_ifs with h
        · rw [eq_of_beq h, hold, laid]
        · rfl
      next hnone => rw [lookup_store, hnone, laid] <;> simp [layAll, entriesOf]
    | cons e more => rw [lay, lookup_store, laid]; simp
  | _ => rw [lay, lookup_store, laid] <;> simp

theorem lookup_layAll (written entries : Entries) (name : String) :
    (layAll written entries).lookup name =
      laidAll ((written.filter (lowerKey ·.1 = name)).map (·.2)) (entries.lookup name) := by
  induction written generalizing entries with
  | nil => rw [layAll]; rfl
  | cons w written ih =>
    obtain ⟨key, value⟩ := w
    rw [layAll, ih, lookup_lay]
    by_cases h : lowerKey key = name
    · simp [h, laidAll]
    · simp [h, Ne.symm h]

theorem lookup_laid_table (written : Entries) (old : Option Toml) (name : String) :
    (entriesOf (some (laid (table written) old))).lookup name =
      laidAll ((written.filter (lowerKey ·.1 = name)).map (·.2)) ((entriesOf old).lookup name) := by
  match written, old with
  | [], some old => rfl
  | [], none => rw [laid] <;> simp [entriesOf, laidAll, layAll]
  | w :: written, old => rw [laid, entriesOf, lookup_layAll]; simp

/-- A table over a table, or where nothing is, is one. -/
theorem exists_laid_table (written : Entries) {old : Option Toml}
    (hold : ∀ found, old = some found → ∃ inner, found = table inner) :
    ∃ entries, laid (table written) old = table entries := by
  match written, old, hold with
  | [], some found, hold =>
    obtain ⟨inner, rfl⟩ := hold found rfl
    exact ⟨inner, rfl⟩
  | [], none, _ => exact ⟨[], by rw [laid] <;> simp [layAll, entriesOf]⟩
  | w :: written, old, _ => exact ⟨_, by rw [laid]; simp⟩

/-! ### Paths -/

/-- The step leads to the entry of a table. -/
def KeyStep.isEntry : KeyStep → Bool
  | entry _ => true
  | item _ => false

/-- The path lays its value elsewhere than under the names: it parts from them at a name. -/
def Parts : List KeyStep → List String → Prop
  | .entry name :: path, other :: names => name ≠ other ∨ Parts path names
  | _, _ => False

instance decidableParts : (path : List KeyStep) → (names : List String) →
    Decidable (Parts path names)
  | .entry _ :: path, _ :: names =>
    have := decidableParts path names
    inferInstanceAs (Decidable (_ ∨ _))
  | [], _ => inferInstanceAs (Decidable False)
  | .item _ :: _, _ => inferInstanceAs (Decidable False)
  | .entry _ :: _, [] => inferInstanceAs (Decidable False)

variable {value new : Toml} {old : Option Toml}

theorem layAt_entry_cons_eq_ok {name : String} {path : List KeyStep}
    (h : layAt (.entry name :: path) value old = .ok new) :
    (path = [] ∧ new = table (lay name value (entriesOf old))) ∨
      ∃ inner, layAt path value ((entriesOf old).lookup name) = .ok inner ∧ path ≠ [] ∧
        new = table (store name inner (entriesOf old)) := by
  cases path with
  | nil =>
    rw [layAt] at h
    exact .inl ⟨rfl, (Except.ok.inj h).symm⟩
  | cons next path =>
    rw [layAt] at h
    obtain ⟨inner, hinner, h⟩ := exceptBind_eq_ok.1 h
    exact .inr ⟨inner, hinner, List.cons_ne_nil _ _, (Except.ok.inj h).symm⟩

/-- What parts from the path of a value is as before. -/
theorem find?_layAt_of_parts {path : List KeyStep} {names : List String} (h : Parts path names)
    (hlay : layAt path value old = .ok new) : find? names (some new) = find? names old := by
  induction path generalizing names old new with
  | nil => exact h.elim
  | cons step path ih =>
    match step, names, h with
    | .entry name, other :: names, h =>
      rcases layAt_entry_cons_eq_ok hlay with ⟨rfl, rfl⟩ | ⟨inner, hinner, -, rfl⟩
      · have hne : name ≠ other := h.resolve_right id
        rw [find?, find?, entriesOf, lookup_lay]
        simp [hne.symm]
      · rw [find?, find?, entriesOf, lookup_store]
        by_cases hname : other = name
        · subst hname
          simp [ih (h.resolve_left fun hne => hne rfl) hinner]
        · simp [hname]

/-- At the end of its path a value is laid over what was there. -/
theorem find?_layAt_entries {names : List String} (hne : names ≠ [])
    (hlay : layAt (names.map .entry) value old = .ok new) :
    find? names (some new) = some (laid value (find? names old)) := by
  induction names generalizing old new with
  | nil => exact absurd rfl hne
  | cons name names ih =>
    rw [find?, find?]
    rcases layAt_entry_cons_eq_ok hlay with ⟨hnames, rfl⟩ | ⟨inner, hinner, hnames, rfl⟩
    · obtain rfl : names = [] := List.map_eq_nil_iff.1 hnames
      rw [entriesOf, lookup_lay]
      simp [find?]
    · rw [entriesOf, lookup_store]
      simp [ih (fun h => hnames (by rw [h]; rfl)) hinner]

/-- A table that is laid at a name lays each of its entries over the one of its name. -/
theorem find?_layAt_table {group name : String} {written : Entries}
    (hlay : layAt [.entry group] (table written) old = .ok new) :
    find? [group, name] (some new) =
      laidAll ((written.filter (lowerKey ·.1 = name)).map (·.2)) (find? [group, name] old) := by
  rcases layAt_entry_cons_eq_ok hlay with ⟨-, rfl⟩ | ⟨-, -, hnil, -⟩
  · rw [find?, entriesOf, lookup_lay, beq_self_eq_true, if_pos rfl]
    exact lookup_laid_table written _ name
  · exact absurd rfl hnil

/-- A path of names alone leads to its place, whatever stands on the way. -/
theorem exists_layAt {path : List KeyStep} (h : path.all KeyStep.isEntry = true) (value : Toml)
    (old : Option Toml) : ∃ new, layAt path value old = .ok new := by
  induction path generalizing old with
  | nil => exact ⟨value, by rw [layAt]⟩
  | cons step path ih =>
    rw [List.all_cons, Bool.and_eq_true] at h
    cases step with
    | item i => cases h.1
    | entry name =>
      cases path with
      | nil => exact ⟨_, by rw [layAt]⟩
      | cons next path =>
        obtain ⟨inner, hinner⟩ := ih h.2 ((entriesOf old).lookup name)
        exact ⟨_, by rw [layAt, hinner]; rfl⟩

end Throughput.Toml
