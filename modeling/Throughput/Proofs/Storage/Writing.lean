/-
  Throughput/Proofs/Storage/Writing.lean
  ======================================
  **Reading what was written to a file.**  A walk finds a directory at every step
  but the last, so a file that is put where no directory stands is in nobody's
  way (`placeOf_put`): the path it was written under leads to it as before, and
  what is opened there are the bytes written (`open?_of_write`).
-/
import Throughput.Delivery.Sink
import Throughput.Proofs.Failure.Outcomes

namespace Throughput

/-- The place that a step leads to. -/
def PathStep.next (here : Place) : PathStep → Place
  | enter name => name :: here
  | stay => here
  | leave => here.tail

namespace FileTree

variable {t after : FileTree} {p : Path}

/-! ### Walking past a new file -/

theorem node?_put_of_directory {written place : Place} (node : Node)
    (hwritten : t.node? written ≠ some .directory) (h : t.node? place = some .directory) :
    (t.put written node).node? place = some .directory := by
  cases place with
  | nil => rfl
  | cons name outer =>
    have hne : name :: outer ≠ written := by
      rintro rfl
      exact hwritten h
    rw [node?_put _ _ _ _ (List.cons_ne_nil name outer), if_neg hne, h]

/-- A step is taken from a directory, and into no name that is too long. -/
theorem walk_cons_eq_ok_iff {here place : Place} {step : PathStep} {rest : List PathStep} :
    t.walk here (step :: rest) = .ok place ↔ t.node? here = some .directory ∧
      (∀ name, step = .enter name → name.utf8ByteSize ≤ longestName) ∧
      t.walk (step.next here) rest = .ok place := by
  rw [walk.eq_def]
  simp only
  cases t.node? here with
  | none => simp
  | some node =>
    cases node with
    | file bytes => simp
    | device kind => simp
    | directory =>
      cases step with
      | stay => simp [PathStep.next]
      | leave => simp [PathStep.next]
      | enter name =>
        by_cases hname : longestName < name.utf8ByteSize
        · simp [hname, Nat.not_le_of_lt hname]
        · simp [hname, PathStep.next, Nat.le_of_not_lt hname]

/-- A walk that succeeds goes the same way where no directory is lost. -/
theorem walk_of_kept {here place : Place} {steps : List PathStep}
    (hkept : ∀ place, t.node? place = some .directory → after.node? place = some .directory)
    (h : t.walk here steps = .ok place) : after.walk here steps = .ok place := by
  induction steps generalizing here with
  | nil => exact h
  | cons step rest ih =>
    obtain ⟨hhere, hname, hrest⟩ := walk_cons_eq_ok_iff.1 h
    exact walk_cons_eq_ok_iff.2 ⟨hkept here hhere, hname, ih hrest⟩

theorem placeOf_of_kept {place : Place} (hcurrent : after.current = t.current)
    (hkept : ∀ place, t.node? place = some .directory → after.node? place = some .directory)
    (h : t.placeOf p = .ok place) : after.placeOf p = .ok place := by
  obtain ⟨here, hstart, hwalk⟩ := exceptBind_eq_ok.1 h
  refine exceptBind_eq_ok.2 ⟨here, ?_, walk_of_kept hkept hwalk⟩
  rw [start, hcurrent]
  exact hstart

/-- A file that is put where no directory stands is in nobody's way. -/
theorem placeOf_put {written place : Place} (node : Node)
    (hwritten : t.node? written ≠ some .directory) (h : t.placeOf p = .ok place) :
    (t.put written node).placeOf p = .ok place :=
  placeOf_of_kept (t := t) rfl (fun _ hplace => node?_put_of_directory node hwritten hplace) h

/-! ### Writing and opening -/

theorem filePlace_eq_ok {place : Place} (h : t.filePlace p = .ok place) :
    p.endsInSlash = false ∧ t.placeOf p = .ok place ∧ t.node? place ≠ some .directory := by
  unfold filePlace at h
  split at h
  · -- with a slash at the end every outcome is an error
    obtain ⟨here, -, h⟩ := exceptBind_eq_ok.1 h
    obtain ⟨_, -, h⟩ := exceptBind_eq_ok.1 h
    cases h
  next hslash =>
    obtain ⟨found, hplace, h⟩ := exceptBind_eq_ok.1 h
    split at h
    · cases h
    next hnode =>
      cases h
      exact ⟨by simpa using hslash, hplace, hnode⟩

/-- A write puts a file, or leaves everything as it is where a device stands. -/
theorem write_eq_ok {bytes : List UInt8} (h : t.write p bytes = .ok after) :
    ∃ place, t.filePlace p = .ok place ∧
      (after = t.put place (.file bytes) ∨
        after = t ∧ ∃ kind, t.node? place = some (.device kind)) := by
  obtain ⟨place, hplace, h⟩ := exceptBind_eq_ok.1 h
  refine ⟨place, hplace, ?_⟩
  split at h
  next hnode =>
    split at h
    · cases h
      exact .inr ⟨rfl, _, hnode⟩
    · cases h
  next hnode =>
    cases h
    exact .inr ⟨rfl, _, hnode⟩
  · cases h
    exact .inl rfl

/-- **What a write leaves under its path**, unless a device stands there. -/
theorem open?_of_write {bytes : List UInt8} (h : t.write p bytes = .ok after)
    (hfile : after.isFile p = true) : after.open? p = .ok ⟨bytes, none⟩ := by
  obtain ⟨place, hfound, hafter⟩ := write_eq_ok h
  obtain ⟨hslash, hplace, hnode⟩ := filePlace_eq_ok hfound
  rcases hafter with rfl | ⟨rfl, kind, hdevice⟩
  · have hroot : place ≠ [] := by
      rintro rfl
      exact hnode rfl
    refine exceptBind_eq_ok.2 ⟨place, placeOf_put _ hnode hplace, ?_⟩
    rw [node?_put _ _ _ _ hroot, if_pos rfl]
    simp only [hslash]
    rfl
  · simp [isFile, hplace, hdevice] at hfile

end FileTree

/-! ### Effects -/

namespace Effect

theorem performAll_cons_eq_ok {w after : World} {effect : Effect} {rest : List Effect} :
    performAll w (effect :: rest) = (.ok (), after) ↔
      ∃ between, effect.perform w = (.ok (), between) ∧
        performAll between rest = (.ok (), after) := by
  rw [performAll]
  split
  next between h => simp [h]
  next e between h => simp [h]

theorem write_of_perform {w after : World} {p : Path} {text : String}
    (h : (write p text).perform w = (.ok (), after)) :
    w.tree.write p (textBytes text) = .ok after.tree := by
  rw [perform] at h
  cases hw : w.tree.write p (textBytes text) with
  | error e =>
    rw [hw, World.change] at h
    cases h
  | ok tree =>
    rw [hw, World.change] at h
    cases h
    rfl

/-- **A text that is written to a file, in a directory that may have to be made
    first, is what is read there.** -/
theorem opened_of_writeBelow {w after : World} {p : Path} {text : String}
    (h : performAll w (writeBelow p text) = (.ok (), after)) (hfile : after.tree.isFile p = true) :
    after.tree.open? p = .ok ⟨textBytes text, none⟩ := by
  obtain ⟨made, -, h⟩ := performAll_cons_eq_ok.1 h
  obtain ⟨written, hwrite, h⟩ := performAll_cons_eq_ok.1 h
  cases h
  exact FileTree.open?_of_write (write_of_perform hwrite) hfile

end Effect

end Throughput
