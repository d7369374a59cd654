/-
  Throughput/Proofs/Storage/Places.lean
  =====================================
  **What operations on files leave alone.**  As there are no links, the place that a path
  names is known from the path and the current directory (`placeOf_eq_destination`).
  Making directories makes those that are missing on the way and nothing else
  (`makesOnly_of_makeDirectories`), putting a file changes its place and nothing else
  (`changesOnly_put_file`); `ChangesOnly` says what both come to, and
  `contents?_of_changesOnly` that a file elsewhere is read as before.
-/
import Throughput.Proofs.Storage.Writing

namespace Throughput

namespace FileTree

variable {t between after : FileTree} {p : Path}

/-! ### Destinations -/

/-- The place that the first step of a path is taken from. -/
def origin (t : FileTree) (p : Path) : Place := if p.isAbsolute then [] else t.current

/-- The place that a path names, whatever stands on the way. -/
def destination (t : FileTree) (p : Path) : Place := p.steps.foldl PathStep.next (t.origin p)

/-- The places that a path leads through, the last one included. -/
def way (t : FileTree) (p : Path) : List Place := p.steps.scanl PathStep.next (t.origin p)

theorem origin_congr (h : after.current = t.current) (p : Path) : after.origin p = t.origin p := by
  rw [origin, origin, h]

theorem destination_congr (h : after.current = t.current) (p : Path) :
    after.destination p = t.destination p := by
  rw [destination, destination, origin_congr h]

theorem way_congr (h : after.current = t.current) (p : Path) : after.way p = t.way p := by
  rw [way, way, origin_congr h]

theorem walk_eq_foldl {here place : Place} {steps : List PathStep}
    (h : t.walk here steps = .ok place) : place = steps.foldl PathStep.next here := by
  induction steps generalizing here with
  | nil =>
    cases h
    rfl
  | cons step rest ih =>
    obtain ⟨-, -, hrest⟩ := walk_cons_eq_ok_iff.1 h
    exact ih hrest

theorem start_eq_origin {here : Place} (h : t.start p = .ok here) : here = t.origin p := by
  unfold start at h
  split at h
  · cases h
  · split at h
    · cases h
    · split at h
      · cases h
      · cases h
        rfl

theorem placeOf_eq_destination {place : Place} (h : t.placeOf p = .ok place) :
    place = t.destination p := by
  obtain ⟨here, hstart, hwalk⟩ := exceptBind_eq_ok.1 h
  rw [destination, ← start_eq_origin hstart]
  exact walk_eq_foldl hwalk

/-! ### Changes -/

/-- Nothing differs but one place, if any, and directories that were missing. -/
structure ChangesOnly (t after : FileTree) (changed : Option Place) : Prop where
  current_eq : after.current = t.current
  directories : ∀ place, t.node? place = some .directory → after.node? place = some .directory
  elsewhere : ∀ place, changed ≠ some place → after.node? place = t.node? place ∨
    (t.node? place = none ∧ after.node? place = some .directory)

namespace ChangesOnly

variable {changed : Option Place}

theorem refl (t : FileTree) (changed : Option Place) : ChangesOnly t t changed :=
  ⟨rfl, fun _ h => h, fun _ _ => .inl rfl⟩

theorem of_none (h : ChangesOnly t after none) (changed : Option Place) :
    ChangesOnly t after changed :=
  ⟨h.current_eq, h.directories, fun place _ => h.elsewhere place (Option.some_ne_none place).symm⟩

theorem trans (h : ChangesOnly t between changed) (h' : ChangesOnly between after changed) :
    ChangesOnly t after changed where
  current_eq := h'.current_eq.trans h.current_eq
  directories := fun place hplace => h'.directories place (h.directories place hplace)
  elsewhere := by
    intro place hplace
    rcases h'.elsewhere place hplace with heq | ⟨hnone, hmade⟩
    · rw [heq]
      exact h.elsewhere place hplace
    · rcases h.elsewhere place hplace with heq | ⟨-, hdirectory⟩
      · exact .inr ⟨heq.symm.trans hnone, hmade⟩
      · rw [hdirectory] at hnone
        cases hnone

/-- What stands at another place and is no directory stays. -/
theorem node?_eq (h : ChangesOnly t after changed) {place : Place} (hplace : changed ≠ some place)
    {node : Node} (hnode : t.node? place = some node) : after.node? place = some node := by
  rcases h.elsewhere place hplace with heq | ⟨hnone, -⟩
  · rw [heq, hnode]
  · rw [hnode] at hnone
    cases hnone

theorem placeOf_eq (h : ChangesOnly t after changed) {place : Place}
    (hplace : t.placeOf p = .ok place) : after.placeOf p = .ok place :=
  placeOf_of_kept h.current_eq h.directories hplace

end ChangesOnly

/-! ### Making directories -/

/-- Some places are directories now, and nothing else differs. -/
structure MakesOnly (t after : FileTree) (places : List Place) : Prop extends
    ChangesOnly t after none where
  made : ∀ place ∈ places, after.node? place = some .directory
  kept : ∀ place ∉ places, after.node? place = t.node? place

theorem MakesOnly.refl (t : FileTree) : MakesOnly t t [] :=
  ⟨.refl t none, List.forall_mem_nil _, fun _ _ => rfl⟩

/-- A device was there before. -/
theorem MakesOnly.node?_eq_device {places : List Place} (h : MakesOnly t after places)
    {place : Place} {kind : Device} (hdevice : after.node? place = some (.device kind)) :
    t.node? place = some (.device kind) := by
  rcases h.elsewhere place (Option.some_ne_none place).symm with heq | ⟨-, hdirectory⟩
  · rw [← heq, hdevice]
  · rw [hdevice] at hdirectory
    cases hdirectory

theorem node?_put_self {place : Place} {node : Node} (h : t.node? place ≠ some .directory) :
    (t.put place node).node? place = some node := by
  have hroot : place ≠ [] := by
    rintro rfl
    exact h rfl
  rw [node?_put _ _ _ _ hroot, if_pos rfl]

theorem node?_put_of_ne {written place : Place} {node : Node} (h : place ≠ written) :
    (t.put written node).node? place = t.node? place := by
  cases place with
  | nil => rfl
  | cons name outer => rw [node?_put _ _ _ _ (List.cons_ne_nil name outer), if_neg h]

theorem changesOnly_put_directory {here : Place} (h : t.node? here = none) :
    ChangesOnly t (t.put here .directory) none where
  current_eq := rfl
  directories := fun _ hplace => node?_put_of_directory .directory (by simp [h]) hplace
  elsewhere := by
    intro place _
    by_cases hplace : place = here
    · subst hplace
      exact .inr ⟨h, node?_put_self (by simp [h])⟩
    · exact .inl (node?_put_of_ne hplace)

theorem makeAlong_of_directory {here : Place} (h : t.node? here = some .directory) (below : Bool)
    (steps : List PathStep) : t.makeAlong below here steps =
      match steps with
      | [] => (.ok (), t)
      | .stay :: rest => t.makeAlong below here rest
      | .leave :: rest => t.makeAlong below here.tail rest
      | .enter name :: rest =>
        if longestName < name.utf8ByteSize then (.error .nameTooLong, t)
        else t.makeAlong below (name :: here) rest := by
  rw [makeAlong.eq_def]
  cases steps with
  | nil => simp only [h, Option.isNone_some, Bool.false_eq_true, if_false]
  | cons step rest =>
    cases step <;> simp only [h, Option.isNone_some, Bool.or_false, Bool.false_eq_true, if_false]

/-- A missing directory is made, and the way goes on from there. -/
theorem makeAlong_of_none {here : Place} (h : t.node? here = none) (below : Bool)
    (steps : List PathStep) :
    t.makeAlong below here steps = (t.put here .directory).makeAlong true here steps := by
  have hmade : (t.put here .directory).node? here = some .directory :=
    node?_put_self (by simp [h])
  rw [makeAlong_of_directory hmade, makeAlong.eq_def]
  cases steps with
  | nil => simp only [h, Option.isNone_none, if_true]
  | cons step rest => cases step <;> simp only [h, Option.isNone_none, Bool.or_true, if_true]

/-- Directories are made from where a directory stands, once it was made if need be. -/
theorem exists_directory_of_makeAlong {below : Bool} {here : Place} {steps : List PathStep}
    (h : t.makeAlong below here steps = (.ok (), after)) :
    ∃ between below', ChangesOnly t between none ∧
      (∀ place ≠ here, between.node? place = t.node? place) ∧
      between.node? here = some .directory ∧
      between.makeAlong below' here steps = (.ok (), after) := by
  cases hhere : t.node? here with
  | none =>
    rw [makeAlong_of_none hhere] at h
    exact ⟨_, true, changesOnly_put_directory hhere, fun _ hplace => node?_put_of_ne hplace,
      node?_put_self (by simp [hhere]), h⟩
  | some node =>
    cases node with
    | directory => exact ⟨t, below, .refl t none, fun _ _ => rfl, hhere, h⟩
    | file bytes =>
      rw [makeAlong.eq_def] at h
      simp [hhere] at h
    | device kind =>
      rw [makeAlong.eq_def] at h
      simp [hhere] at h

theorem makesOnly_of_makeAlong {below : Bool} {here : Place} {steps : List PathStep}
    (h : t.makeAlong below here steps = (.ok (), after)) :
    MakesOnly t after (steps.scanl PathStep.next here) := by
  induction steps generalizing t below here with
  | nil =>
    obtain ⟨between, below', hchanges, hkept, hhere, h⟩ := exists_directory_of_makeAlong h
    rw [makeAlong_of_directory hhere] at h
    cases h
    refine ⟨hchanges, ?_, fun place hplace => hkept place (by simpa using hplace)⟩
    simpa using hhere
  | cons step rest ih =>
    obtain ⟨between, below', hchanges, hkept, hhere, h⟩ := exists_directory_of_makeAlong h
    rw [makeAlong_of_directory hhere] at h
    have hrest : MakesOnly between after (rest.scanl PathStep.next (PathStep.next here step)) := by
      cases step with
      | stay => exact ih h
      | leave => exact ih h
      | enter name =>
        simp only at h
        split at h
        · cases h
        · exact ih h
    rw [List.scanl_cons]
    refine ⟨hchanges.trans hrest.toChangesOnly, List.forall_mem_cons.2 ⟨?_, hrest.made⟩, ?_⟩
    · exact hrest.directories here hhere
    · intro place hplace
      obtain ⟨hne, hplace⟩ := not_or.1 (mt List.mem_cons.2 hplace)
      rw [hrest.kept place hplace, hkept place hne]

theorem makesOnly_of_makeDirectories (h : t.makeDirectories p = (.ok (), after)) :
    MakesOnly t after (if p.text.isEmpty then [] else t.way p) := by
  unfold makeDirectories at h
  split at h
  next hempty =>
    cases h
    rw [if_pos hempty]
    exact .refl _
  next hempty =>
    rw [if_neg hempty]
    split at h
    next here hstart =>
      rw [way, ← start_eq_origin hstart]
      exact makesOnly_of_makeAlong h
    · cases h

/-! ### Targets -/

/-- The place that a text goes to; nothing if it is printed. -/
def targetPlace (t : FileTree) (target : Option Path) : Option Place := target.map t.destination

/-- The places that have to be directories before a text can be written to its target. -/
def wayTo (t : FileTree) (target : Option Path) : List Place :=
  match target.bind Path.parent? with
  | none => []
  | some parent => if parent.text.isEmpty then [] else t.way parent

theorem targetPlace_congr (h : after.current = t.current) (target : Option Path) :
    after.targetPlace target = t.targetPlace target := by
  cases target with
  | none => rfl
  | some path => exact congrArg some (destination_congr h path)

theorem wayTo_congr (h : after.current = t.current) (target : Option Path) :
    after.wayTo target = t.wayTo target := by
  unfold wayTo
  simp only [way_congr h]

/-! ### Writing -/

theorem changesOnly_put_file {place : Place} {node : Node}
    (h : t.node? place ≠ some .directory) : ChangesOnly t (t.put place node) (some place) where
  current_eq := rfl
  directories := fun _ hplace => node?_put_of_directory node h hplace
  elsewhere := fun _ hplace => .inl (node?_put_of_ne fun heq => hplace (congrArg some heq.symm))

theorem filePlace_eq_destination {place : Place} (h : t.filePlace p = .ok place) :
    place = t.destination p :=
  placeOf_eq_destination (filePlace_eq_ok h).2.1

/-! ### Reading again -/

theorem isFile_iff : t.isFile p = true ↔ p.endsInSlash = false ∧
    ∃ place bytes, t.placeOf p = .ok place ∧ t.node? place = some (.file bytes) := by
  unfold isFile
  cases t.placeOf p with
  | error e => simp
  | ok place =>
    cases hnode : t.node? place with
    | none => simp [hnode]
    | some node => cases node <;> simp [hnode]

theorem open?_of_file {place : Place} {bytes : List UInt8} (hslash : p.endsInSlash = false)
    (hplace : t.placeOf p = .ok place) (hnode : t.node? place = some (.file bytes)) :
    t.open? p = .ok ⟨bytes, none⟩ := by
  refine exceptBind_eq_ok.2 ⟨place, hplace, ?_⟩
  rw [hnode]
  simp only [hslash]
  rfl

theorem contents?_eq_some_iff {bytes : List UInt8} : t.read.contents? p = some bytes ↔
    p.endsInSlash = false ∧ ∃ place, t.placeOf p = .ok place ∧
      t.node? place = some (.file bytes) := by
  by_cases hfile : t.isFile p = true
  · obtain ⟨hslash, place, old, hplace, hnode⟩ := isFile_iff.1 hfile
    have hold : t.read.contents? p = some old := by
      simp only [Files.contents?, read, hfile, open?_of_file hslash hplace hnode]
    simp [hold, hslash, hplace, hnode]
  · have hnone : t.read.contents? p = none := by
      simp only [Files.contents?, read, Bool.not_eq_true] at hfile ⊢
      simp only [hfile]
    refine iff_of_false (by simp [hnone]) fun ⟨hslash, place, hplace, hnode⟩ => ?_
    exact hfile (isFile_iff.2 ⟨hslash, place, bytes, hplace, hnode⟩)

/-- A file elsewhere is read as before. -/
theorem contents?_of_changesOnly {changed : Option Place} {bytes : List UInt8}
    (h : ChangesOnly t after changed) (hchanged : changed ≠ some (t.destination p))
    (hread : t.read.contents? p = some bytes) : after.read.contents? p = some bytes := by
  obtain ⟨hslash, place, hplace, hnode⟩ := contents?_eq_some_iff.1 hread
  rw [← placeOf_eq_destination hplace] at hchanged
  exact contents?_eq_some_iff.2 ⟨hslash, place, h.placeOf_eq hplace, h.node?_eq hchanged hnode⟩

/-! ### Writing over an empty file -/

theorem put_put (t : FileTree) (place : Place) (first second : Node) :
    (t.put place first).put place second = t.put place second := by
  simp only [put, store_store]

theorem filePlace_put {place : Place} (h : t.filePlace p = .ok place) (bytes : List UInt8) :
    (t.put place (.file bytes)).filePlace p = .ok place := by
  obtain ⟨hslash, hplace, hnode⟩ := filePlace_eq_ok h
  unfold filePlace
  simp [hslash, placeOf_put (.file bytes) hnode hplace, node?_put_self hnode, bind, Except.bind,
    pure, Except.pure]

theorem write_eq_put {place : Place} (hplace : t.filePlace p = .ok place)
    (h : ∀ kind, t.node? place ≠ some (.device kind)) (bytes : List UInt8) :
    t.write p bytes = .ok (t.put place (.file bytes)) := by
  refine exceptBind_eq_ok.2 ⟨place, hplace, ?_⟩
  cases hnode : t.node? place with
  | none => rfl
  | some node =>
    cases node with
    | device kind => exact absurd hnode (h kind)
    | directory => rfl
    | file old => rfl

theorem isOutput_eq_false {place : Place} (hplace : t.filePlace p = .ok place)
    (h : ∀ kind, t.node? place ≠ some (.device kind)) : t.isOutput p = false := by
  rw [isOutput, hplace]
  exact beq_eq_false_iff_ne.2 (h .output)

/-- What is written at once can also be written over an empty file. -/
theorem overwrite_of_write {bytes : List UInt8} (h : t.write p bytes = .ok after) :
    ∃ emptied, t.write p [] = .ok emptied ∧ emptied.overwrite p bytes = .ok after ∧
      emptied.isOutput p = t.isOutput p := by
  obtain ⟨place, hplace, hwritten⟩ := exceptBind_eq_ok.1 h
  obtain ⟨-, -, hnode⟩ := filePlace_eq_ok hplace
  by_cases hdevice : ∃ kind, t.node? place = some (.device kind)
  · obtain ⟨kind, hdevice⟩ := hdevice
    refine ⟨t, exceptBind_eq_ok.2 ⟨place, hplace, ?_⟩, exceptBind_eq_ok.2 ⟨place, hplace, ?_⟩, rfl⟩
    · rw [hdevice]
      cases kind <;> rfl
    · rw [hdevice]
      exact h
  · have hother := not_exists.1 hdevice
    rw [write_eq_put hplace hother] at h
    cases h
    have hemptied := filePlace_put hplace []
    have hfile : (t.put place (.file [])).node? place = some (.file []) := node?_put_self hnode
    refine ⟨_, write_eq_put hplace hother [], exceptBind_eq_ok.2 ⟨place, hemptied, ?_⟩, ?_⟩
    · rw [hfile]
      simp [put_put, pure, Except.pure]
    · rw [isOutput_eq_false hplace hother, isOutput_eq_false hemptied (by simp [hfile])]

end FileTree

end Throughput
