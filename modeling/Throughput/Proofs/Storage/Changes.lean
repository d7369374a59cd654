/-
  Throughput/Proofs/Storage/Changes.lean
  ======================================
  **What several operations leave alone.**  Operations that write at some places and make
  directories at others change nothing else, whether they succeed or fail
  (`ChangesWithin`); in a row they change what each of them does (`ChangesWithin.trans`).
  Making directories may fail half way and keeps what it made (`changesWithin_of_makeAlong`).
  A text written to a file takes the place of what was there, or is written over its
  beginning (`Stores`).
-/
import Throughput.Proofs.Storage.Places

namespace Throughput.FileTree

variable {t between after : FileTree} {p : Path} {written made : List Place}

/-! ### Changes at several places -/

/-- The bytes of the file at a place; none where no file stands. -/
def bytesAt (t : FileTree) (place : Place) : List UInt8 :=
  match t.node? place with
  | some (.file bytes) => bytes
  | _ => []

/-- Nothing differs but what was written to, and directories made where nothing was. -/
structure ChangesWithin (t after : FileTree) (written made : List Place) : Prop where
  current_eq : after.current = t.current
  directories : ∀ place, t.node? place = some .directory → after.node? place = some .directory
  elsewhere : ∀ place ∉ written, after.node? place = t.node? place ∨
    (t.node? place = none ∧ after.node? place = some .directory ∧ place ∈ made)

namespace ChangesWithin

theorem refl (t : FileTree) (written made : List Place) : ChangesWithin t t written made :=
  ⟨rfl, fun _ h => h, fun _ _ => .inl rfl⟩

theorem mono (h : ChangesWithin t after written made) {written' made' : List Place}
    (hwritten : written ⊆ written') (hmade : made ⊆ made') :
    ChangesWithin t after written' made' where
  current_eq := h.current_eq
  directories := h.directories
  elsewhere := by
    intro place hplace
    rcases h.elsewhere place (fun hmem => hplace (hwritten hmem)) with heq | ⟨hnone, hnew, hmem⟩
    · exact .inl heq
    · exact .inr ⟨hnone, hnew, hmade hmem⟩

theorem trans {written' made' : List Place} (h : ChangesWithin t between written made)
    (h' : ChangesWithin between after written' made') :
    ChangesWithin t after (written ++ written') (made ++ made') where
  current_eq := h'.current_eq.trans h.current_eq
  directories := fun place hplace => h'.directories place (h.directories place hplace)
  elsewhere := by
    intro place hplace
    obtain ⟨hfirst, hsecond⟩ := not_or.1 (mt List.mem_append.2 hplace)
    rcases h'.elsewhere place hsecond with heq | ⟨hnone, hnew, hmem⟩
    · rw [heq]
      rcases h.elsewhere place hfirst with heq' | ⟨hnone, hnew, hmem⟩
      · exact .inl heq'
      · exact .inr ⟨hnone, hnew, List.mem_append_left _ hmem⟩
    · rcases h.elsewhere place hfirst with heq | ⟨-, hdirectory, -⟩
      · exact .inr ⟨heq.symm.trans hnone, hnew, List.mem_append_right _ hmem⟩
      · rw [hdirectory] at hnone
        cases hnone

variable (h : ChangesWithin t after written made) {place : Place} (hplace : place ∉ written)
include h hplace

theorem node?_eq {node : Node} (hnode : t.node? place = some node) :
    after.node? place = some node := by
  rcases h.elsewhere place hplace with heq | ⟨hnone, -, -⟩
  · rw [heq, hnode]
  · rw [hnode] at hnone
    cases hnone

theorem node?_eq_device_iff {kind : Device} :
    after.node? place = some (.device kind) ↔ t.node? place = some (.device kind) := by
  rcases h.elsewhere place hplace with heq | ⟨hnone, hnew, -⟩
  · rw [heq]
  · simp [hnone, hnew]

theorem bytesAt_eq : after.bytesAt place = t.bytesAt place := by
  rw [bytesAt, bytesAt]
  rcases h.elsewhere place hplace with heq | ⟨hnone, hnew, -⟩
  · rw [heq]
  · rw [hnone, hnew]

end ChangesWithin

/-- A file at a place that was not written to is read as before. -/
theorem contents?_of_changesWithin (h : ChangesWithin t after written made)
    (hplace : t.destination p ∉ written) {bytes : List UInt8}
    (hread : t.read.contents? p = some bytes) : after.read.contents? p = some bytes := by
  obtain ⟨hslash, place, hfound, hnode⟩ := contents?_eq_some_iff.1 hread
  rw [← placeOf_eq_destination hfound] at hplace
  exact contents?_eq_some_iff.2 ⟨hslash, place,
    placeOf_of_kept h.current_eq h.directories hfound, h.node?_eq hplace hnode⟩

/-! ### Making directories, all or some -/

theorem changesWithin_put_directory {here : Place} (h : t.node? here = none) :
    ChangesWithin t (t.put here .directory) [] [here] where
  current_eq := rfl
  directories := (changesOnly_put_directory h).directories
  elsewhere := by
    intro place _
    by_cases hplace : place = here
    · subst hplace
      exact .inr ⟨h, node?_put_self (by simp [h]), List.mem_singleton_self _⟩
    · exact .inl (node?_put_of_ne hplace)

/-- Nothing is made where a file or a device is in the way. -/
theorem makeAlong_of_blocked {here : Place} {node : Node} (h : t.node? here = some node)
    (hnode : node ≠ .directory) (below : Bool) (steps : List PathStep) :
    (t.makeAlong below here steps).2 = t := by
  rw [makeAlong.eq_def]
  cases node with
  | directory => exact absurd rfl hnode
  | file bytes => simp only [h]
  | device kind => simp only [h]

/-- Where nothing is, the way goes on from the directory that is made there. -/
theorem changesWithin_makeAlong_of_onwards {here : Place} {steps : List PathStep}
    {more : List Place} (honwards : ∀ (t : FileTree) (below : Bool),
      t.node? here = some .directory →
        ChangesWithin t (t.makeAlong below here steps).2 [] more)
    (t : FileTree) (below : Bool) :
    ChangesWithin t (t.makeAlong below here steps).2 [] (here :: more) := by
  cases hhere : t.node? here with
  | none =>
    have hmade : (t.put here .directory).node? here = some .directory :=
      node?_put_self (by simp [hhere])
    rw [makeAlong_of_none hhere]
    exact (changesWithin_put_directory hhere).trans (honwards _ true hmade)
  | some node =>
    by_cases hdirectory : node = .directory
    · subst hdirectory
      exact (honwards t below hhere).mono (List.Subset.refl _) (List.subset_cons_self _ _)
    · rw [makeAlong_of_blocked hhere hdirectory]
      exact .refl _ _ _

/-- However far it gets, making directories makes some that are missing on the way. -/
theorem changesWithin_of_makeAlong (t : FileTree) (below : Bool) (here : Place)
    (steps : List PathStep) :
    ChangesWithin t (t.makeAlong below here steps).2 [] (steps.scanl PathStep.next here) := by
  induction steps generalizing t below here with
  | nil =>
    apply changesWithin_makeAlong_of_onwards
    intro t below hdirectory
    rw [makeAlong_of_directory hdirectory]
    exact .refl _ _ _
  | cons step rest ih =>
    rw [List.scanl_cons]
    apply changesWithin_makeAlong_of_onwards
    intro t below hdirectory
    rw [makeAlong_of_directory hdirectory]
    cases step with
    | stay => exact ih t below here
    | leave => exact ih t below here.tail
    | enter name =>
      simp only
      split
      · exact .refl _ _ _
      · exact ih t below (name :: here)

theorem changesWithin_makeDirectories (t : FileTree) (p : Path) :
    ChangesWithin t (t.makeDirectories p).2 [] (if p.text.isEmpty then [] else t.way p) := by
  unfold makeDirectories
  split
  next => exact .refl _ _ _
  next hempty =>
    split
    next here hstart =>
      rw [way, ← start_eq_origin hstart]
      exact changesWithin_of_makeAlong _ _ _ _
    next => exact .refl _ _ _

/-! ### Texts in files -/

/-- A file under the path has the bytes now, unless a device stands there. -/
def Stores (t after : FileTree) (p : Path) (bytes : List UInt8) : Prop :=
  ∃ place, t.filePlace p = .ok place ∧ (after = t.put place (.file bytes) ∨
    after = t ∧ ∃ kind, t.node? place = some (.device kind))

theorem stores_of_write {bytes : List UInt8} (h : t.write p bytes = .ok after) :
    t.Stores after p bytes := write_eq_ok h

/-- What reaches beyond the new bytes stays. -/
theorem stores_of_overwrite {bytes : List UInt8} (h : t.overwrite p bytes = .ok after) :
    t.Stores after p (bytes ++ (t.bytesAt (t.destination p)).drop bytes.length) := by
  obtain ⟨place, hplace, h⟩ := exceptBind_eq_ok.1 h
  rw [← filePlace_eq_destination hplace]
  split at h
  next old hnode =>
    cases h
    have hold : t.bytesAt place = old := by rw [bytesAt, hnode]
    rw [hold]
    exact ⟨place, hplace, .inl rfl⟩
  next hnode =>
    have hold : t.bytesAt place = [] := by
      unfold bytesAt
      split
      next old hfile => exact absurd hfile (hnode old)
      next => rfl
    rw [hold, List.drop_nil, List.append_nil]
    exact write_eq_ok h

namespace Stores

variable {bytes : List UInt8} (h : t.Stores after p bytes)
include h

theorem changesOnly : ChangesOnly t after (some (t.destination p)) := by
  obtain ⟨place, hplace, rfl | ⟨rfl, -⟩⟩ := h
  · rw [← filePlace_eq_destination hplace]
    exact changesOnly_put_file (filePlace_eq_ok hplace).2.2
  · exact .refl _ _

theorem node?_of_ne {other : Place} (hother : other ≠ t.destination p) :
    after.node? other = t.node? other := by
  obtain ⟨place, hplace, rfl | ⟨rfl, -⟩⟩ := h
  · rw [← filePlace_eq_destination hplace] at hother
    exact node?_put_of_ne hother
  · rfl

theorem changesWithin : ChangesWithin t after [t.destination p] [] where
  current_eq := h.changesOnly.current_eq
  directories := h.changesOnly.directories
  elsewhere := fun _ hother => .inl (h.node?_of_ne (mt List.mem_singleton.2 hother))

/-- Something stands under the path that is no directory. -/
theorem exists_node : ∃ node, after.node? (t.destination p) = some node ∧ node ≠ .directory := by
  obtain ⟨place, hplace, hafter⟩ := h
  rw [← filePlace_eq_destination hplace]
  rcases hafter with rfl | ⟨rfl, kind, hdevice⟩
  · exact ⟨_, node?_put_self (filePlace_eq_ok hplace).2.2, Node.noConfusion⟩
  · exact ⟨_, hdevice, Node.noConfusion⟩

/-- A device was there before. -/
theorem node?_eq_device {other : Place} {kind : Device}
    (hdevice : after.node? other = some (.device kind)) :
    t.node? other = some (.device kind) := by
  obtain ⟨place, hplace, rfl | ⟨rfl, -⟩⟩ := h
  · by_cases hsame : other = place
    · subst hsame
      rw [node?_put_self (filePlace_eq_ok hplace).2.2] at hdevice
      cases hdevice
    · rwa [node?_put_of_ne hsame] at hdevice
  · exact hdevice

theorem device_or_contents : (∃ kind, t.node? (t.destination p) = some (.device kind)) ∨
    after.read.contents? p = some bytes := by
  obtain ⟨place, hplace, hafter⟩ := h
  obtain ⟨hslash, hfound, hnode⟩ := filePlace_eq_ok hplace
  rcases hafter with rfl | ⟨rfl, hdevice⟩
  · exact .inr (contents?_eq_some_iff.2
      ⟨hslash, place, placeOf_put _ hnode hfound, node?_put_self hnode⟩)
  · rw [← filePlace_eq_destination hplace]
    exact .inl hdevice

theorem isOutput_iff :
    t.isOutput p = true ↔ t.node? (t.destination p) = some (.device .output) := by
  obtain ⟨place, hplace, -⟩ := h
  rw [isOutput, hplace, ← filePlace_eq_destination hplace]
  exact beq_iff_eq

end Stores

/-- Writing to the output succeeds. -/
theorem exists_write_of_isOutput (h : t.isOutput p = true) (bytes : List UInt8) :
    t.write p bytes = .ok t ∧ t.overwrite p bytes = .ok t := by
  unfold isOutput at h
  split at h
  next place hplace =>
    have hdevice := beq_iff_eq.1 h
    have hwrite : t.write p bytes = .ok t := by
      refine exceptBind_eq_ok.2 ⟨place, hplace, ?_⟩
      rw [hdevice]
      rfl
    refine ⟨hwrite, exceptBind_eq_ok.2 ⟨place, hplace, ?_⟩⟩
    rw [hdevice]
    exact hwrite
  next => cases h

end Throughput.FileTree
