/-
  Throughput/Proofs/Delivery/Arrivals.lean
  ========================================
  **Texts arrive where they are sent.**  A text is printed, or it is written to a file in a
  directory that may have to be made first.  `Sent` says what that comes to: the target has
  the text, only the target and missing directories differ, and nothing else is printed
  (`sent_of_sendTo`).  A text that was sent before is not disturbed as long as the two
  targets are different outlets (`Sent.received_first`), nor does it disturb what is sent
  behind it (`Sent.received_second`).
-/
import Throughput.Proofs.Storage.Changes

namespace Throughput

/-- Where a text ends up. -/
inductive Outlet where
  | output
  | place (place : Place)

/-- A device can be the output under another name. -/
def FileTree.outlet (t : FileTree) (target : Option Path) : Outlet :=
  match t.targetPlace target with
  | none => .output
  | some place => if t.node? place = some (.device .output) then .output else .place place

/-- The effects that send a text to its target, where nothing stands for the output. -/
def Effect.sendTo (text : String) (target : Option Path) : List Effect :=
  match target with
  | none => [.print text]
  | some path => writeBelow path text

namespace World

variable {w between after : World} {text : String} {target : Option Path} {p : Path}

/-- The target has the text: it was printed, a file holds it and nothing else, or a device
    was given it. -/
inductive Received (w after : World) (text : String) : Option Path → Prop
  | printed (h : after.printed = w.printed ++ text) : Received w after text none
  | file {path : Path} (h : after.tree.read.contents? path = some (textBytes text)) :
      Received w after text (some path)
  | device {path : Path} {place : Place} {kind : Device}
      (hplace : after.tree.placeOf path = .ok place)
      (hdevice : after.tree.node? place = some (.device kind))
      (hprinted : kind = .output → after.printed = w.printed ++ text) :
      Received w after text (some path)

/-- A text was sent to a target, and nothing else happened. -/
structure Sent (w after : World) (text : String) (target : Option Path) : Prop where
  changes : w.tree.ChangesOnly after.tree (w.tree.targetPlace target)
  received : w.Received after text target
  silent : w.tree.outlet target ≠ .output → after.printed = w.printed
  made : ∀ place ∈ w.tree.wayTo target, after.tree.node? place = some .directory
  kept : ∀ place ∉ w.tree.wayTo target, w.tree.targetPlace target ≠ some place →
    after.tree.node? place = w.tree.node? place
  stands : ∀ place, w.tree.targetPlace target = some place →
    ∃ node, after.tree.node? place = some node ∧ node ≠ .directory
  devices : ∀ place kind, after.tree.node? place = some (.device kind) →
    w.tree.node? place = some (.device kind)

/-! ### Sending -/

/-- Making the parent of a path prints nothing, and there is nothing to make without one. -/
theorem makeParent_cases {outcome : Except IoError Unit} (h : w.makeParent p = (outcome, after)) :
    after.printed = w.printed ∧
      ((p.parent? = none ∧ after = w) ∨
        ∃ parent, p.parent? = some parent ∧
          w.tree.makeDirectories parent = (outcome, after.tree)) := by
  unfold makeParent at h
  cases hparent : p.parent? with
  | none =>
    rw [hparent] at h
    cases h
    exact ⟨rfl, .inl ⟨rfl, rfl⟩⟩
  | some parent =>
    rw [hparent] at h
    cases h
    exact ⟨rfl, .inr ⟨parent, rfl, rfl⟩⟩

theorem makesOnly_of_makeParent (h : w.makeParent p = (.ok (), after)) :
    after.printed = w.printed ∧ w.tree.MakesOnly after.tree (w.tree.wayTo (some p)) := by
  rw [FileTree.wayTo, Option.bind_some]
  obtain ⟨hprinted, ⟨hnone, rfl⟩ | ⟨parent, hparent, hmade⟩⟩ := makeParent_cases h
  · rw [hnone]
    exact ⟨hprinted, .refl _⟩
  · rw [hparent]
    exact ⟨hprinted, FileTree.makesOnly_of_makeDirectories hmade⟩

theorem perform_write_eq_ok : (Effect.write p text).perform w = (.ok (), after) ↔
    ∃ tree, w.tree.write p (textBytes text) = .ok tree ∧
      after = ⟨tree, (w.echo p text).printed⟩ := by
  rw [Effect.perform]
  cases w.tree.write p (textBytes text) with
  | error e => simp [change]
  | ok tree => simp [change, eq_comm]

theorem printed_echo (w : World) (p : Path) (text : String) :
    (w.echo p text).printed = if w.tree.isOutput p then w.printed ++ text else w.printed := by
  unfold echo
  split <;> rfl

theorem printed_of_stores {t : FileTree} {bytes : List UInt8} (h : w.tree.Stores t p bytes) :
    (w.echo p text).printed = w.printed ++
      if w.tree.node? (w.tree.destination p) = some (.device .output) then text else "" := by
  rw [printed_echo]
  simp only [h.isOutput_iff]
  split
  · rfl
  · exact (String.append_empty).symm

/-- What is stored was received, also where the way to it was made before. -/
theorem received_of_stores {made : World} {t : FileTree} (hprinted : made.printed = w.printed)
    (h : made.tree.Stores t p (textBytes text)) :
    w.Received ⟨t, (made.echo p text).printed⟩ text (some p) := by
  have hechoed : (made.echo p text).printed = made.printed ++
      if made.tree.node? (made.tree.destination p) = some (.device .output) then text else "" :=
    printed_of_stores h
  obtain ⟨place, hplace, hafter⟩ := h
  obtain ⟨hslash, hfound, hnode⟩ := FileTree.filePlace_eq_ok hplace
  rcases hafter with rfl | ⟨rfl, kind, hdevice⟩
  · apply Received.file
    exact FileTree.contents?_eq_some_iff.2 ⟨hslash, place,
      FileTree.placeOf_put _ hnode hfound, FileTree.node?_put_self hnode⟩
  · refine .device hfound hdevice ?_
    rintro rfl
    rw [hechoed, ← FileTree.filePlace_eq_destination hplace, if_pos hdevice, hprinted]

theorem performAll_writeBelow_eq_ok :
    Effect.performAll w (Effect.writeBelow p text) = (.ok (), after) ↔
      ∃ made, w.makeParent p = (.ok (), made) ∧
        (Effect.write p text).perform made = (.ok (), after) := by
  simp only [Effect.writeBelow, Effect.performAll_cons_eq_ok, Effect.performAll_nil,
    Prod.mk.injEq, true_and, exists_eq_right]
  rfl

theorem outlet_eq_output {t : FileTree} (h : t.node? (t.destination p) = some (.device .output)) :
    t.outlet (some p) = .output := by
  simp [FileTree.outlet, FileTree.targetPlace, h]

theorem sent_of_writeBelow
    (h : Effect.performAll w (Effect.writeBelow p text) = (.ok (), after)) :
    w.Sent after text (some p) := by
  obtain ⟨made, hmade, hwrite⟩ := performAll_writeBelow_eq_ok.1 h
  obtain ⟨hprinted, hparents⟩ := makesOnly_of_makeParent hmade
  obtain ⟨tree, hwritten, rfl⟩ := perform_write_eq_ok.1 hwrite
  have hstores := FileTree.stores_of_write hwritten
  have hdestination : made.tree.destination p = w.tree.destination p :=
    FileTree.destination_congr hparents.current_eq p
  have hchanges := hstores.changesOnly
  rw [hdestination] at hchanges
  refine ⟨(hparents.toChangesOnly.of_none _).trans hchanges, received_of_stores hprinted hstores,
    ?silent, ?made, ?kept, ?stands, ?devices⟩
  case silent =>
    intro hsilent
    have hnot : made.tree.node? (made.tree.destination p) ≠ some (.device .output) := by
      intro hdevice
      rw [hdestination] at hdevice
      exact hsilent (outlet_eq_output (hparents.node?_eq_device hdevice))
    rw [printed_of_stores hstores, if_neg hnot, String.append_empty, hprinted]
  case made =>
    intro other hother
    exact hchanges.directories other (hparents.made other hother)
  case kept =>
    intro other hother hne
    have hother' : other ≠ made.tree.destination p := by
      rintro rfl
      exact hne (congrArg some hdestination.symm)
    rw [hstores.node?_of_ne hother', hparents.kept other hother]
  case stands =>
    intro place hplace
    cases hplace
    rw [← hdestination]
    exact hstores.exists_node
  case devices =>
    intro other kind hother
    exact hparents.node?_eq_device (hstores.node?_eq_device hother)

/-- **Sending succeeds only if the text arrives.** -/
theorem sent_of_sendTo (h : Effect.performAll w (Effect.sendTo text target) = (.ok (), after)) :
    w.Sent after text target := by
  cases target with
  | some path => exact sent_of_writeBelow h
  | none =>
    cases h
    refine ⟨.refl _ _, .printed rfl, fun hsilent => absurd rfl hsilent, ?_, fun _ _ _ => rfl, ?_,
      fun _ _ h => h⟩
    · exact List.forall_mem_nil _
    · intro place hplace
      cases hplace

/-! ### Two texts -/

theorem targetPlace_ne_of_outlet_ne {t : FileTree} {target₁ target₂ : Option Path} {place : Place}
    (hplace : t.targetPlace target₁ = some place) (h : t.outlet target₁ ≠ t.outlet target₂) :
    t.targetPlace target₂ ≠ some place := by
  intro hsame
  rw [FileTree.outlet, FileTree.outlet, hplace, hsame] at h
  exact h rfl

section Two

variable {text₁ text₂ : String} {path : Path} {second : Option Path}

/-- The second of two targets is the same outlet before and after the first text was sent. -/
theorem Sent.outlet_eq (h : w.Sent between text₁ (some path))
    (hdistinct : w.tree.outlet (some path) ≠ w.tree.outlet second) :
    between.tree.outlet second = w.tree.outlet second := by
  rw [FileTree.outlet, FileTree.outlet, FileTree.targetPlace_congr h.changes.current_eq]
  cases hplace : w.tree.targetPlace second with
  | none => rfl
  | some place =>
    have hne := targetPlace_ne_of_outlet_ne hplace hdistinct.symm
    rcases h.changes.elsewhere place hne with heq | ⟨hnone, hmade⟩
    · simp only [heq]
    · simp [hnone, hmade]

/-- What was sent first stays at its target. -/
theorem Sent.received_first (h₁ : w.Sent between text₁ (some path))
    (h₂ : between.Sent after text₂ second)
    (hdistinct : w.tree.outlet (some path) ≠ w.tree.outlet second) :
    w.Received after text₁ (some path) := by
  have hne : between.tree.targetPlace second ≠ some (w.tree.destination path) := by
    rw [FileTree.targetPlace_congr h₁.changes.current_eq]
    exact targetPlace_ne_of_outlet_ne rfl hdistinct
  have hdestination : between.tree.destination path = w.tree.destination path :=
    FileTree.destination_congr h₁.changes.current_eq path
  cases h₁.received with
  | file hread =>
    refine .file (FileTree.contents?_of_changesOnly h₂.changes ?_ hread)
    rwa [hdestination]
  | device hplace hdevice hprinted =>
    have hfound := FileTree.placeOf_eq_destination hplace
    rw [hdestination] at hfound
    subst hfound
    refine .device (h₂.changes.placeOf_eq hplace) (h₂.changes.node?_eq hne hdevice) ?_
    rintro rfl
    -- the first target is the output, so the second one is not
    have houtput : w.tree.outlet (some path) = .output :=
      outlet_eq_output (h₁.devices _ _ hdevice)
    have hsilent : between.tree.outlet second ≠ .output := by
      rw [h₁.outlet_eq hdistinct, ← houtput]
      exact hdistinct.symm
    rw [h₂.silent hsilent]
    exact hprinted rfl

/-- What is sent second arrives as if it were sent alone. -/
theorem Sent.received_second (h₁ : w.Sent between text₁ (some path))
    (h₂ : between.Sent after text₂ second)
    (hdistinct : w.tree.outlet (some path) ≠ w.tree.outlet second) :
    w.Received after text₂ second := by
  have hprinted : between.tree.outlet second = .output → between.printed = w.printed := by
    intro houtput
    rw [h₁.outlet_eq hdistinct] at houtput
    apply h₁.silent
    rw [← houtput]
    exact hdistinct
  cases h₂.received with
  | printed h =>
    rw [hprinted rfl] at h
    exact .printed h
  | file hread => exact .file hread
  | device hplace hdevice hprints =>
    refine .device hplace hdevice ?_
    rintro rfl
    have hbefore := h₂.devices _ _ hdevice
    rw [FileTree.placeOf_eq_destination hplace,
      FileTree.destination_congr h₂.changes.current_eq] at hbefore
    rw [hprints rfl, hprinted (outlet_eq_output hbefore)]

/-- If two texts can be sent one after the other, sending the second one alone leaves the
    target of the first as it is. -/
theorem Sent.kept_first {text : String} {after' : World} (h : w.Sent after text second)
    (h₁ : w.Sent between text₁ (some path)) (h₂ : between.Sent after' text₂ second)
    (hdistinct : w.tree.outlet (some path) ≠ w.tree.outlet second) :
    after.tree.node? (w.tree.destination path) = w.tree.node? (w.tree.destination path) := by
  have hne : w.tree.targetPlace second ≠ some (w.tree.destination path) :=
    targetPlace_ne_of_outlet_ne rfl hdistinct
  refine h.kept _ (fun hway => ?_) hne
  -- on the way to the second target there would have to be a directory where the first text is
  rw [← FileTree.wayTo_congr h₁.changes.current_eq] at hway
  obtain ⟨node, hnode, hnot⟩ := h₁.stands _ rfl
  rw [← FileTree.targetPlace_congr h₁.changes.current_eq] at hne
  have hstays := h₂.changes.node?_eq hne hnode
  rw [h₂.made _ hway] at hstays
  cases hstays
  exact hnot rfl

/-- Nothing differs but the two targets and directories that were missing. -/
theorem Sent.elsewhere_both (h₁ : w.Sent between text₁ (some path))
    (h₂ : between.Sent after text₂ second) {place : Place}
    (hfirst : w.tree.destination path ≠ place)
    (hsecond : w.tree.targetPlace second ≠ some place) :
    after.tree.node? place = w.tree.node? place ∨
      (w.tree.node? place = none ∧ after.tree.node? place = some .directory) := by
  rw [← FileTree.targetPlace_congr h₁.changes.current_eq] at hsecond
  rcases h₂.changes.elsewhere place hsecond with heq | ⟨hnone, hmade⟩
  · rw [heq]
    exact h₁.changes.elsewhere place fun h => hfirst (Option.some_inj.1 h)
  · rcases h₁.changes.elsewhere place fun h => hfirst (Option.some_inj.1 h) with heq | ⟨-, hmade'⟩
    · exact .inr ⟨heq.symm.trans hnone, hmade⟩
    · rw [hmade'] at hnone
      cases hnone

end Two

/-! ### Files that are opened when empty -/

/-- An empty file that is written over holds what is written, as if it were written at once. -/
theorem performAll_overwrite
    (h : Effect.performAll w (Effect.writeBelow p text) = (.ok (), after)) :
    Effect.performAll w [.makeParent p, .write p "", .overwrite p text] = (.ok (), after) := by
  obtain ⟨made, hmade, hwrite⟩ := performAll_writeBelow_eq_ok.1 h
  obtain ⟨tree, hwritten, rfl⟩ := perform_write_eq_ok.1 hwrite
  obtain ⟨emptied, hempty, hover, houtput⟩ := FileTree.overwrite_of_write hwritten
  refine Effect.performAll_cons_eq_ok.2 ⟨made, hmade, ?_⟩
  refine Effect.performAll_cons_eq_ok.2 ⟨_, perform_write_eq_ok.2 ⟨emptied, hempty, rfl⟩, ?_⟩
  refine Effect.performAll_cons_eq_ok.2 ⟨_, ?_, rfl⟩
  have hprinted : (made.echo p "").printed = made.printed := by
    rw [printed_echo, String.append_empty, ite_self]
  rw [Effect.perform, hprinted, hover]
  simp only [change, printed_echo, houtput]

end World

end Throughput
