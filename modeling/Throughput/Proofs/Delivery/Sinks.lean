/-
  Throughput/Proofs/Delivery/Sinks.lean
  =====================================
  **Sinks are served in turn.**  An analysis is delivered to sinks one after another, each
  in the world that the one before it left, up to the first that fails (`EmitsInTurn`,
  `FailsAt`).  If the sinks write at different places, what one has received the others
  leave alone, and the sinks behind a failure find their files as they were
  (`Sink.emitAll_in_turn`); only a directory may have been made where nothing was.  Paths
  that differ as texts can still lead to one place.
-/
import Mathlib.Data.List.Nodup
import Throughput.Proofs.Delivery.Arrivals

namespace Throughput

/-! ### One after another -/

/-- All sinks are served, each in the world that the one before it left. -/
inductive EmitsInTurn (a : Analysis) : World → List Sink → World → Prop
  | nil (w : World) : EmitsInTurn a w [] w
  | cons {w between after : World} {s : Sink} {rest : List Sink}
      (h : s.emit a w = (.ok (), between)) (hrest : EmitsInTurn a between rest after) :
      EmitsInTurn a w (s :: rest) after

/-- Some sinks are served, and then one fails. -/
def FailsAt (a : Analysis) (w : World) (served : List Sink) (s : Sink) (e : IoError)
    (after : World) : Prop :=
  ∃ between, EmitsInTurn a w served between ∧ s.emit a between = (.error e, after)

namespace Sink

variable {a : Analysis} {w after : World} {sinks : List Sink} {e : IoError}

theorem emitAll_eq_ok_iff : emitAll a w sinks = (.ok (), after) ↔ EmitsInTurn a w sinks after := by
  constructor
  · intro h
    induction sinks generalizing w with
    | nil =>
      cases h
      exact .nil _
    | cons s rest ih =>
      rw [emitAll_cons] at h
      split at h
      next between hs => exact .cons hs (ih h)
      next => cases h
  · intro h
    induction h with
    | nil w => rfl
    | cons hs _ ih =>
      rw [emitAll_cons, hs]
      exact ih

theorem emitAll_eq_error_iff : emitAll a w sinks = (.error e, after) ↔
    ∃ served s later, sinks = served ++ s :: later ∧ FailsAt a w served s e after := by
  constructor
  · intro h
    induction sinks generalizing w with
    | nil => cases h
    | cons s rest ih =>
      rw [emitAll_cons] at h
      split at h
      next between hs =>
        obtain ⟨served, s', later, rfl, world, hserved, hfails⟩ := ih h
        exact ⟨s :: served, s', later, rfl, world, .cons hs hserved, hfails⟩
      next error world hs =>
        cases h
        exact ⟨[], s, rest, rfl, _, .nil _, hs⟩
  · rintro ⟨served, s, later, rfl, world, hserved, hfails⟩
    induction hserved with
    | nil w => rw [List.nil_append, emitAll_cons, hfails]
    | cons hs _ ih =>
      rw [List.cons_append, emitAll_cons, hs]
      exact ih hfails

/-! ### What a sink writes -/

/-- The file that a sink writes. -/
def path? : Sink → Option Path
  | text .output | markdown .output => none
  | text (.file path) | markdown (.file path) => some path
  | json path => some path
  | refusing => none

/-- The analysis in the format of a sink. -/
def rendering (a : Analysis) : Sink → String
  | text _ => a.plainText
  | markdown _ => a.markdown
  | json _ => a.fileText
  | refusing => ""

/-- The bytes of a file that a sink was served with.  JSON takes the place of what was
    there; any other text is written over the beginning of the open file. -/
def left (a : Analysis) (old : List UInt8) : Sink → List UInt8
  | json _ => textBytes a.fileText
  | s => textBytes (s.rendering a) ++ old.drop (textBytes (s.rendering a)).length

/-- What is printed, by itself or through a device. -/
def printout (a : Analysis) (t : FileTree) (s : Sink) : String :=
  match s.path? with
  | none => s.rendering a
  | some path =>
    if t.node? (t.destination path) = some (.device .output) then s.rendering a else ""

/-- The place that a sink writes at. -/
def places (t : FileTree) (s : Sink) : List Place := (s.path?.map t.destination).toList

/-- The places that a sink makes directories at, where they are missing. -/
def way (t : FileTree) : Sink → List Place
  | json path => t.wayTo (some path)
  | _ => []

/-- A file holds what a sink left over the bytes that were there, unless there is a
    device. -/
def HeldIn (a : Analysis) (t after : FileTree) (s : Sink) : Prop :=
  ∀ p ∈ s.path?, (∃ kind, t.node? (t.destination p) = some (.device kind)) ∨
    after.read.contents? p = some (s.left a (t.bytesAt (t.destination p)))

theorem places_congr {t after : FileTree} (h : after.current = t.current) :
    places after = places t := by
  funext s
  simp only [places, Option.map, FileTree.destination_congr h]

theorem way_congr {t after : FileTree} (h : after.current = t.current) : way after = way t := by
  funext s
  cases s <;> simp only [way, FileTree.wayTo_congr h]

theorem destination_mem_places {s : Sink} {p : Path} (h : p ∈ s.path?) (t : FileTree) :
    t.destination p ∈ s.places t := by
  rw [places, Option.mem_def.1 h]
  exact List.mem_singleton_self _

end Sink

/-! ### One sink -/

namespace Effect

theorem performAll_singleton (w : World) (effect : Effect) :
    performAll w [effect] = effect.perform w := by
  rw [performAll]
  obtain ⟨outcome, after⟩ := effect.perform w
  cases outcome <;> rfl

theorem performAll_writeBelow (w : World) (p : Path) (text : String) :
    performAll w (writeBelow p text) =
      match w.makeParent p with
      | (.ok (), made) => (write p text).perform made
      | (.error e, made) => (.error e, made) := by
  rw [writeBelow, performAll, perform]
  obtain ⟨outcome, made⟩ := w.makeParent p
  cases outcome with
  | error e => rfl
  | ok => exact performAll_singleton made (write p text)

end Effect

namespace World

variable {w after : World} {p : Path} {text : String} {outcome : Except IoError Unit}

theorem changesWithin_makeParent (h : w.makeParent p = (outcome, after)) :
    after.printed = w.printed ∧
      w.tree.ChangesWithin after.tree [] (w.tree.wayTo (some p)) := by
  rw [FileTree.wayTo, Option.bind_some]
  obtain ⟨hprinted, ⟨hnone, rfl⟩ | ⟨parent, hparent, hmade⟩⟩ := makeParent_cases h
  · exact ⟨hprinted, .refl _ _ _⟩
  · have hchanges := FileTree.changesWithin_makeDirectories w.tree parent
    rw [hmade] at hchanges
    rw [hparent]
    exact ⟨hprinted, hchanges⟩

/-- A text that cannot be written is not printed either. -/
theorem change_echo_cases {result : Except IoError FileTree}
    (hresult : w.tree.isOutput p = true → result = .ok w.tree)
    (h : (w.echo p text).change result = (outcome, after)) :
    (outcome = .ok () ∧ result = .ok after.tree ∧ after.printed = (w.echo p text).printed) ∨
      (∃ e, outcome = .error e ∧ after = w) := by
  cases result with
  | ok tree =>
    cases h
    exact .inl ⟨rfl, rfl, rfl⟩
  | error e =>
    cases h
    have hnot : ¬ w.tree.isOutput p = true := fun houtput => nomatch hresult houtput
    exact .inr ⟨e, rfl, if_neg hnot⟩

end World

namespace Sink

variable {a : Analysis} {w after : World} {s : Sink} {e : IoError}

/-- What one sink was served with has arrived, and nothing else differs. -/
structure Served (a : Analysis) (w after : World) (s : Sink) : Prop where
  changes : w.tree.ChangesWithin after.tree (s.places w.tree) (s.way w.tree)
  held : s.HeldIn a w.tree after.tree
  printed_eq : after.printed = w.printed ++ s.printout a w.tree

/-- Nothing differs but directories that a sink made before it failed. -/
structure Refused (w after : World) (s : Sink) : Prop where
  changes : w.tree.ChangesWithin after.tree [] (s.way w.tree)
  printed_eq : after.printed = w.printed

theorem Refused.refl (w : World) (s : Sink) : Refused w w s := ⟨.refl _ _ _, rfl⟩

/-- A sink stores the analysis in its file once the way there is made. -/
theorem served_of_stores {made : World} {p : Path} (hpath : s.path? = some p)
    (hmade : Refused w made s)
    (hstores : made.tree.Stores after.tree p
      (s.left a (made.tree.bytesAt (made.tree.destination p))))
    (hprinted : after.printed = (made.echo p (s.rendering a)).printed) : Served a w after s := by
  have hdestination : made.tree.destination p = w.tree.destination p :=
    FileTree.destination_congr hmade.changes.current_eq p
  have hplaces : s.places w.tree = [w.tree.destination p] := by
    rw [places, hpath]
    rfl
  have hdevice (kind : Device) : made.tree.node? (w.tree.destination p) = some (.device kind) ↔
      w.tree.node? (w.tree.destination p) = some (.device kind) :=
    hmade.changes.node?_eq_device_iff List.not_mem_nil
  refine ⟨?_, ?_, ?_⟩
  · have hchanges := hmade.changes.trans hstores.changesWithin
    rwa [List.nil_append, List.append_nil, hdestination, ← hplaces] at hchanges
  · intro q hq
    rw [hpath] at hq
    cases hq
    have hstored := hstores.device_or_contents
    rw [hdestination, hmade.changes.bytesAt_eq List.not_mem_nil] at hstored
    simpa only [hdevice] using hstored
  · rw [hprinted, World.printed_of_stores hstores, hmade.printed_eq, hdestination, printout, hpath]
    simp only [hdevice]

/-- Sinks that do not make directories print, or write to a file that was opened before. -/
theorem effects_cases (a : Analysis) (s : Sink) :
    (s.path? = none ∧ s.effects a = [.print (s.rendering a)]) ∨
    (∃ p, s.path? = some p ∧ s.effects a = [.overwrite p (s.rendering a)] ∧
      ∀ old, s.left a old =
        textBytes (s.rendering a) ++ old.drop (textBytes (s.rendering a)).length) ∨
    (∃ p, s = json p) ∨ s = refusing := by
  cases s with
  | text destination =>
    cases destination with
    | output => exact .inl ⟨rfl, rfl⟩
    | file p => exact .inr (.inl ⟨p, rfl, rfl, fun _ => rfl⟩)
  | markdown destination =>
    cases destination with
    | output => exact .inl ⟨rfl, rfl⟩
    | file p => exact .inr (.inl ⟨p, rfl, rfl, fun _ => rfl⟩)
  | json p => exact .inr (.inr (.inl ⟨p, rfl⟩))
  | refusing => exact .inr (.inr (.inr rfl))

/-- **A sink is served, or it refuses.** -/
theorem emit_cases {outcome : Except IoError Unit} (h : s.emit a w = (outcome, after)) :
    (outcome = .ok () ∧ s.Served a w after) ∨ (∃ e, outcome = .error e ∧ s.Refused w after) := by
  rcases effects_cases a s with
    ⟨hpath, heffects⟩ | ⟨p, hpath, heffects, hleft⟩ | ⟨p, rfl⟩ | rfl
  · rw [emit, heffects] at h
    cases h
    refine .inl ⟨rfl, .refl _ _ _, fun p hp => ?_, ?_⟩
    · rw [hpath] at hp
      cases hp
    · rw [printout, hpath]
  · rw [emit, heffects, Effect.performAll_singleton] at h
    rcases World.change_echo_cases
      (fun houtput => (FileTree.exists_write_of_isOutput houtput _).2) h with
      ⟨hok, hwritten, hprinted⟩ | ⟨e, herror, rfl⟩
    · refine .inl ⟨hok, served_of_stores hpath (.refl w s) ?_ hprinted⟩
      rw [hleft]
      exact FileTree.stores_of_overwrite hwritten
    · exact .inr ⟨e, herror, .refl _ _⟩
  · rw [emit, effects, Effect.performAll_writeBelow] at h
    split at h
    next made hparents =>
      obtain ⟨hprinted, hchanges⟩ := World.changesWithin_makeParent hparents
      have hmade : Refused w made (json p) := ⟨hchanges, hprinted⟩
      rcases World.change_echo_cases
        (fun houtput => (FileTree.exists_write_of_isOutput houtput _).1) h with
        ⟨hok, hwritten, hprinted⟩ | ⟨e, herror, rfl⟩
      · exact .inl ⟨hok, served_of_stores rfl hmade (FileTree.stores_of_write hwritten) hprinted⟩
      · exact .inr ⟨e, herror, hmade⟩
    next e made hparents =>
      obtain ⟨hprinted, hchanges⟩ := World.changesWithin_makeParent hparents
      cases h
      exact .inr ⟨e, rfl, hchanges, hprinted⟩
  · cases h
    exact .inr ⟨_, rfl, .refl _ _⟩

theorem served_of_emit (h : s.emit a w = (.ok (), after)) : s.Served a w after := by
  rcases emit_cases h with ⟨-, hserved⟩ | ⟨e, herror, -⟩
  · exact hserved
  · cases herror

theorem refused_of_emit (h : s.emit a w = (.error e, after)) : s.Refused w after := by
  rcases emit_cases h with ⟨hok, -⟩ | ⟨e, -, hrefused⟩
  · cases hok
  · exact hrefused

/-! ### One sink among others -/

/-- What stands at the place of a sink is as it was, but for a directory made where nothing
    was. -/
structure LeftAlone (t after : FileTree) (made : List Place) (s : Sink) : Prop where
  node : ∀ p ∈ s.path?, after.node? (t.destination p) = t.node? (t.destination p) ∨
    (t.node? (t.destination p) = none ∧ after.node? (t.destination p) = some .directory ∧
      t.destination p ∈ made)
  contents : ∀ p ∈ s.path?, ∀ bytes, t.read.contents? p = some bytes →
    after.read.contents? p = some bytes

section Others

variable {t between after : FileTree} {written made : List Place}

theorem HeldIn.later (hheld : s.HeldIn a t between) (hcurrent : between.current = t.current)
    (h : between.ChangesWithin after written made) (hplaces : (s.places t).Disjoint written) :
    s.HeldIn a t after := by
  intro p hp
  rcases hheld p hp with hdevice | hcontents
  · exact .inl hdevice
  · refine .inr (FileTree.contents?_of_changesWithin h ?_ hcontents)
    rw [FileTree.destination_congr hcurrent]
    exact hplaces (destination_mem_places hp t)

theorem HeldIn.earlier (h : t.ChangesWithin between written made)
    (hplaces : (s.places t).Disjoint written) (hheld : s.HeldIn a between after) :
    s.HeldIn a t after := by
  intro p hp
  have hplace := hplaces (destination_mem_places hp t)
  have hheld := hheld p hp
  rw [FileTree.destination_congr h.current_eq, h.bytesAt_eq hplace] at hheld
  simpa only [h.node?_eq_device_iff hplace] using hheld

theorem printout_eq (h : t.ChangesWithin between written made)
    (hplaces : (s.places t).Disjoint written) : s.printout a between = s.printout a t := by
  unfold printout
  split
  next => rfl
  next p hp =>
    have hplace := hplaces (destination_mem_places hp t)
    simp only [FileTree.destination_congr h.current_eq, h.node?_eq_device_iff hplace]

theorem leftAlone_of_changesWithin (h : t.ChangesWithin after written made)
    (hplaces : (s.places t).Disjoint written) : s.LeftAlone t after made where
  node := fun _ hp => h.elsewhere _ (hplaces (destination_mem_places hp t))
  contents := fun _ hp _ hread =>
    FileTree.contents?_of_changesWithin h (hplaces (destination_mem_places hp t)) hread

end Others

end Sink

/-! ### Many sinks -/

/-- What sinks were served with has arrived: their files hold it, and what is printed was
    printed in their order, each once. -/
structure Arrived (a : Analysis) (w after : World) (served : List Sink) : Prop where
  held : ∀ s ∈ served, s.HeldIn a w.tree after.tree
  printed_eq : after.printed = w.printed ++ String.join (served.map (Sink.printout a w.tree))

section Many

variable {a : Analysis} {w between after : World} {s : Sink} {sinks served rest : List Sink}
  {e : IoError} {made : List Place}

theorem Arrived.later (h : Arrived a w between served)
    (hcurrent : between.tree.current = w.tree.current)
    (hchanges : between.tree.ChangesWithin after.tree [] made)
    (hprinted : after.printed = between.printed) : Arrived a w after served where
  held := fun s hs => (h.held s hs).later hcurrent hchanges (List.disjoint_nil_right _)
  printed_eq := by rw [hprinted, h.printed_eq]

/-- Served sinks write at their places and make directories on their ways. -/
theorem EmitsInTurn.changesWithin (h : EmitsInTurn a w sinks after) :
    w.tree.ChangesWithin after.tree (sinks.flatMap (Sink.places w.tree))
      (sinks.flatMap (Sink.way w.tree)) := by
  induction h with
  | nil w => exact .refl _ _ _
  | cons hs _ ih =>
    have hserved := Sink.served_of_emit hs
    rw [Sink.places_congr hserved.changes.current_eq,
      Sink.way_congr hserved.changes.current_eq] at ih
    exact hserved.changes.trans ih

/-- **Sinks at different places do not disturb one another.** -/
theorem EmitsInTurn.arrived (h : EmitsInTurn a w sinks after)
    (hplaces : (sinks.flatMap (Sink.places w.tree)).Nodup) : Arrived a w after sinks := by
  induction h with
  | nil w => exact ⟨List.forall_mem_nil _, (String.append_empty).symm⟩
  | @cons w between after s rest hs hrest ih =>
    have hserved := Sink.served_of_emit hs
    have hcurrent := hserved.changes.current_eq
    have hchanges := hrest.changesWithin
    rw [Sink.places_congr hcurrent] at ih hchanges
    obtain ⟨-, hnodup, hdisjoint⟩ := List.nodup_append'.1 hplaces
    have harrived := ih hnodup
    have hapart : ∀ r ∈ rest, (r.places w.tree).Disjoint (s.places w.tree) := by
      intro r hr place hplace hs
      exact hdisjoint hs (List.mem_flatMap.2 ⟨r, hr, hplace⟩)
    constructor
    · rintro r (_ | ⟨_, hr⟩)
      · exact hserved.held.later hcurrent hchanges hdisjoint
      · exact (harrived.held r hr).earlier hserved.changes (hapart r hr)
    · have hprintouts : rest.map (Sink.printout a between.tree) =
          rest.map (Sink.printout a w.tree) :=
        List.map_congr_left fun r hr => Sink.printout_eq hserved.changes (hapart r hr)
      rw [harrived.printed_eq, hprintouts, hserved.printed_eq, List.map_cons, String.join_cons,
        String.append_assoc]

/-- **What a failure leaves.**  The sinks in front of it are served, those behind it are
    left alone. -/
theorem FailsAt.arrived_and_leftAlone (h : FailsAt a w served s e after)
    (hplaces : ((served ++ s :: rest).flatMap (Sink.places w.tree)).Nodup) :
    Arrived a w after served ∧ ∀ r ∈ rest, r.LeftAlone w.tree after.tree
      ((served ++ [s]).flatMap (Sink.way w.tree)) := by
  obtain ⟨between, hserved, hfails⟩ := h
  have hrefused := Sink.refused_of_emit hfails
  have hchanges := hserved.changesWithin
  have hcurrent := hchanges.current_eq
  rw [List.flatMap_append] at hplaces
  obtain ⟨hnodup, -, hdisjoint⟩ := List.nodup_append'.1 hplaces
  refine ⟨(hserved.arrived hnodup).later hcurrent hrefused.changes hrefused.printed_eq, ?_⟩
  intro r hr
  have hboth := hchanges.trans hrefused.changes
  rw [List.append_nil, Sink.way_congr hcurrent] at hboth
  rw [List.flatMap_append, List.flatMap_singleton]
  refine Sink.leftAlone_of_changesWithin hboth fun place hplace hmem => ?_
  exact hdisjoint hmem (List.mem_flatMap.2 ⟨r, List.mem_cons_of_mem _ hr, hplace⟩)

end Many

/-- **Sinks are served in order up to the first that fails.**  Where their paths lead to
    different places, the sinks in front have received the analysis, and those behind are
    left alone. -/
theorem Sink.emitAll_in_turn (a : Analysis) (w after : World) (sinks : List Sink) :
    (emitAll a w sinks = (.ok (), after) ↔ EmitsInTurn a w sinks after) ∧
    (∀ e, emitAll a w sinks = (.error e, after) ↔
      ∃ served s rest, sinks = served ++ s :: rest ∧ FailsAt a w served s e after) ∧
    ((sinks.flatMap (places w.tree)).Nodup →
      (EmitsInTurn a w sinks after → Arrived a w after sinks) ∧
      ∀ served s rest e, sinks = served ++ s :: rest → FailsAt a w served s e after →
        Arrived a w after served ∧
          ∀ r ∈ rest, r.LeftAlone w.tree after.tree ((served ++ [s]).flatMap (way w.tree))) := by
  refine ⟨emitAll_eq_ok_iff, fun e => emitAll_eq_error_iff, fun hplaces => ⟨?_, ?_⟩⟩
  · intro h
    exact h.arrived hplaces
  · rintro served s rest e rfl h
    exact h.arrived_and_leftAlone hplaces

/-- A file in a directory that has to be made, a printed text, a file with text in it, and a
    file behind the failure. -/
theorem Sink.emitAll_in_turn_refusing :
    let a : Analysis :=
      ⟨"disk", 2, [["x"]], true, [], Date.atClock ⟨2015, 8, 31, by decide⟩ 9 0 0⟩
    let earlier := List.replicate 600 32
    let old := textBytes "an older analysis"
    let w : World := ⟨⟨["home"], [(["home"], .directory), (["note.md", "home"], .file earlier),
      (["old.json", "home"], .file old)]⟩, "> "⟩
    let served := [json ⟨"out/disk.json"⟩, text .output, markdown (.file ⟨"note.md"⟩)]
    let sinks := served ++ refusing :: [json ⟨"old.json"⟩]
    let after := (emitAll a w served).2
    (sinks.flatMap (places w.tree)).Nodup ∧
      emitAll a w sinks = (.error (.other "sink failed"), after) ∧
      after.printed = "> " ++ a.plainText ∧
      after.tree.read.contents? ⟨"out/disk.json"⟩ = some (textBytes a.fileText) ∧
      after.tree.read.contents? ⟨"note.md"⟩ =
        some (textBytes a.markdown ++ earlier.drop (textBytes a.markdown).length) ∧
      after.tree.read.contents? ⟨"old.json"⟩ = some old := by
  intro a earlier old w served sinks after
  have hplaces : (sinks.flatMap (places w.tree)).Nodup := by decide +kernel
  have hserved : (emitAll a w served).1 = .ok () := by decide +kernel
  have hfails : FailsAt a w served refusing (.other "sink failed") after :=
    ⟨after, emitAll_eq_ok_iff.1 (Prod.ext hserved rfl), rfl⟩
  obtain ⟨-, hfailure, hrest⟩ := emitAll_in_turn a w after sinks
  have hall := (hfailure _).2 ⟨served, refusing, _, rfl, hfails⟩
  obtain ⟨harrived, hleft⟩ := (hrest hplaces).2 served refusing _ _ rfl hfails
  -- the run itself is kept abstract, for only what has arrived matters
  clear_value after
  refine ⟨hplaces, hall, ?_, ?_, ?_, ?_⟩
  · rw [harrived.printed_eq]
    exact congrArg ("> " ++ ·) (String.append_empty)
  · have hmissing : w.tree.node? (w.tree.destination ⟨"out/disk.json"⟩) = none := by decide +kernel
    rcases harrived.held (json ⟨"out/disk.json"⟩) (by decide) _ rfl with ⟨kind, hdevice⟩ | hread
    · rw [hmissing] at hdevice
      cases hdevice
    · exact hread
  · have hopened : w.tree.node? (w.tree.destination ⟨"note.md"⟩) = some (.file earlier) := by
      decide +kernel
    rcases harrived.held (markdown (.file ⟨"note.md"⟩)) (by decide) _ rfl with
      ⟨kind, hdevice⟩ | hread
    · rw [hopened] at hdevice
      cases hdevice
    · rw [FileTree.bytesAt, hopened] at hread
      exact hread
  · exact (hleft (json ⟨"old.json"⟩) (by decide)).contents ⟨"old.json"⟩ rfl old (by decide +kernel)

/-- Two paths can lead to one place, and a directory can be made where a sink is to write. -/
theorem Sink.emitAll_reaches_later_places :
    let a : Analysis := ⟨"t", 0, [], false, [], Date.atClock ⟨2015, 8, 31, by decide⟩ 9 0 0⟩
    let w : World := ⟨⟨[], []⟩, ""⟩
    let twice := [json ⟨"a.json"⟩, refusing, json ⟨"./a.json"⟩]
    let within := [json ⟨"a/b.json"⟩, refusing, json ⟨"a"⟩]
    ((twice.filterMap path?).Nodup ∧ (emitAll a w twice).1 = .error (.other "sink failed") ∧
      w.tree.read.contents? ⟨"./a.json"⟩ = none ∧
      (emitAll a w twice).2.tree.read.contents? ⟨"./a.json"⟩ = some (textBytes a.fileText)) ∧
    ((within.filterMap path?).Nodup ∧ (emitAll a w within).1 = .error (.other "sink failed") ∧
      w.tree.node? ["a"] = none ∧
      (emitAll a w within).2.tree.node? ["a"] = some .directory) := by
  decide +kernel

end Throughput
