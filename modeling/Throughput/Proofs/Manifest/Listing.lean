/-
  Throughput/Proofs/Manifest/Listing.lean
  =======================================
  **What a manifest lists.**  Reading a manifest is to keep the lines that are
  entries, to stop at the first one that is malformed and to list each run as its
  last entry has it (`Manifest.ofLog_isListing`).  Taking up one entry keeps the
  listing (`IsListing.insert`), so a fold over the entries does.  The lines that
  are not kept, and carriage returns at the ends of lines, leave no trace in it.
-/
import Mathlib.Data.Finset.Card
import Mathlib.Data.Finset.Dedup
import Throughput.Manifest
import Throughput.Proofs.Text.Decoding
import Throughput.Proofs.Text.Trimming

namespace Throughput

/-! ### Entries -/

namespace Run

/-- A line is kept if it is the known entry, with or without white space around it, or
    starts with the marker. -/
def IsKept (rule : ManifestRule) (line : List Char) : Prop :=
  Text.trim line = knownEntry ∨ line.head? = some rule.marker

instance (rule : ManifestRule) (line : List Char) : Decidable (IsKept rule line) :=
  inferInstanceAs (Decidable (_ ∨ _))

/-- What a kept line says.  The known entry says it whatever the marker is. -/
def ofKept (rule : ManifestRule) (line : List Char) : Except ManifestFault Run :=
  if Text.trim line = knownEntry then .ok known else ofEntry rule.defaultYear line.tail

theorem ofKept_of_trim_eq {rule : ManifestRule} {line : List Char}
    (h : Text.trim line = knownEntry) : ofKept rule line = .ok known := if_pos h

theorem ofLine?_eq (rule : ManifestRule) (line : List Char) :
    ofLine? rule line = if IsKept rule line then some (ofKept rule line) else none := by
  unfold ofLine? IsKept ofKept
  by_cases hknown : Text.trim line = knownEntry
  · simp [hknown]
  · cases line with
    | nil => simp [hknown]
    | cons c body => simp [hknown]

/-- A carriage return behind a line says nothing, unless it starts the line and is the
    marker. -/
theorem ofLine?_concat_return {rule : ManifestRule} {line : List Char}
    (h : line ≠ [] ∨ rule.marker ≠ '\r') : ofLine? rule (line ++ ['\r']) = ofLine? rule line := by
  have hblank : Text.AllBlank ['\r'] := by simp [Text.AllBlank, Text.isBlank]
  have htrim : ∀ cs, Text.trim (cs ++ ['\r']) = Text.trim cs := Text.trim_append_right hblank
  cases line with
  | nil =>
    have hmarker : rule.marker ≠ '\r' := h.resolve_left fun hne => hne rfl
    have htrim' : Text.trim ['\r'] = Text.trim [] := htrim []
    simp [ofLine?, htrim', hmarker.symm]
  | cons c body =>
    have htrim' : Text.trim (c :: (body ++ ['\r'])) = Text.trim (c :: body) := htrim (c :: body)
    simp only [ofLine?, List.cons_append, htrim', ofEntry, htrim]

end Run

namespace Manifest

variable {rule : ManifestRule}

/-! ### Lines -/

/-- A line of bytes as text. -/
def lineText (line : List UInt8) : List Char := Text.decodeUtf8 (Text.dropReturn line)

/-- The entries behind the header, each with the number of its line. -/
def entries (rule : ManifestRule) (bytes : List UInt8) : List (List Char × Nat) :=
  ((((Text.byteLines bytes).map lineText).zipIdx 1).drop rule.headerLines).filter fun line =>
    Run.IsKept rule line.1

/-- What the entries say, one after another. -/
def readings (rule : ManifestRule) (bytes : List UInt8) : List (Except ManifestFault Run) :=
  (entries rule bytes).map fun line => Run.ofKept rule line.1

theorem ofLine?_lineText_nil (rule : ManifestRule) : Run.ofLine? rule (lineText []) = none := by
  rw [Run.ofLine?_eq, if_neg]
  rintro (hknown | hmarker)
  · exact absurd hknown (by decide)
  · cases hmarker

theorem map_filter_zipIdx (lines : List (List UInt8)) (number : Nat) :
    (((lines.map lineText).zipIdx number).filter fun line => Run.IsKept rule line.1).map
        (fun line => Run.ofKept rule line.1) =
      lines.filterMap fun line => Run.ofLine? rule (lineText line) := by
  induction lines generalizing number with
  | nil => rfl
  | cons line lines ih =>
    rw [List.map_cons, List.zipIdx_cons, List.filterMap_cons, Run.ofLine?_eq]
    split_ifs with h
    · rw [List.filter_cons_of_pos (by simpa using h), List.map_cons, ih]
    · rw [List.filter_cons_of_neg (by simpa using h), ih]

theorem drop_zipIdx {α : Type} (xs : List α) (n k : Nat) :
    (xs.zipIdx k).drop n = (xs.drop n).zipIdx (k + n) := by
  induction n generalizing xs k with
  | zero => rfl
  | succ n ih =>
    cases xs with
    | nil => rfl
    | cons x xs => rw [List.zipIdx_cons, List.drop_succ_cons, List.drop_succ_cons, ih,
        Nat.add_right_comm, Nat.add_assoc]

theorem entries_eq (rule : ManifestRule) (bytes : List UInt8) :
    entries rule bytes =
      ((((Text.byteLines bytes).drop rule.headerLines).map lineText).zipIdx
        (rule.headerLines + 1)).filter fun line => Run.IsKept rule line.1 := by
  rw [entries, drop_zipIdx, List.map_drop, Nat.add_comm]

theorem readings_eq (rule : ManifestRule) (bytes : List UInt8) :
    readings rule bytes = ((Text.byteLines bytes).drop rule.headerLines).filterMap fun line =>
      Run.ofLine? rule (lineText line) := by
  rw [readings, entries_eq, map_filter_zipIdx]

/-! ### Taking up entries -/

/-- Takes up one numbered entry. -/
def take (rule : ManifestRule) (m : Manifest) (line : List Char × Nat) :
    Except Failure Manifest :=
  match Run.ofKept rule line.1 with
  | .ok run => .ok (m.insert run)
  | .error fault => .error (.malformedManifestLine line.2 fault)

theorem addLines_eq_foldlM (m : Manifest) (lines : List (List UInt8)) (number : Nat) :
    addLines rule m lines number =
      (((lines.map lineText).zipIdx number).filter fun line => Run.IsKept rule line.1).foldlM
        (take rule) m := by
  induction lines generalizing m number with
  | nil => rfl
  | cons line lines ih =>
    have hline : Run.ofLine? rule (Text.decodeUtf8 (Text.dropReturn line)) =
        if Run.IsKept rule (lineText line) then some (Run.ofKept rule (lineText line)) else none :=
      Run.ofLine?_eq rule (lineText line)
    rw [addLines, addLine, hline, List.map_cons, List.zipIdx_cons]
    split_ifs with h
    · rw [List.filter_cons_of_pos (by simpa using h), List.foldlM_cons, take]
      cases Run.ofKept rule (lineText line) with
      | ok run => exact ih _ _
      | error fault => rfl
    · rw [List.filter_cons_of_neg (by simpa using h)]
      exact ih _ _

theorem ofLog_eq_foldlM (rule : ManifestRule) (bytes : List UInt8) :
    ofLog rule ⟨bytes, none⟩ = (entries rule bytes).foldlM (take rule) empty := by
  rw [entries_eq, ← addLines_eq_foldlM]
  rfl

/-- Entries are taken up if each of them names a run, and then only the runs matter. -/
theorem foldlM_take_eq_ok_iff {lines : List (List Char × Nat)} {m m' : Manifest} :
    lines.foldlM (take rule) m = .ok m' ↔
      ∃ runs : List Run, lines.map (fun line => Run.ofKept rule line.1) = runs.map .ok ∧
        runs.foldl insert m = m' := by
  induction lines generalizing m with
  | nil =>
    constructor
    · intro h
      exact ⟨[], rfl, Except.ok.inj h⟩
    · rintro ⟨runs, hruns, rfl⟩
      obtain rfl : runs = [] := List.map_eq_nil_iff.1 hruns.symm
      rfl
  | cons line lines ih =>
    rw [List.foldlM_cons, List.map_cons, take]
    cases Run.ofKept rule line.1 with
    | error fault =>
      constructor
      · intro h
        cases h
      · rintro ⟨runs, hruns, -⟩
        cases runs <;> cases hruns
    | ok run =>
      refine Iff.trans (ih (m := m.insert run)) ⟨?_, ?_⟩
      · rintro ⟨runs, hruns, hm⟩
        exact ⟨run :: runs, congrArg (.ok run :: ·) hruns, hm⟩
      · rintro ⟨runs, hruns, hm⟩
        cases runs with
        | nil => cases hruns
        | cons first runs =>
          obtain ⟨hfirst, hrest⟩ := List.cons.inj hruns
          cases hfirst
          exact ⟨runs, hrest, hm⟩

/-- Entries of which none is malformed name runs. -/
theorem exists_map_ok {lines : List (List Char × Nat)}
    (h : ∀ line ∈ lines, ∃ run, Run.ofKept rule line.1 = .ok run) :
    ∃ runs : List Run, lines.map (fun line => Run.ofKept rule line.1) = runs.map .ok := by
  induction lines with
  | nil => exact ⟨[], rfl⟩
  | cons line lines ih =>
    obtain ⟨run, hrun⟩ := h line (by simp)
    obtain ⟨runs, hruns⟩ := ih fun line hline => h line (by simp [hline])
    exact ⟨run :: runs, by rw [List.map_cons, List.map_cons, hrun, hruns]⟩

/-- Reading stops at the first entry that is malformed. -/
theorem foldlM_take_error {before after : List (List Char × Nat)} {line : List Char}
    {number : Nat} {fault : ManifestFault} (m : Manifest)
    (hbefore : ∀ line ∈ before, ∃ run, Run.ofKept rule line.1 = .ok run)
    (h : Run.ofKept rule line = .error fault) :
    (before ++ (line, number) :: after).foldlM (take rule) m =
      .error (.malformedManifestLine number fault) := by
  obtain ⟨runs, hruns⟩ := exists_map_ok hbefore
  rw [List.foldlM_append, foldlM_take_eq_ok_iff.2 ⟨runs, hruns, rfl⟩]
  change (((line, number) :: after).foldlM (take rule) (runs.foldl insert m)) = _
  rw [List.foldlM_cons, take, h]
  rfl

/-- A manifest is accepted if each of its entries names a run, and then has been made
    from the runs alone. -/
theorem ofLog_eq_ok_iff {bytes : List UInt8} {m : Manifest} :
    ofLog rule ⟨bytes, none⟩ = .ok m ↔
      ∃ runs : List Run, readings rule bytes = runs.map .ok ∧ runs.foldl insert empty = m := by
  rw [ofLog_eq_foldlM, foldlM_take_eq_ok_iff]
  rfl

/-! ### The listing -/

/-- What a manifest lists: each run as its last entry has it, and nothing else. -/
structure IsListing (m : Manifest) (runs : List Run) : Prop where
  last : ∀ before run after, runs = before ++ run :: after →
    (∀ later ∈ after, later.id ≠ run.id) → m.run run.id = .ok run
  missing : ∀ id, (∀ run ∈ runs, run.id ≠ id) → m.run id = .error (.missingTimestamp id)
  size_eq : m.size = (runs.map (·.id)).toFinset.card

theorem find?_insert (m : Manifest) (run : Run) (id : String) :
    (m.insert run).find? id = if run.id = id then some run else m.find? id := by
  have hfilter : (m.runs.filter (·.id ≠ run.id)).find? (·.id = id) =
      if run.id = id then none else m.runs.find? (·.id = id) := by
    rw [List.find?_filter]
    split_ifs with h
    · rw [List.find?_eq_none]
      rintro other - hboth
      simp [h] at hboth
    · congr 1
      funext other
      by_cases hother : other.id = id <;> simp [hother, Ne.symm h]
  rw [find?, insert, List.find?_append, hfilter]
  split_ifs with h <;> simp [h, find?]

theorem nodup_insert {m : Manifest} (h : (m.runs.map (·.id)).Nodup) (run : Run) :
    ((m.insert run).runs.map (·.id)).Nodup := by
  have hsub : ((m.runs.filter (·.id ≠ run.id)).map (·.id)).Nodup :=
    h.sublist (List.filter_sublist.map _)
  simp only [insert, List.map_append, List.map_singleton]
  refine hsub.append (List.nodup_singleton _) ?_
  simp

/-- The run listed under an identifier is the last one taken up. -/
theorem find?_foldl_insert (runs : List Run) (id : String) :
    (runs.foldl insert empty).find? id = runs.reverse.find? (·.id = id) := by
  induction runs using List.reverseRecOn with
  | nil => rfl
  | append_singleton runs run ih =>
    rw [List.foldl_append, List.foldl_cons, List.foldl_nil, find?_insert, ih, List.reverse_append,
      List.reverse_singleton, List.singleton_append, List.find?_cons]
    by_cases h : run.id = id <;> simp [h]

theorem ne_of_run_foldl_insert {runs : List Run} {id : String} {failure : Failure}
    (h : (runs.foldl insert empty).run id = .error failure) : ∀ run ∈ runs, run.id ≠ id := by
  have hnone : runs.reverse.find? (·.id = id) = none := by
    rw [← find?_foldl_insert]
    rw [Manifest.run] at h
    split at h
    next => cases h
    next hnone => exact hnone
  simpa [List.find?_eq_none] using hnone

theorem nodup_foldl_insert (runs : List Run) :
    ((runs.foldl insert empty).runs.map (·.id)).Nodup := by
  induction runs using List.reverseRecOn with
  | nil => exact List.nodup_nil
  | append_singleton runs run ih =>
    rw [List.foldl_append, List.foldl_cons, List.foldl_nil]
    exact nodup_insert ih run

theorem mem_ids_foldl_insert (runs : List Run) (id : String) :
    id ∈ (runs.foldl insert empty).runs.map (·.id) ↔ id ∈ runs.map (·.id) := by
  have hsome : ∀ runs : List Run, id ∈ runs.map (·.id) ↔ (runs.find? (·.id = id)).isSome := by
    simp [List.find?_isSome]
  have hfind := find?_foldl_insert runs id
  rw [find?] at hfind
  rw [hsome, hfind, ← hsome, List.map_reverse, List.mem_reverse]

theorem isListing_foldl_insert (runs : List Run) : IsListing (runs.foldl insert empty) runs where
  last before run after hruns hlast := by
    have hnone : after.reverse.find? (·.id = run.id) = none := by
      simpa [List.find?_eq_none] using hlast
    rw [Manifest.run, find?_foldl_insert, hruns, List.reverse_append, List.reverse_cons,
      List.append_assoc, List.find?_append, hnone]
    simp
  missing id hid := by
    have hnone : runs.reverse.find? (·.id = id) = none := by
      simpa [List.find?_eq_none] using hid
    rw [Manifest.run, find?_foldl_insert, hnone]
  size_eq := by
    have hids : (runs.map (·.id)).toFinset = ((runs.foldl insert empty).runs.map (·.id)).toFinset :=
      Finset.ext fun id => by simp only [List.mem_toFinset, mem_ids_foldl_insert]
    rw [hids, List.toFinset_card_of_nodup (nodup_foldl_insert runs), List.length_map, size]

/-! ### Edits that leave no trace -/

/-- The second log has a line more than the first one, behind the header, which is no
    entry. -/
def AddsLine (rule : ManifestRule) (bytes bytes' : List UInt8) : Prop :=
  ∃ first line rest, Text.byteLines bytes = first ++ rest ∧
    Text.byteLines bytes' = first ++ line :: rest ∧ rule.headerLines ≤ first.length ∧
    ¬Run.IsKept rule (lineText line)

theorem AddsLine.readings_eq {bytes bytes' : List UInt8} (h : AddsLine rule bytes bytes') :
    readings rule bytes' = readings rule bytes := by
  obtain ⟨first, line, rest, hbytes, hbytes', hheader, hline⟩ := h
  have hnone : Run.ofLine? rule (lineText line) = none := by rw [Run.ofLine?_eq, if_neg hline]
  rw [Manifest.readings_eq, Manifest.readings_eq, hbytes, hbytes',
    List.drop_append_of_le_length hheader, List.drop_append_of_le_length hheader,
    List.filterMap_append, List.filterMap_append, List.filterMap_cons, hnone]

/-- A carriage return at the end of a line is part of the line end, and a second one is
    white space at the end of the text. -/
theorem lineText_concat_return (line : List UInt8) :
    lineText (line ++ [Text.carriageReturn]) = lineText line ∨
      lineText (line ++ [Text.carriageReturn]) = lineText line ++ ['\r'] := by
  have hdrop : Text.dropReturn (line ++ [Text.carriageReturn]) = line := by simp [Text.dropReturn]
  have htext : lineText (line ++ [Text.carriageReturn]) = Text.decodeUtf8 line := by
    rw [lineText, hdrop]
  rw [htext, lineText]
  rcases Text.eq_dropReturn_or line with h | h
  · exact .inl (congrArg Text.decodeUtf8 h)
  · refine .inr ?_
    nth_rewrite 1 [h]
    exact Text.decodeUtf8_append_ascii _ [] (by decide)

/-- The empty piece behind a newline at the very end is no entry. -/
theorem readings_eq_splitOn (rule : ManifestRule) (bytes : List UInt8) :
    readings rule bytes =
      ((bytes.splitOn Text.newline).drop rule.headerLines).filterMap fun line =>
        Run.ofLine? rule (lineText line) := by
  obtain ⟨tail, htail, hbytes⟩ := Text.splitOn_eq_byteLines_append bytes
  have hnone : ∀ n,
      (tail.drop n).filterMap (fun line => Run.ofLine? rule (lineText line)) = [] := by
    intro n
    rw [List.filterMap_eq_nil_iff]
    intro line hline
    have hmem : line ∈ tail := List.mem_of_mem_drop hline
    rcases htail with rfl | rfl
    · cases hmem
    · rw [List.mem_singleton.1 hmem, ofLine?_lineText_nil]
  rw [hbytes, List.drop_append, List.filterMap_append, hnone, List.append_nil, readings_eq]

theorem readings_eq_of_returnsAdded {bytes bytes' : List UInt8} (hmarker : rule.marker ≠ '\r')
    (h : Text.ReturnsAdded bytes bytes') : readings rule bytes' = readings rule bytes := by
  have hlines := List.forall₂_drop rule.headerLines h
  rw [readings_eq_splitOn, readings_eq_splitOn]
  generalize (bytes.splitOn Text.newline).drop rule.headerLines = lines at hlines
  generalize (bytes'.splitOn Text.newline).drop rule.headerLines = lines' at hlines
  induction hlines with
  | nil => rfl
  | @cons line line' _ _ hline _ ih =>
    have hsame : Run.ofLine? rule (lineText line') = Run.ofLine? rule (lineText line) := by
      rcases hline with rfl | rfl
      · rfl
      · rcases lineText_concat_return line with htext | htext
        · rw [htext]
        · rw [htext, Run.ofLine?_concat_return (.inr hmarker)]
    rw [List.filterMap_cons, List.filterMap_cons, hsame, ih]

/-- **Reading a manifest.**  The first malformed entry is what reading fails with, under
    the number of its line; without one the last entry of each run is listed.  Lines that
    are no entries can be put in behind the header or taken out, and line ends can get a
    carriage return if that is not the marker. -/
theorem ofLog_isListing (rule : ManifestRule) (bytes : List UInt8) :
    (∀ line, Text.trim line = Run.knownEntry → ∃ run, Run.ofKept rule line = .ok run ∧
      run.id = "27" ∧ run.start.label = "2015-08-31 11:45:24") ∧
    (∀ before line number after fault, entries rule bytes = before ++ (line, number) :: after →
      (∀ entry ∈ before, ∃ run, Run.ofKept rule entry.1 = .ok run) →
      Run.ofKept rule line = .error fault →
      ofLog rule ⟨bytes, none⟩ = .error (.malformedManifestLine number fault)) ∧
    (∀ runs : List Run, (entries rule bytes).map (fun entry => Run.ofKept rule entry.1) =
      runs.map .ok → ∃ m, ofLog rule ⟨bytes, none⟩ = .ok m ∧ IsListing m runs) ∧
    ∀ bytes', AddsLine rule bytes bytes' ∨ AddsLine rule bytes' bytes ∨
        (rule.marker ≠ '\r' ∧ Text.ReturnsAdded bytes bytes') →
      ∀ m, ofLog rule ⟨bytes', none⟩ = .ok m ↔ ofLog rule ⟨bytes, none⟩ = .ok m := by
  refine ⟨?_, ?_, ?_, ?_⟩
  · intro line hline
    exact ⟨Run.known, Run.ofKept_of_trim_eq hline, rfl, by decide⟩
  · intro before line number after fault hentries hbefore hline
    rw [ofLog_eq_foldlM, hentries]
    exact foldlM_take_error empty hbefore hline
  · intro runs hruns
    exact ⟨runs.foldl insert empty, ofLog_eq_ok_iff.2 ⟨runs, hruns, rfl⟩,
      isListing_foldl_insert runs⟩
  · intro bytes' hedit m
    have hsame : readings rule bytes' = readings rule bytes := by
      rcases hedit with hmore | hless | ⟨hmarker, hreturns⟩
      · exact hmore.readings_eq
      · exact hless.readings_eq.symm
      · exact readings_eq_of_returnsAdded hmarker hreturns
    rw [ofLog_eq_ok_iff, ofLog_eq_ok_iff, hsame]

/-- Two entries for run 27 behind a header, the known one not at the start of its line;
    a note between them and carriage returns make no difference. -/
theorem ofLog_isListing_competing :
    let rule : ManifestRule := ⟨'+', 1, 2015⟩
    let text := "+ no entry\n\t* 27, Mon Aug 31 11:45:24 PDT 2015, ap-southeast-1a, i2.xlarge\n" ++
      "* note\n+ 27 -- 9/1 -- 4am\n+ 5 -- 2016/2/29 -- 12PM"
    let runs : List Run := [Run.known,
      ⟨"27", Date.atClock ⟨2015, 9, 1, by decide⟩ 4 0 0⟩,
      ⟨"5", Date.atClock ⟨2016, 2, 29, by decide⟩ 12 0 0⟩]
    ∃ m, ofLog rule ⟨Text.encodeUtf8 text.toList, none⟩ = .ok m ∧ IsListing m runs ∧
      ofLog rule ⟨Text.withReturns (Text.encodeUtf8 text.toList), none⟩ = .ok m := by
  intro rule text runs
  obtain ⟨-, -, hlisting, hedits⟩ := ofLog_isListing rule (Text.encodeUtf8 text.toList)
  obtain ⟨m, hm, hruns⟩ := hlisting runs (by decide +kernel)
  have hreturns := Text.returnsAdded_withReturns (Text.encodeUtf8 text.toList)
  exact ⟨m, hm, hruns, (hedits _ (.inr (.inr ⟨by decide, hreturns⟩)) m).2 hm⟩

end Manifest

end Throughput
