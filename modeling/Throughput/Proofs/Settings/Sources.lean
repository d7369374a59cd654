/-
  Throughput/Proofs/Settings/Sources.lean
  =======================================
  **Where each setting comes from.**  A setting is that of its variable, else of the file,
  else the standard one, and only the one that counts has to be of its type and in range
  (`Settings.load_takes`).  Keys of files and names of variables are paths: what is laid at
  the path of a setting, or at the table that it stands in, reaches this setting
  (`Setting.find?_write`) and keeps the tables as tables (`Grouped.write`), so a run over
  all keys lays the values of each setting over each other (`foldlM_write`).  Keys that are
  of no setting can do harm by the numbers in brackets in them (`load_other_keys_matter`).
-/
import Mathlib.Data.Fintype.Defs
import Throughput.Proofs.Report.Ranks
import Throughput.Proofs.Settings.Laying
import Throughput.Proofs.Text.Encoding
import Throughput.Settings.Load

namespace Throughput

open Toml (KeyStep)

/-! ### The settings -/

/-- The settings that have a value of their own. -/
inductive Setting where
  | delimiter
  | percentiles
  | marker
  | headerLines
  | defaultYear
  | gbitFactor
  deriving DecidableEq

namespace Setting

instance : Fintype Setting where
  elems := ⟨[delimiter, percentiles, marker, headerLines, defaultYear, gbitFactor], by decide⟩
  complete s := by cases s <;> decide

/-- The names that lead to a setting. -/
def names : Setting → List String
  | delimiter => ["delimiter"]
  | percentiles => ["percentiles"]
  | marker => ["manifest", "marker"]
  | headerLines => ["manifest", "header_lines"]
  | defaultYear => ["manifest", "default_year"]
  | gbitFactor => ["bandwidth", "gbit_factor"]

def path (s : Setting) : List KeyStep := s.names.map .entry

/-- The tables that settings stand in. -/
def groups : List String := ["manifest", "bandwidth"]

theorem names_cases (s : Setting) : (∃ name, s.names = [name] ∧ name ∉ groups) ∨
    ∃ group name, s.names = [group, name] ∧ group ∈ groups := by
  cases s
  case delimiter | percentiles => exact .inl ⟨_, rfl, by decide⟩
  all_goals exact .inr ⟨_, _, rfl, by decide⟩

theorem parts_of_ne {s s' : Setting} (h : s ≠ s') : Toml.Parts s.path s'.names := by
  cases s <;> cases s' <;> first | exact absurd rfl h | decide

/-! ### Assignments -/

/-- What a value assigns at a path: itself, or its entries if it is the table of a group. -/
def assignments : List KeyStep × Toml → List (List KeyStep × Toml)
  | ([.entry group], .table entries) =>
    if group ∈ groups then
      entries.map fun entry => ([.entry group, .entry (Toml.lowerKey entry.1)], entry.2)
    else [([.entry group], .table entries)]
  | write => [write]

/-- The values that a setting is given. -/
def valuesIn (writes : List (List KeyStep × Toml)) (s : Setting) : List Toml :=
  ((writes.flatMap assignments).filter (·.1 = s.path)).map (·.2)

/-- The path leads to a setting, or parts from the paths of all settings. -/
def IsClear (path : List KeyStep) : Prop :=
  (∃ s : Setting, path = s.path) ∨ ∀ s : Setting, Toml.Parts path s.names

instance (path : List KeyStep) : Decidable (IsClear path) := inferInstanceAs (Decidable (_ ∨ _))

theorem IsClear.parts {path : List KeyStep} (h : IsClear path) {s : Setting} (hs : path ≠ s.path) :
    Toml.Parts path s.names := by
  rcases h with ⟨s', rfl⟩ | h
  · exact parts_of_ne fun heq => hs (by rw [heq])
  · exact h s

/-- A clear path goes on from a group to an entry. -/
theorem IsClear.exists_of_group {group : String} {path : List KeyStep}
    (h : IsClear (.entry group :: path)) (hgroup : group ∈ groups) :
    ∃ name rest, path = .entry name :: rest := by
  rcases h with ⟨s, hs⟩ | h
  · rcases s.names_cases with ⟨name, hnames, hname⟩ | ⟨group', name, hnames, -⟩
    · rw [Setting.path, hnames] at hs
      obtain ⟨rfl, -⟩ : group = name ∧ _ := by simpa using hs
      exact absurd hgroup hname
    · rw [Setting.path, hnames] at hs
      exact ⟨name, [], (List.cons.inj hs).2⟩
  · simp only [groups, List.mem_cons, List.not_mem_nil, or_false] at hgroup
    rcases hgroup with rfl | rfl
    · have hparts := (h .marker).resolve_left fun hne => hne rfl
      match path, hparts with
      | .entry name :: rest, _ => exact ⟨name, rest, rfl⟩
    · have hparts := (h .gbitFactor).resolve_left fun hne => hne rfl
      match path, hparts with
      | .entry name :: rest, _ => exact ⟨name, rest, rfl⟩

/-- A value that assigns along clear paths is the table of a group, or its own path is
    clear. -/
theorem assignments_cases {w : List KeyStep × Toml} (h : ∀ a ∈ assignments w, IsClear a.1) :
    (∃ group ∈ groups, ∃ entries, w = ([.entry group], .table entries)) ∨
      IsClear w.1 ∧ assignments w = [w] := by
  revert h
  fun_cases assignments w
  case case1 group entries hgroup =>
    intro _
    exact .inl ⟨group, hgroup, entries, rfl⟩
  all_goals
    intro h
    exact .inr ⟨h _ (List.mem_singleton_self _), rfl⟩

theorem assignments_of_ne_table {w : List KeyStep × Toml} (h : ∀ entries, w.2 ≠ .table entries) :
    assignments w = [w] := by
  unfold assignments
  split
  next group entries => exact absurd rfl (h entries)
  next => rfl

theorem IsClear.exists_entry {path : List KeyStep} (h : IsClear path) :
    ∃ name rest, path = .entry name :: rest := by
  rcases h with ⟨s, rfl⟩ | h
  · cases s <;> exact ⟨_, _, rfl⟩
  · match path, h .delimiter with
    | .entry name :: rest, _ => exact ⟨name, rest, rfl⟩

/-! ### Laying one value -/

/-- Lays a value at a path into entries. -/
def write (entries : Toml.Entries) (w : List KeyStep × Toml) : Except SettingsFault Toml.Entries :=
  (Toml.layAt w.1 w.2 (some (.table entries))).map fun new => Toml.entriesOf (some new)

variable {entries entries' : Toml.Entries} {w : List KeyStep × Toml}

theorem find?_table_entriesOf (s : Setting) (value : Option Toml) :
    Toml.find? s.names (some (.table (Toml.entriesOf value))) = Toml.find? s.names value := by
  cases s <;> rfl

section

variable {group : String} {s : Setting} {inner : Toml.Entries}

theorem valuesIn_table_of_names {name : String} (hgroup : group ∈ groups)
    (hnames : s.names = [group, name]) : s.valuesIn [([.entry group], .table inner)] =
      (inner.filter (Toml.lowerKey ·.1 = name)).map (·.2) := by
  simp [valuesIn, assignments, hgroup, Setting.path, hnames, List.filter_map, Function.comp_def]

/-- The table of a group assigns nothing to a setting outside. -/
theorem valuesIn_table_of_ne (hgroup : group ∈ groups) (hnames : ∀ name, s.names ≠ [group, name]) :
    s.valuesIn [([.entry group], .table inner)] = [] := by
  rw [valuesIn, List.map_eq_nil_iff, List.filter_eq_nil_iff]
  intro a ha
  simp only [assignments, hgroup, if_true, List.flatMap_singleton, List.mem_map] at ha
  obtain ⟨entry, -, rfl⟩ := ha
  have hne : [.entry group, .entry (Toml.lowerKey entry.1)] ≠ s.path := by
    intro heq
    rcases s.names_cases with ⟨name, hs, -⟩ | ⟨group', name, hs, -⟩
    · simp [Setting.path, hs] at heq
    · rw [Setting.path, hs] at heq
      obtain ⟨rfl, -⟩ : group = group' ∧ _ := by simpa using heq
      exact hnames name hs
  simpa using hne

theorem parts_group_of_ne (hgroup : group ∈ groups) (hnames : ∀ name, s.names ≠ [group, name]) :
    Toml.Parts [.entry group] s.names := by
  rcases s.names_cases with ⟨name, hs, hname⟩ | ⟨group', name, hs, -⟩
  · rw [hs]
    exact .inl fun heq => hname (heq ▸ hgroup)
  · rw [hs]
    exact .inl fun heq => hnames name (heq ▸ hs)

end

/-- **A value reaches the settings that it assigns, and no others.** -/
theorem find?_write (h : write entries w = .ok entries') (hclear : ∀ a ∈ assignments w, IsClear a.1)
    (s : Setting) : Toml.find? s.names (some (.table entries')) =
      Toml.laidAll (s.valuesIn [w]) (Toml.find? s.names (some (.table entries))) := by
  obtain ⟨new, hnew, rfl⟩ := map_eq_ok_iff.1 h
  rw [find?_table_entriesOf]
  rcases assignments_cases hclear with ⟨group, hgroup, inner, rfl⟩ | ⟨hw, hassigns⟩
  · by_cases hnames : ∃ name, s.names = [group, name]
    · obtain ⟨name, hnames⟩ := hnames
      rw [valuesIn_table_of_names hgroup hnames, hnames]
      exact Toml.find?_layAt_table hnew
    · have hother := not_exists.1 hnames
      rw [Toml.find?_layAt_of_parts (parts_group_of_ne hgroup hother) hnew,
        valuesIn_table_of_ne hgroup hother]
      rfl
  · by_cases hpath : w.1 = s.path
    · have hvalues : s.valuesIn [w] = [w.2] := by simp [valuesIn, hassigns, hpath]
      rw [hpath, Setting.path] at hnew
      rw [Toml.find?_layAt_entries (by cases s <;> simp [names]) hnew, hvalues]
      rfl
    · have hvalues : s.valuesIn [w] = [] := by simp [valuesIn, hassigns, hpath]
      rw [Toml.find?_layAt_of_parts (hw.parts hpath) hnew, hvalues]
      rfl

/-- Where a group is there, it is a table. -/
def Grouped (entries : Toml.Entries) : Prop :=
  ∀ group ∈ groups, ∀ value, entries.lookup group = some value → ∃ inner, value = .table inner

theorem Grouped.write (hentries : Grouped entries) (h : write entries w = .ok entries')
    (hclear : ∀ a ∈ assignments w, IsClear a.1) : Grouped entries' := by
  obtain ⟨new, hnew, rfl⟩ := map_eq_ok_iff.1 h
  intro group hgroup found hfound
  rcases assignments_cases hclear with ⟨name, -, inner, rfl⟩ | ⟨hw, -⟩
  · rcases Toml.layAt_entry_cons_eq_ok hnew with ⟨-, rfl⟩ | ⟨-, -, hnil, -⟩
    · rw [Toml.entriesOf, Toml.lookup_lay] at hfound
      split_ifs at hfound with hname
      · obtain rfl := Option.some_inj.1 hfound
        obtain rfl := eq_of_beq hname
        exact Toml.exists_laid_table inner (hentries group hgroup)
      · exact hentries group hgroup found hfound
    · exact absurd rfl hnil
  · obtain ⟨path, value⟩ := w
    obtain ⟨name, rest, rfl⟩ := hw.exists_entry
    by_cases hname : group = name
    · -- the path goes on, and leaves a table behind
      subst hname
      obtain ⟨next, more, rfl⟩ := hw.exists_of_group hgroup
      rcases Toml.layAt_entry_cons_eq_ok hnew with ⟨hnil, -⟩ | ⟨inner, hinner, -, rfl⟩
      · cases hnil
      · rw [Toml.entriesOf, lookup_store, beq_self_eq_true, if_pos rfl] at hfound
        obtain rfl := Option.some_inj.1 hfound
        rcases Toml.layAt_entry_cons_eq_ok hinner with ⟨-, rfl⟩ | ⟨-, -, -, rfl⟩ <;> exact ⟨_, rfl⟩
    · have hparts : Toml.Parts (.entry name :: rest) [group] := .inl (Ne.symm hname)
      have hkept : (Toml.entriesOf (some new)).lookup group = entries.lookup group :=
        Toml.find?_layAt_of_parts hparts hnew
      exact hentries group hgroup found (hkept ▸ hfound)

/-! ### Laying all values -/

theorem valuesIn_cons (w : List KeyStep × Toml) (writes : List (List KeyStep × Toml))
    (s : Setting) : s.valuesIn (w :: writes) = s.valuesIn [w] ++ s.valuesIn writes := by
  simp [valuesIn]

theorem valuesIn_append (writes more : List (List KeyStep × Toml)) (s : Setting) :
    s.valuesIn (writes ++ more) = s.valuesIn writes ++ s.valuesIn more := by
  simp [valuesIn]

/-- **Each setting ends up with the values given to it laid over each other**, whatever
    else is laid between them. -/
theorem foldlM_write {writes : List (List KeyStep × Toml)}
    (h : writes.foldlM write entries = .ok entries')
    (hclear : ∀ a ∈ writes.flatMap assignments, IsClear a.1) (hentries : Grouped entries) :
    (∀ s : Setting, Toml.find? s.names (some (.table entries')) =
      Toml.laidAll (s.valuesIn writes) (Toml.find? s.names (some (.table entries)))) ∧
    Grouped entries' := by
  induction writes generalizing entries with
  | nil =>
    obtain rfl := Except.ok.inj h
    exact ⟨fun _ => rfl, hentries⟩
  | cons w writes ih =>
    rw [List.foldlM_cons] at h
    obtain ⟨next, hnext, h⟩ := exceptBind_eq_ok.1 h
    rw [List.flatMap_cons] at hclear
    have hfirst : ∀ a ∈ assignments w, IsClear a.1 := fun a ha =>
      hclear a (List.mem_append_left _ ha)
    obtain ⟨hfound, hgrouped⟩ := ih h (fun a ha => hclear a (List.mem_append_right _ ha))
      (hentries.write hnext hfirst)
    refine ⟨fun s => ?_, hgrouped⟩
    rw [hfound, find?_write hnext hfirst, valuesIn_cons w writes, Toml.laidAll_append]

theorem exists_foldlM_write {writes : List (List KeyStep × Toml)}
    (h : ∀ w ∈ writes, w.1.all KeyStep.isEntry = true) (entries : Toml.Entries) :
    ∃ entries', writes.foldlM write entries = .ok entries' := by
  induction writes generalizing entries with
  | nil => exact ⟨entries, rfl⟩
  | cons w writes ih =>
    obtain ⟨new, hnew⟩ := Toml.exists_layAt (h w List.mem_cons_self) w.2 (some (.table entries))
    obtain ⟨entries', hrest⟩ := ih (fun w hw => h w (List.mem_cons_of_mem _ hw))
      (Toml.entriesOf (some new))
    refine ⟨entries', ?_⟩
    rw [List.foldlM_cons, write, hnew]
    exact hrest

end Setting

/-! ### Files and variables -/

/-- A single file; whatever is opened holds its text. -/
def Files.only (path : Path) (text : String) : Files :=
  ⟨fun _ => .ok (.ofText text), fun p => p = path⟩

/-- What the entries of a file lay, and where. -/
def fileWrites (file : Toml.Entries) : List (List KeyStep × Toml) :=
  file.map fun entry => (Toml.path entry.1, entry.2)

/-- What the variables of the environment lay, and where. -/
def variableWrites (environment : Environment) : List (List KeyStep × Toml) :=
  environment.filterMap fun v => (Toml.variableKey? v.1).map fun key =>
    (Toml.path key, Toml.ofVariable key v.2)

theorem layKey_eq_write (entries : Toml.Entries) (key : String) (value : Toml) :
    Toml.layKey entries key value = Setting.write entries (Toml.path key, value) :=
  bind_pure_eq_map _ _

theorem layers_eq_foldlM (file : Toml.Entries) (environment : Environment) :
    Toml.layers file environment =
      (fileWrites file ++ variableWrites environment).foldlM Setting.write [] := by
  have hvariables : ∀ entries, environment.foldlM Toml.layVariable entries =
      (variableWrites environment).foldlM Setting.write entries := by
    induction environment with
    | nil => exact fun _ => rfl
    | cons v environment ih =>
      intro entries
      rw [List.foldlM_cons, Toml.layVariable, variableWrites, List.filterMap_cons]
      cases Toml.variableKey? v.1 with
      | none => exact ih entries
      | some key =>
        rw [Option.map_some, List.foldlM_cons, ← layKey_eq_write]
        exact bind_congr ih
  rw [List.foldlM_append, fileWrites, List.foldlM_map, Toml.layers]
  simp only [layKey_eq_write]
  exact bind_congr hvariables

/-- No variable writes a table. -/
theorem ofVariable_ne_table (key text : String) (entries : Toml.Entries) :
    Toml.ofVariable key text ≠ .table entries := by
  simp only [Toml.ofVariable]
  repeat' split
  all_goals exact Toml.noConfusion

/-- Every key of the file and of the environment is that of a setting or of none, and each
    of the two sets a setting at most once. -/
structure SetOnce (file : Toml.Entries) (environment : Environment) : Prop where
  isClear : ∀ a ∈ (fileWrites file ++ variableWrites environment).flatMap Setting.assignments,
    Setting.IsClear a.1
  file_once : ∀ s : Setting, (s.valuesIn (fileWrites file)).length ≤ 1
  variable_once : ∀ s : Setting, (s.valuesIn (variableWrites environment)).length ≤ 1

instance (file : Toml.Entries) (environment : Environment) :
    Decidable (SetOnce file environment) :=
  decidable_of_iff (_ ∧ _ ∧ _)
    ⟨fun h => ⟨h.1, h.2.1, h.2.2⟩, fun h => ⟨h.isClear, h.file_once, h.variable_once⟩⟩

namespace Setting

/-- What the file has for a setting. -/
def fileValue? (file : Toml.Entries) (s : Setting) : Option Toml :=
  (s.valuesIn (fileWrites file)).head?.map (Toml.laid · none)

/-- What the variable for a setting writes. -/
def variableValue? (environment : Environment) (s : Setting) : Option Toml :=
  (s.valuesIn (variableWrites environment)).head?

/-- The value that counts: of the variable, or else of the file. -/
def taken (file : Toml.Entries) (environment : Environment) (s : Setting) : Option Toml :=
  (s.variableValue? environment).or (s.fileValue? file)

/-- The value of a variable takes the place of what was there. -/
theorem laid_of_mem_valuesIn {environment : Environment} {s : Setting} {value : Toml}
    (h : value ∈ s.valuesIn (variableWrites environment)) (old : Option Toml) :
    Toml.laid value old = value := by
  rw [valuesIn, List.mem_map] at h
  obtain ⟨a, ha, rfl⟩ := h
  obtain ⟨w, hw, ha⟩ := List.mem_flatMap.1 (List.mem_filter.1 ha).1
  obtain ⟨v, -, hv⟩ := List.mem_filterMap.1 hw
  obtain ⟨key, -, rfl⟩ := Option.map_eq_some_iff.1 hv
  have htable := ofVariable_ne_table key v.2
  rw [assignments_of_ne_table htable, List.mem_singleton] at ha
  rw [ha]
  exact Toml.laid_eq_self htable old

/-- **The layers of a file and an environment hold the value that counts for each setting.** -/
theorem find?_layers {file entries : Toml.Entries} {environment : Environment}
    (hset : SetOnce file environment) (h : Toml.layers file environment = .ok entries) :
    (∀ s : Setting, Toml.find? s.names (some (.table entries)) = s.taken file environment) ∧
      Grouped entries := by
  rw [layers_eq_foldlM] at h
  obtain ⟨hfound, hgrouped⟩ := foldlM_write h hset.isClear
    (fun group _ value hvalue => by cases hvalue)
  refine ⟨fun s => ?_, hgrouped⟩
  have hnone : Toml.find? s.names (some (.table [])) = none := by cases s <;> rfl
  rw [hfound, hnone, valuesIn_append, Toml.laidAll_append]
  exact Toml.laidAll_eq_or (hset.file_once s) (hset.variable_once s)
    fun value hvalue => laid_of_mem_valuesIn hvalue

end Setting

namespace Settings

/-! ### Reading what was laid -/

/-- The settings have the given values where there are any, each read as the setting asks for, and
    the standard ones elsewhere. -/
structure TakenFrom (value : Setting → Option Toml) (s : Settings) : Prop where
  delimiter : Toml.orStandard Toml.toDelimiter? standard.delimiter (value .delimiter) =
    some s.delimiter
  percentiles : Toml.orStandard (Toml.toList? Toml.toNumber?) standard.percentiles
    (value .percentiles) = some s.percentiles
  marker : Toml.orStandard Toml.toChar? standard.manifest.marker (value .marker) =
    some s.manifest.marker
  headerLines : Toml.orStandard Toml.toNatural? standard.manifest.headerLines
    (value .headerLines) = some s.manifest.headerLines
  defaultYear : Toml.orStandard (fun v => v.toInteger?.filter (Word.fitsSigned 32))
    standard.manifest.defaultYear (value .defaultYear) = some s.manifest.defaultYear
  gbitFactor : Toml.orStandard Toml.toNumber? standard.bandwidth.gbitFactor (value .gbitFactor) =
    some s.bandwidth.gbitFactor

instance (value : Setting → Option Toml) (s : Settings) : Decidable (s.TakenFrom value) :=
  decidable_of_iff (_ ∧ _ ∧ _ ∧ _ ∧ _ ∧ _)
    ⟨fun h => ⟨h.1, h.2.1, h.2.2.1, h.2.2.2.1, h.2.2.2.2.1, h.2.2.2.2.2⟩,
      fun h => ⟨h.delimiter, h.percentiles, h.marker, h.headerLines, h.defaultYear, h.gbitFactor⟩⟩

theorem toManifestRule?_eq_some_iff {entries : Toml.Entries} {rule : ManifestRule} :
    Toml.toManifestRule? (.table entries) = some rule ↔
      Toml.orStandard Toml.toChar? standard.manifest.marker (entries.lookup "marker") =
        some rule.marker ∧
      Toml.orStandard Toml.toNatural? standard.manifest.headerLines
        (entries.lookup "header_lines") = some rule.headerLines ∧
      Toml.orStandard (fun v => v.toInteger?.filter (Word.fitsSigned 32))
        standard.manifest.defaultYear (entries.lookup "default_year") = some rule.defaultYear := by
  obtain ⟨marker, headerLines, defaultYear⟩ := rule
  simp only [Toml.toManifestRule?, Toml.fields?, List.map_cons, List.map_nil, Option.bind_eq_bind,
    Option.bind_some, Option.bind_eq_some_iff, Option.pure_def, Option.some_inj,
    ManifestRule.mk.injEq]
  constructor
  · rintro ⟨_, hmarker, _, hlines, _, hyear, rfl, rfl, rfl⟩
    exact ⟨hmarker, hlines, hyear⟩
  · rintro ⟨hmarker, hlines, hyear⟩
    exact ⟨_, hmarker, _, hlines, _, hyear, rfl, rfl, rfl⟩

theorem toBandwidthRule?_eq_some_iff {entries : Toml.Entries} {rule : BandwidthRule} :
    Toml.toBandwidthRule? (.table entries) = some rule ↔
      Toml.orStandard Toml.toNumber? standard.bandwidth.gbitFactor
        (entries.lookup "gbit_factor") = some rule.gbitFactor := by
  obtain ⟨factor⟩ := rule
  simp only [Toml.toBandwidthRule?, Toml.fields?, List.map_cons, List.map_nil,
    Option.bind_eq_bind, Option.bind_some, Option.bind_eq_some_iff, Option.pure_def,
    Option.some_inj, BandwidthRule.mk.injEq]
  constructor
  · rintro ⟨_, hfactor, rfl⟩
    exact hfactor
  · intro hfactor
    exact ⟨_, hfactor, rfl⟩

/-- A group that is missing is as good as an empty table. -/
theorem orStandard_group {α : Type} {read? : Toml → Option α} {start : α}
    {entries : Toml.Entries} {group : String} (hentries : Setting.Grouped entries)
    (hgroup : group ∈ Setting.groups) (hstart : read? (.table []) = some start) :
    Toml.orStandard read? start (entries.lookup group) =
      read? (.table (Toml.entriesOf (entries.lookup group))) := by
  cases hfound : entries.lookup group with
  | none => exact hstart.symm
  | some value =>
    obtain ⟨inner, rfl⟩ := hentries group hgroup value hfound
    rfl

theorem ofEntries?_eq_some_iff {entries : Toml.Entries} (h : Setting.Grouped entries)
    {s : Settings} : ofEntries? entries = some s ↔
      s.TakenFrom fun setting => Toml.find? setting.names (some (.table entries)) := by
  have hmanifest : Toml.orStandard Toml.toManifestRule? standard.manifest
      (entries.lookup "manifest") = _ := orStandard_group h (by decide) rfl
  have hbandwidth : Toml.orStandard Toml.toBandwidthRule? standard.bandwidth
      (entries.lookup "bandwidth") = _ := orStandard_group h (by decide) rfl
  obtain ⟨delimiter, percentiles, manifest, bandwidth⟩ := s
  simp only [ofEntries?, hmanifest, hbandwidth, Option.bind_eq_bind, Option.bind_eq_some_iff,
    Option.pure_def, Option.some_inj, Settings.mk.injEq, toManifestRule?_eq_some_iff,
    toBandwidthRule?_eq_some_iff]
  constructor
  · rintro ⟨_, hdelimiter, _, hpercentiles, _, ⟨hmarker, hlines, hyear⟩, _, hfactor,
      rfl, rfl, rfl, rfl⟩
    exact ⟨hdelimiter, hpercentiles, hmarker, hlines, hyear, hfactor⟩
  · rintro ⟨hdelimiter, hpercentiles, hmarker, hlines, hyear, hfactor⟩
    exact ⟨_, hdelimiter, _, hpercentiles, _, ⟨hmarker, hlines, hyear⟩, _, hfactor,
      rfl, rfl, rfl, rfl⟩

/-- The entries of the file, if one is named. -/
def fileLayer (files : Files) : Option Path → Except SettingsFault Toml.Entries
  | none => .ok []
  | some path => fileEntries files path

/-- A settings file is found under its own name. -/
theorem fileBytes_only {path : Path} (hpath : path.extension? = some extension) (text : String) :
    fileBytes (.only path text) path = .ok (Text.encodeUtf8 text.toList) := by
  have hcontents : (Files.only path text).contents? path = some (Text.encodeUtf8 text.toList) := by
    simp [Files.contents?, Files.only, Source.ofText]
  simp only [fileBytes, hcontents, if_pos hpath]

theorem fileLayer_eq_ok {files : Files} {path : Path} {text : List Char} {file : Toml.Entries}
    (hbytes : fileBytes files path = .ok (Text.encodeUtf8 text))
    (htext : Toml.ofText? text = some file) : fileLayer files (some path) = .ok file := by
  rw [fileLayer, fileEntries, hbytes]
  simp only [bind, Except.bind, Text.utf8?_encodeUtf8, Option.bind_some, htext]
  rfl

theorem load_of_fileLayer {files : Files} {path : Option Path} {file : Toml.Entries}
    (h : fileLayer files path = .ok file) (environment : Environment) :
    load files environment path = Toml.layers file environment >>= fun entries =>
      match ofEntries? entries with
      | some settings => settings.check
      | none => throw .unreadable := by
  cases path with
  | none =>
    obtain rfl : [] = file := Except.ok.inj h
    rfl
  | some path =>
    have hentries : fileEntries files path = .ok file := h
    rw [load, hentries]
    rfl

/-- **Each setting is that of its variable, else of the file, else the standard one**, and
    settings are loaded exactly if every value that counts is one of its setting and the
    result passes the check; unless a key leads out of a list, which only numbers in
    brackets can do. -/
theorem load_takes {files : Files} {path : Option Path} {file : Toml.Entries}
    {environment : Environment} (hfile : fileLayer files path = .ok file)
    (hset : SetOnce file environment) :
    (∀ s, load files environment path = .ok s ↔
      (∃ entries, Toml.layers file environment = .ok entries) ∧
        s.TakenFrom (·.taken file environment) ∧ s.check = .ok s) ∧
    ((∀ w ∈ fileWrites file ++ variableWrites environment, w.1.all KeyStep.isEntry = true) →
      ∃ entries, Toml.layers file environment = .ok entries) := by
  constructor
  · intro s
    have hread : ∀ entries, Toml.layers file environment = .ok entries →
        ∀ s, ofEntries? entries = some s ↔ s.TakenFrom (·.taken file environment) := by
      intro entries hlayers s
      obtain ⟨hfound, hgrouped⟩ := Setting.find?_layers hset hlayers
      rw [ofEntries?_eq_some_iff hgrouped, funext hfound]
    rw [load_of_fileLayer hfile, exceptBind_eq_ok]
    constructor
    · rintro ⟨entries, hlayers, h⟩
      split at h
      next settings hsettings =>
        obtain rfl := (check_eq_ok_iff.1 h).1
        exact ⟨⟨entries, hlayers⟩, (hread entries hlayers s).1 hsettings, h⟩
      next => cases h
    · rintro ⟨⟨entries, hlayers⟩, htaken, hcheck⟩
      refine ⟨entries, hlayers, ?_⟩
      rw [(hread entries hlayers s).2 htaken]
      exact hcheck
  · intro h
    rw [layers_eq_foldlM]
    exact Setting.exists_foldlM_write h []

/-- A list and numbers that variables write as text, over a file that has values out of
    range and of wrong types for them, and other keys. -/
theorem load_takes_overridden :
    let text := "percentiles = [120]\nTitle = 1\n[manifest]\nheader_lines = -3\n" ++
      "default_year = \"2017\"\nnote.x = 1\n"
    let files : Files := .only ⟨"c.toml"⟩ text
    let environment : Environment := [("BENCHLOG_PERCENTILES", "5,50"),
      ("benchlog_manifest__header_lines", "1.6"), ("BENCHLOG_CONFIG", "c.toml"), ("HOME", "/")]
    load files environment (some ⟨"c.toml"⟩) =
      .ok { standard with
        percentiles := [.ofNat 5, .ofNat 50]
        manifest := ⟨'*', 2, 2017⟩ } := by
  intro text files environment
  let s : Settings := { standard with
    percentiles := [.ofNat 5, .ofNat 50]
    manifest := ⟨'*', 2, 2017⟩ }
  obtain ⟨file, htext, hset, hentries, htaken⟩ :
      ∃ file ∈ Toml.ofText? text.toList, SetOnce file environment ∧
        (∀ w ∈ fileWrites file ++ variableWrites environment,
          w.1.all KeyStep.isEntry = true) ∧
        s.TakenFrom (·.taken file environment) := by
    decide +kernel
  have hlayer : fileLayer files (some ⟨"c.toml"⟩) = .ok file :=
    fileLayer_eq_ok (fileBytes_only (by decide) text) htext
  obtain ⟨hload, hlayers⟩ := load_takes hlayer hset
  exact (hload s).2 ⟨hlayers hentries, htaken, by decide +kernel⟩

/-- Keys that name no setting can matter.  One that counts back from the start of its list
    stops everything, and one that makes a list of a group sets what stands first in it. -/
theorem load_other_keys_matter :
    let files : String → Files := .only ⟨"c.toml"⟩
    Setting.IsClear (Toml.path "x[-1]") ∧ standard.check = .ok standard ∧
      load (files "\"x[-1]\" = 1\n") [] (some ⟨"c.toml"⟩) = .error .outsideArray ∧
      (∀ s : Setting, Toml.path "manifest[0]" ≠ s.path) ∧
      load (files "\"manifest[0]\" = '#'\n") [] (some ⟨"c.toml"⟩) =
        .ok { standard with manifest := { standard.manifest with marker := '#' } } := by
  decide +kernel

end Settings

end Throughput
