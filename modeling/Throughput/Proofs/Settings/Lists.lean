/-
  Throughput/Proofs/Settings/Lists.lean
  =====================================
  **A list in a variable.**  The ranks of percentiles can be set by a variable that holds
  their texts with commas between them.  What a variable holds is taken for a truth value
  or a number first, and no text with a comma is one (`Toml.ofVariable_of_comma`), so two
  or more ranks are loaded as they are written, in their order; a single rank is taken for
  a number and refused where a list is asked for (`Settings.load_list_variable`).
-/
import Throughput.Proofs.Reading.Fields
import Throughput.Proofs.Settings.Loaded
import Throughput.Proofs.Settings.Sources

namespace Throughput

/-! ### What numbers are written with -/

namespace Decimal

theorem mem_dropWhile_isDigit {c : Char} (hc : isDigit c = false) {cs : List Char} (h : c ∈ cs) :
    c ∈ cs.dropWhile isDigit := by
  rw [← List.takeWhile_append_dropWhile (p := isDigit) (l := cs)] at h
  rcases List.mem_append.1 h with h | h
  · have hdigit := List.mem_takeWhile_imp h
    rw [hc] at hdigit
    cases hdigit
  · exact h

theorem comma_mem_splitSign {cs : List Char} (h : ',' ∈ cs) : ',' ∈ (splitSign cs).2 := by
  unfold splitSign
  split
  next cs => simpa using h
  next cs => simpa using h
  next => exact h

theorem comma_mem_splitFraction {cs : List Char} (h : ',' ∈ cs) : ',' ∈ (splitFraction cs).2 := by
  unfold splitFraction
  split
  next cs => exact mem_dropWhile_isDigit (by decide) (by simpa using h)
  next => exact h

theorem all_isDigit_of_comma {cs : List Char} (h : ',' ∈ cs) : cs.all isDigit = false :=
  List.all_eq_false.2 ⟨',', h, by decide⟩

theorem exponent?_of_comma {cs : List Char} (h : ',' ∈ cs) : exponent? cs = none := by
  cases cs with
  | nil => cases h
  | cons c cs =>
    simp only [exponent?]
    apply if_neg
    rintro ⟨hc, -, hdigits⟩
    have hmem : ',' ∈ cs := by
      rcases List.mem_cons.1 h with rfl | h
      · exact absurd hc (by decide)
      · exact h
    rw [all_isDigit_of_comma (comma_mem_splitSign hmem)] at hdigits
    cases hdigits

theorem unsigned?_of_comma (negative : Bool) {cs : List Char} (h : ',' ∈ cs) :
    unsigned? negative cs = none := by
  have hrest := comma_mem_splitFraction (mem_dropWhile_isDigit (by decide) h)
  simp only [unsigned?, exponent?_of_comma hrest, Option.map_none, ite_self]

theorem signed?_of_comma {cs : List Char} (h : ',' ∈ cs) : signed? cs = none := by
  simp [signed?, wholeNumber?, all_isDigit_of_comma (comma_mem_splitSign h)]

end Decimal

namespace Toml

theorem comma_mem_map_lowerAscii {cs : List Char} (h : ',' ∈ cs) : ',' ∈ cs.map lowerAscii :=
  List.mem_map.2 ⟨',', h, by decide⟩

theorem ofList_lowered_ne {cs : List Char} (h : ',' ∈ cs) {word : String}
    (hword : ',' ∉ word.toList) : String.ofList (cs.map lowerAscii) ≠ word := by
  rintro rfl
  rw [String.toList_ofList] at hword
  exact hword (comma_mem_map_lowerAscii h)

end Toml

theorem Binary64.ofText?_of_comma {cs : List Char} (h : ',' ∈ cs) : ofText? cs = none := by
  have hbody := Decimal.comma_mem_splitSign h
  have hnan := Toml.ofList_lowered_ne hbody (show ',' ∉ "nan".toList by decide)
  have hinf := Toml.ofList_lowered_ne hbody (show ',' ∉ "inf".toList by decide)
  have hinfinity := Toml.ofList_lowered_ne hbody (show ',' ∉ "infinity".toList by decide)
  simp [ofText?, hnan, hinf, hinfinity, Decimal.unsigned?_of_comma _ hbody]

/-- A text that begins with a letter is no number, but for the three words that are. -/
theorem Binary64.ofText?_of_word {text : List Char} {c : Char} {cs : List Char}
    (hlowered : text.map lowerAscii = c :: cs)
    (hc : Decimal.isDigit c = false ∧ c ∉ ['-', '+', '.'])
    (hword : String.ofList (c :: cs) ∉ ["nan", "inf", "infinity"]) : ofText? text = none := by
  obtain ⟨a, rest, rfl⟩ : ∃ a rest, text = a :: rest := by
    cases text with
    | nil => cases hlowered
    | cons a rest => exact ⟨a, rest, rfl⟩
  have hfirst : lowerAscii a = c := (List.cons.inj hlowered).1
  have hne : ∀ mark ∈ ['-', '+', '.'], a ≠ mark := by
    rintro mark hmark rfl
    have hself : lowerAscii a = a := by
      simp only [List.mem_cons, List.not_mem_nil, or_false] at hmark
      rcases hmark with rfl | rfl | rfl <;> decide
    rw [hself] at hfirst
    exact hc.2 (hfirst ▸ hmark)
  have hdigit : Decimal.isDigit a = false := by
    cases hdigit : Decimal.isDigit a with
    | false => rfl
    | true =>
      rw [lowerAscii_of_isDigit hdigit] at hfirst
      rw [hfirst, hc.1] at hdigit
      cases hdigit
  have hsign : Decimal.splitSign (a :: rest) = (false, a :: rest) := by
    unfold Decimal.splitSign
    split
    next heq => exact absurd (List.cons.inj heq).1 (hne '-' (by decide))
    next heq => exact absurd (List.cons.inj heq).1 (hne '+' (by decide))
    next => rfl
  have hfraction : Decimal.splitFraction (a :: rest) = ([], a :: rest) := by
    unfold Decimal.splitFraction
    split
    next heq => exact absurd (List.cons.inj heq).1 (hne '.' (by decide))
    next => rfl
  have hunsigned : Decimal.unsigned? false (a :: rest) = none := by
    simp [Decimal.unsigned?, hdigit, hfraction]
  simp only [List.mem_cons, List.not_mem_nil, or_false, not_or] at hword
  obtain ⟨hnan, hinf, hinfinity⟩ := hword
  simp only [ofText?, hsign, hlowered, if_neg hnan, hinf, hinfinity, or_self, if_false, hunsigned,
    Option.map_none]

/-! ### What a variable holds -/

namespace Toml

theorem ofList_lowered_of_ofText? {text : List Char} {x : Binary64}
    (h : Binary64.ofText? text = some x) :
    String.ofList (text.map lowerAscii) ∉ ["true", "on", "yes", "false", "off", "no"] := by
  intro hword
  have hnone : Binary64.ofText? text = none := by
    simp only [List.mem_cons, List.not_mem_nil, or_false] at hword
    rcases hword with hword | hword | hword | hword | hword | hword
    all_goals
      have hlowered := congrArg String.toList hword
      rw [String.toList_ofList] at hlowered
      exact Binary64.ofText?_of_word hlowered (by decide) (by decide)
  rw [h] at hnone
  cases hnone

theorem toNumber?_string {text : String} {x : Binary64}
    (h : Binary64.ofText? text.toList = some x) : toNumber? (.string text) = some x := by
  have hword := ofList_lowered_of_ofText? h
  simp only [List.mem_cons, List.not_mem_nil, or_false, not_or] at hword
  have htruth : truth? text = none := by simp [truth?, lowered, hword]
  rw [toNumber?, htruth]
  exact h

/-- Nothing with a comma is a truth value or a number, so it is cut where a list can
    stand. -/
theorem ofVariable_of_comma {text : String} (h : ',' ∈ text.toList) :
    ofVariable listKey text =
      .array ((Text.pieces (· == ',') text.toList).map fun piece =>
        .string (String.ofList piece)) := by
  have htrue := ofList_lowered_ne h (show ',' ∉ "true".toList by decide)
  have hfalse := ofList_lowered_ne h (show ',' ∉ "false".toList by decide)
  simp [ofVariable, htrue, hfalse, Decimal.signed?_of_comma h, Binary64.ofText?_of_comma h]

theorem toList?_array {texts : List String} {xs : List Binary64}
    (h : List.Forall₂ (fun text x => Binary64.ofText? text.toList = some x) texts xs) :
    toList? toNumber? (.array (texts.map .string)) = some xs := by
  rw [toList?, List.mapM_map]
  induction h with
  | nil => rfl
  | cons hx _ ih =>
    rw [List.mapM_cons, ih, Function.comp_apply, toNumber?_string hx]
    rfl

/-- **Texts of several numbers with commas between them are a list.** -/
theorem toList?_ofVariable_join {texts : List String} {xs : List Binary64}
    (h : List.Forall₂ (fun text x => Binary64.ofText? text.toList = some x) texts xs)
    (hlength : 2 ≤ xs.length) :
    toList? toNumber? (ofVariable listKey (Text.joinWith "," texts)) = some xs := by
  have huncut : ∀ field ∈ texts.map String.toList, Delimiter.comma.IsField field := by
    intro field hfield
    obtain ⟨text, htext, rfl⟩ := List.mem_map.1 hfield
    obtain ⟨x, -, hx⟩ := exists_right_of_forall₂ h htext
    refine ⟨fun c hc => beq_eq_false_iff_ne.2 ?_, fun hd => by cases hd⟩
    rintro rfl
    rw [Binary64.ofText?_of_comma hc] at hx
    cases hx
  have hne : texts.map String.toList ≠ [] := by
    rw [Ne, List.map_eq_nil_iff]
    rintro rfl
    cases h
    exact absurd hlength (by decide)
  have hjoin : Text.joinWith "," texts = Delimiter.comma.join (texts.map String.toList) := by
    simp [Delimiter.join, Delimiter.separator, Function.comp_def]
  have hpieces : Text.pieces (· == ',') (Text.joinWith "," texts).toList =
      texts.map String.toList := by
    rw [hjoin]
    exact Delimiter.fields_join hne huncut
  have hcomma : ',' ∈ (Text.joinWith "," texts).toList := by
    have hcount := Text.length_pieces (· == ',') (Text.joinWith "," texts).toList
    rw [hpieces, List.length_map, h.length_eq] at hcount
    have hpos : 0 < (Text.joinWith "," texts).toList.countP (· == ',') := by omega
    obtain ⟨c, hc, heq⟩ := List.countP_pos_iff.1 hpos
    rwa [← eq_of_beq heq]
  have hitems : ((texts.map String.toList).map fun piece => Toml.string (String.ofList piece)) =
      texts.map .string := by
    simp [Function.comp_def]
  rw [ofVariable_of_comma hcomma, hpieces, hitems]
  exact toList?_array h

/-- **The text of a single number is no list.** -/
theorem toList?_ofVariable_single {text : String} {x : Binary64}
    (h : Binary64.ofText? text.toList = some x) :
    toList? toNumber? (ofVariable listKey text) = none := by
  have hword := ofList_lowered_of_ofText? h
  simp only [List.mem_cons, List.not_mem_nil, or_false, not_or] at hword
  simp only [ofVariable, hword, if_false, h]
  split <;> rfl

end Toml

/-! ### Entries that differ at one name -/

theorem Toml.not_parts_nil (path : List Toml.KeyStep) : ¬Toml.Parts path [] := by
  cases path with
  | nil => exact id
  | cons step rest => cases step <;> exact id

namespace Setting

open Toml (KeyStep)

/-- The entries have the same values under all names but one. -/
def SameBut (name : String) (entries entries' : Toml.Entries) : Prop :=
  ∀ other, other ≠ name → entries.lookup other = entries'.lookup other

variable {name : String} {entries entries' next : Toml.Entries} {w : List KeyStep × Toml}

theorem SameBut.symm (h : SameBut name entries entries') : SameBut name entries' entries :=
  fun other hother => (h other hother).symm

theorem SameBut.trans {entries'' : Toml.Entries} (h : SameBut name entries entries')
    (h' : SameBut name entries' entries'') : SameBut name entries entries'' :=
  fun other hother => (h other hother).trans (h' other hother)

theorem sameBut_lay (name : String) (value : Toml) (entries : Toml.Entries) :
    SameBut name entries (Toml.lay name value entries) := by
  intro other hother
  rw [Toml.lookup_lay, if_neg (by simpa using hother)]

theorem write_percentiles (entries : Toml.Entries) (value : Toml) :
    Setting.write entries (percentiles.path, value) =
      .ok (Toml.lay "percentiles" value entries) := by
  change (Toml.layAt [.entry "percentiles"] value (some (.table entries))).map _ = _
  rw [Toml.layAt]
  rfl

/-- A value that is laid elsewhere is laid alike, and leaves alone what stands at the name. -/
theorem SameBut.write (h : SameBut name entries entries') (hparts : Toml.Parts w.1 [name])
    (hwrite : write entries w = .ok next) :
    ∃ next', Setting.write entries' w = .ok next' ∧ SameBut name next next' ∧
      next'.lookup name = entries'.lookup name := by
  obtain ⟨path, value⟩ := w
  obtain ⟨new, hnew, rfl⟩ := map_eq_ok_iff.1 hwrite
  match path, hparts with
  | .entry other :: rest, hparts =>
    have hother : other ≠ name := hparts.resolve_right (Toml.not_parts_nil rest)
    rcases Toml.layAt_entry_cons_eq_ok hnew with ⟨rfl, rfl⟩ | ⟨inner, hinner, hrest, rfl⟩
    · refine ⟨Toml.lay other value entries', ?_, ?_, ?_⟩
      · rw [Setting.write, Toml.layAt]
        rfl
      · intro x hx
        rw [Toml.entriesOf, Toml.entriesOf, Toml.lookup_lay, Toml.lookup_lay, h x hx, h other hother]
      · rw [Toml.lookup_lay, if_neg (by simpa using hother.symm)]
    · obtain ⟨step, rest, rfl⟩ := List.exists_cons_of_ne_nil hrest
      have hinner' : Toml.layAt (step :: rest) value (entries'.lookup other) = .ok inner := by
        rw [← h other hother]
        exact hinner
      refine ⟨store other inner entries', ?_, ?_, ?_⟩
      · rw [Setting.write, Toml.layAt, Toml.entriesOf, hinner']
        rfl
      · intro x hx
        rw [Toml.entriesOf, Toml.entriesOf, lookup_store, lookup_store, h x hx]
      · rw [lookup_store, if_neg (by simpa using hother.symm)]

theorem SameBut.foldlM_write {writes : List (List KeyStep × Toml)}
    (h : SameBut name entries entries') (hparts : ∀ w ∈ writes, Toml.Parts w.1 [name])
    (hwrites : writes.foldlM Setting.write entries = .ok next) :
    ∃ next', writes.foldlM Setting.write entries' = .ok next' ∧ SameBut name next next' ∧
      next'.lookup name = entries'.lookup name := by
  induction writes generalizing entries entries' with
  | nil =>
    obtain rfl := Except.ok.inj hwrites
    exact ⟨entries', rfl, h, rfl⟩
  | cons w writes ih =>
    rw [List.foldlM_cons] at hwrites
    obtain ⟨between, hbetween, hwrites⟩ := exceptBind_eq_ok.1 hwrites
    obtain ⟨hw, hparts⟩ := List.forall_mem_cons.1 hparts
    obtain ⟨between', hbetween', hsame, hkept⟩ := h.write hw hbetween
    obtain ⟨next', hnext', hsame', hkept'⟩ := ih hsame hparts hwrites
    refine ⟨next', ?_, hsame', hkept'.trans hkept⟩
    rw [List.foldlM_cons]
    exact exceptBind_eq_ok.2 ⟨between', hbetween', hnext'⟩

end Setting

namespace Settings

theorem ofEntries?_of_sameBut {entries entries' : Toml.Entries} {s : Settings}
    (h : Setting.SameBut "percentiles" entries entries') (hs : ofEntries? entries = some s) :
    ofEntries? entries' =
      (Toml.orStandard (Toml.toList? Toml.toNumber?) standard.percentiles
        (entries'.lookup "percentiles")).map fun ranks => { s with percentiles := ranks } := by
  simp only [ofEntries?, Option.bind_eq_bind, Option.bind_eq_some_iff, Option.pure_def,
    Option.some_inj] at hs
  obtain ⟨delimiter, hdelimiter, _, -, manifest, hmanifest, bandwidth, hbandwidth, rfl⟩ := hs
  rw [h "delimiter" (by decide)] at hdelimiter
  rw [h "manifest" (by decide)] at hmanifest
  rw [h "bandwidth" (by decide)] at hbandwidth
  simp only [ofEntries?, hdelimiter, hmanifest, hbandwidth, Option.bind_eq_bind, Option.bind_some,
    Option.pure_def]
  rw [Option.map_eq_bind]
  rfl

/-! ### Loading -/

/-- The variable for the ranks of percentiles. -/
def listVariable : String := "BENCHLOG_PERCENTILES"

theorem variableWrites_listVariable (text : String) (environment : Environment) :
    variableWrites ((listVariable, text) :: environment) =
      (Setting.percentiles.path, Toml.ofVariable Toml.listKey text) ::
        variableWrites environment := by
  have hkey : Toml.variableKey? listVariable = some Toml.listKey := by decide +kernel
  have hpath : Toml.path Toml.listKey = Setting.percentiles.path := by decide +kernel
  rw [variableWrites, List.filterMap_cons, hkey, Option.map_some, hpath]
  rfl

theorem variableWrites_append (environment more : Environment) :
    variableWrites (environment ++ more) = variableWrites environment ++ variableWrites more :=
  List.filterMap_append

section

variable {files : Files} {path : Option Path} {before after : Environment} {s : Settings}

theorem exists_fileLayer_of_load {environment : Environment}
    (h : load files environment path = .ok s) : ∃ file, fileLayer files path = .ok file := by
  cases path with
  | none => exact ⟨[], rfl⟩
  | some path =>
    obtain ⟨file, hfile, -⟩ := exceptBind_eq_ok.1 h
    exact ⟨file, hfile⟩

theorem load_of_layers {environment : Environment} {file entries : Toml.Entries}
    (hfile : fileLayer files path = .ok file)
    (hlayers : Toml.layers file environment = .ok entries) :
    load files environment path =
      match ofEntries? entries with
      | some settings => settings.check
      | none => .error .unreadable := by
  rw [load_of_fileLayer hfile, hlayers]
  rfl

/-- The variable for the ranks, where it is set, is written at their name. -/
theorem sameBut_of_listVariable {text? : Option String} {base entries : Toml.Entries}
    (h : (variableWrites (text?.map (listVariable, ·)).toList).foldlM Setting.write base =
      .ok entries) : Setting.SameBut "percentiles" base entries := by
  cases text? with
  | none =>
    obtain rfl := Except.ok.inj h
    exact fun _ _ => rfl
  | some held =>
    have hwrites : variableWrites ((some held).map (listVariable, ·)).toList =
        [(Setting.percentiles.path, Toml.ofVariable Toml.listKey held)] :=
      variableWrites_listVariable held []
    rw [hwrites, List.foldlM_cons, Setting.write_percentiles] at h
    obtain rfl := Except.ok.inj h
    exact Setting.sameBut_lay _ _ _

/-- What the variable for the ranks holds changes the ranks and nothing else. -/
theorem load_with_listVariable {text? : Option String}
    (hvalid : load files (before ++ (text?.map (listVariable, ·)).toList ++ after) path = .ok s)
    (hafter : ∀ w ∈ variableWrites after, Toml.Parts w.1 Setting.percentiles.names)
    (text : String) :
    load files (before ++ (listVariable, text) :: after) path =
      match Toml.toList? Toml.toNumber? (Toml.ofVariable Toml.listKey text) with
      | some ranks => { s with percentiles := ranks }.check
      | none => .error .unreadable := by
  obtain ⟨file, hfile⟩ := exists_fileLayer_of_load hvalid
  rw [load_of_fileLayer hfile] at hvalid
  obtain ⟨entries, hlayers, hvalid⟩ := exceptBind_eq_ok.1 hvalid
  rw [layers_eq_foldlM, variableWrites_append, variableWrites_append, ← List.append_assoc,
    ← List.append_assoc, List.foldlM_append, List.foldlM_append] at hlayers
  obtain ⟨between, hlayers, hrest⟩ := exceptBind_eq_ok.1 hlayers
  obtain ⟨base, hbase, hbetween⟩ := exceptBind_eq_ok.1 hlayers
  have hsame := sameBut_of_listVariable hbetween
  let value := Toml.ofVariable Toml.listKey text
  obtain ⟨entries', hentries', hsame', hkept⟩ :=
    (hsame.symm.trans (Setting.sameBut_lay "percentiles" value base)).foldlM_write hafter hrest
  have hlayers' : Toml.layers file (before ++ (listVariable, text) :: after) = .ok entries' := by
    rw [layers_eq_foldlM, variableWrites_append, variableWrites_listVariable, ← List.append_assoc,
      List.foldlM_append, hbase]
    refine exceptBind_eq_ok.2 ⟨base, rfl, ?_⟩
    rw [List.foldlM_cons, Setting.write_percentiles]
    exact hentries'
  have hlookup : entries'.lookup "percentiles" = some value := by
    have hlaid := Toml.laid_eq_self (ofVariable_ne_table Toml.listKey text)
    rw [hkept, Toml.lookup_lay, beq_self_eq_true, if_pos rfl, hlaid]
  cases hentries : ofEntries? entries with
  | none =>
    rw [hentries] at hvalid
    cases hvalid
  | some settings =>
    rw [hentries] at hvalid
    obtain rfl := (check_eq_ok_iff.1 hvalid).1
    rw [load_of_layers hfile hlayers', ofEntries?_of_sameBut hsame' hentries, hlookup,
      Toml.orStandard]
    cases Toml.toList? Toml.toNumber? value <;> rfl

/-- **Ranks in a variable are loaded as they are written, if there are several.**  Where
    settings are loaded without the variable, or with another text in it, and no variable
    behind it reaches the ranks, the texts of two or more ranks joined by commas load as
    these ranks in their order and change nothing else.  The text of a single rank, in
    whatever form, is taken for a number, and loading fails. -/
theorem load_list_variable (text? : Option String)
    (hvalid : load files (before ++ (text?.map (listVariable, ·)).toList ++ after) path = .ok s)
    (hafter : ∀ w ∈ variableWrites after, Toml.Parts w.1 Setting.percentiles.names)
    {texts : List String} {ranks : List Binary64}
    (htexts : List.Forall₂ (fun text rank => Binary64.ofText? text.toList = some rank) texts ranks)
    (hranks : ∀ rank ∈ ranks, Quantity.isRank rank = true) :
    let environment := before ++ (listVariable, Text.joinWith "," texts) :: after
    (2 ≤ ranks.length → load files environment path = .ok { s with percentiles := ranks }) ∧
    (ranks.length = 1 → load files environment path = .error .unreadable) := by
  intro environment
  have hload := load_with_listVariable hvalid hafter (Text.joinWith "," texts)
  constructor
  · intro hlength
    rw [Toml.toList?_ofVariable_join htexts hlength] at hload
    have hfactor := (check_eq_ok_iff.1 (exists_of_load hvalid).2).2.2
    exact hload.trans (check_eq_ok_iff.2 ⟨rfl, hranks, hfactor⟩)
  · intro hlength
    obtain ⟨rank, rfl⟩ := List.length_eq_one_iff.1 hlength
    rcases htexts with _ | ⟨htext, hnil⟩
    cases hnil
    rw [Text.joinWith, String.intercalate_singleton, Toml.toList?_ofVariable_single htext] at hload
    exact hload

/-- Ranks in several spellings over a file that sets some itself, in place of a text that
    no list is; and a single one in its place. -/
theorem load_list_variable_spellings :
    let text := "percentiles = [50]\n[manifest]\nheader_lines = 3\n"
    let files : Files := .only ⟨"c.toml"⟩ text
    let s : Settings := { standard with
      percentiles := [.ofNat 50]
      manifest := { ManifestRule.standard with headerLines := 3 } }
    let before : Environment := [("HOME", "/")]
    let after : Environment := [("BENCHLOG_DELIMITER", "comma")]
    load files (before ++ after) (some ⟨"c.toml"⟩) = .ok s ∧
    load files (before ++ (listVariable, "95.0,0,1e1") :: after) (some ⟨"c.toml"⟩) =
      .ok { s with percentiles := [.ofNat 95, .ofNat 0, .ofNat 10] } ∧
    load files (before ++ (listVariable, "95.0") :: after) (some ⟨"c.toml"⟩) =
      .error .unreadable := by
  intro text files s before after
  have hvalid : load files (before ++ after) (some ⟨"c.toml"⟩) = .ok s := by decide +kernel
  have hafter : ∀ w ∈ variableWrites after, Toml.Parts w.1 Setting.percentiles.names := by
    decide +kernel
  have hnumbers : List.Forall₂ (fun text rank => Binary64.ofText? text.toList = some rank)
      ["95.0", "0", "1e1"] [.ofNat 95, .ofNat 0, .ofNat 10] :=
    .cons (by decide +kernel) (.cons (by decide +kernel) (.cons (by decide +kernel) .nil))
  have hnumber : List.Forall₂ (fun text rank => Binary64.ofText? text.toList = some rank)
      ["95.0"] [.ofNat 95] := .cons (by decide +kernel) .nil
  refine ⟨hvalid, ?_, ?_⟩
  · exact (load_list_variable none hvalid hafter hnumbers (by decide +kernel)).1
      (by decide)
  · exact (load_list_variable none hvalid hafter hnumber (by decide +kernel)).2 rfl

/-- One rank in the variable, and no settings are loaded. -/
theorem load_refuses_single_rank :
    let files : Files := ⟨fun _ => .error .notFound, fun _ => false⟩
    Binary64.ofText? "50".toList = some (.ofNat 50) ∧ Quantity.isRank (Binary64.ofNat 50) = true ∧
    load files [] none = .ok standard ∧
    load files [(listVariable, "50")] none = .error .unreadable ∧
    load files [(listVariable, "50,50")] none =
      .ok { standard with percentiles := [.ofNat 50, .ofNat 50] } := by
  decide +kernel

end

end Settings

end Throughput
