/-
  Throughput/Proofs/Input/Names.lean
  ==================================
  **Names on a path.**  The names on a path are the texts between its slashes, without the
  empty ones and single dots, and two paths joined with a slash have the names of both
  (`names_slash`).  So the spelling of a path does not change its names
  (`Respelled.names_eq`), and its file name and that of its directory are its last two
  names (`fileName?_eq_some_iff`, `fileName?_directory_eq_some_iff`).  A plain name behind
  a slash is one component more (`components_join`), so paths that are continued by
  different names stay apart.

  The end of the module says what a file name is without its ending
  (`splitExtension_fst_eq_iff`).
-/
import Throughput.Proofs.Input.Paths

namespace Throughput

/-! ### Names and components -/

/-- The component that a name between slashes is. -/
def Component.ofName (text : String) : Component := if text = ".." then .up else .name text

namespace Path

/-- A text between slashes that names something. -/
def IsName (text : List Char) : Prop := text ≠ [] ∧ text ≠ ['.']

instance (text : List Char) : Decidable (IsName text) := inferInstanceAs (Decidable (_ ∧ _))

/-- The names among texts between slashes. -/
def namesAmong (texts : List (List Char)) : List String :=
  (texts.filter (IsName ·)).map String.ofList

/-- The names on a path, one below the other. -/
def names (p : Path) : List String := namesAmong (Text.pieces (· == '/') p.text.toList)

theorem namesAmong_append (front back : List (List Char)) :
    namesAmong (front ++ back) = namesAmong front ++ namesAmong back := by
  simp [namesAmong]

theorem namesAmong_cons_of_isName {text : List Char} (h : IsName text)
    (rest : List (List Char)) :
    namesAmong (text :: rest) = String.ofList text :: namesAmong rest := by
  simp [namesAmong, h]

theorem namesAmong_cons_of_not_isName {text : List Char} (h : ¬ IsName text)
    (rest : List (List Char)) : namesAmong (text :: rest) = namesAmong rest := by
  simp [namesAmong, h]

theorem ofSegment?_of_isName {text : List Char} (h : IsName text) (first : Bool) :
    Component.ofSegment? first text = some (.ofName (String.ofList text)) := by
  have hup : String.ofList text = ".." ↔ text = ['.', '.'] := by
    rw [← String.toList_inj, String.toList_ofList]
    rfl
  rw [Component.ofSegment?, if_neg h.1, if_neg h.2, Component.ofName]
  simp only [hup]
  split_ifs <;> rfl

theorem ofSegment?_of_not_isName {text : List Char} (h : ¬ IsName text) :
    Component.ofSegment? false text = none := by
  rw [IsName, not_and_or, not_not, not_not] at h
  rcases h with rfl | rfl <;> rfl

theorem filterMap_ofSegment? (texts : List (List Char)) :
    texts.filterMap (Component.ofSegment? false) =
      (namesAmong texts).map Component.ofName := by
  induction texts with
  | nil => rfl
  | cons text rest ih =>
    by_cases h : IsName text
    · rw [List.filterMap_cons, ofSegment?_of_isName h, ih, namesAmong_cons_of_isName h,
        List.map_cons]
    · rw [List.filterMap_cons, ofSegment?_of_not_isName h, ih, namesAmong_cons_of_not_isName h]

/-- The components are those of the names and, in front of them, at most the root or a
    dot. -/
def Spells (names : List String) (components : List Component) : Prop :=
  ∃ lead : Option Component, (∀ c ∈ lead, c = .root ∨ c = .current) ∧
    components = lead.toList ++ names.map Component.ofName

namespace Spells

variable {names : List String} {components : List Component}

theorem dropLast (h : Spells names components) : Spells names.dropLast components.dropLast := by
  obtain ⟨lead, hlead, rfl⟩ := h
  cases names using List.reverseRecOn with
  | nil =>
    refine ⟨none, by simp, ?_⟩
    cases lead <;> rfl
  | append_singleton names last =>
    refine ⟨lead, hlead, ?_⟩
    rw [List.map_append, List.map_singleton, ← List.append_assoc, List.dropLast_concat,
      List.dropLast_concat]

theorem getLast?_eq_name_iff (h : Spells names components) {name : String} :
    components.getLast? = some (.name name) ↔ names.getLast? = some name ∧ name ≠ ".." := by
  obtain ⟨lead, hlead, rfl⟩ := h
  cases names using List.reverseRecOn with
  | nil =>
    cases lead with
    | none => simp
    | some c => rcases hlead c rfl with rfl | rfl <;> simp
  | append_singleton names last =>
    rw [List.map_append, List.map_singleton, ← List.append_assoc, List.getLast?_concat,
      List.getLast?_concat, Option.some_inj, Option.some_inj, Component.ofName]
    split_ifs with hup
    · refine iff_of_false (by simp) ?_
      rintro ⟨rfl, hne⟩
      exact hne hup
    · rw [Component.name.injEq]
      refine ⟨fun h => ⟨h, h ▸ hup⟩, And.left⟩

end Spells

theorem spells_names (p : Path) : Spells p.names p.components := by
  rw [names, components, segments_eq]
  obtain ⟨first, rest, hpieces⟩ :=
    List.exists_cons_of_ne_nil (Text.pieces_ne_nil (· == '/') p.text.toList)
  rw [hpieces]
  by_cases hempty : first = [] ∧ rest = []
  · obtain ⟨rfl, rfl⟩ := hempty
    exact ⟨none, by simp, rfl⟩
  · rw [filterMap_segmentsOf (not_and_or.1 hempty), leadingComponents, filterMap_ofSegment?]
    by_cases hfirst : IsName first
    · have hleading : leading? first = some (.ofName (String.ofList first)) := by
        rw [leading?, if_neg (by simpa using hfirst.1), ofSegment?_of_isName hfirst]
      rw [hleading, namesAmong_cons_of_isName hfirst]
      exact ⟨none, by simp, rfl⟩
    · rw [namesAmong_cons_of_not_isName hfirst]
      rw [IsName, not_and_or, not_not, not_not] at hfirst
      -- in front of the names, an empty text is the root and a dot is itself
      rcases hfirst with rfl | rfl
      · exact ⟨some .root, by simp, rfl⟩
      · exact ⟨some .current, by simp, rfl⟩

/-! ### Spellings -/

/-- What stands before a slash and what stands behind it have their names apart. -/
theorem names_slash (a b : String) :
    (Path.mk (a ++ "/" ++ b)).names = (Path.mk a).names ++ (Path.mk b).names := by
  have htext : (a ++ "/" ++ b).toList = a.toList ++ '/' :: b.toList := by
    simp [String.toList_append]
  rw [names, htext, Text.pieces_append _ rfl, namesAmong_append]
  rfl

/-- A path spelled in another way: a slash repeated, a dot between slashes, a slash or a dot
    behind the path, or one of them in front of it. -/
inductive Respelled : Path → Path → Prop
  | slash (a b : String) : Respelled ⟨a ++ "/" ++ b⟩ ⟨a ++ "//" ++ b⟩
  | dot (a b : String) : Respelled ⟨a ++ "/" ++ b⟩ ⟨a ++ "/./" ++ b⟩
  | slashBehind (a : String) : Respelled ⟨a⟩ ⟨a ++ "/"⟩
  | dotBehind (a : String) : Respelled ⟨a⟩ ⟨a ++ "/."⟩
  | absolute (a : String) : Respelled ⟨a⟩ ⟨"/" ++ a⟩
  | current (a : String) : Respelled ⟨a⟩ ⟨"./" ++ a⟩

theorem Respelled.names_eq {p q : Path} (h : Respelled p q) : p.names = q.names := by
  have hempty : (Path.mk "").names = [] := rfl
  have hdot : (Path.mk ".").names = [] := by decide
  cases h with
  | slash a b =>
    have htext : a ++ "//" ++ b = a ++ "/" ++ "" ++ "/" ++ b := by
      simp only [String.append_assoc]
      rfl
    rw [htext, names_slash, names_slash, names_slash, hempty, List.append_nil]
  | dot a b =>
    have htext : a ++ "/./" ++ b = a ++ "/" ++ "." ++ "/" ++ b := by
      simp only [String.append_assoc]
      rfl
    rw [htext, names_slash, names_slash, names_slash, hdot, List.append_nil]
  | slashBehind a =>
    rw [← String.append_empty (s := a ++ "/"), names_slash, hempty, List.append_nil]
  | dotBehind a =>
    have htext : a ++ "/." = a ++ "/" ++ "." := by
      rw [String.append_assoc]
      rfl
    rw [htext, names_slash, hdot, List.append_nil]
  | absolute a =>
    rw [← String.empty_append (s := "/"), names_slash, hempty, List.nil_append]
  | current a =>
    have htext : "./" ++ a = "." ++ "/" ++ a := rfl
    rw [htext, names_slash, hdot, List.nil_append]

/-! ### Plain names -/

/-- A text that names an entry of a directory. -/
structure IsPlainName (name : String) : Prop where
  ne_empty : name ≠ ""
  ne_current : name ≠ "."
  ne_up : name ≠ ".."
  uncut : '/' ∉ name.toList

instance (name : String) : Decidable (IsPlainName name) :=
  decidable_of_iff (name ≠ "" ∧ name ≠ "." ∧ name ≠ ".." ∧ '/' ∉ name.toList)
    ⟨fun ⟨hempty, hcurrent, hup, huncut⟩ => ⟨hempty, hcurrent, hup, huncut⟩,
      fun h => ⟨h.ne_empty, h.ne_current, h.ne_up, h.uncut⟩⟩

section PlainNames

variable {p : Path} {name name' : String}

theorem IsPlainName.isName (h : IsPlainName name) : IsName name.toList := by
  have hempty : name.toList ≠ "".toList := mt String.toList_inj.1 h.ne_empty
  have hcurrent : name.toList ≠ ".".toList := mt String.toList_inj.1 h.ne_current
  exact ⟨hempty, hcurrent⟩

theorem IsPlainName.pieces_eq (h : IsPlainName name) :
    Text.pieces (· == '/') name.toList = [name.toList] :=
  Text.pieces_of_not_mem h.uncut

theorem IsPlainName.ofSegment?_eq (h : IsPlainName name) (first : Bool) :
    Component.ofSegment? first name.toList = some (.name name) := by
  rw [ofSegment?_of_isName h.isName, Component.ofName, String.ofList_toList, if_neg h.ne_up]

/-- A plain name alone is a single component. -/
theorem components_of_isPlainName (h : IsPlainName name) :
    (Path.mk name).components = [.name name] := by
  have hne : name.toList.isEmpty = false := List.isEmpty_eq_false_iff.2 h.isName.1
  rw [components_of_text_ne h.ne_empty, h.pieces_eq, leadingComponents, leading?, hne, h.ofSegment?_eq]
  rfl

/-- **A plain name adds one component.** -/
theorem components_join (hp : p.text ≠ "") (h : IsPlainName name) :
    (p.join name).components = p.components ++ [.name name] := by
  rw [join, components_slash, ← components_of_text_ne hp, h.pieces_eq,
    List.filterMap_cons, h.ofSegment?_eq]
  rfl

theorem text_join_ne (p : Path) (name : String) : (p.join name).text ≠ "" := by
  rw [Ne, ← String.toList_eq_nil_iff]
  simp [join, String.toList_append]

/-- What lies in a directory has it as its directory. -/
theorem components_directory_join (hp : p.text ≠ "") (h : IsPlainName name) :
    (p.join name).directory.components = p.components := by
  rw [components_directory, components_join hp h, List.dropLast_concat]

/-- Different names lead to different places. -/
theorem eq_of_components_join (hp : p.text ≠ "") (h : IsPlainName name) (h' : IsPlainName name')
    (hsame : (p.join name).components = (p.join name').components) : name = name' := by
  rw [components_join hp h, components_join hp h'] at hsame
  have hlast := List.append_cancel_left hsame
  cases hlast
  rfl

end PlainNames

/-! ### File names -/

theorem fileName?_eq_name_iff {p : Path} {file : String} :
    p.fileName? = some file ↔ p.components.getLast? = some (.name file) := by
  unfold fileName?
  split
  next name h => simp [h]
  next h => simpa using h file

/-- The file name of a path is its last name. -/
theorem fileName?_eq_some_iff {p : Path} {file : String} :
    p.fileName? = some file ↔ p.names.getLast? = some file ∧ file ≠ ".." :=
  fileName?_eq_name_iff.trans p.spells_names.getLast?_eq_name_iff

/-- The name of its directory is the last but one. -/
theorem fileName?_directory_eq_some_iff {p : Path} {name : String} :
    p.directory.fileName? = some name ↔ p.names.dropLast.getLast? = some name ∧ name ≠ ".." := by
  rw [fileName?_eq_name_iff, components_directory]
  exact p.spells_names.dropLast.getLast?_eq_name_iff

/-! ### Endings -/

/-- The text behind the last dot is a piece of its own. -/
theorem pieces_dot_append (stem : String) {ending : String} (h : '.' ∉ ending.toList) :
    Text.pieces (· == '.') (stem ++ "." ++ ending).toList =
      Text.pieces (· == '.') stem.toList ++ [ending.toList] := by
  have htext : (stem ++ "." ++ ending).toList = stem.toList ++ '.' :: ending.toList := by
    simp [String.toList_append]
  rw [htext, Text.pieces_append (· == '.') (by decide), Text.pieces_of_not_mem h]

theorem ending_eq_of_append_eq {stem stem' ending ending' : String} (h : '.' ∉ ending.toList)
    (h' : '.' ∉ ending'.toList) (heq : stem ++ "." ++ ending = stem' ++ "." ++ ending') :
    ending = ending' := by
  have hpieces := pieces_dot_append stem h
  rw [heq, pieces_dot_append stem' h'] at hpieces
  have hlast : [ending'.toList] = [ending.toList] := List.append_inj_right' hpieces rfl
  exact (String.toList_inj.1 (List.singleton_inj.1 hlast)).symm

theorem joinWith_pieces_dot (name : String) :
    Text.joinWith "." ((Text.pieces (· == '.') name.toList).map String.ofList) = name := by
  rw [← String.toList_inj, Text.joinWith, String.toList_intercalate, List.map_map,
    Text.pieces_eq_splitOnP, ← List.splitOn_eq_splitOnP]
  simp only [Function.comp_def, String.toList_ofList, List.map_id']
  exact List.intercalate_splitOn '.'

theorem splitExtension_of_not_mem {name : String} (h : '.' ∉ name.toList) :
    splitExtension name = (name, none) := by
  rw [splitExtension, Text.pieces_of_not_mem h]
  rfl

/-- The ending is what stands behind the last dot. -/
theorem splitExtension_append {stem : String} (hstem : stem ≠ "") {ending : String}
    (h : '.' ∉ ending.toList) :
    splitExtension (stem ++ "." ++ ending) = (stem, some ending) := by
  have hjoin := joinWith_pieces_dot stem
  rw [splitExtension, pieces_dot_append stem h, List.reverse_append, List.reverse_singleton]
  cases hreverse : (Text.pieces (· == '.') stem.toList).reverse with
  | nil => exact absurd (List.reverse_eq_nil_iff.1 hreverse) (Text.pieces_ne_nil _ _)
  | cons before more =>
    have hpieces : Text.pieces (· == '.') stem.toList = (before :: more).reverse := by
      rw [← hreverse, List.reverse_reverse]
    rw [hpieces] at hjoin
    have hlong : ¬ (before = [] ∧ more = []) := by
      rintro ⟨rfl, rfl⟩
      exact hstem hjoin.symm
    simp only [List.singleton_append, if_neg hlong, hjoin, String.ofList_toList]

/-- A dot in front is part of the name. -/
theorem splitExtension_dot_append {ending : String} (h : '.' ∉ ending.toList) :
    splitExtension ("." ++ ending) = ("." ++ ending, none) := by
  rw [← String.empty_append (s := "."), splitExtension, pieces_dot_append "" h]
  rfl

theorem exists_ending {name : String} (h : '.' ∈ name.toList) :
    ∃ stem ending : String, '.' ∉ ending.toList ∧ name = stem ++ "." ++ ending := by
  obtain ⟨behind, front, hreverse, hbehind⟩ :=
    List.eq_append_cons_of_mem (List.mem_reverse.2 h)
  refine ⟨String.ofList front.reverse, String.ofList behind.reverse, by simpa using hbehind, ?_⟩
  have hname : name.toList = front.reverse ++ '.' :: behind.reverse := by
    rw [← List.reverse_reverse name.toList, hreverse]
    simp
  rw [← String.toList_inj, hname]
  simp [String.toList_append]

/-- Which names have a given stem, if the stem begins with something else than a dot: the
    stem itself if it has no dot, and the stem with any ending. -/
theorem splitExtension_fst_eq_iff {name stem : String} {c : Char}
    (hstem : stem.toList.head? = some c) (hc : c ≠ '.') :
    (splitExtension name).1 = stem ↔ (name = stem ∧ '.' ∉ stem.toList) ∨
      ∃ ending : String, '.' ∉ ending.toList ∧ name = stem ++ "." ++ ending := by
  have hne : stem ≠ "" := by
    rintro rfl
    cases hstem
  constructor
  · intro h
    by_cases hdot : '.' ∈ name.toList
    · obtain ⟨front, ending, hending, rfl⟩ := exists_ending hdot
      by_cases hfront : front = ""
      · -- the dot in front belongs to the stem
        subst hfront
        rw [String.empty_append, splitExtension_dot_append hending] at h
        rw [← h] at hstem
        exact absurd (Option.some_inj.1 (hstem.symm.trans (by simp [String.toList_append]))) hc
      · rw [splitExtension_append hfront hending] at h
        exact .inr ⟨ending, hending, by rw [← h]⟩
    · rw [splitExtension_of_not_mem hdot] at h
      exact .inl ⟨h, h ▸ hdot⟩
  · rintro (⟨rfl, hdot⟩ | ⟨ending, hending, rfl⟩)
    · rw [splitExtension_of_not_mem hdot]
    · rw [splitExtension_append hne hending]

end Path

end Throughput
