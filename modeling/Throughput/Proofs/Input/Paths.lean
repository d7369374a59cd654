/-
  Throughput/Proofs/Input/Paths.lean
  ==================================
  **Paths and their components.**  Repeated slashes and inner dots name nothing
  (`components_slash_slash`, `components_slash_dot_slash`), and the directory of a path
  has all components of the path but the last one (`components_directory`).

  A path is cut into segments, one for each text between slashes.  Its directory is made
  of the first of them, and these are cut apart again as they were (`segmentsOf_of_prefix`).
-/
import Throughput.Input.RunInput
import Throughput.Proofs.Text.Lines

namespace Throughput.Path

/-! ### Segments -/

/-- What the text before the first slash is. -/
def leading? (first : List Char) : Option Component :=
  if first.isEmpty then some .root else Component.ofSegment? true first

/-- The segments of texts between slashes. -/
def segmentsOf : List (List Char) → List Segment
  | [] => []
  | [[]] => [([], none)]
  | first :: rest => (first, leading? first) :: rest.map fun s => (s, Component.ofSegment? false s)

theorem segments_eq (p : Path) :
    p.segments = segmentsOf (Text.pieces (· == '/') p.text.toList) := by
  unfold segments
  generalize Text.pieces (· == '/') p.text.toList = texts
  rcases texts with _ | ⟨first, _ | ⟨next, rest⟩⟩
  · rfl
  · cases first <;> rfl
  · cases first <;> rfl

theorem segmentsOf_cons_cons (first next : List Char) (rest : List (List Char)) :
    segmentsOf (first :: next :: rest) = (first, leading? first) ::
      (next :: rest).map fun s => (s, Component.ofSegment? false s) := by
  cases first <;> rfl

theorem map_fst_segmentsOf (texts : List (List Char)) : (segmentsOf texts).map (·.1) = texts := by
  unfold segmentsOf
  split <;> simp [Function.comp_def]

/-- The root is at most the first segment. -/
theorem ofSegment?_ne_root (first : Bool) (s : List Char) :
    Component.ofSegment? first s ≠ some .root := by
  unfold Component.ofSegment?
  split_ifs <;> simp

/-- Segments from the first one on are cut apart again if they end in a component; the
    root alone is written with a slash that is none of its segments. -/
theorem segmentsOf_of_prefix {texts : List (List Char)} {written : List Segment}
    (h : written <+: segmentsOf texts) (hlast : ∀ s ∈ written.getLast?, s.2.isSome = true)
    (hroot : written.map (·.2) ≠ [some .root]) : segmentsOf (written.map (·.1)) = written := by
  rcases texts with _ | ⟨first, _ | ⟨next, rest⟩⟩
  · rw [List.prefix_nil.1 h]
    rfl
  · cases written with
    | nil => rfl
    | cons s more =>
      cases first <;>
        · obtain ⟨rfl, hmore⟩ := List.cons_prefix_cons.1 h
          rw [List.prefix_nil.1 hmore]
          rfl
  · rw [segmentsOf_cons_cons] at h
    cases written with
    | nil => rfl
    | cons s more =>
      obtain ⟨rfl, hmore⟩ := List.cons_prefix_cons.1 h
      obtain ⟨behind, rfl⟩ : ∃ behind : List (List Char),
          more = behind.map fun s => (s, Component.ofSegment? false s) := by
        refine ⟨(next :: rest).take more.length, ?_⟩
        rw [List.map_take]
        exact List.prefix_iff_eq_take.1 hmore
      cases behind with
      | nil =>
        cases first with
        | nil => exact absurd rfl hroot
        | cons c cs => rfl
      | cons second behind =>
        rw [List.map_cons, List.map_map]
        exact (segmentsOf_cons_cons _ _ _).trans (by simp [Function.comp_def])

/-! ### Components -/

/-- The components of texts between slashes that a slash follows. -/
def leadingComponents : List (List Char) → List Component
  | [] => []
  | first :: rest => (leading? first).toList ++ rest.filterMap (Component.ofSegment? false)

theorem leadingComponents_concat {texts : List (List Char)} (hne : texts ≠ []) {s : List Char}
    (hs : Component.ofSegment? false s = none) :
    leadingComponents (texts ++ [s]) = leadingComponents texts := by
  cases texts with
  | nil => exact absurd rfl hne
  | cons first rest => simp [leadingComponents, hs]

/-- An empty text in front is the root, unless it is all there is. -/
theorem filterMap_segmentsOf {first : List Char} {rest : List (List Char)}
    (hne : first ≠ [] ∨ rest ≠ []) :
    (segmentsOf (first :: rest)).filterMap (·.2) = leadingComponents (first :: rest) := by
  cases rest with
  | nil =>
    cases first with
    | nil => simp at hne
    | cons c cs =>
      change ([leading? (c :: cs)].filterMap id) = (leading? (c :: cs)).toList ++ []
      cases leading? (c :: cs) <;> rfl
  | cons next rest =>
    rw [segmentsOf_cons_cons, List.filterMap_cons, List.filterMap_map, leadingComponents]
    cases leading? first <;> rfl

theorem components_of_text_ne {p : Path} (h : p.text ≠ "") :
    p.components = leadingComponents (Text.pieces (· == '/') p.text.toList) := by
  rw [components, segments_eq]
  cases hpieces : Text.pieces (· == '/') p.text.toList with
  | nil => rfl
  | cons first rest =>
    apply filterMap_segmentsOf
    by_contra hnone
    obtain ⟨rfl, rfl⟩ : first = [] ∧ rest = [] := by simpa using hnone
    exact h (String.toList_eq_nil_iff.1 (Text.eq_of_pieces_eq_singleton _ hpieces))

/-- What stands before a slash and what stands behind it have their components apart. -/
theorem components_slash (a b : String) :
    (Path.mk (a ++ "/" ++ b)).components = leadingComponents (Text.pieces (· == '/') a.toList) ++
      (Text.pieces (· == '/') b.toList).filterMap (Component.ofSegment? false) := by
  have htext : (a ++ "/" ++ b).toList = a.toList ++ '/' :: b.toList := by
    simp [String.toList_append]
  obtain ⟨first, rest, hfirst⟩ :=
    List.exists_cons_of_ne_nil (Text.pieces_ne_nil (· == '/') a.toList)
  have hne : rest ++ Text.pieces (· == '/') b.toList ≠ [] := by
    simp [Text.pieces_ne_nil]
  rw [components, segments_eq, htext, Text.pieces_append _ rfl, hfirst, List.cons_append,
    filterMap_segmentsOf (.inr hne), leadingComponents, List.filterMap_append, ← List.append_assoc]
  rfl

/-- A slash behind a slash names nothing. -/
theorem components_slash_slash (a b : String) :
    (Path.mk (a ++ "//" ++ b)).components = (Path.mk (a ++ "/" ++ b)).components := by
  have htext : a ++ "//" ++ b = (a ++ "/") ++ "/" ++ b := by
    rw [show "//" = "/" ++ "/" from rfl, ← String.append_assoc]
  have hpieces : Text.pieces (· == '/') (a ++ "/").toList =
      Text.pieces (· == '/') a.toList ++ [[]] := by
    rw [String.toList_append]
    exact Text.pieces_append _ rfl a.toList []
  rw [htext, components_slash, hpieces, leadingComponents_concat (Text.pieces_ne_nil _ _) rfl,
    components_slash]

/-- A dot between slashes names nothing. -/
theorem components_slash_dot_slash (a b : String) :
    (Path.mk (a ++ "/./" ++ b)).components = (Path.mk (a ++ "/" ++ b)).components := by
  have htext : a ++ "/./" ++ b = (a ++ "/.") ++ "/" ++ b := by
    rw [show "/./" = "/." ++ "/" from rfl, ← String.append_assoc]
  have hpieces : Text.pieces (· == '/') (a ++ "/.").toList =
      Text.pieces (· == '/') a.toList ++ [['.']] := by
    rw [String.toList_append]
    exact Text.pieces_append _ rfl a.toList ['.']
  rw [htext, components_slash, hpieces, leadingComponents_concat (Text.pieces_ne_nil _ _) rfl,
    components_slash]

/-! ### Directories -/

/-- The directory of a path as it is written; a path without one has an empty one. -/
def directory (p : Path) : Path := p.parent?.getD ⟨""⟩

theorem filterMap_significant (segments : List Segment) :
    (significant segments).filterMap (·.2) = segments.filterMap (·.2) := by
  induction segments using List.reverseRecOn with
  | nil => rfl
  | append_singleton segments s ih =>
    cases hs : s.2 with
    | none =>
      rw [significant, Text.dropEnding_concat_of_pos (by simp [hs]), ← significant, ih]
      simp [hs]
    | some c => rw [significant, Text.dropEnding_concat_of_neg (by simp [hs])]

theorem significant_isPrefix (segments : List Segment) : significant segments <+: segments := by
  rw [significant, Text.dropEnding_eq_rdropWhile]
  exact List.rdropWhile_prefix _ _

theorem isSome_of_getLast?_significant {segments : List Segment} {s : Segment}
    (h : s ∈ (significant segments).getLast?) : s.2.isSome = true := by
  induction segments using List.reverseRecOn with
  | nil => cases h
  | append_singleton segments last ih =>
    cases hlast : last.2 with
    | none =>
      rw [significant, Text.dropEnding_concat_of_pos (by simp [hlast])] at h
      exact ih h
    | some c =>
      rw [significant, Text.dropEnding_concat_of_neg (by simp [hlast]), List.getLast?_concat] at h
      rw [← Option.some_inj.1 h, hlast]
      rfl

/-- The components of segments written down are those of the segments. -/
theorem components_ofSegments {p : Path} {written : List Segment} (h : written <+: p.segments)
    (hlast : ∀ s ∈ written.getLast?, s.2.isSome = true) :
    (ofSegments written).components = written.filterMap (·.2) := by
  unfold ofSegments
  split_ifs with hroot
  · have hmap : written.filterMap (·.2) = (written.map (·.2)).filterMap id := by
      rw [List.filterMap_map]
      rfl
    rw [hmap, hroot]
    rfl
  · have htexts : written.map (·.1) <+: Text.pieces (· == '/') p.text.toList := by
      rw [← map_fst_segmentsOf (Text.pieces (· == '/') p.text.toList), ← segments_eq]
      exact h.map _
    rw [segments_eq] at h
    cases written with
    | nil => rfl
    | cons s more =>
      have hpieces : Text.pieces (· == '/')
          (Text.joinWith "/" ((s :: more).map fun s => String.ofList s.1)).toList =
            (s :: more).map (·.1) := by
        rw [Text.joinWith, String.toList_intercalate, List.map_map]
        simp only [Function.comp_def, String.toList_ofList]
        exact Text.pieces_intercalate _ rfl (by simp) fun text htext =>
          Text.mem_pieces_uncut _ (htexts.subset htext)
      rw [components, segments_eq, hpieces, segmentsOf_of_prefix h hlast hroot]

theorem ne_root_of_mem_tail {texts : List (List Char)} {s : Segment}
    (h : s ∈ (segmentsOf texts).tail) : s.2 ≠ some .root := by
  rcases texts with _ | ⟨first, _ | ⟨next, rest⟩⟩
  · cases h
  · cases first <;> cases h
  · rw [segmentsOf_cons_cons, List.tail_cons] at h
    obtain ⟨text, -, rfl⟩ := List.mem_map.1 h
    exact ofSegment?_ne_root false text

/-- **The directory of a path has all its components but the last one.** -/
theorem components_directory (p : Path) : p.directory.components = p.components.dropLast := by
  have hprefix := significant_isPrefix p.segments
  have hcomponents : p.components = (significant p.segments).filterMap (·.2) :=
    (filterMap_significant p.segments).symm
  rw [directory, parent?, hcomponents]
  cases hwritten : significant p.segments using List.reverseRecOn with
  | nil => rfl
  | append_singleton init last =>
    rw [hwritten] at hprefix
    obtain ⟨text, component⟩ := last
    have hlast : (text, component) ∈ (significant p.segments).getLast? := by simp [hwritten]
    obtain ⟨c, rfl⟩ : ∃ c, component = some c :=
      Option.isSome_iff_exists.1 (isSome_of_getLast?_significant hlast)
    have hdrop : ((init ++ [(text, some c)]).filterMap (·.2)).dropLast = init.filterMap (·.2) := by
      simp
    rw [hdrop, List.getLast?_concat, List.dropLast_concat]
    by_cases hc : c = .root
    · -- the root stands before all other segments
      subst hc
      cases init with
      | nil => rfl
      | cons s more =>
        rw [segments_eq] at hprefix
        obtain ⟨behind, hbehind⟩ := hprefix
        have htail : (text, some .root) ∈
            (segmentsOf (Text.pieces (· == '/') p.text.toList)).tail := by
          rw [← hbehind]
          simp
        exact absurd rfl (ne_root_of_mem_tail htail)
    · have hinit : significant init <+: p.segments :=
        (significant_isPrefix init).trans ((List.prefix_append _ _).trans hprefix)
      rw [← filterMap_significant init, ← components_ofSegments hinit
        fun s hs => isSome_of_getLast?_significant hs]
      cases c with
      | root => exact absurd rfl hc
      | _ => rfl

end Throughput.Path
