/-
  Throughput/Proofs/Reading/Fields.lean
  =====================================
  **Readings keep what the line said.**  Fields that are joined again are cut into the
  same fields (`Delimiter.fields_join`), and a line cut at commas is its fields joined.
  So a reading can be written down and read again: an unrecognized one from its
  fields, a recognized one from its signature and its value (`Reading.parse?_lossless`).
-/
import Throughput.Proofs.Number.PlainText
import Throughput.Proofs.Text.Trimming
import Throughput.Reading

namespace Throughput

/-! ### Fields -/

namespace Delimiter

/-- What a line is cut at. -/
def cuts : Delimiter → Char → Bool
  | comma, c => c == ','
  | whitespace, c => Text.isBlank c

def separatorChar : Delimiter → Char
  | comma => ','
  | whitespace => ' '

theorem toList_separator (d : Delimiter) : d.separator.toList = [d.separatorChar] := by
  cases d <;> rfl

theorem cuts_separatorChar (d : Delimiter) : d.cuts d.separatorChar = true := by
  cases d <;> decide

/-- A text that can stand as a field: nothing cuts it, and words are not empty. -/
structure IsField (d : Delimiter) (field : List Char) : Prop where
  uncut : ∀ c ∈ field, d.cuts c = false
  ne_nil : d = whitespace → field ≠ []

variable {d : Delimiter} {field : List Char} {fields : List (List Char)}

theorem isField_of_mem_fields {line : List Char} (h : field ∈ d.fields line) : d.IsField field := by
  cases d with
  | comma => exact ⟨Text.mem_pieces_uncut _ h, by simp⟩
  | whitespace =>
    obtain ⟨hmem, hne⟩ := List.mem_filter.1 h
    exact ⟨Text.mem_pieces_uncut _ hmem, fun _ => by simpa using hne⟩

theorem mem_of_mem_fields {line : List Char} (h : field ∈ d.fields line) {c : Char}
    (hc : c ∈ field) : c ∈ line := by
  have hpieces : field ∈ Text.pieces d.cuts line := by
    cases d with
    | comma => exact h
    | whitespace => exact List.mem_of_mem_filter h
  have hmem : c ∈ (Text.pieces d.cuts line).flatten := List.mem_flatten.2 ⟨field, hpieces, hc⟩
  rw [Text.flatten_pieces] at hmem
  exact List.mem_of_mem_filter hmem

theorem toList_join (d : Delimiter) (fields : List (List Char)) :
    (d.join fields).toList = [d.separatorChar].intercalate fields := by
  rw [join, Text.joinWith, String.toList_intercalate, toList_separator, List.map_map]
  congr 1
  exact (List.map_congr_left fun _ _ => String.toList_ofList).trans (List.map_id _)

/-- **Fields that are joined are cut apart again.** -/
theorem fields_join (hne : fields ≠ []) (h : ∀ field ∈ fields, d.IsField field) :
    d.fields (d.join fields).toList = fields := by
  have hpieces := Text.pieces_intercalate _ d.cuts_separatorChar hne fun field hfield =>
    (h field hfield).uncut
  rw [toList_join]
  cases d with
  | comma => exact hpieces
  | whitespace =>
    rw [Delimiter.fields, Text.words]
    have hcut : Text.pieces Text.isBlank ([' '].intercalate fields) = fields := hpieces
    rw [separatorChar, hcut, List.filter_eq_self]
    intro field hfield
    simpa using (h field hfield).ne_nil rfl

/-- A line is its comma-separated fields joined. -/
theorem join_fields_comma (line : List Char) : (comma.join (comma.fields line)).toList = line := by
  rw [toList_join, Delimiter.fields, Text.pieces_eq_splitOnP, ← List.splitOn_eq_splitOnP]
  exact List.intercalate_splitOn ','

theorem join_concat (d : Delimiter) (hne : fields ≠ []) (last : List Char) :
    d.join (fields ++ [last]) = d.join fields ++ d.separator ++ String.ofList last := by
  rw [join, join, List.map_append, Text.joinWith, Text.joinWith, List.map_singleton,
    String.intercalate_append_of_ne_nil (by simpa using hne) (by simp),
    String.intercalate_singleton]

/-- The character a line starts with starts its first field, unless it cuts. -/
theorem exists_fields_cons {c : Char} (hc : d.cuts c = false) (line : List Char) :
    ∃ first rest, d.fields (c :: line) = (c :: first) :: rest := by
  cases d with
  | comma =>
    rw [Delimiter.fields, Text.pieces_cons, show (c == ',') = false from hc,
      if_neg (by decide)]
    cases Text.pieces (· == ',') line with
    | nil => exact ⟨_, _, rfl⟩
    | cons first rest => exact ⟨_, _, rfl⟩
  | whitespace =>
    rw [Delimiter.fields, Text.words, Text.pieces_cons, show Text.isBlank c = false from hc,
      if_neg (by decide)]
    cases Text.pieces Text.isBlank line with
    | nil => exact ⟨_, _, rfl⟩
    | cons first rest => exact ⟨_, _, by rw [Text.prepend, List.filter_cons_of_pos (by simp)]⟩

end Delimiter

/-! ### Readings -/

namespace Reading

def firstField (d : Delimiter) (line : List Char) : List Char := (d.fields line).head?.getD []

def lastField (d : Delimiter) (line : List Char) : List Char := (d.fields line).getLast?.getD []

variable {d : Delimiter} {line text : List Char} {fields : List (List Char)}

theorem operation?_eq_some_iff {field : List Char} {operation : Operation} :
    operation? field = some operation ↔
      field = ['r'] ∧ operation = .read ∨ field = ['w'] ∧ operation = .write := by
  rw [operation?]
  split_ifs with hread hwrite
  · simp [hread, eq_comm]
  · simp [hwrite, eq_comm]
  · simp [hread, hwrite]

theorem isSome_operation?_iff {field : List Char} :
    (operation? field).isSome = true ↔ field = ['r'] ∨ field = ['w'] := by
  simp [Option.isSome_iff_exists, operation?_eq_some_iff, exists_or]

/-- A reading is made from the fields alone. -/
theorem ofLine_congr {line' : List Char} (h : d.fields line' = d.fields line) :
    ofLine d line' = ofLine d line := by
  simp only [ofLine, h]

theorem verdict_ofLine (d : Delimiter) (line : List Char) :
    (∃ operation x, operation? (Text.trim (firstField d line)) = some operation ∧
      Binary64.ofText? (Text.trim (lastField d line)) = some x ∧
      ofLine d line = ⟨.measured operation, x, d.join (d.fields line).dropLast⟩) ∨
    (operation? (Text.trim (firstField d line)) = none ∨
        Binary64.ofText? (Text.trim (lastField d line)) = none) ∧
      (ofLine d line).verdict = .unrecognized ((d.fields line).map String.ofList) := by
  simp only [ofLine, firstField, lastField]
  cases operation? (Text.trim ((d.fields line).head?.getD [])) with
  | none => exact .inr ⟨.inl rfl, rfl⟩
  | some operation =>
    cases Binary64.ofText? (Text.trim ((d.fields line).getLast?.getD [])) with
    | none => exact .inr ⟨.inr rfl, rfl⟩
    | some x => exact .inl ⟨operation, x, rfl, rfl, rfl⟩

theorem parse?_of_cons {c : Char} {rest : List Char}
    (h : Text.dropEnding isLineEnd text = c :: rest) :
    parse? d text = if isMarker c then some (ofLine d (c :: rest)) else none := by
  simp only [parse?, h]

theorem cuts_of_isMarker {c : Char} (h : isMarker c = true) : d.cuts c = false := by
  simp only [isMarker, Bool.or_eq_true, beq_iff_eq] at h
  rcases h with rfl | rfl <;> cases d <;> decide

theorem isBlank_of_isLineEnd {c : Char} (h : isLineEnd c = true) : Text.isBlank c = true := by
  simp only [isLineEnd, Bool.or_eq_true, beq_iff_eq] at h
  rcases h with rfl | rfl <;> decide

/-- No line end is taken off fields of which the last one ends in no white space. -/
theorem dropEnding_join {init : List (List Char)} {last : List Char} (hne : last ≠ [])
    (h : ∀ c ∈ last, Text.isBlank c = false) :
    Text.dropEnding isLineEnd (d.join (init ++ [last])).toList =
      (d.join (init ++ [last])).toList := by
  have hlast : (d.join (init ++ [last])).toList.getLast? = last.getLast? := by
    cases init with
    | nil => rw [List.nil_append, Delimiter.toList_join, List.intercalate_singleton]
    | cons first rest =>
      rw [Delimiter.join_concat d (List.cons_ne_nil first rest), String.toList_append,
        String.toList_ofList, List.getLast?_append_of_ne_nil _ hne]
  refine Text.dropEnding_eq_self fun c hc => ?_
  rw [hlast] at hc
  rw [Bool.eq_false_iff]
  intro hend
  have hblank := isBlank_of_isLineEnd hend
  rw [h c (List.mem_of_mem_getLast? hc)] at hblank
  cases hblank

/-- Fields that are joined are read as the line they are. -/
theorem parse?_join {c : Char} {first : List Char} {rest : List (List Char)}
    (hfields : fields = (c :: first) :: rest) (hc : isMarker c = true)
    (hstay : Text.dropEnding isLineEnd (d.join fields).toList = (d.join fields).toList) :
    parse? d (d.join fields).toList = some (ofLine d (d.join fields).toList) := by
  have hcons : (d.join fields).toList = c :: [d.separatorChar].intercalate (first :: rest) := by
    rw [hfields, Delimiter.toList_join, List.intercalate_cons_cons_left]
  rw [parse?_of_cons (hstay.trans hcons), if_pos hc, hcons]

/-- What the reading on a line keeps of the line. -/
structure IsLossless (d : Delimiter) (line : List Char) (r : Reading) : Prop where
  recognized_iff : r.isRecognized = true ↔
    (Text.trim (firstField d line) = ['r'] ∨ Text.trim (firstField d line) = ['w']) ∧
      (Binary64.ofText? (Text.trim (lastField d line))).isSome = true
  measured : ∀ operation, r.verdict = .measured operation →
    2 ≤ (d.fields line).length ∧
      (Text.trim (firstField d line) = ['r'] ∧ operation = .read ∨
        Text.trim (firstField d line) = ['w'] ∧ operation = .write) ∧
      Binary64.ofText? (Text.trim (lastField d line)) = some r.value ∧
      (d = .comma → (r.signature ++ ",").toList ++ lastField d line = line)
  unrecognized : ∀ fields, r.verdict = .unrecognized fields →
    parse? d (Text.joinWith d.separator fields).toList = some r ∧
      (d = .comma → (Text.joinWith d.separator fields).toList = line)
  rewritten : ∀ operation, r.verdict = .measured operation →
    ∃ r', parse? d (r.signature ++ d.separator ++ r.value.plain).toList = some r' ∧
      r'.verdict = .measured operation ∧ r'.signature = r.signature ∧ r'.value.Same r.value
  signature_comma : d = .comma →
    if ',' ∈ line then (r.signature ++ ",").toList ++ lastField d line = line
    else r.signature = "" ∧ lastField d line = line

theorem isRecognized_iff (d : Delimiter) (line : List Char) :
    (ofLine d line).isRecognized = true ↔
      (Text.trim (firstField d line) = ['r'] ∨ Text.trim (firstField d line) = ['w']) ∧
      (Binary64.ofText? (Text.trim (lastField d line))).isSome = true := by
  rw [← isSome_operation?_iff]
  rcases verdict_ofLine d line with ⟨operation, x, hop, hx, hline⟩ | ⟨hnone, hverdict⟩
  · simp [hop, hx, hline, isRecognized]
  · rw [isRecognized, hverdict]
    rcases hnone with hnone | hnone <;> simp [hnone]

/-- A marker alone is no number, so a recognized line has a further field. -/
theorem exists_init_of_measured {c : Char} {rest : List Char} (hc : isMarker c = true)
    {operation : Operation}
    (hop : operation? (Text.trim (firstField d (c :: rest))) = some operation)
    {x : Binary64} (hx : Binary64.ofText? (Text.trim (lastField d (c :: rest))) = some x) :
    ∃ first more last, d.fields (c :: rest) = ((c :: first) :: more) ++ [last] := by
  obtain ⟨first, more, hfields⟩ := Delimiter.exists_fields_cons (d := d) (cuts_of_isMarker hc) rest
  cases more using List.reverseRecOn with
  | nil =>
    have hsame : firstField d (c :: rest) = lastField d (c :: rest) := by
      rw [firstField, lastField, hfields]
      rfl
    rw [hsame] at hop
    generalize Text.trim (lastField d (c :: rest)) = field at hop hx
    have hread : Binary64.ofText? ['r'] = none := by decide
    have hwrite : Binary64.ofText? ['w'] = none := by decide
    rcases operation?_eq_some_iff.1 hop with ⟨rfl, -⟩ | ⟨rfl, -⟩
    · rw [hread] at hx
      cases hx
    · rw [hwrite] at hx
      cases hx
  | append_singleton more last => exact ⟨first, more, last, hfields⟩

section Line

variable {c : Char} {rest : List Char} (hc : isMarker c = true)
include hc

/-- The fields of a line are read as the line. -/
theorem parse?_fields (hstay : Text.dropEnding isLineEnd (c :: rest) = c :: rest) :
    parse? d (d.join (d.fields (c :: rest))).toList = some (ofLine d (c :: rest)) := by
  obtain ⟨first, more, hfields⟩ := Delimiter.exists_fields_cons (d := d) (cuts_of_isMarker hc) rest
  have hne : d.fields (c :: rest) ≠ [] := by simp [hfields]
  have hfield : ∀ field ∈ d.fields (c :: rest), d.IsField field := fun _ =>
    Delimiter.isField_of_mem_fields
  rw [parse?_join hfields hc, ofLine_congr (Delimiter.fields_join hne hfield)]
  cases d with
  | comma => rw [Delimiter.join_fields_comma, hstay]
  | whitespace =>
    obtain ⟨init, last, hlast⟩ := List.eq_nil_or_concat _ |>.resolve_left hne
    rw [List.concat_eq_append] at hlast
    have hword := hfield last (by simp [hlast])
    rw [hlast]
    exact dropEnding_join (hword.ne_nil rfl) hword.uncut

/-- The signature of a recognized line and its value are read as the line. -/
theorem parse?_rewritten {operation : Operation} {x : Binary64}
    (hop : operation? (Text.trim (firstField d (c :: rest))) = some operation)
    (hx : Binary64.ofText? (Text.trim (lastField d (c :: rest))) = some x) :
    ∃ r', parse? d (d.join (d.fields (c :: rest)).dropLast ++ d.separator ++ x.plain).toList =
        some r' ∧ r'.verdict = .measured operation ∧
      r'.signature = d.join (d.fields (c :: rest)).dropLast ∧ r'.value.Same x := by
  obtain ⟨first, more, last, hfields⟩ := exists_init_of_measured hc hop hx
  obtain ⟨hne, hword⟩ := x.plain_isWord
  obtain ⟨y, hy, hsame⟩ := x.exists_ofText?_plain
  have hfield : ∀ field ∈ ((c :: first) :: more) ++ [x.plain.toList], d.IsField field := by
    intro field hmem
    rcases List.mem_append.1 hmem with hmem | hmem
    · have hmem' : field ∈ d.fields (c :: rest) := by
        rw [hfields]
        exact List.mem_append_left _ hmem
      exact Delimiter.isField_of_mem_fields hmem'
    · rw [List.mem_singleton.1 hmem]
      refine ⟨fun b hb => ?_, fun _ => hne⟩
      cases d with
      | comma => exact beq_eq_false_iff_ne.2 (hword b hb).2
      | whitespace => exact (hword b hb).1
  have hjoin : d.join (d.fields (c :: rest)).dropLast ++ d.separator ++ x.plain =
      d.join (((c :: first) :: more) ++ [x.plain.toList]) := by
    rw [hfields, List.dropLast_concat, Delimiter.join_concat d (List.cons_ne_nil _ _),
      String.ofList_toList]
  have hread : parse? d (d.join (((c :: first) :: more) ++ [x.plain.toList])).toList =
      some (ofLine d (d.join (((c :: first) :: more) ++ [x.plain.toList])).toList) :=
    parse?_join rfl hc (dropEnding_join hne fun b hb => (hword b hb).1)
  have hcut := Delimiter.fields_join (by simp) hfield
  have hfirst : operation? (Text.trim (c :: first)) = some operation := by
    rw [← hop, firstField, hfields]
    rfl
  have htrim : Text.trim x.plain.toList = x.plain.toList :=
    (Text.isTrimmed_of_forall fun b hb => (hword b hb).1).trim_eq
  have hreading : ofLine d (d.join (((c :: first) :: more) ++ [x.plain.toList])).toList =
      ⟨.measured operation, y, d.join ((c :: first) :: more)⟩ := by
    simp only [ofLine, hcut, List.head?_append, List.head?_cons, Option.some_or, Option.getD_some,
      hfirst, List.getLast?_concat, htrim, hy, List.dropLast_concat]
  rw [hjoin, hread, hreading]
  exact ⟨_, rfl, rfl, by rw [hfields, List.dropLast_concat], hsame⟩

end Line

theorem fields_of_comma_not_mem {line : List Char} (h : ',' ∉ line) :
    Delimiter.comma.fields line = [line] :=
  Text.pieces_of_not_mem h

/-- Under commas the signature is what stands in front of the last field. -/
theorem signature_comma (line : List Char) :
    if ',' ∈ line then
      ((ofLine .comma line).signature ++ ",").toList ++ lastField .comma line = line
    else (ofLine .comma line).signature = "" ∧ lastField .comma line = line := by
  have hjoin := Delimiter.join_fields_comma line
  split_ifs with hcomma
  · have hne : Delimiter.comma.fields line ≠ [] := Text.pieces_ne_nil _ line
    obtain ⟨init, last, hfields⟩ := List.eq_nil_or_concat _ |>.resolve_left hne
    rw [List.concat_eq_append] at hfields
    have hinit : init ≠ [] := by
      rintro rfl
      -- a single field is the whole line, and has a comma in it
      rw [hfields, List.nil_append, Delimiter.toList_join, List.intercalate_singleton] at hjoin
      have hlast : Delimiter.comma.IsField last := Delimiter.isField_of_mem_fields (by
        rw [hfields]
        exact List.mem_singleton_self last)
      exact absurd (hlast.uncut ',' (hjoin ▸ hcomma)) (by decide)
    have hsignature : (ofLine .comma line).signature = Delimiter.comma.join init := by
      simp only [ofLine, hfields, List.dropLast_concat]
    have hlast : lastField .comma line = last := by
      rw [lastField, hfields, List.getLast?_concat, Option.getD_some]
    rw [hfields, Delimiter.join_concat _ hinit, String.toList_append, String.toList_ofList] at hjoin
    rw [hsignature, hlast]
    exact hjoin
  · have hsingle := fields_of_comma_not_mem hcomma
    exact ⟨by rw [ofLine, hsingle]; rfl, by rw [lastField, hsingle]; rfl⟩

/-- A line with a marker in front, by the verdict on it. -/
theorem isLossless_ofLine {c : Char} {rest : List Char} (hc : isMarker c = true)
    (hstay : Text.dropEnding isLineEnd (c :: rest) = c :: rest) :
    IsLossless d (c :: rest) (ofLine d (c :: rest)) := by
  have hcases := verdict_ofLine d (c :: rest)
  refine ⟨isRecognized_iff d _, ?_, ?_, ?_, ?_⟩
  · intro operation hverdict
    rcases hcases with ⟨found, x, hop, hx, hreading⟩ | ⟨-, hother⟩
    · obtain ⟨first, more, last, hfields⟩ := exists_init_of_measured hc hop hx
      rw [hreading] at hverdict
      cases hverdict
      refine ⟨by simp [hfields], operation?_eq_some_iff.1 hop, by rw [hx, hreading], ?_⟩
      rintro rfl
      have hcomma : ',' ∈ c :: rest := by
        by_contra hnone
        rw [fields_of_comma_not_mem hnone] at hfields
        simpa using congrArg List.length hfields
      have hsignature := signature_comma (c :: rest)
      rwa [if_pos hcomma] at hsignature
    · rw [hother] at hverdict
      cases hverdict
  · intro fields hverdict
    rcases hcases with ⟨found, x, -, -, hreading⟩ | ⟨-, hother⟩
    · rw [hreading] at hverdict
      cases hverdict
    · rw [hother] at hverdict
      cases hverdict
      refine ⟨parse?_fields hc hstay, ?_⟩
      rintro rfl
      exact Delimiter.join_fields_comma _
  · intro operation hverdict
    rcases hcases with ⟨found, x, hop, hx, hreading⟩ | ⟨-, hother⟩
    · rw [hreading] at hverdict ⊢
      cases hverdict
      exact parse?_rewritten hc hop hx
    · rw [hother] at hverdict
      cases hverdict
  · rintro rfl
    exact signature_comma _

/-- **Reading a line loses nothing.**  A line without a marker in front is no reading.
    Any other one is recognized by its first and last field; written down from what
    was kept, it is read as the same reading. -/
theorem parse?_lossless (d : Delimiter) (text : List Char) :
    (parse? d text = none ↔
      ∀ c ∈ (Text.dropEnding isLineEnd text).head?, c ≠ 'r' ∧ c ≠ 'w') ∧
    ∀ r, parse? d text = some r → IsLossless d (Text.dropEnding isLineEnd text) r := by
  have hstay : Text.dropEnding isLineEnd (Text.dropEnding isLineEnd text) =
      Text.dropEnding isLineEnd text := List.rdropWhile_idempotent isLineEnd text
  cases hline : Text.dropEnding isLineEnd text with
  | nil => simp [parse?, hline]
  | cons c rest =>
    rw [hline] at hstay
    rw [parse?_of_cons hline]
    cases hc : isMarker c with
    | false =>
      have hmarker : c ≠ 'r' ∧ c ≠ 'w' := by simpa [isMarker] using hc
      simpa using hmarker
    | true =>
      have hmarker : c = 'r' ∨ c = 'w' := by simpa [isMarker] using hc
      refine ⟨iff_of_false (by simp) fun h => ?_, ?_⟩
      · rcases hmarker with rfl | rfl
        · exact (h 'r' rfl).1 rfl
        · exact (h 'w' rfl).2 rfl
      · rintro r hr
        obtain rfl : ofLine d (c :: rest) = r := by simpa using hr
        exact isLossless_ofLine hc hstay

end Reading

end Throughput
