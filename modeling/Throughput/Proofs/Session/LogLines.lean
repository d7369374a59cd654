/-
  Throughput/Proofs/Session/LogLines.lean
  =======================================
  **Which bytes of a disk log count.**  Deciding on raw bytes is a short cut:
  taking in a log is decoding all its pieces and taking them in as text
  (`diskLog_eq_plainLog`).  And a log acts through its candidate lines alone
  (`diskLogs_same_of_candidateLines`), so whatever leaves these as they are
  (other chatter, other line ends, a cut into several files) changes nothing.

  Both rest on one fact about the readings of a log: they are those of its
  pieces, in order (`readings_eq_splitOn`).
-/
import Throughput.Proofs.Session.Findings

namespace Throughput

open Text

variable {κ : Type}

/-- The empty piece behind a last newline holds no reading. -/
theorem Source.readings_eq_splitOn (d : Delimiter) (bytes : List UInt8) :
    Source.readings d ⟨bytes, none⟩ = (bytes.splitOn newline).filterMap (Reading.ofBytes? d) := by
  obtain ⟨tail, htail, hsplit⟩ := splitOn_eq_byteLines_append bytes
  have hnothing : tail.filterMap (Reading.ofBytes? d) = [] := by
    rcases htail with rfl | rfl
    · rfl
    · simp [Reading.ofBytes?_nil]
  rw [hsplit, List.filterMap_append, hnothing, List.append_nil]
  rfl

namespace Session

variable [SeriesKey κ]

/-! ### The plain way -/

/-- Decodes pieces whatever they start with, takes them in as lines of text and
    counts what that adds. -/
def plainPieces (time : Option Stamp) (key : Reading → κ) :
    Session κ → List (List UInt8) → Nat × Session κ
  | s, [] => (0, s)
  | s, piece :: rest =>
    let after := s.line time key (decodeUtf8 piece)
    let (found, last) := plainPieces time key after rest
    (after.readings - s.readings + found, last)

def plainLog (time : Option Stamp) (key : Reading → κ) (s : Session κ) (bytes : List UInt8) :
    Nat × Session κ :=
  s.plainPieces time key (bytes.splitOn newline)

theorem plainPieces_eq (time : Option Stamp) (key : Reading → κ) (s : Session κ)
    (pieces : List (List UInt8)) :
    s.plainPieces time key pieces =
      ((pieces.filterMap (Reading.ofBytes? s.delimiter)).length,
       s.noteAll
         ((pieces.filterMap (Reading.ofBytes? s.delimiter)).map (.ofReading time key))) := by
  induction pieces generalizing s with
  | nil => rfl
  | cons piece pieces ih =>
    simp only [plainPieces, ih, line_eq_noteAll, delimiter_noteAll, readings_noteAll,
      List.filterMap_cons, Reading.ofBytes?]
    cases Reading.parse? s.delimiter (decodeUtf8 piece) with
    | none => simp
    | some r => simp [Nat.add_comm]

/-- **The short cut is exact.**  On all bytes, valid text or not, a disk log
    leaves the session and the count of the plain way; for a line is a candidate
    exactly if there is a reading on it once it is decoded. -/
theorem diskLog_eq_plainLog :
    (∀ {κ : Type} [SeriesKey κ] (time : Option Stamp) (key : Reading → κ) (s : Session κ)
        (bytes : List UInt8),
      s.diskLog time key ⟨bytes, none⟩ =
        (.ok (s.plainLog time key bytes).1, (s.plainLog time key bytes).2)) ∧
    ∀ (d : Delimiter) (line : List UInt8),
      Reading.isCandidate line = true ↔ ∃ r, Reading.parse? d (decodeUtf8 line) = some r := by
  constructor
  · intro κ _ time key s bytes
    rw [diskLog_eq, plainLog, plainPieces_eq, Source.readings_eq_splitOn]
  · intro d line
    rw [Reading.isCandidate_eq_isSome_parse? d, Option.isSome_iff_exists]

/-! ### Several logs -/

/-- Takes in logs one after the other and adds up their readings. -/
def diskLogs (time : Option Stamp) (key : Reading → κ) :
    Session κ → List (List UInt8) → Except Failure Nat × Session κ
  | s, [] => (.ok 0, s)
  | s, bytes :: rest =>
    match s.diskLog time key ⟨bytes, none⟩ with
    | (.error failure, after) => (.error failure, after)
    | (.ok found, after) =>
      let (total, last) := diskLogs time key after rest
      (total.map (found + ·), last)

theorem diskLogs_eq (time : Option Stamp) (key : Reading → κ) (s : Session κ)
    (logs : List (List UInt8)) :
    s.diskLogs time key logs =
      (.ok ((logs.flatMap Reading.candidateLines).filterMap (Reading.ofBytes? s.delimiter)).length,
       s.noteAll (((logs.flatMap Reading.candidateLines).filterMap
         (Reading.ofBytes? s.delimiter)).map (.ofReading time key))) := by
  induction logs generalizing s with
  | nil => rfl
  | cons bytes logs ih =>
    simp only [diskLogs, diskLog_eq, ih, delimiter_noteAll, Source.readings_eq_splitOn,
      ← Reading.filterMap_candidateLines, ← noteAll_append, ← List.map_append, Except.map,
      ← List.length_append, ← List.filterMap_append, ← List.flatMap_cons]

/-- Both sequences of logs are read to the end, with one count, and leave the
    same session. -/
def SameIntake (time : Option Stamp) (key : Reading → κ) (s : Session κ)
    (logs₁ logs₂ : List (List UInt8)) : Prop :=
  ∃ total after,
    s.diskLogs time key logs₁ = (.ok total, after) ∧ s.diskLogs time key logs₂ = (.ok total, after)

theorem sameIntake_of_candidateLines (time : Option Stamp) (key : Reading → κ) (s : Session κ)
    {logs₁ logs₂ : List (List UInt8)}
    (h : logs₁.flatMap Reading.candidateLines = logs₂.flatMap Reading.candidateLines) :
    s.SameIntake time key logs₁ logs₂ := by
  refine ⟨_, _, s.diskLogs_eq time key logs₁, ?_⟩
  rw [diskLogs_eq, h]

/-- A block is bytes between newlines of the log, or several lines. -/
theorem sameIntake_chatter (time : Option Stamp) (key : Reading → κ) (s : Session κ)
    (above below : List (List UInt8)) {noise₁ noise₂ : List (List UInt8)}
    (h₁ : ∀ block ∈ noise₁, Reading.IsChatter block)
    (h₂ : ∀ block ∈ noise₂, Reading.IsChatter block) :
    s.SameIntake time key [[newline].intercalate (above ++ noise₁ ++ below)]
      [[newline].intercalate (above ++ noise₂ ++ below)] := by
  have hnothing : ∀ noise : List (List UInt8), (∀ block ∈ noise, Reading.IsChatter block) →
      noise.flatMap Reading.candidateLines = [] := by
    intro noise h
    rw [List.flatMap_eq_nil_iff]
    exact fun block hblock => Reading.candidateLines_of_isChatter (h block hblock)
  refine sameIntake_of_candidateLines time key s ?_
  simp only [List.flatMap_singleton, Reading.candidateLines_intercalate, List.flatMap_append,
    hnothing _ h₁, hnothing _ h₂]

/-- **Only candidate lines count.**  Logs with the same candidates, up to the
    carriage returns at their ends, leave the same session and the same total
    count.  So chatter may come, go or change, line ends may get carriage
    returns, the last newline may be missing and a log may be cut into files
    behind any of its newlines. -/
theorem diskLogs_same_of_candidateLines (time : Option Stamp) (key : Reading → κ)
    (s : Session κ) :
    (∀ logs₁ logs₂ : List (List UInt8),
      logs₁.flatMap Reading.candidateLines = logs₂.flatMap Reading.candidateLines →
        s.SameIntake time key logs₁ logs₂) ∧
    (∀ above noise₁ noise₂ below : List (List UInt8),
      (∀ block ∈ noise₁, Reading.IsChatter block) → (∀ block ∈ noise₂, Reading.IsChatter block) →
        s.SameIntake time key [[newline].intercalate (above ++ noise₁ ++ below)]
          [[newline].intercalate (above ++ noise₂ ++ below)]) ∧
    (∀ log : List UInt8, s.SameIntake time key [log] [withReturns log]) ∧
    (∀ log : List UInt8, s.SameIntake time key [log ++ [newline]] [log]) ∧
    ∀ (parts : List (List UInt8)) (last : List UInt8),
      s.SameIntake time key [(parts.map (· ++ [newline])).flatten ++ last]
        (parts.map (· ++ [newline]) ++ [last]) := by
  refine ⟨fun _ _ h => ?_, fun above _ _ below h₁ h₂ => ?_, fun log => ?_, fun log => ?_,
    fun parts last => ?_⟩
  · exact sameIntake_of_candidateLines time key s h
  · exact sameIntake_chatter time key s above below h₁ h₂
  · refine sameIntake_of_candidateLines time key s ?_
    rw [List.flatMap_singleton, List.flatMap_singleton, Reading.candidateLines_withReturns]
  · refine sameIntake_of_candidateLines time key s ?_
    rw [List.flatMap_singleton, List.flatMap_singleton, Reading.candidateLines_concat_newline]
  · refine sameIntake_of_candidateLines time key s ?_
    rw [List.flatMap_singleton, Reading.candidateLines_flatten_append]

/-- A log with broken text before a carriage return against two tidy files; and
    a header that was overwritten. -/
theorem diskLogs_same_of_candidateLines_tidied :
    let s : Session Unit := (start .comma .standard).line none (fun _ => ()) "r, z, 1".toList
    let messy : List UInt8 :=
      encodeUtf8 "r, a".toList ++ [0xe2, 0x82, carriageReturn, newline, 0xff, newline] ++
        encodeUtf8 "w, b, 5\r\r\n".toList
    let tidy : List (List UInt8) := [
      encodeUtf8 "r, a".toList ++ [0xe2, 0x82, newline], encodeUtf8 "w, b, 5".toList]
    let reading : List UInt8 := encodeUtf8 "r, a, 10".toList
    (s.SameIntake none (fun _ => ()) [messy] tidy ∧
      (s.diskLogs none (fun _ => ()) tidy).1 = .ok 2) ∧
      s.SameIntake none (fun _ => ())
        [[newline].intercalate [encodeUtf8 "op, file".toList, reading]]
        [[newline].intercalate [[0xff, newline, 0xfe], reading]] := by
  intro s messy tidy reading
  obtain ⟨hlines, hchatter, -⟩ := diskLogs_same_of_candidateLines none (fun _ => ()) s
  have hsame : [messy].flatMap Reading.candidateLines = tidy.flatMap Reading.candidateLines := by
    decide +kernel
  refine ⟨⟨hlines _ _ hsame, by decide +kernel⟩, ?_⟩
  exact hchatter [] [encodeUtf8 "op, file".toList] [[0xff, newline, 0xfe]] [reading]
    (by decide +kernel) (by decide +kernel)

end Session

end Throughput
