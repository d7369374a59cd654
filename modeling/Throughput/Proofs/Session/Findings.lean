/-
  Throughput/Proofs/Session/Findings.lean
  =======================================
  **What logs contribute.**  Each way of taking in logs comes down to a list of
  findings that the session notes one by one.  The list depends on the delimiter
  and the bandwidth rule, which never change, and not on anything taken in
  before; so a session is known from the findings of its steps in order
  (`after_eq_noteAll`), and nothing but `note` has to be looked at in a proof
  about sessions.
-/
import Throughput.Manifest
import Throughput.Proofs.Reading.Candidates
import Throughput.Proofs.Series.Counting
import Throughput.Report

namespace Throughput

variable {κ : Type}

/-! ### Findings -/

/-- What a line or a log contributes to a session. -/
inductive Finding (κ : Type) where
  | sample (o : Observation κ)
  | unrecognized (r : Reading)

namespace Finding

def observation? : Finding κ → Option (Observation κ)
  | sample o => some o
  | unrecognized _ => none

def reading? : Finding κ → Option Reading
  | sample _ => none
  | unrecognized r => some r

def ofReading (time : Option Stamp) (key : Reading → κ) (r : Reading) : Finding κ :=
  match r.verdict with
  | .measured operation => sample ⟨⟨.ofOperation operation, key r⟩, time, r.value⟩
  | .unrecognized _ => unrecognized r

/-- What a bandwidth contributes; nothing if it could not be read. -/
def ofBandwidth (key : κ) : Except Failure Binary64 → List (Finding κ)
  | .ok value => [sample ⟨⟨.bandwidth, key⟩, none, value⟩]
  | .error _ => []

end Finding

/-! ### Noting findings -/

namespace Session

variable [SeriesKey κ]

/-- Counts a finding and keeps what it contributes. -/
def note (s : Session κ) : Finding κ → Session κ
  | .sample o =>
    { s with
      readings := s.readings + 1
      collector := s.collector.push o.tag o.time o.value }
  | .unrecognized r =>
    { s with readings := s.readings + 1, unrecognized := s.unrecognized.push r }

def noteAll (s : Session κ) (fs : List (Finding κ)) : Session κ := fs.foldl note s

@[simp] theorem noteAll_nil (s : Session κ) : s.noteAll [] = s := rfl

@[simp] theorem noteAll_cons (s : Session κ) (f : Finding κ) (fs : List (Finding κ)) :
    s.noteAll (f :: fs) = (s.note f).noteAll fs := rfl

theorem noteAll_append (s : Session κ) (fs gs : List (Finding κ)) :
    s.noteAll (fs ++ gs) = (s.noteAll fs).noteAll gs := List.foldl_append

@[simp] theorem delimiter_note (s : Session κ) (f : Finding κ) :
    (s.note f).delimiter = s.delimiter := by
  cases f <;> rfl

@[simp] theorem rule_note (s : Session κ) (f : Finding κ) : (s.note f).rule = s.rule := by
  cases f <;> rfl

@[simp] theorem delimiter_noteAll (s : Session κ) (fs : List (Finding κ)) :
    (s.noteAll fs).delimiter = s.delimiter := by
  induction fs generalizing s with
  | nil => rfl
  | cons f fs ih => rw [noteAll_cons, ih, delimiter_note]

@[simp] theorem rule_noteAll (s : Session κ) (fs : List (Finding κ)) :
    (s.noteAll fs).rule = s.rule := by
  induction fs generalizing s with
  | nil => rfl
  | cons f fs ih => rw [noteAll_cons, ih, rule_note]

@[simp] theorem readings_noteAll (s : Session κ) (fs : List (Finding κ)) :
    (s.noteAll fs).readings = s.readings + fs.length := by
  induction fs generalizing s with
  | nil => rfl
  | cons f fs ih =>
    rw [noteAll_cons, ih, List.length_cons]
    cases f <;> simp only [note] <;> omega

theorem collector_noteAll (s : Session κ) (fs : List (Finding κ)) :
    (s.noteAll fs).collector = s.collector.pushAll (fs.filterMap Finding.observation?) := by
  induction fs generalizing s with
  | nil => rfl
  | cons f fs ih =>
    rw [noteAll_cons, ih]
    cases f <;> rfl

theorem unrecognized_noteAll (s : Session κ) (fs : List (Finding κ)) :
    (s.noteAll fs).unrecognized.toList =
      s.unrecognized.toList ++ fs.filterMap Finding.reading? := by
  induction fs generalizing s with
  | nil => simp
  | cons f fs ih =>
    rw [noteAll_cons, ih]
    cases f with
    | sample o => rfl
    | unrecognized r => simp [note, Finding.reading?]

end Session

/-! ### Findings of logs -/

/-- The lines of a log that are taken in: an unfinished last one only if the log
    simply ends. -/
def Source.lines (log : Source) : List (List UInt8) :=
  match log.failure with
  | none => Text.byteLines log.bytes
  | some _ => Text.endedLines log.bytes

def Source.readings (d : Delimiter) (log : Source) : List Reading :=
  log.lines.filterMap (Reading.ofBytes? d)

namespace Session

variable [SeriesKey κ]

theorem take_eq_note (time : Option Stamp) (key : Reading → κ) (s : Session κ) (r : Reading) :
    s.take time key r = s.note (.ofReading time key r) := by
  unfold take Finding.ofReading
  cases r.verdict <;> rfl

theorem line_eq_noteAll (time : Option Stamp) (key : Reading → κ) (s : Session κ)
    (text : List Char) :
    s.line time key text =
      s.noteAll ((Reading.parse? s.delimiter text).toList.map (.ofReading time key)) := by
  unfold line
  cases Reading.parse? s.delimiter text with
  | none => rfl
  | some r => exact take_eq_note time key s r

/-- Deciding on the bytes and decoding candidates only is as good as decoding. -/
theorem byteLine_eq_line (time : Option Stamp) (key : Reading → κ) (s : Session κ)
    (bytes : List UInt8) :
    s.byteLine time key bytes = s.line time key (Text.decodeUtf8 bytes) := by
  have hsame : s.line time key (Text.decodeUtf8 (Text.dropReturn bytes)) =
      s.line time key (Text.decodeUtf8 bytes) := by
    have hread := Reading.ofBytes?_dropReturn s.delimiter bytes
    simp only [Reading.ofBytes?] at hread
    rw [line_eq_noteAll, line_eq_noteAll, hread]
  unfold byteLine
  dsimp only
  split
  next => exact hsame
  next h =>
    rw [Reading.isCandidate_eq_isSome_parse? s.delimiter, Option.not_isSome_iff_eq_none] at h
    rw [← hsame, line_eq_noteAll, h]
    rfl

theorem foldl_byteLine_eq_noteAll (time : Option Stamp) (key : Reading → κ) (s : Session κ)
    (lines : List (List UInt8)) :
    lines.foldl (byteLine time key) s =
      s.noteAll ((lines.filterMap (Reading.ofBytes? s.delimiter)).map (.ofReading time key)) := by
  induction lines generalizing s with
  | nil => rfl
  | cons line lines ih =>
    rw [List.foldl_cons, ih, byteLine_eq_line, line_eq_noteAll, delimiter_noteAll,
      ← noteAll_append, ← List.map_append]
    simp only [List.filterMap_cons, Reading.ofBytes?]
    cases Reading.parse? s.delimiter (Text.decodeUtf8 line) <;> rfl

theorem diskLog_eq (time : Option Stamp) (key : Reading → κ) (s : Session κ) (log : Source) :
    s.diskLog time key log =
      (match log.failure with
        | none => .ok (log.readings s.delimiter).length
        | some error => .error (.io error),
       s.noteAll ((log.readings s.delimiter).map (.ofReading time key))) := by
  unfold diskLog Source.readings Source.lines
  cases log.failure with
  | none => simp [foldl_byteLine_eq_noteAll]
  | some error => simp only [foldl_byteLine_eq_noteAll]

theorem networkLog_eq (key : κ) (s : Session κ) (log : Source) :
    s.networkLog key log =
      (s.rule.ofLog log, s.noteAll (Finding.ofBandwidth key (s.rule.ofLog log))) := by
  unfold networkLog
  cases s.rule.ofLog log <;> rfl

theorem nodeLogs_eq (key : κ) (s : Session κ) (logs : List Source) :
    s.nodeLogs key logs =
      (totalBandwidth s.rule logs,
       s.noteAll (Finding.ofBandwidth key (totalBandwidth s.rule logs))) := by
  unfold nodeLogs
  cases totalBandwidth s.rule logs <;> rfl

end Session

/-! ### Steps -/

/-- One call that brings a line or logs into a session. -/
inductive Feed (κ : Type) where
  | line (key : Reading → κ) (text : List Char)
  | disk (key : Reading → κ) (log : Source)
  | run (taken : Run) (key : Reading → κ) (log : Source)
  | network (key : κ) (log : Source)
  | node (key : κ) (logs : List Source)

/-- A log that holds a text and is read to its end. -/
def Source.ofText (text : String) : Source := ⟨Text.encodeUtf8 text.toList, none⟩

/-- The log of a run, kept under the day of the run. -/
def Feed.daily (taken : Run) (text : String) : Feed Date :=
  .run taken (fun _ => taken.start.date) (.ofText text)

namespace Session

variable [SeriesKey κ]

/-- The session that a step leaves, whatever its outcome. -/
def feed (s : Session κ) : Feed κ → Session κ
  | .line key text => s.line none key text
  | .disk key log => (s.diskLog none key log).2
  | .run taken key log => (s.diskLog (some taken.start) key log).2
  | .network key log => (s.networkLog key log).2
  | .node key logs => (s.nodeLogs key logs).2

/-- The session that steps leave which start from an empty one. -/
def after (delimiter : Delimiter) (rule : BandwidthRule) (steps : List (Feed κ)) : Session κ :=
  steps.foldl feed (start delimiter rule)

end Session

def Feed.findings (d : Delimiter) (rule : BandwidthRule) : Feed κ → List (Finding κ)
  | .line key text => (Reading.parse? d text).toList.map (.ofReading none key)
  | .disk key log => (log.readings d).map (.ofReading none key)
  | .run taken key log => (log.readings d).map (.ofReading (some taken.start) key)
  | .network key log => Finding.ofBandwidth key (rule.ofLog log)
  | .node key logs => Finding.ofBandwidth key (Session.totalBandwidth rule logs)

namespace Session

variable [SeriesKey κ]

theorem feed_eq_noteAll (s : Session κ) (step : Feed κ) :
    s.feed step = s.noteAll (step.findings s.delimiter s.rule) := by
  cases step with
  | line key text => exact line_eq_noteAll none key s text
  | disk key log => rw [feed, diskLog_eq]; rfl
  | run taken key log => rw [feed, diskLog_eq]; rfl
  | network key log => rw [feed, networkLog_eq]; rfl
  | node key logs => rw [feed, nodeLogs_eq]; rfl

theorem foldl_feed_eq_noteAll (s : Session κ) (steps : List (Feed κ)) :
    steps.foldl feed s = s.noteAll (steps.flatMap (Feed.findings s.delimiter s.rule)) := by
  induction steps generalizing s with
  | nil => rfl
  | cons step steps ih =>
    rw [List.foldl_cons, ih, feed_eq_noteAll, delimiter_noteAll, rule_noteAll,
      ← noteAll_append, List.flatMap_cons]

theorem after_eq_noteAll (d : Delimiter) (rule : BandwidthRule) (steps : List (Feed κ)) :
    after d rule steps = (start d rule).noteAll (steps.flatMap (Feed.findings d rule)) :=
  foldl_feed_eq_noteAll (start d rule) steps

end Session

/-! ### Unrecognized candidates -/

/-- The candidate lines that a step reads, as readings. -/
def Feed.candidates (d : Delimiter) : Feed κ → List Reading
  | .line _ text => (Reading.parse? d text).toList
  | .disk _ log => log.readings d
  | .run _ _ log => log.readings d
  | .network _ _ => []
  | .node _ _ => []

theorem Finding.reading?_ofReading (time : Option Stamp) (key : Reading → κ) (r : Reading) :
    (ofReading time key r).reading? = Option.guard (fun r => !r.isRecognized) r := by
  obtain ⟨verdict, value, signature⟩ := r
  cases verdict <;> rfl

theorem Finding.filterMap_reading?_map (time : Option Stamp) (key : Reading → κ)
    (rs : List Reading) :
    (rs.map (ofReading time key)).filterMap reading? = rs.filter (!·.isRecognized) := by
  rw [List.filterMap_map, ← List.filterMap_eq_filter]
  apply List.filterMap_congr
  intro r _
  exact reading?_ofReading time key r

theorem Finding.filterMap_reading?_ofBandwidth (key : κ) (outcome : Except Failure Binary64) :
    (ofBandwidth key outcome).filterMap reading? = [] := by
  cases outcome <;> rfl

/-- What one step adds to the unrecognized readings. -/
theorem Feed.filterMap_reading?_findings (d : Delimiter) (rule : BandwidthRule) (step : Feed κ) :
    (step.findings d rule).filterMap Finding.reading? =
      (step.candidates d).filter (!·.isRecognized) := by
  cases step with
  | line key text => exact Finding.filterMap_reading?_map none key _
  | disk key log => exact Finding.filterMap_reading?_map none key _
  | run taken key log => exact Finding.filterMap_reading?_map (some taken.start) key _
  | network key log => exact Finding.filterMap_reading?_ofBandwidth key _
  | node key logs => exact Finding.filterMap_reading?_ofBandwidth key _

namespace Session

variable [SeriesKey κ]

/-- What any run of steps leaves unrecognized. -/
theorem unrecognized_after (d : Delimiter) (rule : BandwidthRule) (steps : List (Feed κ)) :
    (after d rule steps).unrecognized.toList =
      (steps.flatMap (Feed.candidates d)).filter (!·.isRecognized) := by
  rw [after_eq_noteAll, unrecognized_noteAll, List.filterMap_flatMap, List.filter_flatMap]
  apply List.flatMap_congr
  intro step _
  exact step.filterMap_reading?_findings d rule

end Session

end Throughput
