/-
  Throughput/Proofs/Reading/Bandwidths.lean
  =========================================
  **Logs without a bandwidth.**  A log reports its bandwidth on the last line that
  is not blank.  So there are three reasons to report none: the log cannot be read
  to its end, all of its lines are blank, or that last line does not end in a value
  and a unit.  `ofLog_eq_error_iff` says that there are no others.
-/
import Throughput.Bandwidth
import Throughput.Proofs.Text.Lines

namespace Throughput

open Text

/-! ### Blank lines -/

namespace Text

/-- Whether a line holds nothing but white space of ASCII. -/
def isBlankLine (line : List UInt8) : Bool := line.all isAsciiBlank

theorem isBlankLine_dropReturn (line : List UInt8) :
    isBlankLine (dropReturn line) = isBlankLine line := by
  rcases eq_dropReturn_or line with h | h
  · rw [← h]
  · have hreturn : isAsciiBlank carriageReturn = true := by decide
    have happend : isBlankLine (dropReturn line ++ [carriageReturn]) =
        isBlankLine (dropReturn line) := by
      simp [isBlankLine, hreturn]
    rw [← happend, ← h]

end Text

/-! ### The last line -/

namespace BandwidthRule

theorem lastLine?_eq_find? (lines : List (List UInt8)) :
    lastLine? lines = lines.reverse.find? (!isBlankLine ·) := by
  rw [lastLine?, List.getLast?_eq_head?_reverse, ← List.filter_reverse, List.head?_filter]
  rfl

theorem lastLine?_eq_none_iff {lines : List (List UInt8)} :
    lastLine? lines = none ↔ ∀ line ∈ lines, isBlankLine line = true := by
  rw [lastLine?_eq_find?, List.find?_eq_none]
  simp

theorem lastLine?_eq_some_iff {lines : List (List UInt8)} {line : List UInt8} :
    lastLine? lines = some line ↔ isBlankLine line = false ∧
      ∃ before after, lines = before ++ line :: after ∧
        ∀ later ∈ after, isBlankLine later = true := by
  rw [lastLine?_eq_find?, List.find?_eq_some_iff_append]
  constructor
  · rintro ⟨hline, after, before, hlines, hafter⟩
    refine ⟨by simpa using hline, before.reverse, after.reverse, ?_, ?_⟩
    · rw [← List.reverse_reverse lines, hlines]
      simp
    · intro later hlater
      simpa using hafter later (List.mem_reverse.1 hlater)
  · rintro ⟨hline, before, after, rfl, hafter⟩
    refine ⟨by simpa using hline, after.reverse, before.reverse, by simp, ?_⟩
    intro later hlater
    simpa using hafter later (List.mem_reverse.1 hlater)

/-- Carriage returns at line ends do not change which line is the last one. -/
theorem lastLine?_map_dropReturn (lines : List (List UInt8)) :
    lastLine? (lines.map dropReturn) = (lastLine? lines).map dropReturn := by
  have hblank : (fun line => !isBlankLine line) ∘ dropReturn = fun line => !isBlankLine line := by
    funext line
    exact congrArg not (isBlankLine_dropReturn line)
  change ((lines.map dropReturn).filter fun line => !isBlankLine line).getLast? = _
  rw [List.filter_map, List.getLast?_map, hblank]
  rfl

end BandwidthRule

/-! ### Reasons to report none -/

/-- Why a log reports no bandwidth: it cannot be read, all of its lines are blank, or
    the last one that is not is malformed. -/
inductive Source.LacksBandwidth (log : Source) (rule : BandwidthRule) : Failure → Prop where
  | broken {error : IoError} (hlog : log.failure = some error) :
      log.LacksBandwidth rule (.io error)
  | blank (hlog : log.failure = none)
      (hblank : ∀ line ∈ byteLines log.bytes, isBlankLine line = true) :
      log.LacksBandwidth rule (.malformedBandwidth "" .noSummaryLine)
  | malformed {before after : List (List UInt8)} {line : List UInt8} {failure : Failure}
      (hlog : log.failure = none) (hlines : byteLines log.bytes = before ++ line :: after)
      (hline : isBlankLine line = false) (hafter : ∀ later ∈ after, isBlankLine later = true)
      (hfailure : rule.ofLine (decodeUtf8 (dropReturn line)) = .error failure) :
      log.LacksBandwidth rule failure

namespace BandwidthRule

theorem ofLog_of_failure_eq_none (rule : BandwidthRule) {log : Source}
    (hlog : log.failure = none) :
    rule.ofLog log = match lastLine? (byteLines log.bytes) with
      | some line => rule.ofLine (decodeUtf8 (dropReturn line))
      | none => .error (.malformedBandwidth "" .noSummaryLine) := by
  rw [ofLog, hlog]
  dsimp only
  rw [lastLine?_map_dropReturn]
  cases lastLine? (byteLines log.bytes) <;> rfl

/-- **A log is refused for these reasons only**, and with the failure of its reason. -/
theorem ofLog_eq_error_iff {rule : BandwidthRule} {log : Source} {failure : Failure} :
    rule.ofLog log = .error failure ↔ log.LacksBandwidth rule failure := by
  constructor
  · intro h
    cases hlog : log.failure with
    | some error =>
      rw [ofLog, hlog] at h
      cases h
      exact .broken hlog
    | none =>
      rw [ofLog_of_failure_eq_none rule hlog] at h
      cases hlast : lastLine? (byteLines log.bytes) with
      | none =>
        rw [hlast] at h
        cases h
        exact .blank hlog (lastLine?_eq_none_iff.1 hlast)
      | some line =>
        rw [hlast] at h
        obtain ⟨hline, before, after, hlines, hafter⟩ := lastLine?_eq_some_iff.1 hlast
        exact .malformed hlog hlines hline hafter h
  · intro h
    cases h with
    | broken hlog => rw [ofLog, hlog]
    | blank hlog hblank =>
      rw [ofLog_of_failure_eq_none rule hlog, lastLine?_eq_none_iff.2 hblank]
    | malformed hlog hlines hline hafter hfailure =>
      have hlast := lastLine?_eq_some_iff.2 ⟨hline, _, _, hlines, hafter⟩
      rw [ofLog_of_failure_eq_none rule hlog, hlast]
      exact hfailure

end BandwidthRule

end Throughput
