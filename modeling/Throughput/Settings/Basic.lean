/-
  Throughput/Settings/Basic.lean
  ==============================
  **Settings.**  How logs and manifests are read, how bandwidths are brought to
  one unit, and which percentiles a summary shows.  `check` refuses settings
  with a percentile outside 0 to 100 or a factor that is not positive.
-/
import Throughput.Bandwidth
import Throughput.Manifest
import Throughput.Reading
import Throughput.Statistics

namespace Throughput

structure Settings where
  delimiter : Delimiter
  percentiles : List Binary64
  manifest : ManifestRule
  bandwidth : BandwidthRule
  deriving DecidableEq

namespace Settings

/-- What holds where nothing is set. -/
def standard : Settings where
  delimiter := .comma
  percentiles := [5, 10, 50, 85, 90, 95].map Binary64.ofNat
  manifest := .standard
  bandwidth := .standard

/-- Passes settings that can be worked with. -/
def check (s : Settings) : Except SettingsFault Settings :=
  match s.percentiles.find? fun p => !Quantity.isRank p with
  | some rank => .error (.percentileOutside rank)
  | none =>
    if Binary64.numericLt (.zero false) s.bandwidth.gbitFactor then .ok s
    else .error (.factorNotPositive s.bandwidth.gbitFactor)

end Settings

end Throughput
