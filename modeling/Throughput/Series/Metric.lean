/-
  Throughput/Series/Metric.lean
  =============================
  **What a sample measures.**  Metrics are ordered as they are reported.
-/
import Throughput.Reading

namespace Throughput

inductive Metric where
  | read
  | write
  | bandwidth
  deriving DecidableEq, Repr

namespace Metric

/-- The place of a metric in a report. -/
def place : Metric → Nat
  | read => 0
  | write => 1
  | bandwidth => 2

theorem place_injective {a b : Metric} (h : a.place = b.place) : a = b := by
  cases a <;> cases b <;> first | rfl | cases h

def name : Metric → String
  | read => "read"
  | write => "write"
  | bandwidth => "bandwidth"

def ofName? (name : String) : Option Metric :=
  if name = "read" then some read
  else if name = "write" then some write
  else if name = "bandwidth" then some bandwidth
  else none

def unit : Metric → String
  | read | write => "MB/s"
  | bandwidth => "Mbit/s"

def ofOperation : Operation → Metric
  | .read => read
  | .write => write

end Metric

end Throughput
