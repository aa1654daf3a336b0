/-
Measurements of controllers, and their text form.

Three families are kept: how long passes took, by controller; how many
ended in which outcome; and how many writes were made on children of
each kind. In the text the families come in that order. A label value
stands in it as it is, even if it holds the end of a line; so lines and
samples are not the same, and the lines between two comments come in
the order of their text.
-/
import ControlLoop.Duration
import ControlLoop.Number.Approximation
import ControlLoop.Number.Layout
import ControlLoop.SortedMap
import ControlLoop.Text.Lines

namespace ControlLoop

open Number (Binary approximate binary64 measurementLayout)

/-- How observed values are distributed. -/
structure Histogram where
  /-- The sum of the values, added in order. -/
  sum : Binary
  count : Nat
  /-- How many values are at most each of the bounds. -/
  buckets : List Nat

/-- The first bound, a thousandth. -/
def Histogram.firstBound : Binary := ⟨false, 4611686018427388, -62⟩

/-- Sixteen bounds, each twice the one before. -/
def Histogram.bounds : List Binary :=
  (List.range 16).map fun (n : Nat) =>
    { firstBound with exponent := firstBound.exponent + n }

namespace Histogram

def empty : Histogram := ⟨⟨false, 0, binary64.minExponent⟩, 0, bounds.map fun _ => 0⟩

/-- Count a value in the sum and in every bucket that it does not exceed. -/
def observe (h : Histogram) (d : Duration) : Histogram :=
  let value := d.toBinary
  { sum := (value.bind (h.sum.add binary64)).getD h.sum
    count := h.count + 1
    buckets := (h.buckets.zip bounds).map fun (n, bound) =>
      if value.any (·.le bound) then n + 1 else n }

end Histogram

/-- Counts by two labels. -/
abbrev Counts := SortedMap String (SortedMap String Nat)

/-- Count one more. -/
def Counts.increment (cs : Counts) (first second : String) : Counts :=
  let inner := (cs.get? first).getD ∅
  cs.insert first (inner.insert second ((inner.get? second).getD 0 + 1))

/-- The measurements taken so far. -/
structure Metrics where
  /-- By controller. -/
  durations : SortedMap String Histogram
  /-- By controller and outcome. -/
  outcomes : Counts
  /-- By kind and operation. -/
  operations : Counts

namespace Metrics

def empty : Metrics := ⟨∅, ∅, ∅⟩

/-- A pass ended. -/
def observe (m : Metrics) (controller : String) (took : Duration) (outcome : String) : Metrics :=
  { m with
    durations :=
      m.durations.insert controller
        (((m.durations.get? controller).getD Histogram.empty).observe took)
    outcomes := m.outcomes.increment controller outcome }

/-- A write on a child was made. -/
def countOperation (m : Metrics) (kind operation : String) : Metrics :=
  { m with operations := m.operations.increment kind operation }

-- ==================================================== text form

def durationFamily : String := "dbcluster_reconcile_duration_seconds"

def outcomeFamily : String := "dbcluster_reconcile"

def operationFamily : String := "dbcluster_child_operations"

/-- One label with its value. -/
def labelText (name value : String) : String := name ++ "=\"" ++ value ++ "\""

/-- A sample: name, labels and value. -/
def sample (name : String) (labels : List String) (value : String) : String :=
  name ++ "\x7b" ++ ",".intercalate labels ++ "\x7d " ++ value

/-- A measured value, which is never negative. -/
def valueText (x : Binary) : String := (approximate x).text measurementLayout

/-- The samples of one histogram. -/
def histogramSamples (controller : String) (h : Histogram) : List String :=
  let label := labelText "controller" controller
  let bounds := Histogram.bounds.map valueText ++ ["+Inf"]
  sample (durationFamily ++ "_sum") [label] (valueText h.sum)
    :: sample (durationFamily ++ "_count") [label] (toString h.count)
    :: (bounds.zip (h.buckets ++ [h.count])).map fun (bound, n) =>
      sample (durationFamily ++ "_bucket") [labelText "le" bound, label] (toString n)

/-- The samples of a family of counts. -/
def countSamples (name first second : String) (cs : Counts) : List String :=
  cs.toList.flatMap fun (a, inner) =>
    inner.toList.map fun (b, n) =>
      sample (name ++ "_total") [labelText first a, labelText second b] (toString n)

/-- A family: what it is, its type, and its samples. -/
def family (name help type : String) (samples : List String) : List String :=
  s!"# HELP {name} {help}." :: s!"# TYPE {name} {type}" :: samples

/-- All families, and the end. -/
def entries (m : Metrics) : List String :=
  family durationFamily "Duration of reconcile passes in seconds" "histogram"
      (m.durations.toList.flatMap fun (c, h) => histogramSamples c h)
    ++ family outcomeFamily "Reconcile passes by outcome" "counter"
      (countSamples outcomeFamily "controller" "outcome" m.outcomes)
    ++ family operationFamily "Child object writes performed by the reconciliation engine"
      "counter" (countSamples operationFamily "kind" "operation" m.operations)
    ++ ["# EOF"]

def isComment (line : String) : Bool := line.toList.head? = some '#'

def inOrder (lines : List String) : List String :=
  lines.mergeSort fun a b => (compare a b).isLE

/-- Lines with those between two comments in order, behind some that wait for the next comment. -/
def arranged (waiting : List String) : List String → List String
  | [] => inOrder waiting
  | line :: rest =>
    if isComment line then inOrder waiting ++ line :: arranged [] rest
    else arranged (line :: waiting) rest

/-- The text form, line by line. -/
def lines (m : Metrics) : List String :=
  arranged [] (Text.lines ("\n".intercalate m.entries))

end Metrics

end ControlLoop
