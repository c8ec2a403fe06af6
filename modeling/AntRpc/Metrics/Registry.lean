/-
`MetricRegistry` (metrics/metric_registry.hpp): named families of metrics
with labels, and the text they are exported as.

# Values

A metric is known by its kind and its address. A snapshot reads the
metrics of its entries one after the other while they go on counting; what
it reads for each entry is the environment's (`Readings`). A label set is a
`std::map`, so its keys are in order and no key occurs twice.

# Families

`families_` is a hash map. Here it is the list of its items; the order of
its iteration decides nothing, since `Register` looks at every family and
`Snapshot` sorts. `Register` and `Unregister` change it under the mutex,
so each is one step.

# Text

`PrometheusText` writes lines. They are kept as lines (`Line`) until the
end, where each is written out as the source writes it.
-/
import AntRpc.Lib.Machine
import AntRpc.Lib.Comparator
import AntRpc.Text.Escape
import AntRpc.Metrics.LatencyRecorder

namespace AntRpc.Metrics

open Lib Text
open Protocol (Bytes)

-- == labels

/-- `std::string`'s `<`. -/
def lessBytes : Bytes → Bytes → Bool := lexLess fun a b => decide (a < b)

/-- `MetricLabels`: keys in order, each with a value. -/
structure MetricLabels where
  items : List (Bytes × Bytes) := []
  ordered : items.Pairwise fun a b => lessBytes a.1 b.1 = true := by decide
deriving DecidableEq

/-- `<` of two label sets. -/
def lessLabels (a b : MetricLabels) : Bool :=
  lexLess (pairLess lessBytes lessBytes) a.items b.items

-- == metrics

inductive MetricKind where
  | counter
  | gauge
  | latency
deriving DecidableEq, Repr

/-- A `Handle`: the kind of the metric and where it is. -/
structure Handle where
  kind : MetricKind
  address : Nat
deriving DecidableEq, Repr

structure Entry where
  labels : MetricLabels
  metric : Handle
deriving DecidableEq

inductive MetricValue where
  | counter (value : UInt64)
  | gauge (value : Int64)
  | latency (value : LatencySnapshot)
deriving DecidableEq

/-- What a snapshot reads for an entry of the family with a name. -/
structure Readings where
  counter : Bytes → Entry → UInt64
  gauge : Bytes → Entry → Int64
  latency : Bytes → Entry → LatencySnapshot

/-- `metric->Value()` or `metric->Snapshot()`. -/
def Readings.value (readings : Readings) (name : Bytes) (e : Entry) :
    MetricValue :=
  match e.metric.kind with
  | .counter => .counter (readings.counter name e)
  | .gauge => .gauge (readings.gauge name e)
  | .latency => .latency (readings.latency name e)

-- == registry

/-- An item of `families_`. -/
structure Family where
  name : Bytes
  entries : List Entry
deriving DecidableEq

structure MetricRegistry where
  namePrefix : Bytes := []
  families : List Family := []
deriving DecidableEq

def letter (c : UInt8) : Bool :=
  (97 ≤ c && c ≤ 122) || (65 ≤ c && c ≤ 90) || c == 95

def digit (c : UInt8) : Bool := 48 ≤ c && c ≤ 57

/-- `ValidName`. -/
def validName (name : Bytes) : Bool :=
  match name with
  | [] => false
  | c :: _ => letter c && name.all fun c => letter c || digit c

/-- `SameLabelKeys`. -/
def sameLabelKeys (a b : MetricLabels) : Bool :=
  a.items.map Prod.fst == b.items.map Prod.fst

/-- The suffixes a summary adds to its name. -/
def summarySuffixes : List Bytes :=
  [ascii "_count", ascii "_sum", ascii "_min", ascii "_max"]

/-- `Conflicts`. -/
def conflicts (a : Bytes) (at' : MetricKind) (b : Bytes) (bt : MetricKind) :
    Bool :=
  summarySuffixes.any fun suffix =>
    (at' == .latency && a ++ suffix == b)
      || (bt == .latency && b ++ suffix == a)

/-- What `Register` checks in an existing family. A family that were empty
would have no front; there is none. -/
def Family.admits (f : Family) (name : Bytes) (kind : MetricKind)
    (labels : MetricLabels) : Bool :=
  match f.entries with
  | [] => true
  | front :: _ =>
      if f.name = name then
        front.metric.kind == kind && sameLabelKeys front.labels labels
          && f.entries.all fun e => e.labels != labels
      else !conflicts f.name front.metric.kind name kind

/-- The checks of the names and the labels. -/
def validArguments (namePrefix name : Bytes) (labels : MetricLabels) : Bool :=
  validName name && validName (namePrefix ++ name)
    && labels.items.all fun item =>
      validName item.1 && !(ascii "__").isPrefixOf item.1

/-- `families_[name].push_back(entry)`. -/
def pushEntry (name : Bytes) (entry : Entry) : List Family → List Family
  | [] => [⟨name, [entry]⟩]
  | f :: families =>
      if f.name = name then
        { f with entries := f.entries ++ [entry] } :: families
      else f :: pushEntry name entry families

/-- `Register`: the registry after it and whether it was accepted. The
metric is given by its address; null is `none`. -/
def MetricRegistry.register (r : MetricRegistry) (name : Bytes)
    (kind : MetricKind) (metric : Option Nat) (labels : MetricLabels) :
    MetricRegistry × Bool :=
  match metric with
  | none => (r, false)
  | some address =>
      let full := r.namePrefix ++ name
      if validArguments r.namePrefix name labels
          && r.families.all (·.admits full kind labels) then
        ({ r with
            families := pushEntry full ⟨labels, ⟨kind, address⟩⟩ r.families },
          true)
      else (r, false)

/-- `entries.erase` of the entry with these labels, if there is one. -/
def eraseEntry (labels : MetricLabels) (entries : List Entry) :
    Option (List Entry) :=
  if entries.any (·.labels == labels) then
    some (entries.eraseP (·.labels == labels))
  else none

/-- Take the entry out of its family, and the family out of the map when
it was the last. -/
def removeEntry (name : Bytes) (labels : MetricLabels) :
    List Family → Option (List Family)
  | [] => none
  | f :: families =>
      if f.name = name then
        (eraseEntry labels f.entries).map fun entries =>
          if entries = [] then families
          else { f with entries := entries } :: families
      else (removeEntry name labels families).map (f :: ·)

/-- `Unregister`. -/
def MetricRegistry.unregister (r : MetricRegistry) (name : Bytes)
    (labels : MetricLabels) : MetricRegistry × Bool :=
  match removeEntry (r.namePrefix ++ name) labels r.families with
  | none => (r, false)
  | some families => ({ r with families := families }, true)

-- == snapshot

structure MetricSnapshot where
  name : Bytes
  labels : MetricLabels
  value : MetricValue
deriving DecidableEq

/-- The order `Snapshot` sorts by. -/
def sampleLess (a b : MetricSnapshot) : Bool :=
  lessBytes a.name b.name
    || (a.name == b.name && lessLabels a.labels b.labels)

/-- The samples of a family, in the order of its entries. -/
def Family.samples (readings : Readings) (f : Family) :
    List MetricSnapshot :=
  f.entries.map fun e => ⟨f.name, e.labels, readings.value f.name e⟩

/-- `Snapshot`. -/
def MetricRegistry.snapshot (r : MetricRegistry) (readings : Readings) :
    List MetricSnapshot :=
  (r.families.flatMap (·.samples readings)).mergeSort
    fun a b => !sampleLess b a

-- == text

inductive TypeName where
  | counter
  | gauge
  | summary
deriving DecidableEq, Repr

def TypeName.text : TypeName → Bytes
  | .counter => ascii "counter"
  | .gauge => ascii "gauge"
  | .summary => ascii "summary"

/-- A line of the text. -/
inductive Line where
  | type (name : Bytes) (typeName : TypeName)
  | sample (name : Bytes) (labels : MetricLabels) (value : Int)
deriving DecidableEq

/-- The `# TYPE` lines of a new family. -/
def typeLines (s : MetricSnapshot) : List Line :=
  match s.value with
  | .counter _ => [.type s.name .counter]
  | .gauge _ => [.type s.name .gauge]
  | .latency _ =>
      [.type s.name .summary, .type (s.name ++ ascii "_min") .gauge,
        .type (s.name ++ ascii "_max") .gauge]

/-- The lines `write` makes of a sample. -/
def sampleLines (s : MetricSnapshot) : List Line :=
  let write (suffix : Bytes) (value : Int) : Line :=
    .sample (s.name ++ suffix) s.labels value
  match s.value with
  | .counter value => [write [] value.toNat]
  | .gauge value => [write [] value.toInt]
  | .latency value =>
      [write (ascii "_count") value.count.toNat,
        write (ascii "_sum") value.totalMicroseconds.toNat,
        write (ascii "_min") value.minMicroseconds.toNat,
        write (ascii "_max") value.maxMicroseconds.toNat]

/-- The loop of `PrometheusText`, with the name it has written last. -/
def linesFrom (previous : Bytes) : List MetricSnapshot → List Line
  | [] => []
  | s :: samples =>
      (if previous ≠ s.name then typeLines s else []) ++ sampleLines s
        ++ linesFrom s.name samples

def MetricRegistry.prometheusLines (r : MetricRegistry)
    (readings : Readings) : List Line :=
  linesFrom [] (r.snapshot readings)

/-- What `PrometheusText` writes for one byte of a label value. -/
def writeLabelByte (c : UInt8) : Bytes :=
  (if c = backslash ∨ c = doubleQuote then [backslash] else [])
    ++ if c = newline then [backslash, 110] else [c]

/-- A label value, as `PrometheusText` writes it. -/
def writeLabel (label : Bytes) : Bytes := label.flatMap writeLabelByte

/-- One label: `key="value"`. -/
def writeItem (item : Bytes × Bytes) : Bytes :=
  item.1 ++ ascii "=\"" ++ writeLabel item.2 ++ [doubleQuote]

/-- The labels, with commas between them. -/
def writeLabels (labels : MetricLabels) : Bytes :=
  match labels.items with
  | [] => []
  | first :: items =>
      ascii "\x7b" ++ writeItem first
        ++ items.flatMap (fun item => ascii "," ++ writeItem item)
        ++ ascii "\x7d"

/-- A number in decimal. -/
def writeValue (value : Int) : Bytes := ascii (toString value)

/-- A sample line up to its value. -/
def writeSeries (name : Bytes) (labels : MetricLabels) : Bytes :=
  name ++ writeLabels labels

def Line.text : Line → Bytes
  | .type name typeName =>
      ascii "# TYPE " ++ name ++ ascii " " ++ typeName.text ++ [newline]
  | .sample name labels value =>
      writeSeries name labels ++ ascii " " ++ writeValue value ++ [newline]

/-- `PrometheusText`. -/
def MetricRegistry.prometheusText (r : MetricRegistry)
    (readings : Readings) : Bytes :=
  (r.prometheusLines readings).flatMap Line.text

-- == machine

/-- A call. -/
inductive Action where
  | register (name : Bytes) (kind : MetricKind) (metric : Option Nat)
      (labels : MetricLabels)
  | unregister (name : Bytes) (labels : MetricLabels)

/-- The registry after a call, and what the call returned. -/
def call : Action → MetricRegistry → MetricRegistry × Bool
  | .register name kind metric labels, r => r.register name kind metric labels
  | .unregister name labels, r => r.unregister name labels

def machine : Machine MetricRegistry Action where
  start r := ∃ namePrefix, r = { namePrefix := namePrefix }
  apply a r := some (call a r).1

end AntRpc.Metrics
