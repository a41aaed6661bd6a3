import CallHoist.Binding
import CallHoist.Config
import CallHoist.Frequency
import CallHoist.Inference.Basic

/-!
# Reduction

One pass over a source: its region is searched, the matches are counted by their texts, the repeated calls are
classified, those of a known type are bound to names, and the body is written with the names in place of the calls.

Names are a stem and a serial number; the numbers go up by one from binding to binding. Conditional expressions are
bound all, with the placeholder for a type, and the body is then left as it is.

A serial number of any length is written here. Whether all those of a pass can be written within the limit on digits is
for the one who runs it to see (`Reduction.serials`).
-/

namespace CallHoist

/-- What became of the entries of a frequency table. -/
structure Sorting where
  bindings : List Binding
  unknown : List Text
  ignored : List Text
  reportLines : List Text
  deriving DecidableEq, Repr

namespace Sorting

def none : Sorting := ⟨[], [], [], []⟩

def bound (b : Binding) (lines : List Text) (t : Sorting) : Sorting :=
  { t with bindings := b :: t.bindings, reportLines := lines ++ t.reportLines }

def untyped (call : Text) (lines : List Text) (t : Sorting) : Sorting :=
  { t with unknown := call :: t.unknown, reportLines := lines ++ t.reportLines }

def vetoed (call : Text) (t : Sorting) : Sorting :=
  { t with ignored := call :: t.ignored }

/-- The name of the binding of a serial number. -/
def nameOf (stem : Text) (serial : Int) : Text :=
  stem ++ Text.decimal serial

/-- Classifies calls. -/
def ofCalls (e : Engine) (stem : Text) : (serial : Int) → List (Text × Nat) → Sorting
  | _, [] => none
  | serial, (call, count) :: rest =>
    match e.infer call with
    | .ignored _ => (ofCalls e stem serial rest).vetoed call
    | .unknown => (ofCalls e stem serial rest).untyped call (Binding.unknownReport call count)
    | .resolved r =>
      let b := ⟨nameOf stem serial, r.typeName, call, count⟩
      (ofCalls e stem (serial + 1) rest).bound b b.report

/-- Binds conditional expressions. -/
def ofConditionals (typeName stem : Text) : (serial : Int) → List (Text × Nat) → Sorting
  | _, [] => none
  | serial, (expr, count) :: rest =>
    let b := ⟨nameOf stem serial, typeName, expr, count⟩
    (ofConditionals typeName stem (serial + 1) rest).bound b b.untypedReport

end Sorting

structure Reduction where
  region : Region
  found : List Grammar.Match
  table : FrequencyTable
  sorting : Sorting
  /-- The whole source rewritten, if that was asked for. -/
  output : Option Text
  deriving DecidableEq, Repr

/-- Why there is no reduction. -/
inductive ReductionError where
  | badMarker (e : PatternError)
  | overlap (e : Overlap)
  deriving DecidableEq, Repr

namespace Reduction

def bindings (r : Reduction) : List Binding :=
  r.sorting.bindings

/-- The serial numbers in the names of the bindings. -/
def serials (c : Config) (r : Reduction) : List Int :=
  (List.range r.bindings.length).map fun i : Nat => c.firstSerial + i

def unknown (r : Reduction) : List Text :=
  r.sorting.unknown

def ignored (r : Reduction) : List Text :=
  r.sorting.ignored

def report (r : Reduction) : Text :=
  Text.unlines r.sorting.reportLines

/-- The matches of a mode in the body of a region. -/
def collect (m : Mode) (o : Grammar.Order) (body : Text) : List Grammar.Match :=
  Grammar.scan (m.rule.peg o) body

/-- Sorts the entries of a table as the mode of a configuration has it. -/
def sort (c : Config) (e : Engine) (stem : Text) (t : FrequencyTable) : Sorting :=
  match c.mode with
  | .functionCalls => .ofCalls e stem c.firstSerial (t.repeated c.minRepeats)
  | .conditionalExpressions => .ofConditionals c.placeholderType stem c.firstSerial t.entries

/-- The body of a region as it is written back. -/
def rewriteBody (c : Config) (body : Text) (found : List Grammar.Match) (bindings : List Binding) :
    Except Overlap Text :=
  match c.mode with
  | .functionCalls => Binding.rewrite c.breadcrumb body found bindings
  | .conditionalExpressions => .ok body

/-- A pass over a source whose opener is known. -/
def ofRegion (c : Config) (e : Engine) (region : Region) (stem : Text) (exporting : Bool) :
    Except Overlap Reduction :=
  let found := collect c.mode c.order region.body
  let table := FrequencyTable.ofTexts (found.map (·.text))
  let sorting := sort c e stem table
  if exporting then
    (rewriteBody c region.body found sorting.bindings).map fun body =>
      ⟨region, found, table, sorting, some (region.head ++ ['\n'] ++ body)⟩
  else .ok ⟨region, found, table, sorting, none⟩

/-- A pass over a source. -/
def reduce (c : Config) (e : Engine) (source stem : Text) (exporting : Bool) : Except ReductionError Reduction :=
  match Regex.read c.startMarker with
  | .error err => .error (.badMarker err)
  | .ok opener =>
    (ofRegion c e (Region.isolate opener c.breadcrumb source) stem exporting).mapError .overlap

/-- One of several passes. -/
structure Pass where
  stem : Text
  exporting : Bool
  /-- The source of the pass; none for what the passes before have left. -/
  source : Option Text
  deriving DecidableEq, Repr

/-- Several passes. Each leaves its output, or its source where it has none, to the next. -/
def passes (c : Config) (e : Engine) : (source : Text) → List Pass → Except ReductionError (List Reduction)
  | _, [] => .ok []
  | source, p :: rest => do
    let source := p.source.getD source
    let r ← reduce c e source p.stem p.exporting
    let rs ← passes c e (r.output.getD source) rest
    return r :: rs

end Reduction

end CallHoist
