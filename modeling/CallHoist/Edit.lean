import CallHoist.Text.Basic

/-!
# Edits

An edit replaces a span of a text. Edits are applied in the order of their spans, each to the text as it was; one that
starts before the end of the one applied last is refused.
-/

namespace CallHoist

structure Edit where
  start : Int
  stop : Int
  replacement : Text
  deriving DecidableEq, Repr

/-- An edit that starts, at `offset`, inside the span of an earlier one. -/
structure Overlap where
  offset : Int
  deriving DecidableEq, Repr

def Overlap.message (e : Overlap) : Text :=
  "Overlapping edit at offset ".toList ++ Text.decimal e.offset

namespace Edit

/-- Whether the span of an edit comes before that of another, or is the same. -/
def atMost (a b : Edit) : Bool :=
  a.start < b.start || (a.start == b.start && a.stop ≤ b.stop)

/-- Puts an edit before the first that it comes before. -/
def insertSorted (e : Edit) : List Edit → List Edit
  | [] => [e]
  | d :: rest => if e.atMost d then e :: d :: rest else d :: insertSorted e rest

/-- The edits in the order of their spans. Edits of the same span keep their order. -/
def sorted : List Edit → List Edit
  | [] => []
  | e :: rest => insertSorted e (sorted rest)

/-- Applies edits, in the order given, to a text from offset `cursor` on. -/
def applyFrom (s : Text) (cursor : Int) : List Edit → Except Overlap Text
  | [] => .ok (s.sliceFrom cursor)
  | e :: rest =>
    if e.start < cursor then .error ⟨e.start⟩
    else (applyFrom s e.stop rest).map fun t => s.slice cursor e.start ++ e.replacement ++ t

/-- Applies edits to a text. -/
def applyAll (s : Text) (edits : List Edit) : Except Overlap Text :=
  applyFrom s 0 (sorted edits)

/-- Replaces the span of one edit. -/
def splice (s : Text) (e : Edit) : Text :=
  s.slice 0 e.start ++ e.replacement ++ s.sliceFrom e.stop

/-- Replaces the spans of edits one at a time, from the last to the first. -/
def spliceAll (s : Text) (edits : List Edit) : Text :=
  edits.foldr (fun e t => splice t e) s

end Edit

end CallHoist
