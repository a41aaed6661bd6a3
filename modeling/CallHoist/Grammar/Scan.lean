import CallHoist.Grammar.Rule

/-!
# Scanning

A scan goes through a text from left to right and tries one rule at each place that no earlier match covers. White
space is passed over, a place without a match is passed by one character, and a match goes on at its end. The matched
and the unmatched pieces, put together again, are the text.
-/

namespace CallHoist.Grammar

/-- A piece of a text, with the offsets where it starts and stops. -/
structure Match where
  start : Int
  stop : Int
  text : Text
  deriving DecidableEq, Repr

/-- Scans from offset `pos`. The first `skip` characters belong to the last match. -/
def scanFrom (p : Peg) : (skip pos : Nat) → Text → List Match
  | _, _, [] => []
  | skip + 1, pos, _ :: s => scanFrom p skip (pos + 1) s
  | 0, pos, c :: s =>
    if isSpacing c then scanFrom p 0 (pos + 1) s
    else
      match p.run (c :: s) with
      | none => scanFrom p 0 (pos + 1) s
      | some rest =>
        match (c :: s).length - rest.length with
        | 0 => scanFrom p 0 (pos + 1) s
        | n + 1 => ⟨pos, pos + (n + 1 : Nat), (c :: s).take (n + 1)⟩ :: scanFrom p n (pos + 1) s

/-- The matches of a parsing expression in a text, from left to right. -/
def scan (p : Peg) (s : Text) : List Match :=
  scanFrom p 0 0 s

/-- The texts of the matches, in order. -/
def findAll (p : Peg) (s : Text) : List Text :=
  (scan p s).map (·.text)

/-- A piece of a text that is cut at matches. -/
structure Piece where
  isMatch : Bool
  text : Text
  deriving DecidableEq, Repr

/-- The pieces of a text from offset `cursor` on, cut at the spans of the matches. -/
def piecesFrom (s : Text) (cursor : Int) : List Match → List Piece
  | [] => if cursor < s.length then [⟨false, s.sliceFrom cursor⟩] else []
  | m :: ms =>
    let matched := ⟨true, s.slice m.start m.stop⟩ :: piecesFrom s m.stop ms
    if cursor < m.start then ⟨false, s.slice cursor m.start⟩ :: matched else matched

/-- A text cut at the spans of the matches. -/
def pieces (s : Text) (ms : List Match) : List Piece :=
  piecesFrom s 0 ms

/-- How far a rule matches a text from its front. -/
inductive Extent where
  | whole (stop : Nat)
  | front (stop : Nat)
  | nothing
  deriving DecidableEq, Repr

/-- Matches a text as a whole. -/
def extent (p : Peg) (s : Text) : Extent :=
  match p.run s with
  | none => .nothing
  | some [] => .whole s.length
  | some rest => .front (s.length - rest.length)

end CallHoist.Grammar
