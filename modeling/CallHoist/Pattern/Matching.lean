import CallHoist.Pattern.Basic

/-!
# Matching a pattern

A pattern is tried at a place together with what has to match behind it. The ways in which it can match are tried in
the order of preference that its alternatives and repetitions give; the first behind which the rest matches counts.
-/

namespace CallHoist

/-- What is still to match: the place where the whole match ends, if it does. -/
abbrev Cont := Cursor → Option Cursor

namespace Pattern

/-- A pattern exactly `n` times. -/
def exactly (body : Cont → Cont) : Nat → Cont → Cont
  | 0, k => k
  | n + 1, k => body (exactly body n k)

/-- Further times, at most `most` of them. `last` is the place where the last of them began; one that took nothing is
the last. A time that took something leaves less text, so `fuel` above the length of the text is never used up. -/
def further (lazy : Bool) (body : Cont → Cont) (k : Cont) :
    (fuel : Nat) → (most : Option Nat) → (last : Option Nat) → Cont
  | 0, _, _, c => k c
  | fuel + 1, most, last, c =>
    if most == some 0 || last == some c.offset then k c
    else
      let again := fun (_ : Unit) => body (further lazy body k fuel (most.map (· - 1)) (some c.offset)) c
      if lazy then
        match k c with
        | some e => some e
        | none => again ()
      else
        match again () with
        | some e => some e
        | none => k c

/-- Tries a pattern at a place, with what has to match behind it. -/
def run (f : Flags) : Pattern → Cont → Cont
  | empty => fun k => k
  | one t => fun k c => (c.past? (t.holds f)).bind k
  | anchor a => fun k c => if a.holds c then k c else none
  | cat p q => fun k => p.run f (q.run f k)
  | alt p q => fun k c =>
    match p.run f k c with
    | some e => some e
    | none => q.run f k c
  | group p => p.run f
  | rep how least most p => fun k =>
    let behind := fun k' c => further (how == .lazy) (p.run f) k' (c.rest.length + 2) (most.map (· - least)) none c
    match how with
    | .possessive => fun c => (exactly (p.run f) least (behind some) c).bind k
    | _ => exactly (p.run f) least (behind k)

end Pattern

namespace Regex

/-- Where a match that begins at a place ends. -/
def matchAt? (r : Regex) (c : Cursor) : Option Cursor :=
  r.body.run r.flags some c

/-- Whether the pattern matches the whole of a text. -/
def fullMatch (r : Regex) (s : Text) : Bool :=
  (r.body.run r.flags (fun c => if c.rest.isEmpty then some c else none) (.start s)).isSome

/-- The first match that begins at a place or behind it: where it starts and where it stops. -/
def searchFrom (r : Regex) (offset : Nat) (before : Option Char) : Text → Option (Nat × Nat)
  | [] => (r.matchAt? ⟨offset, before, []⟩).map fun e => (offset, e.offset)
  | x :: rest =>
    match r.matchAt? ⟨offset, before, x :: rest⟩ with
    | some e => some (offset, e.offset)
    | none => searchFrom r (offset + 1) (some x) rest

/-- The leftmost match in a text. -/
def search (r : Regex) (s : Text) : Option (Nat × Nat) :=
  r.searchFrom 0 none s

end Regex

end CallHoist
