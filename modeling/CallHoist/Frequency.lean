import CallHoist.Grammar.Scan
import CallHoist.Text.Quoted

/-!
# Frequency tables

How often each text occurs in a list of texts. A table has one entry for each distinct text, in ascending order, and
keeps count of all occurrences besides. Matches are counted by their texts.
-/

namespace CallHoist

/-- What is counted: a text, or a match for its text. -/
inductive Counted where
  | text (s : Text)
  | hit (m : Grammar.Match)
  deriving DecidableEq, Repr

/-- The text that something is counted by. -/
def Counted.key : Counted → Text
  | text s => s
  | hit m => m.text

@[ext]
structure FrequencyTable where
  entries : List (Text × Nat)
  /-- The number of all occurrences. -/
  total : Nat
  deriving DecidableEq, Repr

namespace FrequencyTable

/-- Counts a text once more. -/
def bump (key : Text) : List (Text × Nat) → List (Text × Nat)
  | [] => [(key, 1)]
  | (k, n) :: rest =>
    if key = k then (k, n + 1) :: rest
    else if key < k then (key, 1) :: (k, n) :: rest
    else (k, n) :: bump key rest

def empty : FrequencyTable := ⟨[], 0⟩

/-- Counts one occurrence of a text. -/
def record (t : FrequencyTable) (key : Text) : FrequencyTable :=
  ⟨bump key t.entries, t.total + 1⟩

def ofTexts (keys : List Text) : FrequencyTable :=
  keys.foldl record empty

def ofList (items : List Counted) : FrequencyTable :=
  ofTexts (items.map (·.key))

def keys (t : FrequencyTable) : List Text :=
  t.entries.map (·.1)

/-- The number of distinct texts. -/
def size (t : FrequencyTable) : Nat :=
  t.entries.length

def get? (t : FrequencyTable) (key : Text) : Option Nat :=
  t.entries.lookup key

/-- The entries of at least `least` occurrences. -/
def repeated (t : FrequencyTable) (least : Int) : List (Text × Nat) :=
  t.entries.filter fun (_, n) => least ≤ n

/-- The table in one line, its entries between braces. -/
def described (t : FrequencyTable) : Text :=
  let entry := fun (k, n) => Text.quoted k ++ ": ".toList ++ Text.decimal (n : Nat)
  "FrequencyTable(".toList ++ ['{'] ++ Text.joined ", ".toList (t.entries.map entry) ++ ['}', ')']

end FrequencyTable

end CallHoist
