/-!
# Texts

A text is the list of its characters, so that an offset counts characters and the order of texts is the order of their
code points. This file has cuts at signed offsets, occurrences of a text in another, lines and decimal numbers.
-/

namespace CallHoist

abbrev Text := List Char

namespace Text

/-- The place in a text of `n` characters that a signed offset names: a negative offset counts from the end, and an
offset outside the text names the nearer end. -/
def place (n : Nat) (i : Int) : Nat :=
  if 0 ≤ i then min i.toNat n else (i + n).toNat

/-- The characters from offset `i` up to offset `j`; none if `j` is not after `i`. -/
def slice (s : Text) (i j : Int) : Text :=
  (s.drop (place s.length i)).take (place s.length j - place s.length i)

/-- The characters from offset `i` on. -/
def sliceFrom (s : Text) (i : Int) : Text :=
  s.drop (place s.length i)

/-- The rest of a text behind a given front. -/
def dropFront? : Text → Text → Option Text
  | [], s => some s
  | _ :: _, [] => none
  | c :: front, d :: s => if c = d then dropFront? front s else none

/-- The greatest offset at which `needle` occurs in a text. An empty needle occurs last at the very end. -/
def lastIndexOf? (needle : Text) : Text → Option Nat
  | [] => if needle.isEmpty then some 0 else none
  | c :: s =>
    match lastIndexOf? needle s with
    | some i => some (i + 1)
    | none => if needle.isPrefixOf (c :: s) then some 0 else none

/-- The decimal digits of a number, with a minus sign in front of a negative one. -/
def decimal : Int → Text
  | .ofNat n => Nat.toDigits 10 n
  | .negSucc n => '-' :: Nat.toDigits 10 (n + 1)

/-- The texts one after another, with `sep` between each two. -/
def joined (sep : Text) : List Text → Text
  | [] => []
  | [s] => s
  | s :: t :: r => s ++ sep ++ joined sep (t :: r)

/-- The pieces of a text between the occurrences of a character; there is one more piece than there are occurrences. -/
def split (sep : Char) : Text → List Text
  | [] => [[]]
  | c :: s =>
    if c = sep then [] :: split sep s
    else
      match split sep s with
      | [] => [[c]]
      | piece :: rest => (c :: piece) :: rest

/-- A text with every line ended by a line feed, where a carriage return, with or without a line feed behind it, ended
some. -/
def lineFeeds : Text → Text
  | [] => []
  | '\r' :: '\n' :: s => '\n' :: lineFeeds s
  | '\r' :: s => '\n' :: lineFeeds s
  | c :: s => c :: lineFeeds s

/-- The texts as lines, each ended by a line feed. -/
def unlines (lines : List Text) : Text :=
  lines.flatMap (· ++ ['\n'])

theorem dropFront?_eq_some_iff {front s r : Text} : dropFront? front s = some r ↔ s = front ++ r := by
  induction front generalizing s with
  | nil => simp [dropFront?]
  | cons c front ih =>
    cases s with
    | nil => simp [dropFront?]
    | cons d s =>
      by_cases h : c = d
      · subst h
        simp [dropFront?, ih]
      · simp [dropFront?, h, Ne.symm h]

theorem place_natCast (n i : Nat) : place n (i : Int) = min i n := by
  simp [place]

theorem slice_natCast (s : Text) (i j : Nat) (h : j ≤ s.length) :
    s.slice i j = (s.drop i).take (j - i) := by
  unfold slice
  rw [place_natCast, place_natCast]
  by_cases hi : i ≤ s.length
  · rw [Nat.min_eq_left hi, Nat.min_eq_left h]
  · have h1 : s.drop i = [] := List.drop_eq_nil_of_le (by omega)
    have h2 : s.drop (min i s.length) = [] := List.drop_eq_nil_of_le (by omega)
    rw [h1, h2]
    simp

theorem sliceFrom_append {x y : Text} {i : Nat} (hi : i ≤ x.length) :
    (x ++ y).sliceFrom i = x.drop i ++ y := by
  rw [sliceFrom, place_natCast, Nat.min_eq_left (by rw [List.length_append]; omega), List.drop_append_of_le_length hi]

theorem slice_append {x y : Text} {i : Nat} (hi : i ≤ x.length) : (x ++ y).slice i x.length = x.drop i := by
  rw [slice_natCast _ _ _ (by simp), List.drop_append_of_le_length hi, ← List.length_drop, List.take_left]

end Text

end CallHoist
