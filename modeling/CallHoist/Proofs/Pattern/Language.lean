import CallHoist.Pattern.Matching

/-!
# The texts that a pattern denotes

A pattern without anchors and without possessive repetitions denotes a set of texts, whatever the order in which its
alternatives are tried. Tried at a place, it succeeds exactly if some text that it denotes stands there with what has to
match behind it (`isSome_run_iff`): backtracking goes through all ways to match, and an empty round, with which a
repetition ends, is of no use. So a pattern matches the whole of a text if and only if it denotes the text
(`Regex.fullMatch_iff`).
-/

namespace CallHoist

/-- The place behind a text that stands at a place, with what is left there. -/
def Cursor.behind (c : Cursor) (t r : Text) : Cursor := ⟨c.offset + t.length, t.getLast?.or c.before, r⟩

theorem Cursor.behind_nil (c : Cursor) : c.behind [] c.rest = c := rfl

theorem Cursor.behind_behind (c : Cursor) (t u r s : Text) : (c.behind t r).behind u s = c.behind (t ++ u) s := by
  unfold behind
  rw [List.length_append, List.getLast?_append, Nat.add_assoc, Option.or_assoc]

namespace Pattern

/-- No anchors, no possessive repetitions, and no repetition that is to be made more often than it may. -/
def isRegular : Pattern → Bool
  | empty => true
  | one _ => true
  | anchor _ => false
  | cat p q => p.isRegular && q.isRegular
  | alt p q => p.isRegular && q.isRegular
  | group p => p.isRegular
  | rep how least most p => how != .possessive && most.all (least ≤ ·) && p.isRegular

/-- The texts of a pattern. -/
inductive Denotes (f : Flags) : Pattern → Text → Prop where
  | empty : Denotes f .empty []
  | one {t : CharTest} {c : Char} : t.holds f c = true → Denotes f (.one t) [c]
  | cat {p q : Pattern} {u v : Text} : Denotes f p u → Denotes f q v → Denotes f (.cat p q) (u ++ v)
  | altLeft {p q : Pattern} {t : Text} : Denotes f p t → Denotes f (.alt p q) t
  | altRight {p q : Pattern} {t : Text} : Denotes f q t → Denotes f (.alt p q) t
  | group {p : Pattern} {t : Text} : Denotes f p t → Denotes f (.group p) t
  | rep {how : Appetite} {least : Nat} {most : Option Nat} {p : Pattern} {ts : List Text} :
      least ≤ ts.length → (∀ m, most = some m → ts.length ≤ m) → (∀ t ∈ ts, Denotes f p t) →
      Denotes f (.rep how least most p) ts.flatten

/-! ### Trying -/

/-- A try succeeds exactly if some text of `L` stands at the place and the rest matches behind it. -/
def Tries (body : Cont → Cont) (L : Text → Prop) : Prop :=
  ∀ k c, (body k c).isSome = true ↔ ∃ t r, c.rest = t ++ r ∧ L t ∧ (k (c.behind t r)).isSome = true

section Rounds

variable {body : Cont → Cont} {L : Text → Prop} (h : Tries body L)
include h

theorem isSome_exactly_iff (n : Nat) (k : Cont) (c : Cursor) :
    (exactly body n k c).isSome = true ↔
      ∃ (ts : List Text) (r : Text), ts.length = n ∧ (∀ t ∈ ts, L t) ∧ c.rest = ts.flatten ++ r ∧
        (k (c.behind ts.flatten r)).isSome = true := by
  induction n generalizing c with
  | zero =>
    constructor
    · intro hk
      exact ⟨[], c.rest, rfl, by simp, rfl, hk⟩
    · rintro ⟨ts, r, hlen, -, hrest, hk⟩
      obtain rfl := List.eq_nil_of_length_eq_zero hlen
      obtain rfl : c.rest = r := hrest
      exact hk
  | succ n ih =>
    rw [exactly, h]
    constructor
    · rintro ⟨t, r, hrest, ht, hk⟩
      obtain ⟨ts, r', hlen, hts, hr, hk⟩ := (ih _).1 hk
      obtain rfl : r = ts.flatten ++ r' := hr
      rw [Cursor.behind_behind] at hk
      refine ⟨t :: ts, r', by simp [hlen], ?_, by simp [hrest], by simpa using hk⟩
      intro u hu
      rcases List.mem_cons.1 hu with rfl | hu
      · exact ht
      · exact hts u hu
    · rintro ⟨ts, r, hlen, hts, hrest, hk⟩
      cases ts with
      | nil => cases hlen
      | cons t ts =>
        rw [List.flatten_cons, List.append_assoc] at hrest
        refine ⟨t, ts.flatten ++ r, hrest, hts t List.mem_cons_self, (ih _).2 ?_⟩
        refine ⟨ts, r, Nat.succ.inj hlen, fun u hu => hts u (List.mem_cons_of_mem _ hu), rfl, ?_⟩
        rwa [Cursor.behind_behind]

end Rounds

/-- At most so many texts of `L` stand at the place one after another, none of them empty, and the rest matches behind
them. -/
def Reaches (L : Text → Prop) (k : Cont) (most : Option Nat) (c : Cursor) : Prop :=
  ∃ (ts : List Text) (r : Text), (∀ m, most = some m → ts.length ≤ m) ∧ (∀ t ∈ ts, t ≠ [] ∧ L t) ∧
    c.rest = ts.flatten ++ r ∧ (k (c.behind ts.flatten r)).isSome = true

section Rounds

variable {L : Text → Prop} {k : Cont} {most : Option Nat} {c : Cursor}

private theorem reaches_of_isSome (hk : (k c).isSome = true) : Reaches L k most c :=
  ⟨[], c.rest, by simp, by simp, rfl, hk⟩

/-- Where no round fits, the rest has to match at once. -/
private theorem isSome_of_reaches (h : Reaches L k most c) (hno : most = some 0 ∨ c.rest = []) :
    (k c).isSome = true := by
  obtain ⟨ts, r, hlen, hts, hrest, hk⟩ := h
  have hnil : ts = [] := by
    rcases hno with hmost | hempty
    · exact List.eq_nil_of_length_eq_zero (Nat.le_zero.1 (hlen 0 hmost))
    · cases ts with
      | nil => rfl
      | cons t ts =>
        rw [hempty, List.flatten_cons, List.append_assoc] at hrest
        exact absurd (List.append_eq_nil_iff.1 hrest.symm).1 (hts t List.mem_cons_self).1
  subst hnil
  obtain rfl : c.rest = r := hrest
  exact hk

private theorem reaches_iff (hmost : most ≠ some 0) :
    Reaches L k most c ↔ (k c).isSome = true ∨ ∃ t r, t ≠ [] ∧ c.rest = t ++ r ∧ L t ∧
      Reaches L k (most.map (· - 1)) (c.behind t r) := by
  constructor
  · rintro ⟨ts, r, hlen, hts, hrest, hk⟩
    cases ts with
    | nil =>
      obtain rfl : c.rest = r := hrest
      exact .inl hk
    | cons t ts =>
      rw [List.flatten_cons, List.append_assoc] at hrest
      obtain ⟨hne, ht⟩ := hts t List.mem_cons_self
      refine .inr ⟨t, ts.flatten ++ r, hne, hrest, ht, ts, r, ?_, ?_, rfl, ?_⟩
      · intro m hm
        obtain ⟨m', rfl, rfl⟩ := Option.map_eq_some_iff.1 hm
        have hle := hlen m' rfl
        rw [List.length_cons] at hle
        omega
      · intro u hu
        exact hts u (List.mem_cons_of_mem _ hu)
      · rwa [Cursor.behind_behind]
  · rintro (hk | ⟨t, r, hne, hrest, ht, ts, r', hlen, hts, hr, hk⟩)
    · exact reaches_of_isSome hk
    · obtain rfl : r = ts.flatten ++ r' := hr
      rw [Cursor.behind_behind] at hk
      refine ⟨t :: ts, r', ?_, ?_, by simp [hrest], by simpa using hk⟩
      · intro m hm
        have hpos : m ≠ 0 := fun hm0 => hmost (by rw [hm, hm0])
        have hle := hlen (m - 1) (by rw [hm]; rfl)
        rw [List.length_cons]
        omega
      · intro u hu
        rcases List.mem_cons.1 hu with rfl | hu
        · exact ⟨hne, ht⟩
        · exact hts u hu

private theorem further_of_last (lazy : Bool) (body : Cont → Cont) (fuel : Nat) :
    further lazy body k fuel most (some c.offset) c = k c := by
  cases fuel <;> simp [further]

private theorem isSome_further_succ {body : Cont → Cont} (h : Tries body L) (lazy : Bool) (fuel : Nat)
    {last : Option Nat} (hmost : most ≠ some 0) (hlast : last ≠ some c.offset) :
    (further lazy body k (fuel + 1) most last c).isSome = true ↔
      (k c).isSome = true ∨ ∃ t r, c.rest = t ++ r ∧ L t ∧
        (further lazy body k fuel (most.map (· - 1)) (some c.offset) (c.behind t r)).isSome = true := by
  rw [← h, further]
  have hgo : (most == some 0 || last == some c.offset) = false := by simp [hmost, hlast]
  rw [hgo]
  cases lazy with
  | true => cases k c <;> simp
  | false =>
    simp only [Bool.false_eq_true, ↓reduceIte]
    cases body (further false body k fuel (most.map (· - 1)) (some c.offset)) c <;> simp

/-- Fuel that is not less than the text is enough, as each round but the last takes something. -/
theorem isSome_further_iff {body : Cont → Cont} (h : Tries body L) (lazy : Bool) {fuel : Nat} {last : Option Nat}
    (hfuel : c.rest.length ≤ fuel) (hlast : last ≠ some c.offset) :
    (further lazy body k fuel most last c).isSome = true ↔ Reaches L k most c := by
  induction fuel generalizing most last c with
  | zero =>
    have hempty : c.rest = [] := List.eq_nil_of_length_eq_zero (Nat.le_zero.1 hfuel)
    exact ⟨reaches_of_isSome, fun hr => isSome_of_reaches hr (.inr hempty)⟩
  | succ fuel ih =>
    by_cases hmost : most = some 0
    · have hrun : further lazy body k (fuel + 1) most last c = k c := by simp [further, hmost]
      rw [hrun]
      exact ⟨reaches_of_isSome, fun hr => isSome_of_reaches hr (.inl hmost)⟩
    · -- behind a round that took something the text is shorter and the place another one
      have hround : ∀ {t r}, t ≠ [] → c.rest = t ++ r →
          ((further lazy body k fuel (most.map (· - 1)) (some c.offset) (c.behind t r)).isSome = true ↔
            Reaches L k (most.map (· - 1)) (c.behind t r)) := by
        intro t r hne hrest
        have hpos := List.length_pos_iff.2 hne
        rw [hrest, List.length_append] at hfuel
        refine ih ?_ ?_
        · unfold Cursor.behind
          simp only
          omega
        · rw [Ne, Option.some.injEq, Cursor.behind]
          simp only
          omega
      rw [isSome_further_succ h lazy fuel hmost hlast, reaches_iff hmost]
      constructor
      · rintro (hk | ⟨t, r, hrest, ht, hk⟩)
        · exact .inl hk
        · by_cases hne : t = []
          · subst hne
            obtain rfl : c.rest = r := hrest
            rw [Cursor.behind_nil, further_of_last] at hk
            exact .inl hk
          · exact .inr ⟨t, r, hne, hrest, ht, (hround hne hrest).1 hk⟩
      · rintro (hk | ⟨t, r, hne, hrest, ht, hr⟩)
        · exact .inl hk
        · exact .inr ⟨t, r, hrest, ht, (hround hne hrest).2 hr⟩

end Rounds

/-! ### Denoted texts -/

variable {f : Flags}

theorem denotes_cat_iff {p q : Pattern} {s : Text} :
    Denotes f (cat p q) s ↔ ∃ u v, s = u ++ v ∧ Denotes f p u ∧ Denotes f q v := by
  constructor
  · intro h
    cases h with
    | cat hp hq => exact ⟨_, _, rfl, hp, hq⟩
  · rintro ⟨u, v, rfl, hp, hq⟩
    exact .cat hp hq

theorem denotes_alt_iff {p q : Pattern} {s : Text} : Denotes f (alt p q) s ↔ Denotes f p s ∨ Denotes f q s := by
  constructor
  · intro h
    cases h with
    | altLeft h => exact .inl h
    | altRight h => exact .inr h
  · rintro (h | h)
    · exact .altLeft h
    · exact .altRight h

theorem denotes_group_iff {p : Pattern} {s : Text} : Denotes f (group p) s ↔ Denotes f p s := by
  constructor
  · intro h
    cases h with
    | group h => exact h
  · exact .group

theorem denotes_one_iff {t : CharTest} {s : Text} : Denotes f (one t) s ↔ ∃ c, t.holds f c = true ∧ s = [c] := by
  constructor
  · intro h
    cases h with
    | one hc => exact ⟨_, hc, rfl⟩
  · rintro ⟨c, hc, rfl⟩
    exact .one hc

theorem denotes_empty_iff {s : Text} : Denotes f empty s ↔ s = [] := by
  constructor
  · intro h
    cases h
    rfl
  · rintro rfl
    exact .empty

theorem denotes_rep_iff {how : Appetite} {least : Nat} {most : Option Nat} {p : Pattern} {s : Text} :
    Denotes f (rep how least most p) s ↔ ∃ ts : List Text, s = ts.flatten ∧ least ≤ ts.length ∧
      (∀ m, most = some m → ts.length ≤ m) ∧ ∀ t ∈ ts, Denotes f p t := by
  constructor
  · intro h
    cases h with
    | rep hleast hmost hts => exact ⟨_, rfl, hleast, hmost, hts⟩
  · rintro ⟨ts, rfl, hleast, hmost, hts⟩
    exact .rep hleast hmost hts

/-- Whether a character can occur in a text of a pattern. -/
def mentions (f : Flags) (c : Char) : Pattern → Bool
  | empty => false
  | one t => t.holds f c
  | anchor _ => false
  | cat p q => p.mentions f c || q.mentions f c
  | alt p q => p.mentions f c || q.mentions f c
  | group p => p.mentions f c
  | rep _ _ _ p => p.mentions f c

theorem not_mem_of_mentions {p : Pattern} {t : Text} {c : Char} (h : Denotes f p t) (hc : p.mentions f c = false) :
    c ∉ t := by
  induction h with
  | empty => simp
  | one ht =>
    intro hmem
    obtain rfl := List.mem_singleton.1 hmem
    rw [mentions, ht] at hc
    cases hc
  | cat _ _ ihp ihq =>
    rw [mentions, Bool.or_eq_false_iff] at hc
    rw [List.mem_append, not_or]
    exact ⟨ihp hc.1, ihq hc.2⟩
  | altLeft _ ih =>
    rw [mentions, Bool.or_eq_false_iff] at hc
    exact ih hc.1
  | altRight _ ih =>
    rw [mentions, Bool.or_eq_false_iff] at hc
    exact ih hc.2
  | group _ ih => exact ih hc
  | rep _ _ _ ih =>
    intro hmem
    obtain ⟨t, ht, hct⟩ := List.mem_flatten.1 hmem
    exact ih t ht hc hct

/-! ### Patterns one after another -/

theorem isRegular_catAll {ps : List Pattern} (h : ps.all isRegular = true) : (catAll ps).isRegular = true := by
  induction ps with
  | nil => rfl
  | cons p ps ih =>
    rw [List.all_cons, Bool.and_eq_true] at h
    cases ps with
    | nil => exact h.1
    | cons q ps =>
      rw [catAll, isRegular, h.1, ih h.2]
      rfl

theorem all_isRegular_literal (t : Text) : (literal t).all isRegular = true := by
  unfold literal
  rw [List.all_map, List.all_eq_true]
  intro c _
  rfl

theorem denotes_catAll_cons {p : Pattern} {ps : List Pattern} {s : Text} :
    Denotes f (catAll (p :: ps)) s ↔ ∃ u v, s = u ++ v ∧ Denotes f p u ∧ Denotes f (catAll ps) v := by
  cases ps with
  | nil =>
    simp only [catAll, denotes_empty_iff]
    constructor
    · intro h
      exact ⟨s, [], by simp, h, rfl⟩
    · rintro ⟨u, v, rfl, h, rfl⟩
      rwa [List.append_nil]
  | cons q ps => rw [catAll, denotes_cat_iff]

theorem denotes_catAll_append {ps qs : List Pattern} {s : Text} :
    Denotes f (catAll (ps ++ qs)) s ↔ ∃ u v, s = u ++ v ∧ Denotes f (catAll ps) u ∧ Denotes f (catAll qs) v := by
  induction ps generalizing s with
  | nil =>
    simp only [List.nil_append, catAll, denotes_empty_iff]
    constructor
    · intro h
      exact ⟨[], s, rfl, rfl, h⟩
    · rintro ⟨u, v, rfl, rfl, h⟩
      exact h
  | cons p ps ih =>
    simp only [List.cons_append, denotes_catAll_cons, ih]
    constructor
    · rintro ⟨u, _, rfl, hp, v, w, rfl, hps, hqs⟩
      exact ⟨u ++ v, w, by simp, ⟨u, v, rfl, hp, hps⟩, hqs⟩
    · rintro ⟨_, w, rfl, ⟨u, v, rfl, hp, hps⟩, hqs⟩
      exact ⟨u, v ++ w, by simp, hp, v, w, rfl, hps, hqs⟩

theorem denotes_single_iff (hf : f.ignoreCase = false) {c : Char} {s : Text} :
    Denotes f (single c) s ↔ s = [c] := by
  rw [single, denotes_one_iff]
  constructor
  · rintro ⟨d, hd, rfl⟩
    obtain rfl : d = c := by simpa [CharTest.holds, ClassItem.holds, hf] using hd
    rfl
  · rintro rfl
    exact ⟨c, by simp [CharTest.holds, ClassItem.holds, hf], rfl⟩

theorem denotes_literal_iff (hf : f.ignoreCase = false) {t s : Text} :
    Denotes f (catAll (literal t)) s ↔ s = t := by
  unfold literal
  induction t generalizing s with
  | nil => exact denotes_empty_iff
  | cons c t ih =>
    rw [List.map_cons, denotes_catAll_cons]
    constructor
    · rintro ⟨u, v, rfl, hu, hv⟩
      rw [(denotes_single_iff hf).1 hu, ih.1 hv]
      rfl
    · rintro rfl
      exact ⟨[c], t, rfl, (denotes_single_iff hf).2 rfl, ih.2 rfl⟩

theorem denotes_anything_iff (hf : f.dotAll = false) {s : Text} : Denotes f anything s ↔ '\n' ∉ s := by
  have hdot : ∀ c, CharTest.any.holds f c = true ↔ c ≠ '\n' := by
    intro c
    simp [CharTest.holds, hf]
  rw [anything, denotes_rep_iff]
  constructor
  · rintro ⟨ts, rfl, -, -, hts⟩ hmem
    obtain ⟨t, ht, hfeed⟩ := List.mem_flatten.1 hmem
    obtain ⟨c, hc, rfl⟩ := denotes_one_iff.1 (hts t ht)
    exact (hdot c).1 hc (List.mem_singleton.1 hfeed).symm
  · intro hs
    refine ⟨s.map fun c => [c], by simp [← List.flatMap_def], Nat.zero_le _, by simp, ?_⟩
    intro t ht
    obtain ⟨c, hc, rfl⟩ := List.mem_map.1 ht
    refine denotes_one_iff.2 ⟨c, (hdot c).2 ?_, rfl⟩
    rintro rfl
    exact hs hc

/-! ### Runs -/

private theorem tries_one (t : CharTest) : Tries ((one t).run f) (Denotes f (one t)) := by
  intro k c
  obtain ⟨offset, before, rest⟩ := c
  simp only [denotes_one_iff]
  cases rest with
  | nil =>
    constructor
    · intro h
      cases h
    · rintro ⟨t', r, hrest, ⟨x, -, rfl⟩, -⟩
      cases hrest
  | cons x s =>
    have hpast : (one t).run f k ⟨offset, before, x :: s⟩ =
        (if t.holds f x then some ⟨offset + 1, some x, s⟩ else none : Option Cursor).bind k := rfl
    rw [hpast]
    constructor
    · intro h
      split at h
      · rename_i hx
        exact ⟨[x], s, rfl, ⟨x, hx, rfl⟩, h⟩
      · cases h
    · rintro ⟨t', r, hrest, ⟨y, hy, rfl⟩, hk⟩
      obtain ⟨rfl, rfl⟩ : x = y ∧ s = r := by simpa using hrest
      rw [if_pos hy]
      exact hk

private theorem tries_alt {p q : Pattern} (hp : Tries (p.run f) (Denotes f p)) (hq : Tries (q.run f) (Denotes f q)) :
    Tries ((alt p q).run f) (Denotes f (alt p q)) := by
  intro k c
  have hor : ((alt p q).run f k c).isSome = true ↔ (p.run f k c).isSome = true ∨ (q.run f k c).isSome = true := by
    cases hfirst : p.run f k c <;> simp [run, hfirst]
  rw [hor, hp, hq]
  simp only [denotes_alt_iff]
  constructor
  · rintro (⟨t, r, hrest, ht, hk⟩ | ⟨t, r, hrest, ht, hk⟩)
    · exact ⟨t, r, hrest, .inl ht, hk⟩
    · exact ⟨t, r, hrest, .inr ht, hk⟩
  · rintro ⟨t, r, hrest, ht | ht, hk⟩
    · exact .inl ⟨t, r, hrest, ht, hk⟩
    · exact .inr ⟨t, r, hrest, ht, hk⟩

private theorem tries_cat {p q : Pattern} (hp : Tries (p.run f) (Denotes f p)) (hq : Tries (q.run f) (Denotes f q)) :
    Tries ((cat p q).run f) (Denotes f (cat p q)) := by
  intro k c
  have hcat : (cat p q).run f k c = p.run f (q.run f k) c := by rw [run]
  rw [hcat, hp]
  simp only [denotes_cat_iff]
  constructor
  · rintro ⟨u, r, hrest, hu, hk⟩
    obtain ⟨v, r', hr, hv, hk⟩ := (hq _ _).1 hk
    obtain rfl : r = v ++ r' := hr
    rw [Cursor.behind_behind] at hk
    exact ⟨u ++ v, r', by rw [hrest, List.append_assoc], ⟨u, v, rfl, hu, hv⟩, hk⟩
  · rintro ⟨_, r, hrest, ⟨u, v, rfl, hu, hv⟩, hk⟩
    rw [List.append_assoc] at hrest
    refine ⟨u, v ++ r, hrest, hu, (hq _ _).2 ⟨v, r, rfl, hv, ?_⟩⟩
    rwa [Cursor.behind_behind]

/-- The rounds that have to be made, and further ones as long as each takes something. -/
private theorem denotes_rep_iff_reaches {how : Appetite} {least : Nat} {most : Option Nat} {p : Pattern}
    (hle : ∀ m, most = some m → least ≤ m) (k : Cont) (c : Cursor) :
    (∃ t r, c.rest = t ++ r ∧ Denotes f (rep how least most p) t ∧ (k (c.behind t r)).isSome = true) ↔
      ∃ (ts : List Text) (r : Text), ts.length = least ∧ (∀ t ∈ ts, Denotes f p t) ∧ c.rest = ts.flatten ++ r ∧
        Reaches (Denotes f p) k (most.map (· - least)) (c.behind ts.flatten r) := by
  simp only [denotes_rep_iff]
  constructor
  · rintro ⟨_, r, hrest, ⟨ts, rfl, hleast, hmost, hts⟩, hk⟩
    have hsplit : (ts.take least).flatten ++ ((ts.drop least).filter (· ≠ [])).flatten = ts.flatten := by
      rw [List.flatten_filter_ne_nil, ← List.flatten_append, List.take_append_drop]
    rw [← hsplit, List.append_assoc] at hrest
    refine ⟨ts.take least, ((ts.drop least).filter (· ≠ [])).flatten ++ r, List.length_take_of_le hleast, ?_, hrest,
      (ts.drop least).filter (· ≠ []), r, ?_, ?_, rfl, ?_⟩
    · intro t ht
      exact hts t (List.mem_of_mem_take ht)
    · intro m hm
      obtain ⟨m', hm', rfl⟩ := Option.map_eq_some_iff.1 hm
      have hlen := hmost m' hm'
      apply Nat.le_trans (List.length_filter_le _ _)
      rw [List.length_drop]
      omega
    · intro t ht
      obtain ⟨hmem, hne⟩ := List.mem_filter.1 ht
      exact ⟨by simpa using hne, hts t (List.mem_of_mem_drop hmem)⟩
    · rwa [Cursor.behind_behind, hsplit]
  · rintro ⟨ts, r, hlen, hts, hrest, ts', r', hmost, hts', hr, hk⟩
    obtain rfl : r = ts'.flatten ++ r' := hr
    rw [Cursor.behind_behind, ← List.flatten_append] at hk
    refine ⟨(ts ++ ts').flatten, r', by simp [hrest], ⟨ts ++ ts', rfl, by simp [hlen], ?_, ?_⟩, hk⟩
    · intro m hm
      have hm' := hle m hm
      have hlen' := hmost (m - least) (by rw [hm]; rfl)
      rw [List.length_append]
      omega
    · intro t ht
      rcases List.mem_append.1 ht with ht | ht
      · exact hts t ht
      · exact (hts' t ht).2

private theorem tries_rep {how : Appetite} {least : Nat} {most : Option Nat} {p : Pattern} (hhow : how ≠ .possessive)
    (hle : ∀ m, most = some m → least ≤ m) (hp : Tries (p.run f) (Denotes f p)) :
    Tries ((rep how least most p).run f) (Denotes f (rep how least most p)) := by
  intro k c
  have hrun : (rep how least most p).run f k c = exactly (p.run f) least
      (fun c => further (how == .lazy) (p.run f) k (c.rest.length + 2) (most.map (· - least)) none c) c := by
    rw [run]
    cases how with
    | possessive => exact absurd rfl hhow
    | greedy => rfl
    | lazy => rfl
  rw [hrun, isSome_exactly_iff hp, denotes_rep_iff_reaches hle]
  have hfurther : ∀ c : Cursor, (further (how == .lazy) (p.run f) k (c.rest.length + 2) (most.map (· - least)) none
      c).isSome = true ↔ Reaches (Denotes f p) k (most.map (· - least)) c := by
    intro c
    exact isSome_further_iff hp _ (by omega) (by simp)
  simp only [hfurther]

/-- A pattern succeeds at a place if and only if a text that it denotes stands there and the rest matches behind it. -/
theorem tries_of_isRegular {p : Pattern} (hp : p.isRegular = true) : Tries (p.run f) (Denotes f p) := by
  induction p with
  | empty =>
    intro k c
    simp only [denotes_empty_iff]
    constructor
    · intro hk
      exact ⟨[], c.rest, rfl, rfl, hk⟩
    · rintro ⟨t, r, hrest, rfl, hk⟩
      obtain rfl : c.rest = r := hrest
      exact hk
  | one t => exact tries_one t
  | anchor a => cases hp
  | cat p q ihp ihq =>
    rw [isRegular, Bool.and_eq_true] at hp
    exact tries_cat (ihp hp.1) (ihq hp.2)
  | alt p q ihp ihq =>
    rw [isRegular, Bool.and_eq_true] at hp
    exact tries_alt (ihp hp.1) (ihq hp.2)
  | group p ih =>
    intro k c
    rw [run, ih hp]
    simp only [denotes_group_iff]
  | rep how least most p ih =>
    rw [isRegular, Bool.and_eq_true, Bool.and_eq_true] at hp
    obtain ⟨⟨hhow, hmost⟩, hp⟩ := hp
    refine tries_rep (by simpa using hhow) ?_ (ih hp)
    rintro m rfl
    simpa using hmost

end Pattern

namespace Regex

open Pattern

/-- A regular pattern matches the whole of a text if and only if it denotes the text. -/
theorem fullMatch_iff {r : Regex} (hr : r.body.isRegular = true) (s : Text) :
    r.fullMatch s = true ↔ Denotes r.flags r.body s := by
  unfold fullMatch
  rw [tries_of_isRegular hr]
  constructor
  · rintro ⟨t, rest, hs, ht, hk⟩
    obtain rfl : s = t ++ rest := hs
    have hrest : rest = [] := by
      unfold Cursor.behind at hk
      split at hk
      · rename_i hempty
        exact List.isEmpty_iff.1 hempty
      · cases hk
    rwa [hrest, List.append_nil]
  · intro h
    exact ⟨s, [], (List.append_nil s).symm, h, rfl⟩

end Regex

end CallHoist
