import CallHoist.Proofs.Grammar.Lexeme
import CallHoist.Proofs.Text.Occurrence
import CallHoist.Region

/-!
# Where a region begins

The search for the opener finds the leftmost occurrence of `let`, spacing and a brace (`Region.search_of_leftmost`), and
none just if there is no such occurrence. So what comes behind the first opener does not move it, and the region of a
source is told by the front up to the opener and by the last breadcrumb behind that (`Region.exists_isolate`).
-/

namespace CallHoist

open Text

namespace Pattern

private theorem further_succ (body : Cont → Cont) (k : Cont) (n : Nat) {last : Option Nat} {c : Cursor}
    (h : last ≠ some c.offset) :
    further false body k (n + 1) none last c = (body (further false body k n none (some c.offset)) c).or (k c) := by
  simp only [further, Option.map_none, beq_iff_eq, Bool.or_eq_true, h, reduceCtorEq, or_self, ↓reduceIte,
    Bool.false_eq_true]
  cases body (further false body k n none (some c.offset)) c <;> rfl

/-- A greedy repetition of a test takes all that passes, where nothing that passes can be given to what follows. -/
private theorem further_test {test : Char → Bool} {k : Cont} (hk : ∀ c : Cursor, leads test c.rest = true → k c = none)
    {b s : Text} (hb : b.all test = true) (hs : leads test s = false) {fuel : Nat} (hfuel : b.length < fuel)
    {last : Option Nat} (offset : Nat) (before : Option Char) (hlast : last ≠ some offset) :
    ∃ before', further false (fun k c => (c.past? test).bind k) k fuel none last ⟨offset, before, b ++ s⟩ =
      k ⟨offset + b.length, before', s⟩ := by
  obtain ⟨n, rfl⟩ : ∃ n, fuel = n + 1 := ⟨fuel - 1, by omega⟩
  induction b generalizing n last offset before with
  | nil =>
    have hpast : Cursor.past? ⟨offset, before, s⟩ test = none := by
      cases s with
      | nil => rfl
      | cons x s => simpa [Cursor.past?] using hs
    refine ⟨before, ?_⟩
    rw [List.nil_append, further_succ _ _ _ hlast, hpast]
    rfl
  | cons x b ih =>
    -- what is given back begins with a character that passes, so the alternative without this round fails
    rw [List.all_cons, Bool.and_eq_true] at hb
    obtain ⟨m, rfl⟩ : ∃ m, n = m + 1 := ⟨n - 1, by simp at hfuel; omega⟩
    have hoffset : some offset ≠ some (offset + 1) := by simp
    obtain ⟨before', hmore⟩ := ih hb.2 (offset + 1) (some x) hoffset m (by simpa using hfuel)
    have hpast : Cursor.past? ⟨offset, before, x :: (b ++ s)⟩ test = some ⟨offset + 1, some x, b ++ s⟩ := by
      simp [Cursor.past?, hb.1]
    have hhere : k ⟨offset, before, x :: (b ++ s)⟩ = none := hk _ hb.1
    have hnext : offset + (x :: b).length = offset + 1 + b.length := by
      rw [List.length_cons]
      omega
    refine ⟨before', ?_⟩
    rw [List.cons_append, further_succ _ _ _ hlast, hpast, Option.bind_some, hmore, hhere, Option.or_none, hnext]

/-- A greedy repetition of a test in front of what matches nothing that passes. -/
theorem run_rep_test {f : Flags} {test : CharTest} {k : Cont}
    (hk : ∀ c : Cursor, leads (test.holds f) c.rest = true → k c = none) {b s : Text}
    (hb : b.all (test.holds f) = true) (hs : leads (test.holds f) s = false) (offset : Nat) (before : Option Char) :
    ∃ before', (rep .greedy 0 none (one test)).run f k ⟨offset, before, b ++ s⟩ =
      k ⟨offset + b.length, before', s⟩ := by
  refine further_test hk hb hs ?_ offset before (by simp)
  show b.length < (b ++ s).length + 2
  rw [List.length_append]
  omega

theorem run_cat (f : Flags) (p q : Pattern) (k : Cont) : (cat p q).run f k = p.run f (q.run f k) := by rw [run]

theorem run_single (f : Flags) (hf : f.ignoreCase = false) (d : Char) (k : Cont) (c : Cursor) :
    (single d).run f k c = (c.past? (· == d)).bind k := by
  have hholds : (CharTest.oneOf false [.single d]).holds f = (· == d) := by
    funext x
    simp [CharTest.holds, ClassItem.holds, hf]
  rw [single, run, hholds]

end Pattern

namespace Region

/-- `let`, any spacing, an opening brace. -/
inductive IsOpener : Text → Prop where
  | mk {b : Text} : b.all isSpacing = true → IsOpener ('l' :: 'e' :: 't' :: (b ++ ['{']))

def HasOpener (s : Text) : Prop := ∃ n, IsOpener n ∧ n <:+: s

theorem IsOpener.not_mem {n : Text} (hn : IsOpener n) {c : Char} (hc : c ∉ "let\x7b".toList)
    (hspace : isSpacing c = false) : c ∉ n := by
  obtain @⟨b, hb⟩ := hn
  intro h
  have hcb : c ∉ b := not_mem_of_all hb hspace
  refine hc ?_
  simp only [List.mem_cons, List.mem_append, hcb, false_or] at h
  simpa using h

theorem IsOpener.infix_of_append_left {n x y : Text} (hn : IsOpener n) (hx : 'l' ∉ x) (h : n <:+: x ++ y) :
    n <:+: y := by
  obtain ⟨-⟩ := hn
  exact Text.infix_of_append_left h hx

theorem IsOpener.infix_of_append_right {n x y : Text} (hn : IsOpener n) (hy : '{' ∉ y) (h : n <:+: x ++ y) :
    n <:+: x := by
  obtain ⟨-⟩ := hn
  exact Text.infix_of_append_right (n := 'l' :: 'e' :: 't' :: _) h hy

theorem IsOpener.not_infix {n x : Text} (hn : IsOpener n) (hx : '{' ∉ x) : ¬ n <:+: x := by
  obtain ⟨-⟩ := hn
  exact fun h => hx (h.subset (by simp))

theorem read_opener_source : Regex.read opener.source = .ok opener := by
  have h := read_opener
  cases hr : Regex.read opener.source with
  | error err =>
    rw [hr] at h
    cases h
  | ok o =>
    rw [hr] at h
    exact congrArg Except.ok (Option.some.inj h)

/-! ### The opener at a place -/

private def spacing : Pattern := .rep .greedy 0 none (.one (.oneOf false [.category .space false]))

private def brace : Cont := (Pattern.single '{').run ⟨false, false⟩ some

private theorem matchAt?_opener (c : Cursor) :
    opener.matchAt? c = (c.past? (· == 'l')).bind fun c => (c.past? (· == 'e')).bind fun c =>
      (c.past? (· == 't')).bind (spacing.run ⟨false, false⟩ brace) := by
  show (Pattern.cat (.single 'l') (.cat (.single 'e') (.cat (.single 't') (.cat spacing (.single '{'))))).run
    ⟨false, false⟩ some c = _
  rw [Pattern.run_cat, Pattern.run_single _ rfl]
  congr 1
  funext c
  rw [Pattern.run_cat, Pattern.run_single _ rfl]
  congr 1
  funext c
  rw [Pattern.run_cat, Pattern.run_single _ rfl, Pattern.run_cat]
  rfl

private theorem holds_space :
    (CharTest.oneOf false [.category .space false]).holds ⟨false, false⟩ = isSpacing := by
  funext c
  simp [CharTest.holds, ClassItem.holds, Category.holds]

private theorem run_spacing {b s : Text} (hb : b.all isSpacing = true) (hs : leads isSpacing s = false) (offset : Nat)
    (before : Option Char) :
    ∃ before', spacing.run ⟨false, false⟩ brace ⟨offset, before, b ++ s⟩ =
      brace ⟨offset + b.length, before', s⟩ := by
  refine Pattern.run_rep_test (fun c hc => ?_) (by rwa [holds_space]) (by rwa [holds_space]) offset before
  rw [holds_space] at hc
  obtain ⟨i, d, rest⟩ := c
  cases rest with
  | nil => cases hc
  | cons x rest =>
    have hx : (x == '{') = false := by
      rw [beq_eq_false_iff_ne]
      rintro rfl
      exact absurd (show isSpacing '{' = true from hc) (by decide)
    rw [brace, Pattern.run_single _ rfl, Cursor.past?]
    simp [hx]

private theorem past?_cons (test : Char → Bool) (offset : Nat) (before : Option Char) (x : Char) (s : Text) :
    Cursor.past? ⟨offset, before, x :: s⟩ test = if test x then some ⟨offset + 1, some x, s⟩ else none := rfl

theorem matchAt?_of_isOpener {n : Text} (hn : IsOpener n) (offset : Nat) (before : Option Char) (v : Text) :
    ∃ e, opener.matchAt? ⟨offset, before, n ++ v⟩ = some e ∧ e.offset = offset + n.length := by
  obtain @⟨b, hb⟩ := hn
  have hs : leads isSpacing ('{' :: v) = false := rfl
  obtain ⟨before', hrun⟩ := run_spacing hb hs (offset + 3) (some 't')
  refine ⟨⟨offset + 3 + b.length + 1, some '{', v⟩, ?_, by simp; omega⟩
  rw [matchAt?_opener]
  simp only [List.cons_append, List.append_assoc, List.nil_append, past?_cons, beq_self_eq_true, ↓reduceIte,
    Option.bind_some]
  rw [hrun, brace, Pattern.run_single _ rfl, past?_cons, beq_self_eq_true]
  rfl

private theorem exists_of_past? {test : Char → Bool} {c : Cursor} {k : Cont} {e : Cursor}
    (h : (c.past? test).bind k = some e) : ∃ x i d s, c.rest = x :: s ∧ test x = true ∧ k ⟨i, d, s⟩ = some e := by
  obtain ⟨i, d, rest⟩ := c
  cases rest with
  | nil => cases h
  | cons x s =>
    rw [past?_cons] at h
    split at h
    · exact ⟨x, i + 1, some x, s, rfl, ‹_›, h⟩
    · cases h

theorem exists_of_matchAt? {c e : Cursor} (h : opener.matchAt? c = some e) : ∃ n v, c.rest = n ++ v ∧ IsOpener n := by
  rw [matchAt?_opener] at h
  obtain ⟨x, _, _, _, hx, hl, h⟩ := exists_of_past? h
  obtain ⟨y, _, _, _, rfl, he, h⟩ := exists_of_past? h
  obtain ⟨z, i, d, s, rfl, ht, h⟩ := exists_of_past? h
  obtain ⟨b, r, rfl, hb, hr⟩ : ∃ b r, s = b ++ r ∧ b.all isSpacing = true ∧ leads isSpacing r = false :=
    ⟨_, _, List.takeWhile_append_dropWhile.symm, List.all_takeWhile, leads_dropWhile isSpacing s⟩
  obtain ⟨before', hrun⟩ := run_spacing hb hr i d
  rw [hrun, brace, Pattern.run_single _ rfl] at h
  obtain ⟨w, _, _, v, hv, hw, -⟩ := exists_of_past? h
  obtain rfl : r = w :: v := hv
  rw [hx, beq_iff_eq.1 hl, beq_iff_eq.1 he, beq_iff_eq.1 ht, beq_iff_eq.1 hw]
  exact ⟨_, v, by simp, .mk hb⟩

/-! ### The first opener -/

private theorem IsOpener.exists_cons {n : Text} (hn : IsOpener n) : ∃ r, n = 'l' :: r ∧ 'l' ∉ r := by
  obtain @⟨b, hb⟩ := hn
  refine ⟨_, rfl, fun h => ?_⟩
  simp only [List.mem_cons, List.mem_append, List.not_mem_nil, or_false] at h
  rcases h with h | h | h | h
  · exact absurd h (by decide)
  · exact absurd h (by decide)
  · exact not_mem_of_all hb (by decide) h
  · exact absurd h (by decide)

/-- No opener begins before the first one and goes on into it. -/
private theorem HasOpener.of_append {u n v n' v' : Text} (hu : u ≠ []) (hn : IsOpener n) (hn' : IsOpener n')
    (h : u ++ (n ++ v) = n' ++ v') : HasOpener u := by
  rcases List.append_eq_append_iff.1 h with ⟨a, ha, hav⟩ | ⟨a, rfl, -⟩
  · cases a with
    | nil => exact ⟨n', hn', [], [], by simp [ha]⟩
    | cons c a =>
      -- the second would have the first letter of the first inside
      obtain ⟨r, rfl, -⟩ := hn.exists_cons
      obtain ⟨r', rfl, hr'⟩ := hn'.exists_cons
      cases u with
      | nil => exact absurd rfl hu
      | cons d u =>
        obtain ⟨rfl, -⟩ := List.cons.inj hav
        obtain ⟨-, rfl⟩ := List.cons.inj ha
        simp at hr'
  · exact ⟨n', hn', (List.prefix_append n' a).isInfix⟩

private theorem matchAt?_of_not_hasOpener {u : Text} (hu : ¬ HasOpener u) (c : Cursor) (hc : c.rest = u) :
    opener.matchAt? c = none := by
  cases he : opener.matchAt? c with
  | none => rfl
  | some e =>
    obtain ⟨n, v, hv, hn⟩ := exists_of_matchAt? he
    exact absurd ⟨n, hn, (List.prefix_append n v).isInfix⟩ (hv ▸ hc ▸ hu)

theorem HasOpener.mono {u v : Text} (h : HasOpener u) (huv : u <:+: v) : HasOpener v := by
  obtain ⟨n, hn, hnu⟩ := h
  exact ⟨n, hn, hnu.trans huv⟩

private theorem searchFrom_of_not_hasOpener {s : Text} (hs : ¬ HasOpener s) (offset : Nat) (before : Option Char) :
    opener.searchFrom offset before s = none := by
  induction s generalizing offset before with
  | nil => rw [Regex.searchFrom, matchAt?_of_not_hasOpener hs _ rfl]; rfl
  | cons x s ih =>
    rw [Regex.searchFrom, matchAt?_of_not_hasOpener hs _ rfl]
    exact ih (fun h => hs (h.mono (List.suffix_cons x s).isInfix)) _ _

private theorem searchFrom_of_leftmost {u n : Text} (hu : ¬ HasOpener u) (hn : IsOpener n) (v : Text) (offset : Nat)
    (before : Option Char) :
    opener.searchFrom offset before (u ++ (n ++ v)) = some (offset + u.length, offset + u.length + n.length) := by
  induction u generalizing offset before with
  | nil =>
    obtain ⟨e, he, hoff⟩ := matchAt?_of_isOpener hn offset before v
    obtain ⟨r, rfl, -⟩ := hn.exists_cons
    rw [List.nil_append, List.cons_append, Regex.searchFrom, ← List.cons_append, he]
    simp [hoff]
  | cons x u ih =>
    have hmatch : opener.matchAt? ⟨offset, before, (x :: u) ++ (n ++ v)⟩ = none := by
      cases he : opener.matchAt? ⟨offset, before, (x :: u) ++ (n ++ v)⟩ with
      | none => rfl
      | some e =>
        obtain ⟨n', v', hv', hn'⟩ := exists_of_matchAt? he
        exact absurd (HasOpener.of_append (List.cons_ne_nil x u) hn hn' hv') hu
    rw [List.cons_append] at hmatch ⊢
    rw [Regex.searchFrom, hmatch]
    simp only
    rw [ih (fun h => hu (h.mono (List.suffix_cons x u).isInfix)), List.length_cons]
    simp only [Option.some.injEq, Prod.mk.injEq]
    omega

theorem search_of_not_hasOpener {s : Text} (hs : ¬ HasOpener s) : opener.search s = none :=
  searchFrom_of_not_hasOpener hs 0 none

/-- What comes behind the first opener is of no account for the search. -/
theorem search_of_leftmost {u n : Text} (hu : ¬ HasOpener u) (hn : IsOpener n) (v : Text) :
    opener.search (u ++ (n ++ v)) = some (u.length, u.length + n.length) := by
  rw [Regex.search, searchFrom_of_leftmost hu hn v 0 none, Nat.zero_add]

private theorem not_hasOpener_nil : ¬ HasOpener [] := by
  rintro ⟨n, hn, hinfix⟩
  obtain ⟨r, rfl, -⟩ := hn.exists_cons
  simp at hinfix

theorem exists_leftmost {s : Text} (h : HasOpener s) :
    ∃ u n v, s = u ++ (n ++ v) ∧ IsOpener n ∧ ¬ HasOpener u := by
  induction s with
  | nil => exact absurd h not_hasOpener_nil
  | cons x s ih =>
    by_cases hfront : ∃ n, IsOpener n ∧ n <+: x :: s
    · obtain ⟨n, hn, v, hv⟩ := hfront
      exact ⟨[], n, v, hv.symm, hn, not_hasOpener_nil⟩
    · have hcons : ∀ {n u : Text}, IsOpener n → u <+: s → n <:+: x :: u → n <:+: u := by
        intro n u hn hu h
        rcases List.infix_cons_iff.1 h with h | h
        · exact absurd ⟨n, hn, h.trans (List.cons_prefix_cons.2 ⟨rfl, hu⟩)⟩ hfront
        · exact h
      obtain ⟨n, hn, hns⟩ := h
      obtain ⟨u, m, v, rfl, hm, hu⟩ := ih ⟨n, hn, hcons hn (List.prefix_refl s) hns⟩
      refine ⟨x :: u, m, v, rfl, hm, ?_⟩
      rintro ⟨n', hn', hnu⟩
      exact hu ⟨n', hn', hcons hn' (List.prefix_append u _) hnu⟩

/-! ### The region -/

/-- The front of a source up to and with the first opener, and what is behind. -/
inductive Opens : Text → Text → Prop where
  | without {y : Text} : ¬ HasOpener y → Opens [] y
  | behind {u n y : Text} : ¬ HasOpener u → IsOpener n → Opens (u ++ n) y

theorem exists_opens (s : Text) : ∃ x y, s = x ++ y ∧ Opens x y := by
  by_cases h : HasOpener s
  · obtain ⟨u, n, v, rfl, hn, hu⟩ := exists_leftmost h
    exact ⟨u ++ n, v, by simp, .behind hu hn⟩
  · exact ⟨[], s, rfl, .without h⟩

/-- The front stays where it is if what is behind it gets no opener that it did not have. -/
theorem Opens.congr {x y y' : Text} (h : Opens x y) (hy : x = [] → ¬ HasOpener y → ¬ HasOpener y') : Opens x y' := by
  cases h with
  | without hs => exact .without (hy rfl hs)
  | behind hu hn => exact .behind hu hn

private theorem Opens.startIn {x y : Text} (h : Opens x y) (b : Text) :
    startIn opener b (x ++ y) = x.length + (lastIndexOf? b y).elim 0 (· + b.length) := by
  have hopened : ((opener.search (x ++ y)).map (·.2)).getD 0 = x.length := by
    cases h with
    | without hs => simp [search_of_not_hasOpener hs]
    | @behind u n _ hu hn => simp [search_of_leftmost hu hn]
  simp only [Region.startIn, hopened, List.drop_left]
  cases lastIndexOf? b y with
  | none => rfl
  | some i => exact Nat.add_assoc ..

theorem isolate_of_not_occurring {b x y : Text} (h : Opens x y) (hb : ¬ b <:+: y) :
    isolate opener b (x ++ y) = ⟨x, y⟩ := by
  rw [isolate, h.startIn, lastIndexOf?_eq_none_iff.2 hb]
  simp

private theorem isolate_of_lastIndexOf? {b x u v : Text} (h : Opens x (u ++ (b ++ v)))
    (hlast : lastIndexOf? b (u ++ (b ++ v)) = some u.length) :
    isolate opener b (x ++ (u ++ (b ++ v))) = ⟨x ++ (u ++ b), v⟩ := by
  have hcut : x ++ (u ++ (b ++ v)) = (x ++ (u ++ b)) ++ v := by simp
  have hlen : x.length + (u.length + b.length) = (x ++ (u ++ b)).length := by simp
  rw [isolate, h.startIn, hlast, Option.elim_some, hlen, hcut, List.take_left, List.drop_left]

/-- The region begins behind the last breadcrumb, if the character behind it is none of its own. -/
theorem isolate_of_last {b x u v : Text} {c : Char} (h : Opens x (u ++ (b ++ c :: v))) (hb : b ≠ []) (hc : c ∉ b)
    (hv : ¬ b <:+: v) : isolate opener b (x ++ (u ++ (b ++ c :: v))) = ⟨x ++ (u ++ b), c :: v⟩ :=
  isolate_of_lastIndexOf? h (lastIndexOf?_of_last hb hc hv u)

/-- What earlier passes have left behind the opener: nothing, or a text up to a breadcrumb. -/
def Leavings (b w : Text) : Prop := w = [] ∨ ∃ u, w = u ++ b

/-- A source is the front up to the opener, what earlier passes have left behind that, and the body. -/
theorem exists_isolate {b : Text} (hb : b ≠ []) (s : Text) :
    ∃ x w y, s = x ++ (w ++ y) ∧ Opens x (w ++ y) ∧ Leavings b w ∧ ¬ b <:+: y ∧
      isolate opener b s = ⟨x ++ w, y⟩ := by
  obtain ⟨x, y, rfl, h⟩ := exists_opens s
  cases hlast : lastIndexOf? b y with
  | none =>
    have hy := lastIndexOf?_eq_none_iff.1 hlast
    exact ⟨x, [], y, rfl, h, .inl rfl, hy, by rw [isolate_of_not_occurring h hy, List.append_nil]⟩
  | some i =>
    obtain ⟨u, v, rfl, rfl, hv⟩ := exists_of_lastIndexOf? hlast
    exact ⟨x, u ++ b, v, by simp, by simpa using h, .inr ⟨u, rfl⟩, hv hb, isolate_of_lastIndexOf? h hlast⟩

end Region

end CallHoist
