import CallHoist.SExpr.Reader

/-!
# Texts that read as expressions

`Reads w es r` says that in the middle of any list the reader takes `w` for the expressions `es` and goes on with `r`
behind it. The text `r` is there because an atom ends only at what follows it. Such texts can be put one after another
(`Reads.append`) and between parentheses (`Reads.list`).

A text that reads as expressions by itself does so in the middle of a list too, if a line feed is put behind it to end
an atom or a comment (`reads_of_readAll`). For this the two runs of the reader are kept side by side: they go through
the same states, but that in the second run what was read before stands below, and all offsets are moved.
-/

namespace CallHoist.SExpr

/-- In the middle of any list with no apostrophe waiting, the text stands for the expressions in front of `r`. -/
def Reads (w : Text) (es : List SExpr) (r : Text) : Prop :=
  ∀ offset before outer, ofTokens ⟨before, []⟩ outer (tokensFrom .nothing offset (w ++ r)) =
    ofTokens ⟨es.reverse ++ before, []⟩ outer (tokensFrom .nothing (offset + w.length) r)

theorem tokensFrom_cons (w : Within) (offset : Nat) (c : Char) (s : Text) :
    tokensFrom w offset (c :: s) = (next w offset c s).1 ++ tokensFrom (next w offset c s).2 (offset + 1) s := rfl

namespace Reads

variable {w w' r : Text} {es es' : List SExpr}

theorem nil (r : Text) : Reads [] [] r := by
  intro offset before outer
  rfl

theorem append (h : Reads w es (w' ++ r)) (h' : Reads w' es' r) : Reads (w ++ w') (es ++ es') r := by
  intro offset before outer
  rw [List.append_assoc, h, h', List.length_append, Nat.add_assoc, List.reverse_append, List.append_assoc]

/-- A value by itself, and the token that it is read from. -/
theorem of_value {e : SExpr}
    (h : ∀ offset, tokensFrom .nothing offset (w ++ r) = .value e :: tokensFrom .nothing (offset + w.length) r) :
    Reads w [e] r := by
  intro offset before outer
  rw [h]
  rfl

theorem list (h : Reads w es (')' :: r)) : Reads ('(' :: (w ++ [')'])) [.list es] r := by
  intro offset before outer
  have hopen : ofTokens ⟨before, []⟩ outer (tokensFrom .nothing offset ('(' :: (w ++ [')']) ++ r)) =
      ofTokens .none ((.round, ⟨before, []⟩) :: outer) (tokensFrom .nothing (offset + 1) (w ++ ')' :: r)) := by
    rw [List.cons_append, List.append_assoc]
    rfl
  have hclose : ∀ k, ofTokens ⟨es.reverse ++ [], []⟩ ((.round, ⟨before, []⟩) :: outer)
        (tokensFrom .nothing k (')' :: r)) =
      ofTokens ⟨SExpr.list es :: before, []⟩ outer (tokensFrom .nothing (k + 1) r) := by
    intro k
    show ofTokens ⟨SExpr.list (es.reverse ++ []).reverse :: before, []⟩ outer (tokensFrom .nothing (k + 1) r) = _
    rw [List.append_nil, List.reverse_reverse]
  have hlength : offset + 1 + w.length + 1 = offset + ('(' :: (w ++ [')'])).length := by
    rw [List.length_cons, List.length_append, List.length_singleton]
    omega
  have hinside : ofTokens .none ((.round, ⟨before, []⟩) :: outer)
      (tokensFrom .nothing (offset + 1) (w ++ ')' :: r)) = _ := h (offset + 1) [] ((.round, ⟨before, []⟩) :: outer)
  rw [hopen, hinside, hclose, hlength]
  rfl

theorem readAll_eq (h : Reads w es []) : readAll w = .ok es := by
  have hrun := h 0 [] []
  rw [List.append_nil, List.append_nil] at hrun
  show ofTokens ⟨[], []⟩ [] (tokensFrom .nothing 0 w) = _
  rw [hrun]
  show Except.ok es.reverse.reverse = _
  rw [List.reverse_reverse]

end Reads

theorem read_of_readAll {w : Text} {e : SExpr} (h : readAll w = .ok [e]) : read w = .ok e := by
  rw [read, h]

/-! ### Blanks and names -/

theorem begin_of_blank {c : Char} (hc : isAsciiSpace c) (offset : Nat) (s : Text) :
    begin offset c s = ([], .nothing) := by
  unfold begin
  split
  all_goals first | exact absurd hc (by decide) | rw [if_pos hc]

theorem reads_blank {c : Char} (hc : isAsciiSpace c) (r : Text) : Reads [c] [] r := by
  intro offset before outer
  have hnext : next .nothing offset c r = ([], .nothing) := begin_of_blank hc offset r
  rw [List.singleton_append, tokensFrom_cons, hnext]
  rfl

/-- The characters of an atom that stand for themselves wherever they are in it. -/
def isPlain (c : Char) : Bool := !endsAtom c && c != '\\' && c != '\''

private theorem isPlain_cases {c : Char} (hc : isPlain c) : endsAtom c = false ∧ c ≠ '\\' ∧ c ≠ '\'' := by
  simpa [isPlain, and_assoc] using hc

theorem begin_of_plain {c : Char} (hc : isPlain c) (offset : Nat) (s : Text) :
    begin offset c s = ([], .atom [c]) := by
  have hblank : isAsciiSpace c = false := by
    have hends := (isPlain_cases hc).1
    rw [endsAtom, Bool.or_eq_false_iff] at hends
    exact hends.1
  unfold begin
  split
  all_goals first | exact absurd hc (by decide) | rw [hblank]; rfl

private theorem next_atom_of_plain {c : Char} (hc : isPlain c) (read : Text) (offset : Nat) (s : Text) :
    next (.atom read) offset c s = ([], .atom (c :: read)) := by
  obtain ⟨hends, hescape, -⟩ := isPlain_cases hc
  simp [next, hends, hescape]

private theorem tokensFrom_atom {w : Text} (hw : w.all isPlain) (read : Text) (offset : Nat) (r : Text) :
    tokensFrom (.atom read) offset (w ++ r) = tokensFrom (.atom (w.reverse ++ read)) (offset + w.length) r := by
  induction w generalizing read offset with
  | nil => rfl
  | cons c w ih =>
    rw [List.all_cons, Bool.and_eq_true] at hw
    rw [List.cons_append, tokensFrom_cons, next_atom_of_plain hw.1, List.nil_append, ih hw.2, List.length_cons,
      List.reverse_cons, List.append_assoc, Nat.add_assoc, Nat.add_comm 1]
    rfl

/-- What ends an atom is a token, or begins one, as it would be without the atom. -/
private theorem tokensFrom_atom_of_ends {d : Char} (hd : endsAtom d) (read : Text) (offset : Nat) (s : Text) :
    tokensFrom (.atom read) offset (d :: s) = .value (ofAtom read.reverse) :: tokensFrom .nothing offset (d :: s) := by
  simp [tokensFrom_cons, next, hd]

/-- An atom of plain characters in front of what ends it. -/
theorem reads_atom {w : Text} (hne : w ≠ []) (hw : w.all isPlain) {d : Char} (hd : endsAtom d)
    (r : Text) : Reads w [ofAtom w] (d :: r) := by
  apply Reads.of_value
  intro offset
  cases w with
  | nil => exact absurd rfl hne
  | cons c w =>
    rw [List.all_cons, Bool.and_eq_true] at hw
    have hnext : next .nothing offset c (w ++ d :: r) = ([], .atom [c]) := begin_of_plain hw.1 offset _
    rw [List.cons_append, tokensFrom_cons, hnext, List.nil_append, tokensFrom_atom hw.2, tokensFrom_atom_of_ends hd,
      List.reverse_append, List.reverse_reverse, List.length_cons, Nat.add_assoc, Nat.add_comm 1]
    rfl

/-- Whether a text is a symbol in front of whatever ends it. -/
def isName (w : Text) : Bool :=
  w != [] && w.all isPlain && w != "nil".toList && w != ['t'] && (Literal.int? w).isNone && (Literal.double? w).isNone

theorem reads_symbol {w : Text} (hw : isName w) {d : Char} (hd : endsAtom d) (r : Text) :
    Reads w [.symbol w] (d :: r) := by
  simp only [isName, Bool.and_eq_true, bne_iff_ne, Option.isNone_iff_eq_none] at hw
  obtain ⟨⟨⟨⟨⟨hne, hplain⟩, hnil⟩, ht⟩, hint⟩, hdouble⟩ := hw
  have hsymbol : ofAtom w = .symbol w := by
    simp [ofAtom, ht, hint, hdouble, show w ≠ ['n', 'i', 'l'] from hnil]
  have hatom := reads_atom hne hplain hd r
  rwa [hsymbol] at hatom

/-- A list that begins with a name. -/
theorem reads_tagged {opening tag w r : Text} {es : List SExpr} (hopening : opening = '(' :: tag) (htag : isName tag)
    (hends : ∃ d s, w ++ ')' :: r = d :: s ∧ endsAtom d) (h : Reads w es (')' :: r)) :
    Reads (opening ++ w ++ [')']) [.list (.symbol tag :: es)] r := by
  obtain ⟨d, s, hnext, hd⟩ := hends
  have hname : Reads tag [.symbol tag] (w ++ ')' :: r) := by
    rw [hnext]
    exact reads_symbol htag hd s
  subst hopening
  exact (hname.append h).list

theorem reads_tagged_of_blank {opening tag w r : Text} {es : List SExpr} (hopening : opening = '(' :: (tag ++ [' ']))
    (htag : isName tag) (h : Reads w es (')' :: r)) : Reads (opening ++ w ++ [')']) [.list (.symbol tag :: es)] r := by
  have hblank : Reads ([' '] ++ w) ([] ++ es) (')' :: r) := (reads_blank (by decide) _).append h
  have hlist := reads_tagged rfl htag ⟨' ', w ++ ')' :: r, rfl, by decide⟩ hblank
  have htext : opening ++ w ++ [')'] = '(' :: tag ++ ([' '] ++ w) ++ [')'] := by
    simp [hopening]
  rw [htext]
  exact hlist

/-! ### A text in the middle of a list -/

/-- A token of a text that stands at offset `n` in front of `x`. -/
def Token.moved (n : Nat) (x : Text) : Token → Token
  | closing b rest => closing b (rest ++ x)
  | apostrophe offset => apostrophe (offset + n)
  | t => t

private theorem begin_moved (n : Nat) (x : Text) (offset : Nat) (c : Char) (s : Text) :
    begin (offset + n) c (s ++ x) = ((begin offset c s).1.map (Token.moved n x), (begin offset c s).2) := by
  unfold begin
  split <;> rfl

private theorem next_moved (n : Nat) (x : Text) (w : Within) (offset : Nat) (c : Char) (s : Text) :
    next w (offset + n) c (s ++ x) = ((next w offset c s).1.map (Token.moved n x), (next w offset c s).2) := by
  cases w with
  | nothing => exact begin_moved n x offset c s
  | comment => rfl
  | string read =>
    simp only [next]
    split
    · rfl
    · split <;> rfl
  | stringEscape read => rfl
  | atom read =>
    simp only [next]
    split
    · rw [begin_moved]
      rfl
    · split <;> rfl
  | atomEscape read => rfl

/-- What is read of a list when `before` was read of it already and all offsets are moved by `n`. -/
def Items.moved (n : Nat) (before : List SExpr) (items : Items) : Items :=
  ⟨items.read ++ before, items.apostrophes.map (· + n)⟩

private theorem Items.moved_add (n : Nat) (before : List SExpr) (items : Items) (e : SExpr) :
    (items.add e).moved n before = (items.moved n before).add e := by
  simp [Items.moved, Items.add, List.foldl_map]

section Lifted

variable (n : Nat) (before : List SExpr) (around : List (Bracket × Items))

/-- The state of a run in the middle of a list that belongs to a state of the run on the text by itself. -/
def lifted : Items → List (Bracket × Items) → Items × List (Bracket × Items)
  | items, [] => (items.moved n before, around)
  | items, (b, i) :: outer => (items.moved n [], (b, (lifted i outer).1) :: (lifted i outer).2)

private theorem lifted_add (items : Items) (outer : List (Bracket × Items)) (e : SExpr) :
    lifted n before around (items.add e) outer =
      ((lifted n before around items outer).1.add e, (lifted n before around items outer).2) := by
  cases outer with
  | nil => rw [lifted, lifted, Items.moved_add]
  | cons i outer => rw [lifted, lifted, Items.moved_add]

variable {n before around} {x : Text} {es : List SExpr} {result : Except ReadError (List SExpr)}

/-- If the two runs agree behind a token, they agree in front of it. -/
private theorem ofTokens_moved_cons {t : Token} {us us' : List Token}
    (hrest : ∀ items outer, ofTokens items outer us = .ok es →
      ofTokens (lifted n before around items outer).1 (lifted n before around items outer).2 us' = result)
    {items : Items} {outer : List (Bracket × Items)} (h : ofTokens items outer (t :: us) = .ok es) :
    ofTokens (lifted n before around items outer).1 (lifted n before around items outer).2 (t.moved n x :: us') =
      result := by
  cases t with
  | opening b => exact hrest _ _ h
  | closing b text =>
    obtain ⟨read, apostrophes⟩ := items
    cases apostrophes with
    | cons offset apostrophes => cases h
    | nil =>
      cases outer with
      | nil => cases h
      | cons top outer =>
        obtain ⟨a, i⟩ := top
        have hstep : (if a = b then ofTokens (i.add (a.enclose read.reverse)) outer us
            else .error (.notClosed a.closer (some b.closer))) = .ok es := h
        by_cases hab : a = b
        · rw [if_pos hab] at hstep
          have hlift := hrest _ _ hstep
          rw [lifted_add] at hlift
          show (if a = b then ofTokens ((lifted n before around i outer).1.add (a.enclose (read ++ []).reverse))
            (lifted n before around i outer).2 us' else _) = result
          rw [if_pos hab, List.append_nil, hlift]
        · rw [if_neg hab] at hstep
          cases hstep
  | apostrophe offset =>
    have hlift := hrest _ _ h
    cases outer with
    | nil => exact hlift
    | cons i outer => exact hlift
  | value e =>
    have hlift := hrest _ _ h
    rw [lifted_add] at hlift
    exact hlift
  | fault e => cases h

private theorem ofTokens_moved {ts us us' : List Token}
    (hrest : ∀ items outer, ofTokens items outer us = .ok es →
      ofTokens (lifted n before around items outer).1 (lifted n before around items outer).2 us' = result)
    {items : Items} {outer : List (Bracket × Items)} (h : ofTokens items outer (ts ++ us) = .ok es) :
    ofTokens (lifted n before around items outer).1 (lifted n before around items outer).2
      (ts.map (Token.moved n x) ++ us') = result := by
  induction ts generalizing items outer with
  | nil => exact hrest items outer h
  | cons t ts ih => exact ofTokens_moved_cons (fun items outer => ih) h

private theorem of_ofTokens_nil {items : Items} {outer : List (Bracket × Items)}
    (h : ofTokens items outer [] = .ok es) : items = ⟨es.reverse, []⟩ ∧ outer = [] := by
  obtain ⟨read, apostrophes⟩ := items
  cases apostrophes with
  | cons offset apostrophes => cases h
  | nil =>
    cases outer with
    | cons i outer => cases h
    | nil =>
      have hread : Except.ok read.reverse = .ok es := h
      rw [← Except.ok.inj hread, List.reverse_reverse]
      exact ⟨rfl, rfl⟩

/-- Where a text may end, a line feed ends what the end of the text would. -/
private theorem tokensFrom_feed {w : Within} {items : Items} {outer : List (Bracket × Items)}
    (h : ofTokens items outer w.atEnd = .ok es) (offset : Nat) (r : Text) :
    tokensFrom w offset ('\n' :: r) = w.atEnd.map (Token.moved n x) ++ tokensFrom .nothing (offset + 1) r := by
  cases w with
  | nothing => rfl
  | comment => rfl
  | string read => cases h
  | stringEscape read => cases h
  | atom read => rfl
  | atomEscape read => cases h

private theorem ofTokens_lifted {w r : Text} {v : Within} {offset : Nat} {items : Items}
    {outer : List (Bracket × Items)} (h : ofTokens items outer (tokensFrom v offset w) = .ok es) :
    ofTokens (lifted n before around items outer).1 (lifted n before around items outer).2
        (tokensFrom v (offset + n) (w ++ '\n' :: r)) =
      ofTokens ⟨es.reverse ++ before, []⟩ around (tokensFrom .nothing (offset + n + (w.length + 1)) r) := by
  induction w generalizing v offset items outer with
  | nil =>
    rw [tokensFrom] at h
    rw [List.nil_append, tokensFrom_feed (n := n) (x := r) h]
    rw [← List.append_nil v.atEnd] at h
    refine ofTokens_moved (fun items outer hend => ?_) h
    obtain ⟨rfl, rfl⟩ := of_ofTokens_nil hend
    rfl
  | cons c w ih =>
    rw [tokensFrom_cons] at h
    rw [List.cons_append, tokensFrom_cons, next_moved]
    refine ofTokens_moved (fun items outer hrest => ?_) h
    have hoffset : offset + n + 1 = offset + 1 + n := by omega
    have hlength : offset + n + ((c :: w).length + 1) = offset + 1 + n + (w.length + 1) := by
      rw [List.length_cons]
      omega
    rw [hoffset, hlength]
    exact ih hrest

end Lifted

/-- What reads as expressions by itself reads so in front of a line feed in the middle of a list. -/
theorem reads_of_readAll {w : Text} {es : List SExpr} (h : readAll w = .ok es) (r : Text) :
    Reads (w ++ ['\n']) es r := by
  intro offset before outer
  have hlift : ofTokens (lifted offset before outer .none []).1 (lifted offset before outer .none []).2
      (tokensFrom .nothing (0 + offset) (w ++ '\n' :: r)) =
    ofTokens ⟨es.reverse ++ before, []⟩ outer (tokensFrom .nothing (0 + offset + (w.length + 1)) r) :=
    ofTokens_lifted h
  rw [Nat.zero_add] at hlift
  rw [List.append_assoc, List.length_append]
  exact hlift

end CallHoist.SExpr
