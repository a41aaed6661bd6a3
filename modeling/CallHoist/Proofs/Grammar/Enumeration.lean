import CallHoist.Proofs.Grammar.Pieces
import CallHoist.Proofs.Grammar.Start
import CallHoist.Proofs.Grammar.Whole

/-!
# A scan enumerates the matches

A scan passes over a character because it is white space, because the rule fails there or because the rule takes
nothing there. None of the three hides a match: each rule but the one for blanks begins with a character that is no
white space to any class, so it takes something or fails. Hence a scan lists non-empty matches in order, and where no
listed match is, there is no match at all (`Enumerates`). No other list does this, as a list that does is a cutting that
fits (`enumerates_iff_fits`), and there is one such cutting.

How a text falls apart at its matches does not need the rule: it goes for any matches that do not overlap
(`Spans.splits`).
-/

namespace CallHoist.Grammar

open Text Peg

/-- Pieces of a text from offset `n` on as matches: none is empty, and each starts at or after the stop of those
before it. -/
structure Spans (s : Text) (n : Nat) (ms : List Match) : Prop where
  within : ∀ m ∈ ms, (n : Int) ≤ m.start ∧ m.start < m.stop ∧ m.stop ≤ s.length
  text_eq : ∀ m ∈ ms, m.text = s.slice m.start m.stop
  ordered : ms.Pairwise fun a b => a.stop ≤ b.start

/-- Some match covers the character at an offset. -/
def Covers (ms : List Match) (i : Nat) : Prop := ∃ m ∈ ms, m.start ≤ i ∧ (i : Int) < m.stop

/-- The matches of an expression from offset `n` on, with no match at any place that they do not cover. -/
structure Enumerates (p : Peg) (s : Text) (n : Nat) (ms : List Match) : Prop extends Spans s n ms where
  matched : ∀ m ∈ ms, p.MatchesAt s m.start.toNat m.stop.toNat
  complete : ∀ i : Nat, n ≤ i → i < s.length → ¬ Covers ms i → p.run (s.drop i) = none

/-! ### One match in front of others -/

private theorem Spans.tail {s t : Text} {n i j : Nat} {ms : List Match} (h : Spans s n (⟨i, j, t⟩ :: ms)) :
    Spans s j ms := by
  have hordered := List.pairwise_cons.1 h.ordered
  constructor
  · intro m hm
    have hm' := h.within m (List.mem_cons_of_mem _ hm)
    exact ⟨hordered.1 m hm, hm'.2⟩
  · intro m hm
    exact h.text_eq m (List.mem_cons_of_mem _ hm)
  · exact hordered.2

private theorem Spans.cons {s t : Text} {n i j : Nat} {ms : List Match} (hn : n ≤ i) (hij : i < j)
    (hj : j ≤ s.length) (ht : t = s.slice i j) (h : Spans s j ms) : Spans s n (⟨i, j, t⟩ :: ms) := by
  constructor
  · intro m hm
    rcases List.mem_cons.1 hm with rfl | hm
    · simp only
      omega
    · have hm' := h.within m hm
      omega
  · intro m hm
    rcases List.mem_cons.1 hm with rfl | hm
    · exact ht
    · exact h.text_eq m hm
  · refine List.pairwise_cons.2 ⟨?_, h.ordered⟩
    intro m hm
    exact (h.within m hm).1

private theorem covers_cons {m : Match} {ms : List Match} {i : Nat} :
    Covers (m :: ms) i ↔ (m.start ≤ i ∧ (i : Int) < m.stop) ∨ Covers ms i := by
  simp [Covers]

private theorem enumerates_cons {p : Peg} {s t : Text} {n i j : Nat} {ms : List Match} :
    Enumerates p s n (⟨i, j, t⟩ :: ms) ↔
      (n ≤ i ∧ i < j ∧ j ≤ s.length ∧ t = s.slice i j) ∧ p.MatchesAt s i j ∧
        (∀ q, n ≤ q → q < i → p.run (s.drop q) = none) ∧ Enumerates p s j ms := by
  constructor
  · intro h
    have hwithin := h.within _ List.mem_cons_self
    have htext := h.text_eq _ List.mem_cons_self
    have hmatched := h.matched _ List.mem_cons_self
    simp only [Int.toNat_natCast] at hwithin htext hmatched
    have hbehind : Spans s j ms := h.toSpans.tail
    refine ⟨⟨by omega, by omega, by omega, htext⟩, hmatched, ?_, hbehind, ?_, ?_⟩
    · intro q hn hq
      refine h.complete q hn (by omega) ?_
      rw [covers_cons]
      rintro (⟨hstart, -⟩ | ⟨m, hm, hstart, -⟩)
      · simp only at hstart
        omega
      · have hm' := hbehind.within m hm
        omega
    · intro m hm
      exact h.matched m (List.mem_cons_of_mem _ hm)
    · intro q hq hlt hfree
      refine h.complete q (by omega) hlt ?_
      rw [covers_cons]
      rintro (⟨-, hstop⟩ | hcovers)
      · simp only at hstop
        omega
      · exact hfree hcovers
  · rintro ⟨⟨hn, hij, hj, ht⟩, hmatched, hbefore, h⟩
    refine ⟨h.toSpans.cons hn hij hj ht, ?_, ?_⟩
    · intro m hm
      rcases List.mem_cons.1 hm with rfl | hm
      · exact hmatched
      · exact h.matched m hm
    · intro q hq hlt hfree
      rw [covers_cons, not_or] at hfree
      by_cases hqi : q < i
      · exact hbefore q hq hqi
      · have hjq : j ≤ q := by
          have hout := hfree.1
          simp only at hout
          omega
        exact h.complete q hjq hlt hfree.2

/-! ### Matches as a cutting -/

/-- Matches that do not overlap cut the text. -/
theorem Spans.exists_cutting {x y : Text} {ms : List Match} (h : Spans (x ++ y) x.length ms) :
    ∃ k : Cutting, k.text = y ∧ k.matchesFrom x.length = ms := by
  induction ms generalizing x y with
  | nil => exact ⟨.rest y, rfl, rfl⟩
  | cons m ms ih =>
    obtain ⟨start, stop, t⟩ := m
    have hwithin := h.within _ List.mem_cons_self
    have htext := h.text_eq _ List.mem_cons_self
    simp only [List.length_append] at hwithin htext
    obtain ⟨i, rfl⟩ : ∃ i : Nat, start = (x.length + i : Nat) := ⟨start.toNat - x.length, by omega⟩
    obtain ⟨j, rfl⟩ : ∃ j : Nat, stop = (x.length + j : Nat) := ⟨stop.toNat - x.length, by omega⟩
    obtain ⟨g, u, z, rfl, rfl, rfl⟩ := exists_cut (s := y) (i := i) (j := j) (by omega) (by omega)
    have hsplit : x ++ (g ++ (u ++ z)) = ((x ++ g) ++ u) ++ z := by simp
    have hlen : x.length + (g.length + u.length) = ((x ++ g) ++ u).length := by simp
    have hu : t = u := by
      rw [htext, hsplit, hlen, slice_append (by simp), ← List.length_append, List.drop_left]
    have htail := h.tail
    rw [hsplit, hlen] at htail
    obtain ⟨k, rfl, hk⟩ := ih htail
    refine ⟨.part g u k, rfl, ?_⟩
    rw [Cutting.matchesFrom, hu, Nat.add_assoc, hlen, hk]

/-- What the rule fails at is what the scan passes over. -/
private theorem gap_iff {p : Peg} (hp : p.StartsIn isStart) {x g r : Text} :
    p.Gap g r ↔ ∀ i, x.length ≤ i → i < x.length + g.length → p.run ((x ++ (g ++ r)).drop i) = none := by
  constructor
  · intro h i hx hi
    obtain ⟨n, rfl⟩ : ∃ n, i = x.length + n := ⟨i - x.length, by omega⟩
    have hrun : p.run (g.drop n ++ r) = none := by
      refine Gap.run_eq_none hp (u := g.take n) ?_ ?_
      · rwa [List.take_append_drop]
      · rw [Ne, List.drop_eq_nil_iff]
        omega
    rwa [List.drop_length_add_append, List.drop_append_of_le_length (by omega)]
  · rintro h u v rfl hv
    have hpos := List.length_pos_iff.2 hv
    have hrun := h (x.length + u.length) (by omega) (by rw [List.length_append]; omega)
    rw [List.drop_length_add_append, List.append_assoc, List.drop_left] at hrun
    exact .inr (.inl hrun)

theorem enumerates_iff_fits {p : Peg} (hp : p.StartsIn isStart) (x : Text) (k : Cutting) :
    Enumerates p (x ++ k.text) x.length (k.matchesFrom x.length) ↔ k.Fits p := by
  induction k generalizing x with
  | rest g =>
    rw [Cutting.text, Cutting.matchesFrom, Cutting.Fits, gap_iff hp (x := x), List.append_nil]
    constructor
    · intro h i hx hi
      exact h.complete i hx (by rw [List.length_append]; exact hi) (by simp [Covers])
    · intro h
      refine ⟨⟨by simp, by simp, .nil⟩, by simp, ?_⟩
      intro i hx hi _
      exact h i hx (by rw [← List.length_append]; exact hi)
  | part g t k ih =>
    have hsplit : x ++ (g ++ (t ++ k.text)) = ((x ++ g) ++ t) ++ k.text := by simp
    have hlen : x.length + g.length + t.length = ((x ++ g) ++ t).length := by simp [Nat.add_assoc]
    have hmatches : p.MatchesAt (x ++ (g ++ (t ++ k.text))) (x.length + g.length)
        (x.length + g.length + t.length) ↔ p.Takes t k.text := by
      rw [← List.append_assoc, ← List.length_append]
      exact matchesAt_iff_takes
    rw [Cutting.text, Cutting.matchesFrom, Cutting.Fits, enumerates_cons, hmatches, gap_iff hp (x := x)]
    rw [hsplit, hlen, ih]
    constructor
    · rintro ⟨⟨-, hij, -⟩, htake, hfree, hk⟩
      exact ⟨hfree, htake, hp.ne_nil htake, hp.leads_spacing htake, hk⟩
    · rintro ⟨hfree, htake, hne, -, hk⟩
      have hpos := List.length_pos_iff.2 hne
      refine ⟨⟨by omega, by omega, by simp, ?_⟩, htake, hfree, hk⟩
      rw [slice_append (by omega), ← List.length_append, List.drop_left]

/-! ### Splitting at the matches -/

/-- A text in pieces: put together they are the text, those marked are the matches, and between two matches there is at
most one more piece, which is not empty. -/
structure Splits (s : Text) (ms : List Match) (ps : List Piece) : Prop where
  joined : ps.flatMap (·.text) = s
  marked : (ps.filter (·.isMatch)).map (·.text) = ms.map (·.text)
  ne_nil : ∀ q ∈ ps, q.isMatch = false → q.text ≠ []
  apart : ∀ a b, [a, b] <:+: ps → a.isMatch = true ∨ b.isMatch = true

theorem Spans.splits {s : Text} {ms : List Match} (h : Spans s 0 ms) : Splits s ms (pieces s ms) := by
  obtain ⟨k, rfl, hk⟩ := Spans.exists_cutting (x := []) h
  rw [List.length_nil] at hk
  rw [← hk, k.pieces_eq]
  constructor
  · have hfill := k.flatMap_pieces (f := (·.text)) fun g => rfl
    rwa [k.fill_text] at hfill
  · exact k.filter_pieces 0
  · intro q hq hmatch
    exact Cutting.ne_nil_of_mem_pieces hq hmatch
  · intro a b hab
    exact Cutting.isMatch_of_infix_pieces hab

/-! ### The scan -/

/-- A scan by a rule, the one for blanks apart, lists the matches of the rule and leaves no place out where the rule
matches; no other list does, and the text is split at the matches into them and what is between them. -/
theorem scan_enumerates (o : Order) {r : Rule} (hr : r ≠ .blanks) (s : Text) :
    Enumerates (r.peg o) s 0 (scan (r.peg o) s) ∧ (r.peg o).run [] = none ∧
      (∀ ms, Enumerates (r.peg o) s 0 ms → ms = scan (r.peg o) s) ∧
        ∀ ms, Spans s 0 ms → Splits s ms (pieces s ms) := by
  have hstart := Rule.startsIn o hr
  refine ⟨?_, hstart.run_nil, ?_, fun ms => Spans.splits⟩
  · obtain ⟨k, rfl, hfit, hscan⟩ := exists_cutting (r.peg o) s
    rw [hscan]
    exact (enumerates_iff_fits hstart [] k).2 hfit
  · intro ms hms
    obtain ⟨k, rfl, rfl⟩ := Spans.exists_cutting (x := []) hms.toSpans
    have hfit : k.Fits (r.peg o) := (enumerates_iff_fits hstart [] k).1 hms
    exact hfit.scan_eq.symm

/-- An information separator is white space to the scan and not to the rule. -/
theorem scan_enumerates_separator :
    let s : Text := "x\x1c-1 )".toList
    let ms : List Match := [⟨0, 1, ['x']⟩, ⟨2, 4, ['-', '1']⟩]
    Rule.operand ≠ .blanks ∧ Enumerates (Rule.operand.peg .chainFirst) s 0 ms ∧
      Splits s ms [⟨true, ['x']⟩, ⟨false, ['\x1c']⟩, ⟨true, ['-', '1']⟩, ⟨false, [' ', ')']⟩] := by
  intro s ms
  have hscan := scan_enumerates .chainFirst (r := .operand) (by decide) s
  have hms : scan (Rule.operand.peg .chainFirst) s = ms := by decide +kernel
  rw [hms] at hscan
  exact ⟨by decide, hscan.1, hscan.2.2.2 ms hscan.1.toSpans⟩

end CallHoist.Grammar
