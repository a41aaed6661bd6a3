import CallHoist.Grammar.Scan
import CallHoist.Proofs.Grammar.Lexeme

/-!
# What a scan leaves between matches

A text that has been scanned is cut into gaps and matches. A match is taken in front of all that follows it, and in a
gap the expression finds nothing at any place (`Cutting.Fits`); each scan gives such a cutting (`exists_cutting`), and
there is no other (`Cutting.Fits.scan_eq`). So what is to be shown of the matches of a scan is shown by induction on a
cutting that fits.
-/

namespace CallHoist.Grammar

open Text

/-- A scan passes over the first character of the text. -/
def Peg.Misses (p : Peg) (s : Text) : Prop := leads isSpacing s = true ∨ p.run s = none ∨ p.run s = some s

/-- Each place in `g` is passed over, if `r` stands behind. -/
def Peg.Gap (p : Peg) (g r : Text) : Prop := ∀ u v, g = u ++ v → v ≠ [] → p.Misses (v ++ r)

/-- A text cut at matches. -/
inductive Cutting where
  | rest (gap : Text)
  | part (gap hit : Text) (behind : Cutting)

namespace Cutting

def text : Cutting → Text
  | rest g => g
  | part g t k => g ++ (t ++ k.text)

/-- The text with each match replaced. -/
def fill (f : Text → Text) : Cutting → Text
  | rest g => g
  | part g t k => g ++ (f t ++ k.fill f)

/-- The matches, if the text begins at an offset. -/
def matchesFrom (pos : Nat) : Cutting → List Match
  | rest _ => []
  | part g t k =>
    ⟨(pos + g.length : Nat), (pos + g.length + t.length : Nat), t⟩ :: k.matchesFrom (pos + g.length + t.length)

/-- The cutting is that of a scan. -/
def Fits (p : Peg) : Cutting → Prop
  | rest g => p.Gap g []
  | part g t k => p.Gap g (t ++ k.text) ∧ p.Takes t k.text ∧ t ≠ [] ∧ leads isSpacing t = false ∧ k.Fits p

theorem infix_of_mem {k : Cutting} {pos : Nat} {m : Match} (hm : m ∈ k.matchesFrom pos) :
    m.text <:+: k.text := by
  induction k generalizing pos with
  | rest g => cases hm
  | part g t k ih =>
    rcases List.mem_cons.1 hm with rfl | hm
    · exact ⟨g, k.text, by simp [text]⟩
    · exact (ih hm).trans ⟨g ++ t, [], by simp [text]⟩

theorem Fits.exists_takes_of_mem {p : Peg} {k : Cutting} (hk : k.Fits p) {pos : Nat} {m : Match}
    (hm : m ∈ k.matchesFrom pos) : ∃ r, p.Takes m.text r := by
  induction k generalizing pos with
  | rest g => cases hm
  | part g t k ih =>
    obtain ⟨-, ht, -, -, hk⟩ := hk
    rcases List.mem_cons.1 hm with rfl | hm
    · exact ⟨k.text, ht⟩
    · exact ih hk hm

/-- A match stands behind a gap, and that stands at the front of the text or behind another match. -/
theorem Fits.exists_gap_of_mem {p : Peg} {k : Cutting} (hk : k.Fits p) {pos : Nat} {m : Match}
    (hm : m ∈ k.matchesFrom pos) :
    ∃ l g z, k.text = l ++ (g ++ (m.text ++ z)) ∧ m.start = (pos + l.length + g.length : Nat) ∧
      p.Gap g (m.text ++ z) ∧ p.Takes m.text z ∧ (l = [] ∨ ∃ l' t r, l = l' ++ t ∧ p.Takes t r) := by
  induction k generalizing pos with
  | rest g => cases hm
  | part g t k ih =>
    obtain ⟨hg, ht, -, -, hk⟩ := hk
    rcases List.mem_cons.1 hm with rfl | hm
    · exact ⟨[], g, k.text, rfl, rfl, hg, ht, .inl rfl⟩
    · obtain ⟨l, g', z, htext, hstart, hg', ht', hl⟩ := ih hk hm
      refine ⟨(g ++ t) ++ l, g', z, by simp [text, htext], ?_, hg', ht', .inr ?_⟩
      · rw [hstart]
        simp [Nat.add_assoc]
      · rcases hl with rfl | ⟨l', t', r, rfl, htake⟩
        · exact ⟨g, t, k.text, by simp, ht⟩
        · exact ⟨(g ++ t) ++ l', t', r, by simp, htake⟩

/-- The cutting with one more character in front. -/
private def push (c : Char) : Cutting → Cutting
  | rest g => rest (c :: g)
  | part g t k => part (c :: g) t k

private theorem text_push (c : Char) (k : Cutting) : (k.push c).text = c :: k.text := by
  cases k <;> rfl

private theorem matchesFrom_push (c : Char) (k : Cutting) (pos : Nat) :
    (k.push c).matchesFrom pos = k.matchesFrom (pos + 1) := by
  cases k with
  | rest g => rfl
  | part g t k => simp only [push, matchesFrom, List.length_cons, Nat.add_comm g.length 1, ← Nat.add_assoc]

private theorem gap_cons {p : Peg} {c : Char} {g r : Text} (h : p.Gap g r) (hc : p.Misses (c :: (g ++ r))) :
    p.Gap (c :: g) r := by
  intro u v huv hv
  -- either the place is the new first one, or it is one of the gap
  cases u with
  | nil =>
    rw [← List.nil_append v, ← huv]
    exact hc
  | cons d u => exact h u v (List.cons.inj huv).2 hv

private theorem Fits.push {p : Peg} {c : Char} {k : Cutting} (h : k.Fits p) (hc : p.Misses (c :: k.text)) :
    (k.push c).Fits p := by
  cases k with
  | rest g => exact gap_cons h (by rwa [List.append_nil])
  | part g t k =>
    obtain ⟨hg, hrest⟩ := h
    exact ⟨gap_cons hg hc, hrest⟩

end Cutting

private theorem scanFrom_skip (p : Peg) (t s : Text) (pos : Nat) :
    scanFrom p t.length pos (t ++ s) = scanFrom p 0 (pos + t.length) s := by
  induction t generalizing pos with
  | nil => rfl
  | cons c t ih =>
    rw [List.length_cons, List.cons_append, scanFrom, ih]
    congr 1
    omega

/-- Either a scan passes over the first character, or it finds a match there and goes on behind it. -/
private theorem scanFrom_cons (p : Peg) (pos : Nat) (c : Char) (s : Text) :
    (p.Misses (c :: s) ∧ scanFrom p 0 pos (c :: s) = scanFrom p 0 (pos + 1) s) ∨
    ∃ t r, c :: s = t ++ r ∧ t ≠ [] ∧ p.Takes t r ∧ isSpacing c = false ∧
      scanFrom p 0 pos (c :: s) =
        ⟨pos, (pos + t.length : Nat), t⟩ :: scanFrom p 0 (pos + t.length) r := by
  by_cases hc : isSpacing c = true
  · exact .inl ⟨.inl hc, by rw [scanFrom, if_pos hc]⟩
  · cases hrun : p.run (c :: s) with
    | none => exact .inl ⟨.inr (.inl hrun), by rw [scanFrom, if_neg hc, hrun]⟩
    | some r =>
      obtain ⟨t, ht, htake⟩ := Peg.exists_takes hrun
      cases t with
      | nil =>
        rw [List.nil_append] at ht
        subst ht
        exact .inl ⟨.inr (.inr hrun), by rw [scanFrom, if_neg hc, hrun]; simp⟩
      | cons d t =>
        rw [List.cons_append] at ht
        obtain ⟨rfl, rfl⟩ := List.cons.inj ht
        refine .inr ⟨c :: t, r, rfl, List.cons_ne_nil c t, htake, by simpa using hc, ?_⟩
        have hlen : (c :: (t ++ r)).length - r.length = t.length + 1 := by
          rw [List.length_cons, List.length_append]
          omega
        rw [scanFrom, if_neg hc, hrun]
        simp only [hlen]
        rw [scanFrom_skip, List.take_succ_cons, List.take_left, List.length_cons, Nat.add_assoc, Nat.add_comm 1]
        rfl

private theorem exists_cutting_from (p : Peg) (s : Text) (pos : Nat) :
    ∃ k : Cutting, k.text = s ∧ k.Fits p ∧ scanFrom p 0 pos s = k.matchesFrom pos := by
  cases s with
  | nil => exact ⟨.rest [], rfl, fun u v h hv => absurd (List.append_eq_nil_iff.1 h.symm).2 hv, rfl⟩
  | cons c s =>
    rcases scanFrom_cons p pos c s with ⟨hmiss, hscan⟩ | ⟨t, r, hs, ht, htake, hc, hscan⟩
    · obtain ⟨k, rfl, hfit, hk⟩ := exists_cutting_from p s (pos + 1)
      exact ⟨k.push c, k.text_push c, hfit.push hmiss, by rw [hscan, hk, Cutting.matchesFrom_push]⟩
    · -- behind a match the scan goes on with a shorter text
      have hshorter : r.length < s.length + 1 := by
        have hpos := List.length_pos_iff.2 ht
        rw [← List.length_cons (a := c), hs, List.length_append]
        omega
      obtain ⟨k, rfl, hfit, hk⟩ := exists_cutting_from p r (pos + t.length)
      refine ⟨.part [] t k, hs.symm, ⟨?_, htake, ht, ?_, hfit⟩, by rw [hscan, hk]; rfl⟩
      · exact fun u v h hv => absurd (List.append_eq_nil_iff.1 h.symm).2 hv
      · rw [← leads_append ht k.text, ← hs]
        exact hc
termination_by s.length
decreasing_by
  all_goals
    rw [List.length_cons]
    omega

theorem exists_cutting (p : Peg) (s : Text) :
    ∃ k : Cutting, k.text = s ∧ k.Fits p ∧ scan p s = k.matchesFrom 0 :=
  exists_cutting_from p s 0

/-! ### The only cutting -/

section

variable {p : Peg}

private theorem scanFrom_of_misses {c : Char} {s : Text} (h : p.Misses (c :: s)) (pos : Nat) :
    scanFrom p 0 pos (c :: s) = scanFrom p 0 (pos + 1) s := by
  rcases scanFrom_cons p pos c s with ⟨-, hscan⟩ | ⟨t, r, hs, ht, htake, hc, -⟩
  · exact hscan
  · have hrun : p.run (c :: s) = some r := hs ▸ htake
    exfalso
    rcases h with h | h | h
    · rw [leads_cons, hc] at h
      cases h
    · rw [hrun] at h
      cases h
    · rw [hrun, Option.some.injEq] at h
      rw [h] at hs
      exact ht (List.append_left_eq_self.1 hs.symm)

private theorem scanFrom_of_gap {g r : Text} (h : p.Gap g r) (pos : Nat) :
    scanFrom p 0 pos (g ++ r) = scanFrom p 0 (pos + g.length) r := by
  induction g generalizing pos with
  | nil => rfl
  | cons c g ih =>
    have hfirst : p.Misses (c :: (g ++ r)) := h [] (c :: g) rfl (List.cons_ne_nil c g)
    have hmore : p.Gap g r := by
      intro u v huv hv
      exact h (c :: u) v (by rw [huv, List.cons_append]) hv
    rw [List.cons_append, scanFrom_of_misses hfirst, ih hmore, List.length_cons]
    congr 1
    omega

private theorem scanFrom_of_takes {t r : Text} (ht : t ≠ []) (hlead : leads isSpacing t = false) (h : p.Takes t r)
    (pos : Nat) :
    scanFrom p 0 pos (t ++ r) = ⟨pos, (pos + t.length : Nat), t⟩ :: scanFrom p 0 (pos + t.length) r := by
  cases t with
  | nil => exact absurd rfl ht
  | cons c t =>
    have hrun : p.run (c :: (t ++ r)) = some r := h
    rw [List.cons_append]
    rcases scanFrom_cons p pos c (t ++ r) with ⟨hmiss, -⟩ | ⟨t', r', hs, -, htake, -, hscan⟩
    · exfalso
      rcases hmiss with hmiss | hmiss | hmiss
      · rw [leads_cons] at hmiss hlead
        rw [hlead] at hmiss
        cases hmiss
      · rw [hrun] at hmiss
        cases hmiss
      · rw [hrun, Option.some.injEq] at hmiss
        have hlen := congrArg List.length hmiss
        rw [List.length_cons, List.length_append] at hlen
        omega
    · obtain rfl : r = r' := h.rest_unique htake hs
      have htext : (c :: t) ++ r = t' ++ r := hs
      rw [hscan, List.append_cancel_right htext]

theorem Cutting.Fits.scanFrom_eq {k : Cutting} (h : k.Fits p) (pos : Nat) :
    scanFrom p 0 pos k.text = k.matchesFrom pos := by
  induction k generalizing pos with
  | rest g =>
    have hscan := scanFrom_of_gap h pos
    rw [List.append_nil] at hscan
    rw [Cutting.text, hscan]
    rfl
  | part g t k ih =>
    obtain ⟨hg, ht, hne, hlead, hk⟩ := h
    rw [Cutting.text, scanFrom_of_gap hg, scanFrom_of_takes hne hlead ht, ih hk]
    rfl

/-- The matches of a cutting that fits are those of the scan. -/
theorem Cutting.Fits.scan_eq {k : Cutting} (h : k.Fits p) : scan p k.text = k.matchesFrom 0 :=
  h.scanFrom_eq 0

end

end CallHoist.Grammar
