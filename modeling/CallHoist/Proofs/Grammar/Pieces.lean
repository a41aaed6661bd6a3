import CallHoist.Proofs.Grammar.Cutting

/-!
# Pieces of a cutting

A text that is cut at the matches of a cutting falls into the gaps, the empty ones left out, and the matches
(`Cutting.pieces_eq`). So what is put together from the pieces is told by the cutting (`Cutting.flatMap_pieces`), and so
is how many of them pass a test (`Cutting.countP_pieces`).
-/

namespace CallHoist.Grammar.Cutting

open Text

/-- An empty gap is no piece. -/
def gapPieces (g : Text) : List Piece := if g = [] then [] else [⟨false, g⟩]

/-- The gaps and the matches, in order. -/
def pieces : Cutting → List Piece
  | rest g => gapPieces g
  | part g t k => gapPieces g ++ ⟨true, t⟩ :: k.pieces

private theorem piecesFrom_cons (x g t : Text) (k : Cutting) :
    piecesFrom (x ++ (part g t k).text) x.length ((part g t k).matchesFrom x.length) =
      gapPieces g ++ ⟨true, t⟩ ::
        piecesFrom (((x ++ g) ++ t) ++ k.text) ((x ++ g) ++ t).length (k.matchesFrom ((x ++ g) ++ t).length) := by
  have htext : x ++ (part g t k).text = ((x ++ g) ++ t) ++ k.text := by simp [text]
  have hstart : x.length + g.length = (x ++ g).length := by simp
  have hstop : x.length + g.length + t.length = ((x ++ g) ++ t).length := by simp [Nat.add_assoc]
  have hgap : (((x ++ g) ++ t) ++ k.text).slice x.length (x ++ g).length = g := by
    rw [List.append_assoc (x ++ g), slice_append (by simp), List.drop_left]
  have hhit : (((x ++ g) ++ t) ++ k.text).slice (x ++ g).length ((x ++ g) ++ t).length = t := by
    rw [slice_append (by simp), List.drop_left]
  rw [matchesFrom, piecesFrom, htext, hstop, hstart, hgap, hhit]
  by_cases hg : g = []
  · have hcursor : ¬ ((x.length : Nat) : Int) < ((x ++ g).length : Nat) := by simp [hg]
    rw [if_neg hcursor, gapPieces, if_pos hg, List.nil_append]
  · have hpos := List.length_pos_iff.2 hg
    have hcursor : ((x.length : Nat) : Int) < ((x ++ g).length : Nat) := by
      rw [List.length_append]
      omega
    rw [if_pos hcursor, gapPieces, if_neg hg, List.singleton_append]

private theorem piecesFrom_eq (k : Cutting) (x : Text) :
    piecesFrom (x ++ k.text) x.length (k.matchesFrom x.length) = k.pieces := by
  induction k generalizing x with
  | rest g =>
    rw [matchesFrom, piecesFrom, text, sliceFrom_append (Nat.le_refl _), List.drop_length, List.nil_append]
    by_cases hg : g = []
    · simp [hg, pieces, gapPieces]
    · have hpos := List.length_pos_iff.2 hg
      have hcursor : ((x.length : Nat) : Int) < ((x ++ g).length : Nat) := by
        rw [List.length_append]
        omega
      rw [if_pos hcursor, pieces, gapPieces, if_neg hg]
  | part g t k ih => rw [piecesFrom_cons, ih, pieces]

/-- A text that is cut at its matches falls into the gaps and the matches. -/
theorem pieces_eq (k : Cutting) : Grammar.pieces k.text (k.matchesFrom 0) = k.pieces := piecesFrom_eq k []

private theorem flatMap_gapPieces {f : Piece → Text} (hf : ∀ g, f ⟨false, g⟩ = g) (g : Text) :
    (gapPieces g).flatMap f = g := by
  unfold gapPieces
  split
  · rename_i hg
    rw [hg, List.flatMap_nil]
  · rw [List.flatMap_singleton, hf]

theorem flatMap_pieces {f : Piece → Text} (hf : ∀ g, f ⟨false, g⟩ = g) (k : Cutting) :
    k.pieces.flatMap f = k.fill fun t => f ⟨true, t⟩ := by
  induction k with
  | rest g => exact flatMap_gapPieces hf g
  | part g t k ih => rw [pieces, List.flatMap_append, flatMap_gapPieces hf, List.flatMap_cons, ih, fill]

private theorem countP_gapPieces {q : Piece → Bool} (hq : ∀ g, q ⟨false, g⟩ = false) (g : Text) :
    (gapPieces g).countP q = 0 := by
  unfold gapPieces
  split
  · rfl
  · simp [hq]

theorem countP_pieces {q : Piece → Bool} (hq : ∀ g, q ⟨false, g⟩ = false) (k : Cutting) (pos : Nat) :
    k.pieces.countP q = ((k.matchesFrom pos).map (·.text)).countP fun t => q ⟨true, t⟩ := by
  induction k generalizing pos with
  | rest g => exact countP_gapPieces hq g
  | part g t k ih =>
    rw [pieces, List.countP_append, countP_gapPieces hq, List.countP_cons, ih, Nat.zero_add, matchesFrom,
      List.map_cons, List.countP_cons]

theorem fill_text (k : Cutting) : k.fill (fun t => t) = k.text := by
  induction k with
  | rest g => rfl
  | part g t k ih => rw [fill, ih, text]

private theorem of_mem_gapPieces {g : Text} {q : Piece} (hq : q ∈ gapPieces g) : q.isMatch = false ∧ q.text ≠ [] := by
  unfold gapPieces at hq
  split at hq
  · cases hq
  · rename_i hg
    rw [List.mem_singleton] at hq
    subst hq
    exact ⟨rfl, hg⟩

theorem filter_pieces (k : Cutting) (pos : Nat) :
    (k.pieces.filter (·.isMatch)).map (·.text) = (k.matchesFrom pos).map (·.text) := by
  have hgap : ∀ g, (gapPieces g).filter (·.isMatch) = [] := by
    intro g
    rw [List.filter_eq_nil_iff]
    intro q hq
    simp [of_mem_gapPieces hq]
  induction k generalizing pos with
  | rest g => rw [pieces, hgap, matchesFrom, List.map_nil, List.map_nil]
  | part g t k ih =>
    rw [pieces, List.filter_append, hgap, List.nil_append, List.filter_cons_of_pos rfl, List.map_cons, ih, matchesFrom,
      List.map_cons]

theorem ne_nil_of_mem_pieces {k : Cutting} {q : Piece} (hq : q ∈ k.pieces) (hmatch : q.isMatch = false) :
    q.text ≠ [] := by
  induction k with
  | rest g => exact (of_mem_gapPieces hq).2
  | part g t k ih =>
    rcases List.mem_append.1 hq with hq | hq
    · exact (of_mem_gapPieces hq).2
    · rcases List.mem_cons.1 hq with rfl | hq
      · cases hmatch
      · exact ih hq

/-- Of two pieces next to each other one is a match. -/
theorem isMatch_of_infix_pieces {k : Cutting} {a b : Piece} (h : [a, b] <:+: k.pieces) :
    a.isMatch = true ∨ b.isMatch = true := by
  induction k with
  | rest g =>
    have hlen := h.length_le
    rw [pieces, gapPieces] at hlen
    split at hlen <;> simp at hlen
  | part g t k ih =>
    have hhit : [a, b] <:+: ⟨true, t⟩ :: k.pieces → a.isMatch = true ∨ b.isMatch = true := by
      intro h
      rcases List.infix_cons_iff.1 h with h | h
      · rw [List.cons_prefix_cons] at h
        left
        rw [h.1]
      · exact ih h
    rw [pieces, gapPieces] at h
    split at h
    · exact hhit h
    · rw [List.singleton_append] at h
      rcases List.infix_cons_iff.1 h with h | h
      · rw [List.cons_prefix_cons, List.cons_prefix_cons] at h
        right
        rw [h.2.1]
      · exact hhit h

end CallHoist.Grammar.Cutting
