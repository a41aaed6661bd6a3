import CallHoist.Binding
import CallHoist.Proofs.Edit
import CallHoist.Proofs.Grammar.Cutting
import CallHoist.Proofs.Text.Occurrence

/-!
# The substituted text

The edits of the bindings on the matches of a scan are applied as they stand, and none of them is refused: what comes
out is the text with each bound match replaced by its name (`applyAll_edits`).

A text that no replacement brings in and that ends no match occurs in the substituted text only if it occurs in the
text that was scanned (`Cutting.infix_of_fill`).
-/

namespace CallHoist

open Text Grammar

/-! ### Bindings on a cutting -/

namespace Binding

/-- What stands for a match: the name it is bound to, or the match itself. -/
def rename (bs : List Binding) (t : Text) : Text := (nameOf? bs t).getD t

theorem exists_of_nameOf? {bs : List Binding} {t name : Text} (h : nameOf? bs t = some name) :
    ∃ b ∈ bs, b.call = t ∧ b.name = name := by
  rw [nameOf?, Option.map_eq_some_iff] at h
  obtain ⟨b, hb, hname⟩ := h
  exact ⟨b, List.mem_reverse.1 (List.mem_of_find?_eq_some hb), by simpa using List.find?_some hb, hname⟩

theorem rename_cases (bs : List Binding) (t : Text) :
    rename bs t = t ∨ ∃ b ∈ bs, b.call = t ∧ rename bs t = b.name := by
  rw [rename]
  cases h : nameOf? bs t with
  | none => exact .inl rfl
  | some name =>
    obtain ⟨b, hb, hcall, rfl⟩ := exists_of_nameOf? h
    exact .inr ⟨b, hb, hcall, rfl⟩

theorem nameOf?_of_mem {bs : List Binding} {b : Binding} (h : b ∈ bs) : ∃ name, nameOf? bs b.call = some name := by
  cases hf : bs.reverse.find? (·.call == b.call) with
  | none =>
    have := List.find?_eq_none.1 hf b (List.mem_reverse.2 h)
    simp at this
  | some d => exact ⟨d.name, by rw [nameOf?, hf]; rfl⟩

variable {p : Peg} (bs : List Binding)

private theorem edits_cons (m : Match) (ms : List Match) :
    edits (m :: ms) bs =
      ((nameOf? bs m.text).map fun name => (⟨m.start, m.stop, name⟩ : Edit)).toList ++ edits ms bs := by
  rw [edits, List.filterMap_cons]
  cases nameOf? bs m.text <;> rfl

private theorem start_of_mem_edits {k : Cutting} {pos : Nat} {e : Edit} (h : e ∈ edits (k.matchesFrom pos) bs) :
    (pos : Int) ≤ e.start := by
  induction k generalizing pos with
  | rest g => cases h
  | part g t k ih =>
    rw [Cutting.matchesFrom, edits_cons, List.mem_append] at h
    rcases h with h | h
    · rw [Option.mem_toList, Option.map_eq_some_iff] at h
      obtain ⟨name, -, rfl⟩ := h
      show (pos : Int) ≤ (pos + g.length : Nat)
      omega
    · have := ih h
      omega

private theorem pairwise_edits {k : Cutting} (hk : k.Fits p) (pos : Nat) :
    (edits (k.matchesFrom pos) bs).Pairwise fun a b => a.atMost b = true := by
  induction k generalizing pos with
  | rest g => exact .nil
  | part g t k ih =>
    obtain ⟨-, -, ht, -, hk⟩ := hk
    rw [Cutting.matchesFrom, edits_cons]
    cases nameOf? bs t with
    | none => exact ih hk _
    | some name =>
      refine .cons (fun e he => ?_) (ih hk _)
      have hstart := start_of_mem_edits bs he
      have hpos := List.length_pos_iff.2 ht
      rw [Edit.atMost, Bool.or_eq_true, decide_eq_true_eq]
      refine .inl ?_
      show ((pos + g.length : Nat) : Int) < e.start
      omega

private theorem applyFrom_edits (k : Cutting) {x : Text} {cursor : Nat} (hc : cursor ≤ x.length) :
    Edit.applyFrom (x ++ k.text) cursor (edits (k.matchesFrom x.length) bs) =
      .ok (x.drop cursor ++ k.fill (rename bs)) := by
  induction k generalizing x cursor with
  | rest g => exact congrArg Except.ok (sliceFrom_append hc)
  | part g t k ih =>
    have htext : x ++ (Cutting.part g t k).text = (x ++ g) ++ (t ++ k.text) := by simp [Cutting.text]
    have htext' : (x ++ g) ++ (t ++ k.text) = ((x ++ g) ++ t) ++ k.text := by simp
    have hlen : x.length + g.length + t.length = ((x ++ g) ++ t).length := by simp [Nat.add_assoc]
    rw [Cutting.matchesFrom, edits_cons, Cutting.fill, rename, htext, hlen]
    cases nameOf? bs t with
    | none =>
      -- the match stays part of what the next edit copies
      have hdrop : ((x ++ g) ++ t).drop cursor = x.drop cursor ++ (g ++ t) := by
        rw [List.append_assoc, List.drop_append_of_le_length hc]
      rw [htext', Option.map_none, Option.toList_none, List.nil_append, ih (by simp; omega), hdrop]
      simp
    | some name =>
      have hstart : ¬ ((x.length + g.length : Nat) : Int) < cursor := by omega
      have hslice : ((x ++ g) ++ (t ++ k.text)).slice cursor (x.length + g.length : Nat) = x.drop cursor ++ g := by
        rw [← List.length_append, slice_append (by rw [List.length_append]; omega), List.drop_append_of_le_length hc]
      rw [Option.map_some, Option.toList_some, List.singleton_append, Edit.applyFrom, if_neg hstart, hslice, htext',
        ih (Nat.le_refl _)]
      simp [Except.map]

/-- The edits are never refused, and they replace each bound match by its name. -/
theorem applyAll_edits {k : Cutting} (hk : k.Fits p) :
    Edit.applyAll k.text (edits (k.matchesFrom 0) bs) = .ok (k.fill (rename bs)) := by
  rw [Edit.applyAll, Edit.sorted_of_pairwise (pairwise_edits bs hk 0)]
  exact applyFrom_edits bs k (x := []) (Nat.le_refl 0)

end Binding

/-! ### Occurrences in the substituted text -/

/-- What no replacement brings in behind a gap, and what has none of the last characters of the replacements, occurs
only where it was. -/
theorem Grammar.Cutting.infix_of_fill {p : Peg} {f : Text → Text} {n : Text} {k : Cutting} (hk : k.Fits p)
    (hgap : ∀ g t s, p.Gap g (t ++ s) → p.Takes t s → n <:+: g ++ f t → n <:+: g ++ t)
    (hlast : ∀ t s, p.Takes t s → ∃ u c, f t = u ++ [c] ∧ c ∉ n) (h : n <:+: k.fill f) : n <:+: k.text := by
  induction k with
  | rest g => exact h
  | part g t k ih =>
    obtain ⟨hg, ht, -, -, hk⟩ := hk
    obtain ⟨u, c, hu, hc⟩ := hlast t _ ht
    have hfill : (Cutting.part g t k).fill f = (g ++ u) ++ c :: k.fill f := by simp [Cutting.fill, hu]
    have htext : (Cutting.part g t k).text = (g ++ t) ++ k.text := by simp [Cutting.text]
    rw [hfill] at h
    rw [htext]
    rcases infix_append_cons h hc with h | h
    · refine List.infix_append_of_infix_left (hgap g t _ hg ht ?_)
      rw [hu, ← List.append_assoc]
      exact List.infix_append_of_infix_left h
    · exact List.infix_append_of_infix_right (ih hk h)

end CallHoist
