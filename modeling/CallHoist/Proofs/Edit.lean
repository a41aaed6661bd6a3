import CallHoist.Edit
import Mathlib.Data.List.Induction
import Mathlib.Data.List.Nodup

/-!
# Edits applied at once

Edits are put in the order of their spans, and those of one span keep the order that they are given in
(`Edit.arranges_sorted`). They are then applied in one go, with a cursor that is the end of the edit applied last. That
the cursor is never before the end of any earlier edit is what makes the comparison with it exact: as long as no edit
is refused the ends go up, so an edit that starts before the end of some earlier one starts before the cursor
(`Edit.applyFrom_of_overlap`).

What comes out is what splicing gives that replaces one span at a time, the last first, so that no offset has to be
shifted (`Edit.exists_applyFrom`).
-/

namespace CallHoist.Edit

open Text

def span (e : Edit) : Int × Int := (e.start, e.stop)

/-- The span of an edit is one of a text. It may be empty. -/
structure Within (s : Text) (e : Edit) : Prop where
  start_nonneg : 0 ≤ e.start
  start_le_stop : e.start ≤ e.stop
  stop_le_length : e.stop ≤ s.length

instance (s : Text) (e : Edit) : Decidable (e.Within s) :=
  decidable_of_iff (0 ≤ e.start ∧ e.start ≤ e.stop ∧ e.stop ≤ s.length)
    ⟨fun h => ⟨h.1, h.2.1, h.2.2⟩, fun h => ⟨h.1, h.2, h.3⟩⟩

/-- The second edit starts at the end of the first, or behind that. -/
def Apart (a b : Edit) : Prop := a.stop ≤ b.start

instance (a b : Edit) : Decidable (a.Apart b) := inferInstanceAs (Decidable (a.stop ≤ b.start))

/-- A list has the edits of another in the order of their spans, those of one span as the other has them. -/
structure Arranges (edits l : List Edit) : Prop where
  perm : l.Perm edits
  ordered : l.Pairwise fun a b => a.start < b.start ∨ (a.start = b.start ∧ a.stop ≤ b.stop)
  stable : ∀ w, l.filter (·.span = w) = edits.filter (·.span = w)

/-! ### The order of spans -/

theorem atMost_iff {a b : Edit} :
    a.atMost b = true ↔ a.start < b.start ∨ (a.start = b.start ∧ a.stop ≤ b.stop) := by
  simp [atMost]

private theorem atMost_of_not_atMost {a b : Edit} (h : ¬ a.atMost b = true) : b.atMost a = true := by
  rw [atMost_iff] at h ⊢
  omega

private theorem atMost_trans {a b c : Edit} (hab : a.atMost b = true) (hbc : b.atMost c = true) :
    a.atMost c = true := by
  rw [atMost_iff] at hab hbc ⊢
  omega

private theorem atMost_of_span_eq {a b : Edit} (h : a.span = b.span) : a.atMost b = true := by
  obtain ⟨hstart, hstop⟩ := Prod.mk.inj h
  rw [atMost_iff]
  omega

private theorem span_eq_of_atMost {a b : Edit} (hab : a.atMost b = true) (hba : b.atMost a = true) :
    a.span = b.span := by
  rw [atMost_iff] at hab hba
  unfold span
  congr 1 <;> omega

private theorem insertSorted_of_atMost {e : Edit} {l : List Edit} (h : ∀ d ∈ l, e.atMost d = true) :
    insertSorted e l = e :: l := by
  cases l with
  | nil => rfl
  | cons d l => rw [insertSorted, if_pos (h d (List.mem_cons_self ..))]

/-- Edits that are in the order of their spans are not moved. -/
theorem sorted_of_pairwise {l : List Edit} (h : l.Pairwise fun a b => a.atMost b = true) : sorted l = l := by
  induction h with
  | nil => rfl
  | cons he _ ih => rw [sorted, ih, insertSorted_of_atMost he]

private theorem insertSorted_perm (e : Edit) (l : List Edit) : (insertSorted e l).Perm (e :: l) := by
  induction l with
  | nil => exact List.Perm.refl _
  | cons d l ih =>
    unfold insertSorted
    split
    · exact List.Perm.refl _
    · exact (ih.cons d).trans (List.Perm.swap e d l)

private theorem pairwise_insertSorted {e : Edit} {l : List Edit} (h : l.Pairwise fun a b => a.atMost b = true) :
    (insertSorted e l).Pairwise fun a b => a.atMost b = true := by
  induction l with
  | nil => exact List.pairwise_singleton _ e
  | cons d l ih =>
    obtain ⟨hd, hl⟩ := List.pairwise_cons.1 h
    unfold insertSorted
    split
    · rename_i hed
      refine List.pairwise_cons.2 ⟨?_, h⟩
      intro c hc
      rcases List.mem_cons.1 hc with rfl | hc
      · exact hed
      · exact atMost_trans hed (hd c hc)
    · rename_i hed
      refine List.pairwise_cons.2 ⟨?_, ih hl⟩
      intro c hc
      rcases List.mem_cons.1 ((insertSorted_perm e l).mem_iff.1 hc) with rfl | hc
      · exact atMost_of_not_atMost hed
      · exact hd c hc

/-- An edit goes past edits of other spans only. -/
private theorem filter_insertSorted (w : Int × Int) (e : Edit) (l : List Edit) :
    (insertSorted e l).filter (·.span = w) = (e :: l).filter (·.span = w) := by
  induction l with
  | nil => rfl
  | cons d l ih =>
    unfold insertSorted
    split
    · rfl
    · rename_i hed
      have hne : e.span ≠ d.span := fun h => hed (atMost_of_span_eq h)
      by_cases he : e.span = w
      · have hd : d.span ≠ w := fun hd => hne (he.trans hd.symm)
        simp [ih, he, hd]
      · simp [List.filter_cons, ih, he]

theorem sorted_perm (l : List Edit) : (sorted l).Perm l := by
  induction l with
  | nil => exact List.Perm.refl _
  | cons e l ih => exact (insertSorted_perm e (sorted l)).trans (ih.cons e)

theorem pairwise_sorted (l : List Edit) : (sorted l).Pairwise fun a b => a.atMost b = true := by
  induction l with
  | nil => exact List.Pairwise.nil
  | cons e l ih => exact pairwise_insertSorted ih

private theorem filter_sorted (w : Int × Int) (l : List Edit) :
    (sorted l).filter (·.span = w) = l.filter (·.span = w) := by
  induction l with
  | nil => rfl
  | cons e l ih => rw [sorted, filter_insertSorted, List.filter_cons, ih, List.filter_cons]

theorem arranges_sorted (l : List Edit) : Arranges l (sorted l) where
  perm := sorted_perm l
  ordered := (pairwise_sorted l).imp fun h => atMost_iff.1 h
  stable w := filter_sorted w l

/-- Where no two edits have one span, it does not matter in which order they are given. -/
theorem sorted_eq_of_perm {l l' : List Edit} (h : l'.Perm l) (hspans : (l.map span).Nodup) : sorted l' = sorted l := by
  have hperm : (sorted l').Perm (sorted l) := ((sorted_perm l').trans h).trans (sorted_perm l).symm
  refine hperm.eq_of_pairwise ?_ (pairwise_sorted l') (pairwise_sorted l)
  intro a b ha hb hab hba
  have ha : a ∈ l := h.mem_iff.1 ((sorted_perm l').mem_iff.1 ha)
  have hb : b ∈ l := (sorted_perm l).mem_iff.1 hb
  exact List.inj_on_of_nodup_map hspans ha hb (span_eq_of_atMost hab hba)

/-! ### One pass -/

/-- The first edit of a list that starts before the end of an earlier one. -/
theorem exists_overlap {l : List Edit} (h : ¬ l.Pairwise Apart) :
    ∃ before d behind, l = before ++ d :: behind ∧ before.Pairwise Apart ∧ ∃ a ∈ before, d.start < a.stop := by
  induction l using List.reverseRecOn with
  | nil => exact absurd List.Pairwise.nil h
  | append_singleton l d ih =>
    by_cases hl : l.Pairwise Apart
    · refine ⟨l, d, [], rfl, hl, ?_⟩
      by_contra hnone
      refine h (List.pairwise_append.2 ⟨hl, List.pairwise_singleton _ d, ?_⟩)
      intro a ha c hc
      obtain rfl := List.mem_singleton.1 hc
      exact Int.not_lt.1 fun hlt => hnone ⟨a, ha, hlt⟩
    · obtain ⟨before, c, behind, rfl, hbefore, hoverlap⟩ := ih hl
      exact ⟨before, c, behind ++ [d], by simp, hbefore, hoverlap⟩

/-- An edit is refused that starts before the end of an earlier one, or before the cursor. -/
theorem applyFrom_of_overlap (s : Text) {before behind : List Edit} {d : Edit}
    (hspans : ∀ e ∈ before, e.start ≤ e.stop) (hbefore : before.Pairwise Apart) {cursor : Int}
    (hcursor : ∀ e ∈ before, cursor ≤ e.start) (h : d.start < cursor ∨ ∃ a ∈ before, d.start < a.stop) :
    applyFrom s cursor (before ++ d :: behind) = .error ⟨d.start⟩ := by
  induction before generalizing cursor with
  | nil =>
    have hd : d.start < cursor := by simpa using h
    rw [List.nil_append, applyFrom, if_pos hd]
  | cons e before ih =>
    obtain ⟨he, hbefore⟩ := List.pairwise_cons.1 hbefore
    have hstart := hcursor e (List.mem_cons_self ..)
    have hspan := hspans e (List.mem_cons_self ..)
    -- the cursor goes up to the end of this edit, so what is before it stays before it
    have hnext : d.start < e.stop ∨ ∃ a ∈ before, d.start < a.stop := by
      rcases h with h | ⟨a, ha, h⟩
      · exact .inl (by omega)
      · rcases List.mem_cons.1 ha with rfl | ha
        · exact .inl h
        · exact .inr ⟨a, ha, h⟩
    have hrest := ih (fun c hc => hspans c (List.mem_cons_of_mem _ hc)) hbefore he hnext
    rw [List.cons_append, applyFrom, if_neg (Int.not_lt.2 hstart), hrest]
    rfl

private theorem splice_natCast {s t u : Text} {i j : Nat} (hij : i ≤ j) (hj : j ≤ s.length) (r : Text)
    (ht : t = s.take j ++ u) : splice t ⟨i, j, r⟩ = s.take i ++ (r ++ u) := by
  have hlen : (s.take j).length = j := by
    rw [List.length_take]
    omega
  have hfront : t.slice 0 (i : Int) = s.take i := by
    have hi : i ≤ t.length := by
      rw [ht, List.length_append]
      omega
    have hslice := slice_natCast t 0 i hi
    rw [List.drop_zero, Nat.sub_zero] at hslice
    rw [ht, List.take_append_of_le_length (by omega), List.take_take, Nat.min_eq_left hij] at hslice
    rw [ht]
    exact hslice
  have hback : t.sliceFrom (j : Int) = u := by
    have hslice := sliceFrom_append (x := s.take j) (y := u) (i := j) (by omega)
    rw [List.drop_eq_nil_of_le (by omega), List.nil_append] at hslice
    rw [ht, hslice]
  show t.slice 0 (i : Int) ++ r ++ t.sliceFrom (j : Int) = _
  rw [hfront, hback, List.append_assoc]

/-- Edits that are apart are all applied, and what comes out behind the cursor is what splicing puts there. -/
theorem exists_applyFrom {s : Text} {l : List Edit} (hl : ∀ e ∈ l, e.Within s) (hapart : l.Pairwise Apart)
    {cursor : Nat} (hcursor : cursor ≤ s.length) (hfirst : ∀ e ∈ l, (cursor : Int) ≤ e.start) :
    ∃ u, applyFrom s cursor l = .ok u ∧ spliceAll s l = s.take cursor ++ u := by
  induction l generalizing cursor with
  | nil =>
    have hrest := sliceFrom_append (x := s) (y := []) hcursor
    rw [List.append_nil, List.append_nil] at hrest
    exact ⟨s.drop cursor, by rw [applyFrom, hrest], (List.take_append_drop cursor s).symm⟩
  | cons e l ih =>
    obtain ⟨hbehind, hrest⟩ := List.pairwise_cons.1 hapart
    have hstart := hfirst e (List.mem_cons_self ..)
    obtain ⟨hnonneg, hspan, hstop⟩ := hl e (List.mem_cons_self ..)
    obtain ⟨i, j, r, rfl⟩ : ∃ i j : Nat, ∃ r, e = ⟨i, j, r⟩ :=
      ⟨e.start.toNat, e.stop.toNat, e.replacement, by
        rw [Int.toNat_of_nonneg hnonneg, Int.toNat_of_nonneg (Int.le_trans hnonneg hspan)]⟩
    replace hstart : cursor ≤ i := Int.ofNat_le.1 hstart
    replace hspan : i ≤ j := Int.ofNat_le.1 hspan
    replace hstop : j ≤ s.length := Int.ofNat_le.1 hstop
    obtain ⟨u, happly, hsplice⟩ := ih (fun d hd => hl d (List.mem_cons_of_mem _ hd)) hrest hstop hbehind
    have hcopy : s.slice (cursor : Int) (i : Int) = (s.drop cursor).take (i - cursor) :=
      slice_natCast s cursor i (by omega)
    have htake : s.take i = s.take cursor ++ (s.drop cursor).take (i - cursor) := by
      rw [← List.take_add, Nat.add_sub_cancel' hstart]
    refine ⟨(s.drop cursor).take (i - cursor) ++ (r ++ u), ?_, ?_⟩
    · have hnot : ¬ ((i : Nat) : Int) < cursor := by omega
      rw [applyFrom, if_neg hnot, happly, hcopy]
      simp [Except.map]
    · have hall : spliceAll s (⟨i, j, r⟩ :: l) = splice (spliceAll s l) ⟨i, j, r⟩ := rfl
      rw [hall, splice_natCast hspan hstop r hsplice, htake, List.append_assoc]

/-! ### All edits -/

/-- Edits in a text are refused just if, in the order of their spans, one starts before the end of an earlier one, and
the first such edit is named. Else all are applied, as by splicing from the last to the first. The order in which they
are given is of no account where no two have one span. -/
theorem applyAll_simultaneous (s : Text) (edits : List Edit) (h : ∀ e ∈ edits, e.Within s) :
    Arranges edits (sorted edits) ∧
      ((∃ err, applyAll s edits = .error err) ↔ ¬ (sorted edits).Pairwise Apart) ∧
      (∀ before d behind, sorted edits = before ++ d :: behind → before.Pairwise Apart →
        (∃ a ∈ before, d.start < a.stop) → applyAll s edits = .error ⟨d.start⟩) ∧
      ((sorted edits).Pairwise Apart → applyAll s edits = .ok (spliceAll s (sorted edits))) ∧
      ∀ edits' : List Edit, edits'.Perm edits → (edits.map span).Nodup → applyAll s edits' = applyAll s edits := by
  have hwithin : ∀ e ∈ sorted edits, e.Within s := fun e he => h e ((sorted_perm edits).mem_iff.1 he)
  have hrefused : ∀ before d behind, sorted edits = before ++ d :: behind → before.Pairwise Apart →
      (∃ a ∈ before, d.start < a.stop) → applyAll s edits = .error ⟨d.start⟩ := by
    intro before d behind hcut hbefore hoverlap
    have hmem : ∀ e ∈ before, e ∈ sorted edits := fun e he => hcut ▸ List.mem_append_left _ he
    rw [applyAll, hcut]
    exact applyFrom_of_overlap s (fun e he => (hwithin e (hmem e he)).start_le_stop) hbefore
      (fun e he => (hwithin e (hmem e he)).start_nonneg) (.inr hoverlap)
  have happlied : (sorted edits).Pairwise Apart → applyAll s edits = .ok (spliceAll s (sorted edits)) := by
    intro hapart
    obtain ⟨u, happly, hsplice⟩ :=
      exists_applyFrom hwithin hapart (Nat.zero_le s.length) fun e he => (hwithin e he).start_nonneg
    rw [hsplice, List.take_zero, List.nil_append]
    exact happly
  refine ⟨arranges_sorted edits, ⟨?_, ?_⟩, hrefused, happlied, ?_⟩
  · rintro ⟨err, herr⟩ hapart
    rw [happlied hapart] at herr
    cases herr
  · intro hoverlap
    obtain ⟨before, d, behind, hcut, hbefore, hex⟩ := exists_overlap hoverlap
    exact ⟨⟨d.start⟩, hrefused before d behind hcut hbefore hex⟩
  · intro edits' hperm hspans
    rw [applyAll, applyAll, sorted_eq_of_perm hperm hspans]

/-- A removal with an insertion at its front, a replacement behind it, and an insertion at the end of that, not in their
order. An edit more in the middle of the replacement is refused. -/
theorem applyAll_simultaneous_adjacent :
    applyAll "abcdef".toList [⟨3, 5, "XYZ".toList⟩, ⟨1, 3, []⟩, ⟨5, 5, "+".toList⟩, ⟨1, 1, "-".toList⟩] =
        .ok "a-XYZ+f".toList ∧
      applyAll "abcdef".toList [⟨1, 1, "-".toList⟩, ⟨5, 5, "+".toList⟩, ⟨3, 5, "XYZ".toList⟩, ⟨1, 3, []⟩] =
        .ok "a-XYZ+f".toList ∧
      applyAll "abcdef".toList [⟨4, 4, "!".toList⟩, ⟨3, 5, "XYZ".toList⟩, ⟨1, 3, []⟩] = .error ⟨4⟩ := by
  obtain ⟨-, -, -, happlied, hperm⟩ := applyAll_simultaneous "abcdef".toList
    [⟨3, 5, "XYZ".toList⟩, ⟨1, 3, []⟩, ⟨5, 5, "+".toList⟩, ⟨1, 1, "-".toList⟩] (by decide)
  obtain ⟨-, -, hrefused, -⟩ := applyAll_simultaneous "abcdef".toList
    [⟨4, 4, "!".toList⟩, ⟨3, 5, "XYZ".toList⟩, ⟨1, 3, []⟩] (by decide)
  have hall := happlied (by decide)
  refine ⟨hall, (hperm _ (by decide) (by decide)).trans hall, ?_⟩
  exact hrefused [⟨1, 3, []⟩, ⟨3, 5, "XYZ".toList⟩] ⟨4, 4, "!".toList⟩ [] (by decide) (by decide) (by decide)

end CallHoist.Edit
