import CallHoist.Frequency
import Mathlib.Algebra.GroupWithZero.Nat
import Mathlib.Data.List.Induction
import Mathlib.Data.List.Sort

/-!
# Counts in a frequency table

A table is made by counting one text after another, so each fact about it is one about a text more
(`FrequencyTable.ofTexts_concat`). The entries of a table are in ascending order of their texts
(`FrequencyTable.ascending_ofTexts`), so no text has two. The entries are the texts that occur, each with the number of
its occurrences (`FrequencyTable.mem_entries_iff`). The count of all occurrences, which is kept beside the entries, is
their sum at each step (`FrequencyTable.sum_counts`).

So a table is the sorted multiset of the texts (`FrequencyTable.tabulates_ofList`): an ascending list is known by its
members, and two lists of texts have the same table just if one is a permutation of the other
(`FrequencyTable.ofTexts_eq_iff_perm`).
-/

namespace CallHoist.FrequencyTable

/-- The texts of the entries go up. -/
def Ascending (entries : List (Text × Nat)) : Prop := entries.Pairwise fun x y => x.1 < y.1

@[simp]
theorem ofTexts_concat (keys : List Text) (key : Text) : ofTexts (keys ++ [key]) = (ofTexts keys).record key := by
  simp [ofTexts]

private theorem mem_of_mem_bump {key : Text} {entries : List (Text × Nat)} {x : Text × Nat} (h : x ∈ bump key entries) :
    x.1 = key ∨ ∃ n, (x.1, n) ∈ entries := by
  induction entries with
  | nil =>
    obtain rfl := List.mem_singleton.1 h
    exact .inl rfl
  | cons e rest ih =>
    obtain ⟨k, n⟩ := e
    rw [bump] at h
    split at h
    · rcases List.mem_cons.1 h with rfl | h
      · exact .inr ⟨n, List.mem_cons_self ..⟩
      · exact .inr ⟨x.2, List.mem_cons_of_mem _ h⟩
    · split at h
      · rcases List.mem_cons.1 h with rfl | h
        · exact .inl rfl
        · exact .inr ⟨x.2, h⟩
      · rcases List.mem_cons.1 h with rfl | h
        · exact .inr ⟨n, List.mem_cons_self ..⟩
        · exact (ih h).imp id fun ⟨m, hm⟩ => ⟨m, List.mem_cons_of_mem _ hm⟩

theorem Ascending.bump {entries : List (Text × Nat)} (h : Ascending entries) (key : Text) :
    Ascending (bump key entries) := by
  induction entries with
  | nil => exact List.pairwise_singleton ..
  | cons e rest ih =>
    obtain ⟨k, n⟩ := e
    obtain ⟨hk, hrest⟩ := List.pairwise_cons.1 h
    unfold FrequencyTable.bump
    split
    · exact List.pairwise_cons.2 ⟨hk, hrest⟩
    · split
      · rename_i hlt
        refine List.pairwise_cons.2 ⟨?_, h⟩
        intro x hx
        rcases List.mem_cons.1 hx with rfl | hx
        · exact hlt
        · exact List.lt_trans hlt (hk x hx)
      · rename_i hne hnot
        have hlt : k < key := (List.le_iff_lt_or_eq.1 (List.not_lt.1 hnot)).resolve_right (Ne.symm hne)
        refine List.pairwise_cons.2 ⟨?_, ih hrest⟩
        intro x hx
        rcases mem_of_mem_bump hx with hx | ⟨m, hm⟩
        · rw [hx]
          exact hlt
        · exact hk (x.1, m) hm

theorem ascending_ofTexts (keys : List Text) : Ascending (ofTexts keys).entries := by
  induction keys using List.reverseRecOn with
  | nil => exact List.Pairwise.nil
  | append_singleton keys key ih =>
    rw [ofTexts_concat]
    exact ih.bump key

private theorem lookup_cons_eq_ite (k k' : Text) (n : Nat) (rest : List (Text × Nat)) :
    ((k', n) :: rest).lookup k = if k = k' then some n else rest.lookup k := by
  rw [List.lookup_cons]
  by_cases h : k = k'
  · simp [h]
  · have hbeq : (k == k') = false := beq_eq_false_iff_ne.2 h
    simp [hbeq, h]

private theorem lookup_eq_none_of_lt {entries : List (Text × Nat)} {key : Text} (h : ∀ x ∈ entries, key < x.1) :
    entries.lookup key = none := by
  rw [List.lookup_eq_none_iff]
  intro x hx
  have hne : key ≠ x.1 := fun he => List.lt_irrefl key (he ▸ h x hx)
  simpa using hne

/-- A text that is counted once more has one occurrence more; all others keep theirs. -/
theorem lookup_bump {entries : List (Text × Nat)} (h : Ascending entries) (key k : Text) :
    (bump key entries).lookup k =
      if k = key then some ((entries.lookup key).getD 0 + 1) else entries.lookup k := by
  induction entries with
  | nil =>
    unfold bump
    by_cases hk : k = key <;> simp [hk]
  | cons e rest ih =>
    obtain ⟨k', n⟩ := e
    obtain ⟨hk', hrest⟩ := List.pairwise_cons.1 h
    unfold bump
    split
    · rename_i he
      subst he
      simp only [lookup_cons_eq_ite, ↓reduceIte, Option.getD_some]
      split <;> rfl
    · rename_i hne
      split
      · rename_i hlt
        have hnone : ((k', n) :: rest).lookup key = none := by
          apply lookup_eq_none_of_lt
          intro x hx
          rcases List.mem_cons.1 hx with rfl | hx
          · exact hlt
          · exact List.lt_trans hlt (hk' x hx)
        rw [hnone, lookup_cons_eq_ite k key]
        rfl
      · rw [lookup_cons_eq_ite k k', lookup_cons_eq_ite k k', lookup_cons_eq_ite key k', if_neg hne, ih hrest]
        by_cases hk : k = k'
        · have hkey : k ≠ key := fun he => hne (he ▸ hk)
          simp only [hk, ↓reduceIte, hk ▸ hkey]
        · simp only [hk, ↓reduceIte]

theorem get?_ofTexts (keys : List Text) (k : Text) :
    (ofTexts keys).get? k = if k ∈ keys then some (keys.count k) else none := by
  induction keys using List.reverseRecOn with
  | nil => rfl
  | append_singleton keys key ih =>
    have hlook : (ofTexts (keys ++ [key])).get? k =
        if k = key then some (((ofTexts keys).get? key).getD 0 + 1) else (ofTexts keys).get? k := by
      rw [ofTexts_concat]
      exact lookup_bump (ascending_ofTexts keys) key k
    rw [hlook]
    by_cases hk : k = key
    · subst hk
      by_cases hmem : k ∈ keys
      · simp [ih, hmem]
      · simp [ih, hmem, List.count_eq_zero_of_not_mem hmem]
    · simp [ih, hk, Ne.symm hk]

private theorem Ascending.mem_iff_lookup {entries : List (Text × Nat)} (h : Ascending entries) (x : Text × Nat) :
    x ∈ entries ↔ entries.lookup x.1 = some x.2 := by
  rw [List.lookup_eq_some_iff]
  constructor
  · intro hx
    obtain ⟨before, after, rfl⟩ := List.append_of_mem hx
    refine ⟨before, after, rfl, fun y hy => ?_⟩
    have hlt : y.1 < x.1 := (List.pairwise_append.1 h).2.2 y hy x (List.mem_cons_self ..)
    have hne : x.1 ≠ y.1 := fun he => List.lt_irrefl y.1 (he ▸ hlt)
    simpa using hne
  · rintro ⟨before, after, rfl, -⟩
    simp

theorem mem_entries_iff {keys : List Text} {x : Text × Nat} :
    x ∈ (ofTexts keys).entries ↔ x.1 ∈ keys ∧ x.2 = keys.count x.1 := by
  have hget := get?_ofTexts keys x.1
  rw [(ascending_ofTexts keys).mem_iff_lookup]
  unfold get? at hget
  rw [hget]
  by_cases hmem : x.1 ∈ keys <;> simp [hmem, eq_comm]

theorem ascending_keys (texts : List Text) : (ofTexts texts).keys.Pairwise (· < ·) := by
  unfold keys
  rw [List.pairwise_map]
  exact ascending_ofTexts texts

theorem mem_keys_iff {texts : List Text} {k : Text} : k ∈ (ofTexts texts).keys ↔ k ∈ texts := by
  unfold keys
  rw [List.mem_map]
  constructor
  · rintro ⟨x, hx, rfl⟩
    exact (mem_entries_iff.1 hx).1
  · intro hk
    exact ⟨(k, texts.count k), mem_entries_iff.2 ⟨hk, rfl⟩, rfl⟩

/-- The entries are the distinct texts in ascending order with their counts. -/
theorem entries_eq (texts : List Text) :
    (ofTexts texts).entries = (ofTexts texts).keys.map fun k => (k, texts.count k) := by
  unfold keys
  rw [List.map_map]
  symm
  apply (List.map_congr_left ?_).trans (List.map_id _)
  intro x hx
  simp only [Function.comp_apply, ← (mem_entries_iff.1 hx).2, id_eq]

/-- The entries of a table that pass a test are texts in ascending order with their counts. -/
theorem filter_entries (texts : List Text) (q : Text × Nat → Bool) :
    ∃ keys : List Text, keys.Pairwise (· < ·) ∧ (∀ s, s ∈ keys ↔ s ∈ texts ∧ q (s, texts.count s) = true) ∧
      (ofTexts texts).entries.filter q = keys.map fun s => (s, texts.count s) := by
  refine ⟨(ofTexts texts).keys.filter fun s => q (s, texts.count s), (ascending_keys texts).filter _, ?_, ?_⟩
  · intro s
    rw [List.mem_filter, mem_keys_iff]
  · rw [entries_eq, List.filter_map]
    rfl

/-! ### All occurrences -/

private theorem sum_bump (key : Text) (entries : List (Text × Nat)) :
    ((bump key entries).map (·.2)).sum = (entries.map (·.2)).sum + 1 := by
  induction entries with
  | nil => rfl
  | cons x rest ih =>
    obtain ⟨k, n⟩ := x
    rw [bump]
    split
    · simp only [List.map_cons, List.sum_cons]
      omega
    · split
      · simp only [List.map_cons, List.sum_cons]
        omega
      · simp only [List.map_cons, List.sum_cons, ih]
        omega

/-- Each text that is counted adds one to the count of all and one to the counts of the entries. -/
theorem sum_counts (texts : List Text) : ((ofTexts texts).entries.map (·.2)).sum = (ofTexts texts).total := by
  induction texts using List.reverseRecOn with
  | nil => rfl
  | append_singleton texts key ih =>
    have hsum := sum_bump key (ofTexts texts).entries
    rw [ofTexts_concat]
    simp only [record, hsum, ih]

theorem total_ofTexts (texts : List Text) : (ofTexts texts).total = texts.length := by
  induction texts using List.reverseRecOn with
  | nil => rfl
  | append_singleton texts key ih =>
    rw [ofTexts_concat, List.length_append, List.length_singleton, ← ih]
    rfl

/-! ### The multiset of the texts -/

/-- How often a text has been counted: a text without an entry, never. -/
def count (t : FrequencyTable) (k : Text) : Nat := (t.get? k).getD 0

theorem count_ofTexts (texts : List Text) (k : Text) : (ofTexts texts).count k = texts.count k := by
  rw [count, get?_ofTexts]
  split
  · rfl
  · rename_i hk
    exact (List.count_eq_zero_of_not_mem hk).symm

/-- Of the texts a table forgets their order and nothing else. -/
theorem ofTexts_eq_iff_perm {texts texts' : List Text} : ofTexts texts = ofTexts texts' ↔ texts.Perm texts' := by
  constructor
  · intro h
    rw [List.perm_iff_count]
    intro k
    rw [← count_ofTexts, h, count_ofTexts]
  · intro h
    have hkeys : (ofTexts texts).keys = (ofTexts texts').keys := by
      apply (ascending_keys texts).eq_of_mem_iff (ascending_keys texts')
      intro k
      rw [mem_keys_iff, mem_keys_iff, h.mem_iff]
    have hentries : (ofTexts texts).entries = (ofTexts texts').entries := by
      rw [entries_eq, entries_eq, hkeys]
      exact List.map_congr_left fun k _ => by rw [h.count_eq]
    have htotal : (ofTexts texts).total = (ofTexts texts').total := by
      rw [total_ofTexts, total_ofTexts, h.length_eq]
    exact FrequencyTable.ext hentries htotal

/-- The table is the sorted multiset of the texts: it has each of them once, in ascending order, with the number of its
occurrences, and those that occur often enough are a part of it in the same order. -/
structure Tabulates (t : FrequencyTable) (texts : List Text) : Prop where
  ascending : t.keys.Pairwise (· < ·)
  mem_keys_iff : ∀ k, k ∈ t.keys ↔ k ∈ texts
  entries_eq : t.entries = t.keys.map fun k => (k, texts.count k)
  sum_counts : (t.entries.map (·.2)).sum = t.total
  total_eq : t.total = texts.length
  repeated_eq : ∀ least : Int,
    t.repeated least = (t.keys.filter fun k => least ≤ texts.count k).map fun k => (k, texts.count k)

theorem tabulates_ofTexts (texts : List Text) : Tabulates (ofTexts texts) texts where
  ascending := ascending_keys texts
  mem_keys_iff _ := FrequencyTable.mem_keys_iff
  entries_eq := FrequencyTable.entries_eq texts
  sum_counts := FrequencyTable.sum_counts texts
  total_eq := total_ofTexts texts
  repeated_eq least := by
    rw [repeated, FrequencyTable.entries_eq, List.filter_map]
    rfl

/-- The table of texts and matches is the sorted multiset of their texts. It does not depend on their order, and the
table of two lists together has the sums of the counts. -/
theorem tabulates_ofList (items : List Counted) :
    Tabulates (ofList items) (items.map (·.key)) ∧
      (∀ items', items'.Perm items → ofList items' = ofList items) ∧
      ∀ items' k, (ofList (items ++ items')).count k = (ofList items).count k + (ofList items').count k := by
  refine ⟨tabulates_ofTexts _, fun items' h => ofTexts_eq_iff_perm.2 (h.map _), fun items' k => ?_⟩
  simp only [ofList, count_ofTexts, List.map_append, List.count_append]

/-- Matches at two places are counted by the text that both have, in whatever order they come. -/
theorem tabulates_ofList_matches :
    let f : Counted := .text "f(a)".toList
    let g : Counted := .hit ⟨4, 8, "g(x)".toList⟩
    let g' : Counted := .hit ⟨12, 16, "g(x)".toList⟩
    [f, g, g'].Perm [g, f, g'] ∧ ofList [f, g, g'] = ofList [g, f, g'] ∧ (ofList [g, f, g']).total = 3 ∧
      (ofList [g, f, g']).repeated 2 = [("g(x)".toList, 2)] := by
  intro f g g'
  have hperm : [f, g, g'].Perm [g, f, g'] := by decide
  have htable := tabulates_ofList [g, f, g']
  exact ⟨hperm, htable.2.1 _ hperm, htable.1.total_eq, by decide⟩

end CallHoist.FrequencyTable
