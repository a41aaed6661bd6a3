import CallHoist.Proofs.Frequency
import CallHoist.Proofs.Text.Decimal
import CallHoist.Reduction

/-!
# What becomes of each text of a table

A pass goes through the texts of its table in ascending order and keeps four lists: the bindings, the texts of no known
type, the texts that a rule vetoes, and the lines of the report. `Sorting.Accounts` says what these lists are: each text
is in one of the first three, the one that its fate says, these go up as the texts do, the bindings are numbered without
a gap, and the report has the lines of each text in turn. A text more, of any fate, preserves it (`Accounts.bound_cons`,
`Accounts.untyped_cons`, `Accounts.vetoed_cons`), so the loop over calls yields it for any rules, and so does the loop
over conditional expressions.
-/

namespace CallHoist

open Text

/-- What is to become of a text: a binding of a type, an entry among the unknown, or an entry among the ignored. -/
inductive Fate where
  | bound (typeName : Text)
  | unknown
  | ignored

def Verdict.fate : Verdict → Fate
  | .resolved r => .bound r.typeName
  | .unknown => .unknown
  | .ignored _ => .ignored

theorem Verdict.exists_of_fate {v : Verdict} {typeName : Text} (h : v.fate = .bound typeName) :
    ∃ r, v = .resolved r ∧ typeName = r.typeName := by
  cases v with
  | ignored r => cases h
  | resolved r =>
    cases h
    exact ⟨r, rfl, rfl⟩
  | unknown => cases h

namespace Sorting

/-- The lines of a report about a text: those of its binding, or two of a text of no known type. -/
def lines (fate : Text → Fate) (report : Binding → List Text) (count : Text → Nat) (bs : List Binding) (s : Text) :
    List Text :=
  match fate s with
  | .bound _ => (bs.find? (·.call == s)).elim [] report
  | .unknown => Binding.unknownReport s (count s)
  | .ignored => []

/-- Each of the texts, which go up, is sorted by its fate, and the bindings are numbered from `serial` on. -/
structure Accounts (fate : Text → Fate) (report : Binding → List Text) (stem : Text) (serial : Int)
    (count : Text → Nat) (texts : List Text) (t : Sorting) : Prop where
  parted : (t.bindings.map (·.call) ++ t.unknown ++ t.ignored).Perm texts
  calls_ascending : (t.bindings.map (·.call)).Pairwise (· < ·)
  unknown_ascending : t.unknown.Pairwise (· < ·)
  ignored_ascending : t.ignored.Pairwise (· < ·)
  bound : ∀ b ∈ t.bindings, fate b.call = .bound b.typeName ∧ b.count = count b.call
  unknown : ∀ s ∈ t.unknown, fate s = .unknown
  ignored : ∀ s ∈ t.ignored, fate s = .ignored
  named : ∀ (i : Nat) b, t.bindings[i]? = some b → b.name = nameOf stem (serial + i)
  reported : t.reportLines = texts.flatMap (lines fate report count t.bindings)

/-! ### One text more -/

namespace Accounts

variable {fate : Text → Fate} {report : Binding → List Text} {stem : Text} {serial : Int} {count : Text → Nat}
  {texts : List Text} {t : Sorting} {s : Text}

theorem none : Accounts fate report stem serial count [] Sorting.none := by
  constructor <;> simp [Sorting.none]

theorem mem_iff (h : Accounts fate report stem serial count texts t) :
    s ∈ texts ↔ s ∈ t.bindings.map (·.call) ∨ s ∈ t.unknown ∨ s ∈ t.ignored := by
  rw [← h.parted.mem_iff, List.mem_append, List.mem_append, or_assoc]

theorem bound_cons {typeName : Text} (h : Accounts fate report stem (serial + 1) count texts t)
    (hs : ∀ u ∈ texts, s < u) (hfate : fate s = .bound typeName) :
    let b : Binding := ⟨nameOf stem serial, typeName, s, count s⟩
    Accounts fate report stem serial count (s :: texts) (t.bound b (report b)) := by
  intro b
  have hfind : ∀ u ∈ texts, (b :: t.bindings).find? (·.call == u) = t.bindings.find? (·.call == u) := by
    intro u hu
    have hne : b.call ≠ u := fun he => List.lt_irrefl u (he ▸ hs u hu)
    rw [List.find?_cons_of_neg]
    simpa using hne
  constructor
  · exact h.parted.cons s
  · refine List.pairwise_cons.2 ⟨?_, h.calls_ascending⟩
    intro u hu
    exact hs u (h.mem_iff.2 (.inl hu))
  · exact h.unknown_ascending
  · exact h.ignored_ascending
  · intro d hd
    rcases List.mem_cons.1 hd with rfl | hd
    · exact ⟨hfate, rfl⟩
    · exact h.bound d hd
  · exact h.unknown
  · exact h.ignored
  · intro i d hd
    cases i with
    | zero =>
      obtain rfl : b = d := Option.some.inj hd
      simp [b]
    | succ i =>
      have hname := h.named i d hd
      rw [hname]
      congr 1
      omega
  · have hhead : lines fate report count (b :: t.bindings) s = report b := by simp [lines, hfate, b]
    have htail : texts.map (lines fate report count (b :: t.bindings)) =
        texts.map (lines fate report count t.bindings) := by
      apply List.map_congr_left
      intro u hu
      simp only [lines, hfind u hu]
    rw [Sorting.bound, List.flatMap_cons, hhead, h.reported, List.flatMap_def, List.flatMap_def, htail]

theorem untyped_cons (h : Accounts fate report stem serial count texts t) (hs : ∀ u ∈ texts, s < u)
    (hfate : fate s = .unknown) :
    Accounts fate report stem serial count (s :: texts) (t.untyped s (Binding.unknownReport s (count s))) := by
  constructor
  · have hparted : (t.bindings.map (·.call) ++ s :: (t.unknown ++ t.ignored)).Perm (s :: texts) := by
      have hmiddle := h.parted.cons s
      rw [List.append_assoc] at hmiddle
      exact List.perm_middle.trans hmiddle
    simpa [untyped] using hparted
  · exact h.calls_ascending
  · refine List.pairwise_cons.2 ⟨?_, h.unknown_ascending⟩
    intro u hu
    exact hs u (h.mem_iff.2 (.inr (.inl hu)))
  · exact h.ignored_ascending
  · exact h.bound
  · intro u hu
    rcases List.mem_cons.1 hu with rfl | hu
    · exact hfate
    · exact h.unknown u hu
  · exact h.ignored
  · exact h.named
  · rw [untyped, List.flatMap_cons, h.reported]
    simp [lines, hfate]

theorem vetoed_cons (h : Accounts fate report stem serial count texts t) (hs : ∀ u ∈ texts, s < u)
    (hfate : fate s = .ignored) : Accounts fate report stem serial count (s :: texts) (t.vetoed s) := by
  constructor
  · exact List.perm_middle.trans (h.parted.cons s)
  · exact h.calls_ascending
  · exact h.unknown_ascending
  · refine List.pairwise_cons.2 ⟨?_, h.ignored_ascending⟩
    intro u hu
    exact hs u (h.mem_iff.2 (.inr (.inr hu)))
  · exact h.bound
  · exact h.unknown
  · intro u hu
    rcases List.mem_cons.1 hu with rfl | hu
    · exact hfate
    · exact h.ignored u hu
  · exact h.named
  · rw [vetoed, List.flatMap_cons, h.reported]
    simp [lines, hfate]

/-! ### All texts -/

theorem names_eq (h : Accounts fate report stem serial count texts t) :
    t.bindings.map (·.name) = (List.range t.bindings.length).map fun i : Nat => nameOf stem (serial + i) := by
  apply List.ext_getElem
  · simp
  · intro i hi _
    rw [List.length_map] at hi
    simpa using h.named i _ (List.getElem?_eq_getElem hi)

theorem names_nodup (h : Accounts fate report stem serial count texts t) : (t.bindings.map (·.name)).Nodup := by
  rw [h.names_eq]
  refine List.Nodup.map (fun i j he => ?_) List.nodup_range
  have hserial := decimal_inj (List.append_cancel_left he)
  omega

end Accounts

theorem accounts_ofCalls (e : Engine) (stem : Text) (serial : Int) (count : Text → Nat) {texts : List Text}
    (ht : texts.Pairwise (· < ·)) :
    Accounts (fun s => (e.infer s).fate) Binding.report stem serial count texts
      (ofCalls e stem serial (texts.map fun s => (s, count s))) := by
  induction texts generalizing serial with
  | nil => exact .none
  | cons s texts ih =>
    obtain ⟨hs, ht⟩ := List.pairwise_cons.1 ht
    rw [List.map_cons, ofCalls]
    cases hv : e.infer s with
    | ignored r => exact (ih serial ht).vetoed_cons hs (by simp only [hv, Verdict.fate])
    | unknown => exact (ih serial ht).untyped_cons hs (by simp only [hv, Verdict.fate])
    | resolved r => exact (ih (serial + 1) ht).bound_cons hs (by simp only [hv, Verdict.fate])

theorem accounts_ofConditionals (typeName stem : Text) (serial : Int) (count : Text → Nat) {texts : List Text}
    (ht : texts.Pairwise (· < ·)) :
    Accounts (fun _ => .bound typeName) Binding.untypedReport stem serial count texts
      (ofConditionals typeName stem serial (texts.map fun s => (s, count s))) := by
  induction texts generalizing serial with
  | nil => exact .none
  | cons s texts ih =>
    obtain ⟨hs, ht⟩ := List.pairwise_cons.1 ht
    exact (ih (serial + 1) ht).bound_cons hs rfl

/-- Where all are to be bound, they are. -/
theorem Accounts.calls_eq {typeName stem : Text} {report : Binding → List Text} {serial : Int} {count : Text → Nat}
    {texts : List Text} {t : Sorting} (h : Accounts (fun _ => .bound typeName) report stem serial count texts t)
    (ht : texts.Pairwise (· < ·)) : t.bindings.map (·.call) = texts ∧ t.unknown = [] ∧ t.ignored = [] := by
  have hunknown : t.unknown = [] := List.eq_nil_iff_forall_not_mem.2 fun s hs => nomatch h.unknown s hs
  have hignored : t.ignored = [] := List.eq_nil_iff_forall_not_mem.2 fun s hs => nomatch h.ignored s hs
  have hparted := h.parted
  rw [hunknown, hignored, List.append_nil, List.append_nil] at hparted
  refine ⟨hparted.eq_of_pairwise ?_ h.calls_ascending ht, hunknown, hignored⟩
  intro a b _ _ hab hba
  exact absurd hba (List.lt_asymm hab)

end Sorting

namespace Reduction

/-- The texts found are sorted as the mode has it: the calls that occur often enough by the verdicts of an engine, the
conditional expressions all as bindings. -/
def Sorts (c : Config) (e : Engine) (stem : Text) (found : List Text) (t : Sorting) : Prop :=
  match c.mode with
  | .functionCalls =>
    ∃ texts, texts.Pairwise (· < ·) ∧ (∀ s, s ∈ texts ↔ s ∈ found ∧ c.minRepeats ≤ found.count s) ∧
      Sorting.Accounts (fun s => (e.infer s).fate) Binding.report stem c.firstSerial (found.count ·) texts t
  | .conditionalExpressions =>
    ∃ texts, texts.Pairwise (· < ·) ∧ (∀ s, s ∈ texts ↔ s ∈ found) ∧
      t.bindings.map (·.call) = texts ∧ t.unknown = [] ∧ t.ignored = [] ∧
      Sorting.Accounts (fun _ => .bound c.placeholderType) Binding.untypedReport stem c.firstSerial (found.count ·)
        texts t

theorem sorts_sort (c : Config) (e : Engine) (stem : Text) (found : List Text) :
    Sorts c e stem found (sort c e stem (.ofTexts found)) ∧
      ((sort c e stem (.ofTexts found)).bindings.map (·.name)).Nodup := by
  unfold Sorts sort
  cases hmode : c.mode with
  | functionCalls =>
    obtain ⟨texts, ht, hmem, hentries⟩ := FrequencyTable.filter_entries found fun x => decide (c.minRepeats ≤ x.2)
    have haccounts := Sorting.accounts_ofCalls e stem c.firstSerial (found.count ·) ht
    rw [← hentries] at haccounts
    exact ⟨⟨texts, ht, by simpa using hmem, haccounts⟩, haccounts.names_nodup⟩
  | conditionalExpressions =>
    obtain ⟨texts, ht, hmem, hentries⟩ := FrequencyTable.filter_entries found fun _ => true
    have haccounts := Sorting.accounts_ofConditionals c.placeholderType stem c.firstSerial (found.count ·) ht
    rw [← hentries, List.filter_eq_self.2 fun _ _ => rfl] at haccounts
    obtain ⟨hcalls, hunknown, hignored⟩ := haccounts.calls_eq ht
    exact ⟨⟨texts, ht, by simpa using hmem, hcalls, hunknown, hignored, haccounts⟩, haccounts.names_nodup⟩

end Reduction

end CallHoist
