import CallHoist.Proofs.Sorting
import CallHoist.Proofs.Substitution

/-!
# What a pass yields

A pass over calls never fails: its edits are those of a scan. Given the cutting of the body that the scan makes, the
matches, the bindings and the output are told by it (`Reduction.exists_reduce`). A binding has the stem and a number for
its name, the type of a rule, and a match for its call (`Binding.Of`).

In either mode the texts found are sorted by what is to become of them, and none is lost or doubled
(`Reduction.accounts_of_reduce`).
-/

namespace CallHoist

open Text Grammar

/-! ### Bindings -/

theorem Engine.mem_of_infer {e : Engine} {call : Text} {r : TypeRule} (h : e.infer call = .resolved r) :
    r ∈ e.typeRules := by
  rw [infer] at h
  split at h
  · cases h
  · split at h
    · rename_i ht
      cases h
      exact List.mem_of_find?_eq_some ht
    · cases h

/-- A binding of a call to a name with a number from `serial` on, with the type of a rule. -/
structure Binding.Of (e : Engine) (stem : Text) (serial : Int) (calls : List Text) (b : Binding) : Prop where
  name : ∃ i, serial ≤ i ∧ b.name = Sorting.nameOf stem i
  type : ∃ r ∈ e.typeRules, b.typeName = r.typeName
  call : b.call ∈ calls

theorem Binding.Of.call_occurs {e : Engine} {stem : Text} {serial : Int} {k : Cutting} {pos : Nat} {b : Binding}
    (h : b.Of e stem serial ((k.matchesFrom pos).map (·.text))) : b.call <:+: k.text := by
  obtain ⟨m, hm, hcall⟩ := List.mem_map.1 h.call
  rw [← hcall]
  exact Cutting.infix_of_mem hm

theorem Binding.Of.stem_prefix_name {e : Engine} {stem : Text} {serial : Int} {calls : List Text} {b : Binding}
    (h : b.Of e stem serial calls) : stem <+: b.name := by
  obtain ⟨i, -, hname⟩ := h.name
  exact ⟨decimal i, hname.symm⟩

/-! ### A pass -/

namespace Reduction

/-- What a pass that does not fail has found, and how it has sorted that. -/
theorem of_reduce {c : Config} {e : Engine} {source stem : Text} {exporting : Bool} {r : Reduction}
    (h : reduce c e source stem exporting = .ok r) :
    r.found = collect c.mode c.order r.region.body ∧ r.sorting = sort c e stem (.ofTexts (r.found.map (·.text))) := by
  unfold reduce at h
  split at h
  · cases h
  · rename_i o _
    generalize Region.isolate o c.breadcrumb source = region at h
    unfold ofRegion at h
    cases exporting with
    | false =>
      cases h
      exact ⟨rfl, rfl⟩
    | true =>
      simp only [↓reduceIte] at h
      generalize rewriteBody .. = body at h
      cases body with
      | error err => cases h
      | ok body =>
        cases h
        exact ⟨rfl, rfl⟩

/-- The names of the bindings are the stem with the serial numbers of the pass behind it, in their order. -/
theorem names_of_reduce {c : Config} {e : Engine} {source stem : Text} {exporting : Bool} {r : Reduction}
    (h : reduce c e source stem exporting = .ok r) :
    r.bindings.map (·.name) = (r.serials c).map (Sorting.nameOf stem) := by
  have hsorts := (sorts_sort c e stem (r.found.map (·.text))).1
  rw [← (of_reduce h).2] at hsorts
  rw [serials, List.map_map]
  unfold Sorts at hsorts
  cases hmode : c.mode with
  | functionCalls =>
    rw [hmode] at hsorts
    obtain ⟨texts, -, -, haccounts⟩ := hsorts
    exact haccounts.names_eq
  | conditionalExpressions =>
    rw [hmode] at hsorts
    obtain ⟨texts, -, -, -, -, -, haccounts⟩ := hsorts
    exact haccounts.names_eq

section

variable {c : Config} (hmode : c.mode = .functionCalls)
include hmode

theorem collect_functionCalls (body : Text) : collect c.mode c.order body = scan (functionCall c.order) body := by
  rw [hmode]
  rfl

theorem exists_accounts (e : Engine) (stem : Text) (found : List Text) :
    ∃ texts, (∀ s, s ∈ texts ↔ s ∈ found ∧ c.minRepeats ≤ found.count s) ∧
      Sorting.Accounts (fun s => (e.infer s).fate) Binding.report stem c.firstSerial (found.count ·) texts
        (sort c e stem (.ofTexts found)) := by
  have hsorts := (sorts_sort c e stem found).1
  rw [Sorts, hmode] at hsorts
  obtain ⟨texts, -, hmem, haccounts⟩ := hsorts
  exact ⟨texts, hmem, haccounts⟩

theorem of_mem_sort {e : Engine} {stem : Text} {found : List Text} {b : Binding}
    (h : b ∈ (sort c e stem (.ofTexts found)).bindings) : b.Of e stem c.firstSerial found := by
  obtain ⟨texts, hmem, haccounts⟩ := exists_accounts hmode e stem found
  obtain ⟨i, hi⟩ := List.mem_iff_getElem?.1 h
  have hfate := (haccounts.bound b h).1
  have hcall : b.call ∈ texts := haccounts.mem_iff.2 (.inl (List.mem_map_of_mem h))
  refine ⟨⟨c.firstSerial + i, by omega, haccounts.named i b hi⟩, ?_, ((hmem _).1 hcall).1⟩
  obtain ⟨r, hr, htype⟩ := Verdict.exists_of_fate hfate
  exact ⟨r, Engine.mem_of_infer hr, htype⟩

/-- A pass over calls does not fail, and what it yields is told by a cutting of the body. -/
theorem exists_reduce {o : Regex} (ho : Regex.read c.startMarker = .ok o) (e : Engine) (source : Text) :
    ∃ k : Cutting, k.text = (Region.isolate o c.breadcrumb source).body ∧ k.Fits (functionCall c.order) ∧
      ∀ stem exporting, ∃ r, reduce c e source stem exporting = .ok r ∧
        r.region = Region.isolate o c.breadcrumb source ∧ r.found = k.matchesFrom 0 ∧
        (∀ b ∈ r.bindings, b.Of e stem c.firstSerial (r.found.map (·.text))) ∧
        (exporting = true → r.output = some (r.region.head ++ '\n' ::
          (Binding.block c.breadcrumb r.bindings ++ k.fill (Binding.rename r.bindings)))) := by
  obtain ⟨k, hk, hfits, hscan⟩ := exists_cutting (functionCall c.order) (Region.isolate o c.breadcrumb source).body
  refine ⟨k, hk, hfits, fun stem exporting => ?_⟩
  simp only [reduce, ho, ofRegion, collect_functionCalls hmode, hscan]
  cases exporting with
  | false => exact ⟨_, rfl, rfl, rfl, fun b hb => of_mem_sort hmode hb, fun h => by cases h⟩
  | true =>
    simp only [↓reduceIte, rewriteBody, hmode, Binding.rewrite]
    rw [← hk, Binding.applyAll_edits _ hfits]
    refine ⟨_, rfl, rfl, rfl, fun b hb => of_mem_sort hmode hb, fun _ => ?_⟩
    simp [bindings]

end

/-- What a pass makes of a region, in either mode. -/
private theorem ofRegion_eq_ok_iff {c : Config} {e : Engine} {region : Region} {stem : Text} {exporting : Bool}
    {r : Reduction} :
    ofRegion c e region stem exporting = .ok r ↔
      r.region = region ∧ r.found = collect c.mode c.order r.region.body ∧
        r.table = .ofTexts (r.found.map (·.text)) ∧ r.sorting = sort c e stem r.table ∧
        if exporting then ∃ S, rewriteBody c r.region.body r.found r.bindings = .ok S ∧
          r.output = some (r.region.head ++ '\n' :: S)
        else r.output = none := by
  obtain ⟨region', found, table, sorting, output⟩ := r
  unfold ofRegion
  dsimp only [bindings]
  generalize hbody : rewriteBody c region.body _ _ = body
  constructor
  · intro h
    cases exporting with
    | false =>
      cases h
      exact ⟨rfl, rfl, rfl, rfl, rfl⟩
    | true =>
      cases body with
      | error err => cases h
      | ok S =>
        cases h
        exact ⟨rfl, rfl, rfl, rfl, S, hbody, by simp⟩
  · rintro ⟨rfl, rfl, rfl, rfl, hout⟩
    cases exporting with
    | false =>
      obtain rfl : output = none := hout
      rfl
    | true =>
      obtain ⟨S, hS, rfl⟩ := hout
      obtain rfl : body = .ok S := hbody.symm.trans hS
      simp [Except.map]

theorem reduce_eq_ok_iff {c : Config} {o : Regex} (ho : Regex.read c.startMarker = .ok o) {e : Engine}
    {source stem : Text} {exporting : Bool} {r : Reduction} :
    reduce c e source stem exporting = .ok r ↔
      r.region = Region.isolate o c.breadcrumb source ∧ r.found = collect c.mode c.order r.region.body ∧
        r.table = .ofTexts (r.found.map (·.text)) ∧ r.sorting = sort c e stem r.table ∧
        if exporting then ∃ S, rewriteBody c r.region.body r.found r.bindings = .ok S ∧
          r.output = some (r.region.head ++ '\n' :: S)
        else r.output = none := by
  rw [← ofRegion_eq_ok_iff]
  simp only [reduce, ho]
  cases ofRegion c e (Region.isolate o c.breadcrumb source) stem exporting with
  | error err => simp [Except.mapError]
  | ok r' => simp [Except.mapError]

/-- A pass does not fail on a marker that is a pattern. -/
theorem exists_of_read {c : Config} {o : Regex} (ho : Regex.read c.startMarker = .ok o) (e : Engine)
    (source stem : Text) (exporting : Bool) : ∃ r, reduce c e source stem exporting = .ok r := by
  cases hmode : c.mode with
  | functionCalls =>
    obtain ⟨k, -, -, hpass⟩ := exists_reduce hmode ho e source
    obtain ⟨r, hr, -⟩ := hpass stem exporting
    exact ⟨r, hr⟩
  | conditionalExpressions =>
    simp only [reduce, ho, ofRegion, rewriteBody, hmode]
    cases exporting with
    | false => exact ⟨_, rfl⟩
    | true => exact ⟨_, rfl⟩

end Reduction

end CallHoist
