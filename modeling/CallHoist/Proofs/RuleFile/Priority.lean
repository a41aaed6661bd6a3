import CallHoist.RuleFile

/-!
# Own rules and inherited rules

The default rules that a file inherits stand behind its own, type rules behind type rules and ignore rules behind ignore
rules, and all ignore rules are asked before any type rule. So a rule of the file comes before the inherited rules of
its kind, and an ignore rule of the file before all of them, but an inherited ignore rule comes before a type rule of
the file. Where the file has a rule for a call, this is the one way in which the inherited rules change the verdict
(`infer_eq_own_iff`).
-/

namespace CallHoist

/-! ### One engine in front of another -/

namespace Engine

/-- Some rule of the engine matches a call. -/
def HasRuleFor (e : Engine) (call : Text) : Prop :=
  (∃ r ∈ e.typeRules, r.matches call = true) ∨ ∃ r ∈ e.ignoreRules, r.matches call = true

variable {e d : Engine} {call : Text}

theorem ignoredBy?_append (e d : Engine) (call : Text) :
    (e.append d).ignoredBy? call = (e.ignoredBy? call).or (d.ignoredBy? call) :=
  List.find?_append

theorem typedBy?_append (e d : Engine) (call : Text) :
    (e.append d).typedBy? call = (e.typedBy? call).or (d.typedBy? call) :=
  List.find?_append

theorem ignoredBy?_eq_none_iff : e.ignoredBy? call = none ↔ ∀ r ∈ e.ignoreRules, r.matches call = false := by
  simp [ignoredBy?, List.find?_eq_none]

theorem isSome_ignoredBy?_iff : (e.ignoredBy? call).isSome = true ↔ ∃ r ∈ e.ignoreRules, r.matches call = true := by
  simp [ignoredBy?, List.find?_isSome]

/-- Where no ignore rule matches a call that there is a rule for, a type rule does. -/
theorem HasRuleFor.exists_typedBy? (h : e.HasRuleFor call) (hi : e.ignoredBy? call = none) :
    ∃ r, e.typedBy? call = some r := by
  rcases h with h | ⟨r, hr, hmatch⟩
  · rw [← Option.isSome_iff_exists, typedBy?, List.find?_isSome]
    exact h
  · rw [ignoredBy?_eq_none_iff] at hi
    rw [hi r hr] at hmatch
    cases hmatch

/-- An ignore rule comes before all that stands behind it. -/
theorem infer_append_of_ignored {v : IgnoreRule} (h : e.ignoredBy? call = some v) :
    (e.append d).infer call = e.infer call := by
  have happend : (e.append d).ignoredBy? call = some v := by
    rw [ignoredBy?_append, h]
    rfl
  rw [infer, infer, happend, h]

/-- A type rule comes before all type rules that stand behind it, where no ignore rule matches. -/
theorem infer_append_of_typed {r : TypeRule} (hi : e.ignoredBy? call = none) (hd : d.ignoredBy? call = none)
    (h : e.typedBy? call = some r) : (e.append d).infer call = e.infer call := by
  have hignored : (e.append d).ignoredBy? call = none := by
    rw [ignoredBy?_append, hi, hd]
    rfl
  have htyped : (e.append d).typedBy? call = some r := by
    rw [typedBy?_append, h]
    rfl
  rw [infer, infer, hignored, htyped, hi, h]

/-- An ignore rule that stands behind comes before all type rules. -/
theorem infer_append_of_vetoed {v : IgnoreRule} (hi : e.ignoredBy? call = none) (hd : d.ignoredBy? call = some v) :
    (e.append d).infer call = .ignored v := by
  have hignored : (e.append d).ignoredBy? call = some v := by
    rw [ignoredBy?_append, hi, hd]
    rfl
  rw [infer, hignored]

theorem infer_ne_ignored (hi : e.ignoredBy? call = none) (v : IgnoreRule) : e.infer call ≠ .ignored v := by
  rw [infer, hi]
  cases e.typedBy? call <;> simp

end Engine

/-! ### Files that inherit the default rules -/

namespace RuleTables

open Engine

theorem engine_of_inherits {t : RuleTables} (ht : t.inheritDefaults = true) :
    t.engine = t.own.append Engine.defaults := by
  rw [engine, if_pos ht]

/-- For a call that a file has a rule for, the inherited rules leave the verdict as it is by the file's own rules, just
if an ignore rule of the file matches the call or no inherited one does. Where only an inherited one does, the first of
those vetoes the call. -/
theorem infer_eq_own_iff {t : RuleTables} (ht : t.inheritDefaults = true) {call : Text}
    (hrule : t.own.HasRuleFor call) :
    (t.engine.infer call = t.own.infer call ↔
      (∃ r ∈ t.own.ignoreRules, r.matches call = true) ∨
        ∀ r ∈ Engine.defaults.ignoreRules, r.matches call = false) ∧
    ∀ v, (∀ r ∈ t.own.ignoreRules, r.matches call = false) → Engine.defaults.ignoredBy? call = some v →
      t.engine.infer call = .ignored v := by
  rw [engine_of_inherits ht, ← isSome_ignoredBy?_iff, ← ignoredBy?_eq_none_iff, ← ignoredBy?_eq_none_iff]
  refine ⟨?_, fun v => infer_append_of_vetoed⟩
  cases hi : t.own.ignoredBy? call with
  | some v =>
    have hsame := infer_append_of_ignored (d := Engine.defaults) hi
    simp [hsame]
  | none =>
    obtain ⟨r, hr⟩ := hrule.exists_typedBy? hi
    cases hd : Engine.defaults.ignoredBy? call with
    | none =>
      have hsame := infer_append_of_typed hi hd hr
      simp [hsame]
    | some v =>
      have hveto := infer_append_of_vetoed hi hd
      have hown := infer_ne_ignored hi v
      simp [hveto, Ne.symm hown]

/-- A type rule that an inherited ignore rule comes before, and one that none comes before. -/
theorem infer_eq_own_iff_abs :
    let t : RuleTables := ⟨⟨[⟨Engine.constructed "abs", "float".toList⟩, ⟨Engine.constructed "edf", "mine".toList⟩], []⟩,
      true⟩
    (t.inheritDefaults = true ∧ t.own.HasRuleFor "abs(x)".toList ∧ t.own.HasRuleFor "edf(x)".toList) ∧
      t.engine.infer "abs(x)".toList = .ignored ⟨"abs".toList, Engine.constructed "abs"⟩ ∧
      t.engine.infer "edf(x)".toList = t.own.infer "edf(x)".toList := by
  intro t
  have hmatch : (⟨Engine.constructed "abs", "float".toList⟩ : TypeRule).matches "abs(x)".toList = true ∧
      (⟨Engine.constructed "edf", "mine".toList⟩ : TypeRule).matches "edf(x)".toList = true := by
    decide +kernel
  have habs : t.own.HasRuleFor "abs(x)".toList := .inl ⟨_, .head _, hmatch.1⟩
  have hedf : t.own.HasRuleFor "edf(x)".toList := .inl ⟨_, .tail _ (.head _), hmatch.2⟩
  have hveto : Engine.defaults.ignoredBy? "abs(x)".toList = some ⟨"abs".toList, Engine.constructed "abs"⟩ :=
    ignoredBy?_of_findIdx? (i := 7) (by decide +kernel) rfl
  have hnone : ∀ r ∈ Engine.defaults.ignoreRules, r.matches "edf(x)".toList = false := by decide +kernel
  exact ⟨⟨rfl, habs, hedf⟩, (infer_eq_own_iff rfl habs).2 _ (by simp [t]) hveto,
    (infer_eq_own_iff rfl hedf).1.2 (.inr hnone)⟩

/-- A file with a type rule for a call that an inherited ignore rule vetoes. -/
theorem inherited_veto :
    ∃ t, RuleFile.read .ofRead "(rules (type \"abs[(].*[)]\" \"float\") (inherit-defaults))".toList = .ok t ∧
      t.inheritDefaults = true ∧ (∃ r ∈ t.own.typeRules, r.matches "abs(x)".toList = true) ∧
      t.engine.infer "abs(x)".toList ≠ t.own.infer "abs(x)".toList := by
  have hfile : (RuleFile.read .ofRead
      "(rules (type \"abs[(].*[)]\" \"float\") (inherit-defaults))".toList).toOption.any (fun t =>
        t.inheritDefaults && t.own.typeRules.any (·.matches "abs(x)".toList) &&
          (t.own.ignoredBy? "abs(x)".toList).isNone && (t.engine.ignoredBy? "abs(x)".toList).isSome) = true := by
    decide +kernel
  cases hread : RuleFile.read .ofRead "(rules (type \"abs[(].*[)]\" \"float\") (inherit-defaults))".toList with
  | error e =>
    rw [hread] at hfile
    cases hfile
  | ok t =>
    rw [hread] at hfile
    simp only [Except.toOption, Option.any_some, Bool.and_eq_true, List.any_eq_true, Option.isNone_iff_eq_none] at hfile
    obtain ⟨⟨⟨hinherits, htyped⟩, hown⟩, hveto⟩ := hfile
    obtain ⟨v, hv⟩ := Option.isSome_iff_exists.1 hveto
    have hignored : t.engine.infer "abs(x)".toList = .ignored v := by rw [infer, hv]
    refine ⟨t, rfl, hinherits, htyped, ?_⟩
    rw [hignored]
    exact (infer_ne_ignored hown v).symm

end RuleTables

end CallHoist
