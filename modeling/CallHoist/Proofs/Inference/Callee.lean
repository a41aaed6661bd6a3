import CallHoist.Inference.Defaults
import CallHoist.Proofs.Grammar.Nesting
import CallHoist.Proofs.Pattern.Language

/-!
# The callee decides the verdict

The default rules have patterns for a name with anything between parentheses behind it. A dot matches no line feed, and
the patterns that begin with a dot look for their name in the arguments too. Where the arguments give them no occasion
to (`Neutral`), each pattern matches a call or not by what stands in front of its first parenthesis (`ByCallee`), and so
two calls of one callee have one verdict (`infer_eq_of_callee`). In a call, arguments without quotes hold no parenthesis
behind a word, so there are but the line feed and the word `annotations` to be excluded.
-/

namespace CallHoist

open Text Pattern Grammar

/-- Arguments in which no default rule finds what it looks for in a name. -/
structure Neutral (w : Text) : Prop where
  feed : '\n' ∉ w
  annotations : ¬ "annotations".toList <:+: w
  edf : ¬ "edf(".toList <:+: w
  bsdf : ¬ "bsdf(".toList <:+: w

theorem Neutral.of_infix {v w : Text} (h : Neutral w) (hv : v <:+: w) : Neutral v := by
  constructor
  · intro hmem
    exact h.feed (hv.subset hmem)
  · intro hsub
    exact h.annotations (hsub.trans hv)
  · intro hsub
    exact h.edf (hsub.trans hv)
  · intro hsub
    exact h.bsdf (hsub.trans hv)

/-- What a pattern matches among the calls with neutral arguments depends on the callee alone. -/
def ByCallee (r : Regex) : Prop :=
  ∀ n w w', '(' ∉ n → Neutral w → Neutral w' → r.fullMatch (n ++ '(' :: (w ++ [')'])) = true →
    r.fullMatch (n ++ '(' :: (w' ++ [')'])) = true

namespace Engine

/-! ### Patterns of calls -/

/-- The flags of the default rules. -/
abbrev plainFlags : Flags := ⟨false, false⟩

private theorem denotes_parentheses_iff {s : Text} :
    Denotes plainFlags (catAll [single '(', anything, single ')']) s ↔ ∃ v, s = '(' :: (v ++ [')']) ∧ '\n' ∉ v := by
  simp only [catAll, denotes_cat_iff, denotes_single_iff (f := plainFlags) rfl,
    denotes_anything_iff (f := plainFlags) rfl]
  constructor
  · rintro ⟨_, _, rfl, rfl, v, _, rfl, hv, rfl⟩
    exact ⟨v, rfl, hv⟩
  · rintro ⟨v, rfl, hv⟩
    exact ⟨['('], v ++ [')'], rfl, rfl, v, [')'], rfl, hv, rfl⟩

theorem fullMatch_callOf {source : Text} {name : List Pattern} (hname : name.all isRegular = true) (s : Text) :
    (callOf source name).fullMatch s = true ↔
      ∃ u v, s = u ++ '(' :: (v ++ [')']) ∧ Denotes plainFlags (catAll name) u ∧ '\n' ∉ v := by
  have hregular : (callOf source name).body.isRegular = true := by
    apply isRegular_catAll
    rw [List.all_append, hname]
    rfl
  rw [Regex.fullMatch_iff hregular]
  show Denotes plainFlags (catAll (name ++ [single '(', anything, single ')'])) s ↔ _
  rw [denotes_catAll_append]
  simp only [denotes_parentheses_iff]
  constructor
  · rintro ⟨u, _, rfl, hu, v, rfl, hv⟩
    exact ⟨u, v, rfl, hu, hv⟩
  · rintro ⟨u, v, rfl, hu, hv⟩
    exact ⟨u, _, rfl, hu, v, rfl, hv⟩

/-- It is enough that what the name matches up to a parenthesis in the arguments it matches up to the first one. -/
theorem byCallee_callOf {source : Text} {name : List Pattern} (hname : name.all isRegular = true)
    (h : ∀ n y, '(' ∉ n → Neutral (y ++ ['(']) → Denotes plainFlags (catAll name) (n ++ '(' :: y) →
      Denotes plainFlags (catAll name) n) : ByCallee (callOf source name) := by
  intro n w w' hn hw hw'
  rw [fullMatch_callOf hname, fullMatch_callOf hname]
  rintro ⟨u, v, he, hu, -⟩
  refine ⟨n, w', rfl, ?_, hw'.feed⟩
  rcases append_eq_append_cases he with ⟨a, rfl, ha⟩ | ⟨a, hne, rfl, ha⟩
  · cases a with
    | nil => rwa [List.append_nil] at hu
    | cons c y =>
      obtain ⟨rfl, htail⟩ := List.cons.inj ha
      have hw' : w ++ [')'] = (y ++ '(' :: v) ++ [')'] := by simpa using htail
      obtain ⟨rfl, -⟩ := List.append_inj' hw' rfl
      exact h n y hn (hw.of_infix ⟨[], v, by simp⟩) hu
  · cases a with
    | nil => exact absurd rfl hne
    | cons c a =>
      obtain ⟨rfl, -⟩ := List.cons.inj ha
      exact absurd (by simp) hn

/-- A name that holds no parenthesis is the whole callee. -/
theorem byCallee_of_mentions {source : Text} {name : List Pattern} (hname : name.all isRegular = true)
    (hparen : (catAll name).mentions plainFlags '(' = false) : ByCallee (callOf source name) := by
  apply byCallee_callOf hname
  intro n y _ _ hu
  exact absurd (by simp) (not_mem_of_mentions hu hparen)

/-- A name that goes on with anything. -/
theorem byCallee_open (source : Text) (front : List Pattern) (hfront : front.all isRegular = true)
    (hparen : (catAll front).mentions plainFlags '(' = false) : ByCallee (callOf source (front ++ [anything])) := by
  have hname : (front ++ [anything]).all isRegular = true := by
    rw [List.all_append, hfront]
    rfl
  apply byCallee_callOf hname
  intro n y _ _ hu
  simp only [denotes_catAll_append, catAll, denotes_anything_iff (f := plainFlags) rfl] at hu ⊢
  obtain ⟨p, z, he, hp, hz⟩ := hu
  rcases append_eq_append_cases he with ⟨a, rfl, ha⟩ | ⟨a, -, rfl, rfl⟩
  · -- the parenthesis would be in the front of the name
    cases a with
    | nil =>
      rw [List.append_nil] at hp
      exact ⟨n, [], (List.append_nil n).symm, hp, by simp⟩
    | cons c a =>
      obtain ⟨rfl, -⟩ := List.cons.inj ha
      exact absurd (by simp) (not_mem_of_mentions hp hparen)
  · rw [List.mem_append, not_or] at hz
    exact ⟨p, a, rfl, hp, hz.1⟩

private theorem denotes_ending_iff {t s : Text} :
    Denotes plainFlags (catAll (anything :: literal t)) s ↔ ∃ x, s = x ++ t ∧ '\n' ∉ x := by
  simp only [denotes_catAll_cons, denotes_literal_iff (f := plainFlags) rfl, denotes_anything_iff (f := plainFlags) rfl]
  constructor
  · rintro ⟨x, _, rfl, hx, rfl⟩
    exact ⟨x, rfl, hx⟩
  · rintro ⟨x, rfl, hx⟩
    exact ⟨x, t, rfl, hx, rfl⟩

theorem byCallee_ending {name : String} (hparen : '(' ∉ name.toList)
    (hneutral : ∀ w, Neutral w → ¬ name.toList ++ ['('] <:+: w) : ByCallee (ending name) := by
  have hregular : (anything :: literal name.toList).all isRegular = true := by
    rw [List.all_cons, all_isRegular_literal]
    rfl
  apply byCallee_callOf hregular
  intro n y _ hy hu
  obtain ⟨x, he, -⟩ := denotes_ending_iff.1 hu
  -- the name would end at the parenthesis, and so stand in the arguments
  exfalso
  rcases append_eq_append_cases he with ⟨a, rfl, ha⟩ | ⟨a, -, rfl, ha⟩
  · cases a with
    | nil => exact hparen (by rw [← List.nil_append name.toList, ← ha]; simp)
    | cons c a =>
      obtain ⟨rfl, rfl⟩ := List.cons.inj ha
      exact hneutral _ hy ⟨a, [], by simp⟩
  · exact hparen (by rw [ha]; simp)

private theorem denotes_containing_iff {t s : Text} :
    Denotes plainFlags (catAll ((anything :: literal t) ++ [anything])) s ↔
      ∃ x z, s = x ++ (t ++ z) ∧ '\n' ∉ x ∧ '\n' ∉ z := by
  have hend : ∀ z, Denotes plainFlags (catAll [anything]) z ↔ '\n' ∉ z := fun z => denotes_anything_iff rfl
  rw [denotes_catAll_append]
  simp only [denotes_ending_iff, hend]
  constructor
  · rintro ⟨_, z, rfl, ⟨x, rfl, hx⟩, hz⟩
    exact ⟨x, z, List.append_assoc .., hx, hz⟩
  · rintro ⟨x, z, rfl, hx, hz⟩
    exact ⟨x ++ t, z, (List.append_assoc ..).symm, ⟨x, rfl, hx⟩, hz⟩

theorem byCallee_containing {name : String} (hparen : '(' ∉ name.toList) (hfeed : '\n' ∉ name.toList)
    (hneutral : ∀ w, Neutral w → ¬ name.toList <:+: w) : ByCallee (containing name) := by
  have hregular : ((anything :: literal name.toList) ++ [anything]).all isRegular = true := by
    rw [List.all_append, List.all_cons, all_isRegular_literal]
    rfl
  apply byCallee_callOf hregular
  intro n y _ hy hu
  rw [denotes_containing_iff] at hu ⊢
  obtain ⟨x, z, he, hx, hz⟩ := hu
  have hfeeds : '\n' ∉ n ++ '(' :: y := by
    rw [he]
    simp [hx, hfeed, hz]
  rcases infix_append_cons ⟨x, z, by rw [he, List.append_assoc]⟩ hparen with hin | hin
  · obtain ⟨x', z', rfl⟩ := hin
    simp only [List.mem_append, not_or] at hfeeds
    exact ⟨x', z', List.append_assoc .., hfeeds.1.1.1, hfeeds.1.2⟩
  · exact absurd (hin.trans ⟨[], ['('], rfl⟩) (hneutral _ hy)

/-! ### The default rules -/

theorem byCallee_types : ∀ r ∈ defaultTypes, ByCallee r.1 := by
  simp only [defaultTypes, List.forall_mem_cons]
  and_intros
  -- all but the last two are builtin functions and constructors
  all_goals try exact byCallee_of_mentions (by decide +kernel) (by decide +kernel)
  · exact byCallee_ending (by decide +kernel) fun w hw => hw.edf
  · exact byCallee_ending (by decide +kernel) fun w hw => hw.bsdf
  · simp

theorem byCallee_vetoes : ∀ r ∈ defaultVetoes, ByCallee r.2 := by
  simp only [defaultVetoes, List.forall_mem_cons]
  and_intros
  all_goals try exact byCallee_of_mentions (by decide +kernel) (by decide +kernel)
  · exact byCallee_open _ (.optional (.group (.catAll (literal "::".toList))) :: literal "anno::".toList)
      (by decide +kernel) (by decide +kernel)
  · exact byCallee_containing (by decide +kernel) (by decide +kernel) fun w hw => hw.annotations
  · simp

theorem infer_congr {e : Engine} {s t : Text} (hv : ∀ r ∈ e.ignoreRules, r.matches s = r.matches t)
    (ht : ∀ r ∈ e.typeRules, r.matches s = r.matches t) : e.infer s = e.infer t := by
  have hignored : e.ignoredBy? s = e.ignoredBy? t := by
    unfold ignoredBy?
    rw [← List.head?_filter, ← List.head?_filter, List.filter_congr hv]
  have htyped : e.typedBy? s = e.typedBy? t := by
    unfold typedBy?
    rw [← List.head?_filter, ← List.head?_filter, List.filter_congr ht]
  rw [infer, infer, hignored, htyped]

private theorem fullMatch_eq_of_byCallee {r : Regex} (hr : ByCallee r) {n w w' : Text} (hn : '(' ∉ n) (hw : Neutral w)
    (hw' : Neutral w') : r.fullMatch (n ++ '(' :: (w ++ [')'])) = r.fullMatch (n ++ '(' :: (w' ++ [')'])) := by
  rw [Bool.eq_iff_iff]
  exact ⟨hr n w w' hn hw hw', hr n w' w hn hw' hw⟩

private theorem infer_defaults_eq {n w w' : Text} (hn : '(' ∉ n) (hw : Neutral w) (hw' : Neutral w') :
    defaults.infer (n ++ '(' :: (w ++ [')'])) = defaults.infer (n ++ '(' :: (w' ++ [')'])) := by
  apply infer_congr
  · intro r hr
    obtain ⟨v, hv, rfl⟩ := List.mem_map.1 hr
    exact fullMatch_eq_of_byCallee (byCallee_vetoes v hv) hn hw hw'
  · intro r hr
    obtain ⟨v, hv, rfl⟩ := List.mem_map.1 hr
    exact fullMatch_eq_of_byCallee (byCallee_types v hv) hn hw hw'

/-! ### Calls -/

/-- Arguments without a line feed, the word `annotations`, and strings with the beginning of a call of an `edf`. -/
structure Quiet (w : Text) : Prop where
  feed : '\n' ∉ w
  annotations : ¬ "annotations".toList <:+: w
  strings : '"' ∈ w → ¬ "edf(".toList <:+: w ∧ ¬ "bsdf(".toList <:+: w

private theorem exists_arguments {o : Order} {t : Text} (ht : extent (functionCall o) t = .whole t.length)
    (hq : Quiet (t.dropWhile (· != '('))) :
    ∃ w, t = t.takeWhile (· != '(') ++ '(' :: (w ++ [')']) ∧ Neutral w := by
  have htake : (functionCall o).Takes t [] := by
    rw [Peg.Takes, List.append_nil]
    exact extent_eq_whole_iff.1 ht
  obtain ⟨n, b, x, rfl, -, -, hin, hopen, -⟩ := exists_callee htake
  have hpass : ∀ c ∈ n ++ b, (c != '(') = true := by
    intro c hc
    rw [bne_iff_ne]
    rintro rfl
    exact hopen hc
  rw [List.dropWhile_append_of_pos hpass, List.dropWhile_cons_of_neg (by simp)] at hq
  obtain ⟨w, rfl⟩ := hin.exists_close
  have hsub : w <:+: '(' :: (w ++ [')']) := ⟨['('], [')'], by simp⟩
  -- without quotes, no parenthesis in the arguments is behind a word
  have hword : '"' ∉ '(' :: (w ++ [')']) → ¬ ['f', '('] <:+: w := by
    intro hquote hf
    have hcallee : IsCallee ['f', '('] := .mk (c := 'f') (b := []) rfl rfl
    refine hin.not_infix hcallee ?_ (hf.trans ⟨[], [')'], rfl⟩)
    intro hmem
    exact hquote (List.mem_cons_of_mem _ hmem)
  refine ⟨w, ?_, ?_, ?_, ?_, ?_⟩
  · rw [List.takeWhile_append_of_pos hpass, List.takeWhile_cons_of_neg (by simp), List.append_nil]
  · intro hmem
    exact hq.feed (hsub.subset hmem)
  · intro hin
    exact hq.annotations (hin.trans hsub)
  · intro hin
    by_cases hquote : '"' ∈ '(' :: (w ++ [')'])
    · exact (hq.strings hquote).1 (hin.trans hsub)
    · exact hword hquote (List.IsInfix.trans ⟨['e', 'd'], [], rfl⟩ hin)
  · intro hin
    by_cases hquote : '"' ∈ '(' :: (w ++ [')'])
    · exact (hq.strings hquote).2 (hin.trans hsub)
    · exact hword hquote (List.IsInfix.trans ⟨['b', 's', 'd'], [], rfl⟩ hin)

/-- Two calls of one callee, with quiet arguments, have one verdict by the default rules. -/
theorem infer_eq_of_callee {o o' : Order} {t u : Text} (ht : extent (functionCall o) t = .whole t.length)
    (hu : extent (functionCall o') u = .whole u.length)
    (hcallee : t.takeWhile (· != '(') = u.takeWhile (· != '(')) (htq : Quiet (t.dropWhile (· != '(')))
    (huq : Quiet (u.dropWhile (· != '('))) : defaults.infer t = defaults.infer u := by
  obtain ⟨w, htext, hw⟩ := exists_arguments ht htq
  obtain ⟨w', hutext, hw'⟩ := exists_arguments hu huq
  have hn : '(' ∉ t.takeWhile (· != '(') := by
    intro hmem
    have hpass := List.all_eq_true.1 List.all_takeWhile _ hmem
    simp at hpass
  rw [htext, hutext, ← hcallee]
  exact infer_defaults_eq hn hw hw'

theorem infer_eq_of_callee_edf :
    let t : Text := "a::edf(\"b\", c)".toList
    let u : Text := "a::edf(-(d) ? e : f)".toList
    (extent (functionCall .ternaryFirst) t = .whole t.length ∧
        extent (functionCall .ternaryFirst) u = .whole u.length) ∧
      t.takeWhile (· != '(') = u.takeWhile (· != '(') ∧
      (Quiet (t.dropWhile (· != '(')) ∧ Quiet (u.dropWhile (· != '('))) ∧ defaults.infer t = defaults.infer u := by
  intro t u
  have ht : extent (functionCall .ternaryFirst) t = .whole t.length := by decide +kernel
  have hu : extent (functionCall .ternaryFirst) u = .whole u.length := by decide +kernel
  have hno : ∀ n ∈ ["annotations".toList, "edf(".toList, "bsdf(".toList],
      ¬ n <:+: t.dropWhile (· != '(') ∧ ¬ n <:+: u.dropWhile (· != '(') := by
    simp only [← lastIndexOf?_eq_none_iff]
    decide +kernel
  have htq : Quiet (t.dropWhile (· != '(')) :=
    ⟨by decide +kernel, (hno _ (by simp)).1, fun _ => ⟨(hno _ (by simp)).1, (hno _ (by simp)).1⟩⟩
  have huq : Quiet (u.dropWhile (· != '(')) :=
    ⟨by decide +kernel, (hno _ (by simp)).2, fun _ => ⟨(hno _ (by simp)).2, (hno _ (by simp)).2⟩⟩
  have hcallee : t.takeWhile (· != '(') = u.takeWhile (· != '(') := by decide +kernel
  exact ⟨⟨ht, hu⟩, hcallee, ⟨htq, huq⟩, infer_eq_of_callee ht hu hcallee htq huq⟩

/-- A line feed in the arguments, and names that the rules find there, change the verdict. -/
theorem infer_by_arguments :
    (∀ t ∈ ["color(a, b)".toList, "color(a,\n b)".toList, "f(a)".toList, "f(\"edf(\")".toList,
        "f(annotations*(a))".toList], extent (functionCall .ternaryFirst) t = .whole t.length) ∧
      defaults.infer "color(a, b)".toList = .resolved ⟨constructed "color", "color".toList⟩ ∧
      defaults.infer "color(a,\n b)".toList = .unknown ∧
      defaults.infer "f(a)".toList = .unknown ∧
      defaults.infer "f(\"edf(\")".toList = .resolved ⟨ending "edf", "edf".toList⟩ ∧
      defaults.infer "f(annotations*(a))".toList = .ignored ⟨"annotations".toList, containing "annotations"⟩ := by
  have hvetoed : ∀ call ∈ ["color(a, b)".toList, "color(a,\n b)".toList, "f(a)".toList, "f(\"edf(\")".toList],
      defaults.ignoreRules.any (·.matches call) = false := by
    decide +kernel
  have htyped : ∀ call ∈ ["color(a,\n b)".toList, "f(a)".toList],
      defaults.typeRules.any (·.matches call) = false := by
    decide +kernel
  have hcolor : defaults.typedBy? "color(a, b)".toList = some ⟨constructed "color", "color".toList⟩ :=
    typedBy?_of_findIdx? (i := 17) (by decide +kernel) rfl
  have hedf : defaults.typedBy? "f(\"edf(\")".toList = some ⟨ending "edf", "edf".toList⟩ :=
    typedBy?_of_findIdx? (i := 25) (by decide +kernel) rfl
  have hveto : defaults.ignoredBy? "f(annotations*(a))".toList =
      some ⟨"annotations".toList, containing "annotations"⟩ :=
    ignoredBy?_of_findIdx? (i := 2) (by decide +kernel) rfl
  refine ⟨by decide +kernel, ?_, ?_, ?_, ?_, ?_⟩
  · rw [infer, ignoredBy?_of_any (hvetoed _ (by simp)), hcolor]
  · rw [infer, ignoredBy?_of_any (hvetoed _ (by simp)), typedBy?_of_any (htyped _ (by simp))]
  · rw [infer, ignoredBy?_of_any (hvetoed _ (by simp)), typedBy?_of_any (htyped _ (by simp))]
  · rw [infer, ignoredBy?_of_any (hvetoed _ (by simp)), hedf]
  · rw [infer, hveto]

end Engine

end CallHoist
