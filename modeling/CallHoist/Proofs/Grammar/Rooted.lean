import CallHoist.Proofs.Grammar.Found

/-!
# A scope operator in front of a call

A scope operator begins a name only as the root of its first scope. So a call whose name begins with a scope is taken
together with a root in front of it, and no scan finds it without the root. A name of no scope has no place for a root:
a scan passes over the operator and finds the call behind it (`takes_root_iff`).
-/

namespace CallHoist.Grammar

open Text Peg

/-- The text begins with a word and a scope operator. -/
def HasScope (t : Text) : Prop :=
  ∃ w b u, IsWord w ∧ b.all isWhiteSpace = true ∧ t = w ++ (b ++ ':' :: ':' :: u)

private theorem HasScope.append {t : Text} (h : HasScope t) (y : Text) : HasScope (t ++ y) := by
  obtain ⟨w, b, u, hw, hb, rfl⟩ := h
  exact ⟨w, b, u ++ y, hw, hb, by simp⟩

private theorem HasScope.run_scope {t : Text} (h : HasScope t) : ∃ r, scope.run t = some r := by
  obtain ⟨w, b, u, hw, hb, rfl⟩ := h
  have hword : leads isWordChar (b ++ ':' :: ':' :: u) = false :=
    leads_eq_false_of_all hb (fun _ => isWordChar_of_isWhiteSpace) rfl
  have hrun := Grammar.run_scope (.inl rfl) hw hword
  rw [List.nil_append, behindColons?, behindBlanks_cons hb rfl] at hrun
  exact ⟨behindBlanks u, hrun⟩

private theorem HasScope.leads_colon {t : Text} (h : HasScope t) : leads (· == ':') t = false := by
  obtain ⟨w, b, u, hw, -, rfl⟩ := h
  exact hw.leads_append ne_colon_of_isWordChar _

/-! ### Names and calls -/

/-- A name that begins with a scope is taken with a root in front of it. -/
theorem takes_name_root {b a z : Text} (hb : b.all isWhiteSpace = true) (h : qualifiedName.Takes a z) (hz : Ends z)
    (hscope : HasScope (a ++ z)) : qualifiedName.Takes (':' :: ':' :: (b ++ a)) z := by
  obtain ⟨ts, ti, td, rfl, hts, hti, hs, hi, hd⟩ := opens_takes.name h
  have hcol := behindColons?_of_takes_name hts hti
  have htext : (ts ++ (ti ++ td)) ++ z = ts ++ (ti ++ (td ++ z)) := by simp
  rw [htext] at hscope
  cases hs with
  | nil =>
    -- the name would have taken the scope
    obtain ⟨r, hr⟩ := hscope.run_scope
    have hrun := run_scope (.inl rfl) hi.1 (hd.leads_append hz.leads_word)
    rw [List.nil_append] at hr hrun
    rw [hrun, hcol] at hr
    cases hr
  | @cons u v _ hu hv =>
    obtain @⟨o, w, c, c', ho, hw, hc, hc'⟩ := hu
    rcases ho with rfl | ⟨d, -, rfl⟩
    · have hroot : IsScope ((':' :: ':' :: b) ++ (w ++ (c ++ ':' :: ':' :: c'))) := .mk (.inr ⟨b, hb, rfl⟩) hw hc hc'
      have htake := takes_name (.cons hroot.ne_nil hroot hv) hi hd hz.leads_word hz.leads_dot hcol
      simpa using htake
    · have hcolon := hscope.leads_colon
      simp at hcolon

/-- A call is taken with a root in front of it if its name begins with a scope, and only then. -/
theorem takes_root_iff {o : Order} {b t r : Text} (hb : b.all isWhiteSpace = true) (h : (functionCall o).Takes t r) :
    (functionCall o).Takes (':' :: ':' :: (b ++ t)) r ↔ HasScope t := by
  constructor
  · intro hroot
    have hblank : leads isWhiteSpace t = false :=
      leads_eq_false_of_imp (leads_spacing_of_call h) fun _ => isSpacing_of_isWhiteSpace
    obtain ⟨n, c, x, ht, hn, -⟩ := exists_callee hroot
    obtain ⟨ts, ti, td, rfl, -, -, hs, hi, -⟩ := opens_takes.name hn
    cases hs with
    | nil =>
      obtain ⟨⟨hne, -⟩, hlead⟩ := hi
      have hcolon := congrArg (leads isNameStart) ht
      simp only [List.nil_append, List.append_assoc, leads_append hne, hlead] at hcolon
      cases hcolon
    | @cons u v _ hu hv =>
      obtain @⟨root, w, c, c', ho, hw, hc, hc'⟩ := hu
      rcases ho with rfl | ⟨d, hd, rfl⟩
      · have hcolon := congrArg (leads (· == ':')) ht
        simp only [List.nil_append, List.append_assoc, hw.leads_append ne_colon_of_isWordChar] at hcolon
        cases hcolon
      · -- behind the root and blanks both begin with what is no blank
        simp only [List.cons_append, List.append_assoc, List.cons.injEq, true_and] at ht
        have hbehind := congrArg behindBlanks ht
        rw [behindBlanks_append hb, behindBlanks_of_leads hblank, behindBlanks_append hd,
          behindBlanks_of_leads (hw.leads_append isWhiteSpace_of_isWordChar _)] at hbehind
        exact ⟨w, c, _, hw, hc, hbehind⟩
  · intro hscope
    obtain @⟨n, c, x, _, hn, hc, hin⟩ := takes_call_iff.1 h
    have hends : Ends (c ++ '(' :: (x ++ r)) := .inr (.mk hc rfl fun h => absurd h (by decide))
    have htext : (n ++ (c ++ '(' :: x)) ++ r = n ++ (c ++ '(' :: (x ++ r)) := by simp
    have hname := takes_name_root hb hn hends (htext ▸ hscope.append r)
    rw [← List.append_assoc b, ← List.cons_append, ← List.cons_append]
    exact takes_call_iff.2 (.mk hname hc hin)

/-! ### Calls that a scan finds -/

/-- No scan leaves a root in front of a call whose name begins with a scope. -/
theorem not_hasScope_of_root {o : Order} {s a b : Text} {m : Match} (hm : m ∈ scan (functionCall o) s)
    (hb : b.all isWhiteSpace = true) (hs : s.take m.start.toNat = a ++ ':' :: ':' :: b) : ¬ HasScope m.text := by
  obtain ⟨k, rfl, hk, hscan⟩ := exists_cutting (functionCall o) s
  rw [hscan] at hm
  obtain ⟨l, g, z, htext, hstart, hgap, htake, hl⟩ := hk.exists_gap_of_mem hm
  have hfront : l ++ g = a ++ ':' :: ':' :: b := by
    rw [← hs, hstart, htext, Int.toNat_natCast, Nat.zero_add, ← List.append_assoc, ← List.length_append, List.take_left]
  -- a call ends in a parenthesis, so the root is not part of the one before
  obtain ⟨u, rfl⟩ : ∃ u, g = u ++ ':' :: ':' :: b := by
    rcases append_eq_append_cases hfront with ⟨u, -, hg⟩ | ⟨u, hne, rfl, hu⟩
    · exact ⟨u, hg⟩
    · exfalso
      rcases hl with hl | ⟨l', t, r, hl, ht⟩
      · exact hne (List.append_eq_nil_iff.1 hl).2
      · obtain ⟨t', rfl⟩ := exists_close_of_call ht
        rw [← List.append_assoc] at hl
        obtain ⟨u', rfl⟩ := exists_concat_of_append_eq hl hne
        have hclose : ')' ∈ ':' :: ':' :: b := by rw [hu]; simp
        simp only [List.mem_cons, not_mem_of_all hb (c := ')') (by decide)] at hclose
        revert hclose
        decide
  intro hscope
  exact not_takes_of_gap hgap (List.cons_ne_nil _ _) ((takes_root_iff hb htake).2 hscope) (by simp)

/-- Behind a root a call of no scope is found. -/
theorem not_hasScope_of_root_simple :
    let s : Text := "::texture_isvalid(t)".toList
    let m : Match := ⟨2, 20, "texture_isvalid(t)".toList⟩
    m ∈ scan (functionCall .ternaryFirst) s ∧ s.take m.start.toNat = [] ++ ':' :: ':' :: [] ∧ ¬ HasScope m.text := by
  intro s m
  have hm : m ∈ scan (functionCall .ternaryFirst) s := by decide +kernel
  exact ⟨hm, rfl, not_hasScope_of_root hm (a := []) (b := []) rfl rfl⟩

/-- So a root can be left in front of a call that is found. -/
theorem root_before_match :
    ¬ ∀ s, ∀ m ∈ scan (functionCall .ternaryFirst) s, ¬ [':', ':'] <:+ s.take m.start.toNat := by
  intro h
  have hm : ⟨2, 20, "texture_isvalid(t)".toList⟩ ∈
      scan (functionCall .ternaryFirst) "::texture_isvalid(t)".toList := by decide +kernel
  exact h _ _ hm (List.suffix_refl _)

end CallHoist.Grammar
