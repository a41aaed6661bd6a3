import CallHoist.Proofs.Rerun.Guard

/-!
# No call is bound again

A call that a pass has bound is not found by the next one (`Reduction.not_found_again`), if the source holds no quote
and the names are new to it.

A call found in the substituted body comes first: no call that begins before it goes on past its beginning. If it were
one that has been bound, it would have been found where it stands (`not_comesFirst_of_nameOf?`). For where it touches
no name it was there before; it cannot hold a name, which is new, or part of one at its end, which is a parenthesis; and
with part of a name in front, it would be a longer call that begins before it.
-/

namespace CallHoist

open Text Grammar

section

variable {e : Engine} {stem : Text} {serial : Int} {calls : List Text} {bs : List Binding}
  (hid : IsIdentifier stem) (hserial : 0 ≤ serial) (hbs : ∀ b ∈ bs, b.Of e stem serial calls)
include hid hserial hbs

private theorem isIdentifier_name {b : Binding} (hb : b ∈ bs) : IsIdentifier b.name := by
  obtain ⟨i, hi, hname⟩ := (hbs b hb).name
  rw [hname, Sorting.nameOf]
  exact hid.append (List.all_eq_true.2 fun c hc =>
    isWordChar_of_isDigit (isDigit_of_mem_decimal (Int.le_trans hserial hi) hc))

private theorem not_mem_paren_name {b : Binding} (hb : b ∈ bs) : '(' ∉ b.name ∧ ')' ∉ b.name := by
  have hword := (isIdentifier_name hid hserial hbs hb).1.2
  exact ⟨not_mem_of_all hword (by decide), not_mem_of_all hword (by decide)⟩

/-- A text up to a closing parenthesis that begins with a name, or with a part of it, has the whole name. -/
private theorem stem_infix_of_close {b : Binding} (hb : b ∈ bs) {c F z : Text} (hclose : ')' ∈ c)
    (h : b.name ++ F = c ++ z) : stem <:+: c := by
  rcases List.append_eq_append_iff.1 h with ⟨a, rfl, -⟩ | ⟨a, ha, -⟩
  · exact List.infix_append_of_infix_left (hbs b hb).stem_prefix_name.isInfix
  · exact absurd (ha ▸ List.mem_append_left a hclose) (not_mem_paren_name hid hserial hbs hb).2

/-! ### A bound call in the substituted text -/

section

variable {o : Order} {call : Text} (hcall : ∀ y, (functionCall o).Takes call y) (hquote : '"' ∉ call)
  (hfresh : ¬ stem <:+: call)
include hcall hquote hfresh

/-- A call that begins in a gap would have been found there. -/
private theorem not_begins_in_gap {g t r F a z : Text} (hg : (functionCall o).Gap (g ++ a) (t ++ r))
    (ht : ∀ y, (functionCall o).Takes t y) (ha : a ≠ []) : call ++ z ≠ a ++ (Binding.rename bs t ++ F) := by
  intro he
  rcases append_eq_append_cases he with ⟨a', rfl, -⟩ | ⟨c, hne, rfl, hc⟩
  · exact not_takes_of_gap hg ha (hcall (a' ++ (t ++ r))) (by simp)
  · rcases Binding.rename_cases bs t with hren | ⟨b, hb, -, hren⟩
    · rw [hren] at hc
      obtain ⟨rfl, -⟩ := takes_call_within (hcall z) hquote hne (ht F) hc
      exact not_takes_of_gap hg ha (hcall r) (by simp)
    · rw [hren] at hc
      obtain ⟨u, hu⟩ := exists_close_of_call (hcall [])
      obtain ⟨c, rfl⟩ := exists_concat_of_append_eq hu hne
      exact hfresh (List.infix_append_of_infix_right (stem_infix_of_close hid hserial hbs hb (by simp) hc))

variable {name : Text} (hname : Binding.nameOf? bs call = some name)
include hname

omit hquote in
/-- A bound call that begins in what stands for a match does not come first. -/
private theorem not_begins_in_match {g t F a v z : Text} (ht : ∀ y, (functionCall o).Takes t y)
    (hren : Binding.rename bs t = a ++ v) (hv : v ≠ []) (he : call ++ z = v ++ F)
    (hfirst : ComesFirst o (g ++ a) (call ++ z)) : False := by
  rw [Binding.rename] at hren
  cases hnt : Binding.nameOf? bs t with
  | none =>
    -- the match stands as it was: the call is that match, or the match comes before it
    rw [hnt, Option.getD_none] at hren
    by_cases ha : a = []
    · subst ha
      rw [List.nil_append] at hren
      subst hren
      have hz := (hcall z).rest_unique (ht F) he
      rw [hz] at he
      rw [List.append_cancel_right he, hnt] at hname
      cases hname
    · have hlen := (hfirst g a t F rfl ha (ht F) (by rw [he, hren, List.append_assoc])).length_le
      have hpos := List.length_pos_iff.2 hv
      rw [hren, List.length_append] at hlen
      omega
  | some n =>
    obtain ⟨b, hb, -, rfl⟩ := Binding.exists_of_nameOf? hnt
    rw [hnt, Option.getD_some] at hren
    rcases List.append_eq_append_iff.1 he with ⟨c, rfl, -⟩ | ⟨c, rfl, -⟩
    · have hopen := mem_paren_of_call (hcall [])
      exact (not_mem_paren_name hid hserial hbs hb).1 (by rw [hren]; simp [hopen])
    · -- the name stands for the match: the call has its stem, or the rest of the name makes a longer call
      by_cases ha : a = []
      · subst ha
        rw [List.nil_append] at hren
        exact hfresh (List.infix_append_of_infix_left (hren ▸ (hbs b hb).stem_prefix_name.isInfix))
      · have hida : IsIdentifier a := (hren ▸ isIdentifier_name hid hserial hbs hb).of_append ha
        have hlen := (hfirst g a _ z rfl ha (takes_call_append hida (hcall z)) (by simp)).length_le
        have hpos := List.length_pos_iff.2 hv
        simp only [List.length_append] at hlen
        omega

/-- Wherever a bound call stands in the substituted text, it does not come first. -/
theorem not_comesFirst_of_nameOf? {k : Cutting} (hk : k.Fits (functionCall o)) {l z : Text}
    (h : k.fill (Binding.rename bs) = l ++ (call ++ z)) : ¬ ComesFirst o l (call ++ z) := by
  induction k generalizing l with
  | rest g =>
    intro _
    obtain rfl : g = l ++ (call ++ z) := h
    have hne : call ++ z ≠ [] := by simp [functionCall_ne_nil (hcall z)]
    exact not_takes_of_gap hk hne (hcall z) (List.append_nil _)
  | part g t k ih =>
    intro hfirst
    obtain ⟨hg, ht, -, -, hk⟩ := hk
    have htake : ∀ y, (functionCall o).Takes t y := takes_call_congr ht
    have hbehind : ∀ {l'}, l' <:+ l → k.fill (Binding.rename bs) ≠ l' ++ (call ++ z) := fun hl h =>
      ih hk h (hfirst.of_suffix hl)
    -- the call begins in the gap, in what stands for the match, or behind that
    rcases append_eq_append_cases h with ⟨a, rfl, ha⟩ | ⟨a, hne, rfl, ha⟩
    · rcases append_eq_append_cases ha with ⟨b, rfl, hb⟩ | ⟨b, hne, hb, hF⟩
      · exact hbehind ⟨g ++ Binding.rename bs t, by simp⟩ hb
      · exact not_begins_in_match hid hserial hbs hcall hfresh hname htake hb hne hF hfirst
    · exact not_begins_in_gap hid hserial hbs hcall hquote hfresh hg htake hne ha

end

end

/-! ### The second pass -/

private theorem not_mem_fill {bs : List Binding} {c : Char} (hbs : ∀ b ∈ bs, c ∉ b.name) {k : Cutting}
    (hk : c ∉ k.text) : c ∉ k.fill (Binding.rename bs) := by
  induction k with
  | rest g => exact hk
  | part g t k ih =>
    simp only [Cutting.text, Cutting.fill, List.mem_append, not_or] at hk ⊢
    refine ⟨hk.1, ?_, ih hk.2.2⟩
    rcases Binding.rename_cases bs t with h | ⟨b, hb, -, h⟩
    · rw [h]
      exact hk.2.1
    · rw [h]
      exact hbs b hb

namespace Reduction

/-- A call found in a text behind a line feed is found in the text. -/
private theorem exists_of_mem_behind_feed {o : Order} {k : Cutting} (hk : k.Fits (functionCall o)) {S : Text}
    (hS : k.text = '\n' :: S) (hq : '"' ∉ S) {pos : Nat} {m : Match} (hm : m ∈ k.matchesFrom pos) :
    ∃ l z, S = l ++ (m.text ++ z) ∧ (functionCall o).Takes m.text z ∧ ComesFirst o l (m.text ++ z) := by
  have hqk : '"' ∉ k.text := by
    rw [hS, List.mem_cons]
    rintro (h | h)
    · cases h
    · exact hq h
  obtain ⟨l, z, hl, htake, hfirst⟩ := comesFirst_of_mem hk hqk hm
  rw [hS] at hl
  cases l with
  | nil =>
    have hlead := leads_spacing_of_call htake
    rw [List.nil_append] at hl
    rw [← leads_append (functionCall_ne_nil htake) z, ← hl] at hlead
    cases hlead
  | cons d l => exact ⟨l, z, (List.cons.inj hl).2, htake, hfirst.of_suffix (List.suffix_cons d l)⟩

/-- In a source without quotes, a call that a pass binds to a new name is not found by the next pass, so it is not bound
again. -/
theorem not_found_again (c : Config) (hmode : c.mode = .functionCalls) (hmarker : c.startMarker = Region.opener.source)
    (hcrumb : c.breadcrumb = Region.breadcrumb) (hserial : 0 ≤ c.firstSerial) (e : Engine)
    (he : ∀ r ∈ e.typeRules, '{' ∉ r.typeName) (stem : Text) (hid : IsIdentifier stem)
    (hstem : ¬ Region.breadcrumb <:+: stem) (source : Text) (hquote : '"' ∉ source) (hfresh : ¬ stem <:+: source) :
    ∃ r out, reduce c e source stem true = .ok r ∧ r.output = some out ∧
      ∀ stem' exporting, ∃ r', reduce c e out stem' exporting = .ok r' ∧
        (∀ m ∈ r'.found, ∀ b ∈ r.bindings, m.text ≠ b.call) ∧
        ∀ b' ∈ r'.bindings, ∀ b ∈ r.bindings, b'.call ≠ b.call := by
  have hbrace : '{' ∉ stem := not_mem_of_all hid.1.2 (by decide)
  obtain ⟨k, r, front, h⟩ := exists_exported hmode hmarker hcrumb he hbrace hstem source
  have hread : Regex.read c.startMarker = .ok Region.opener := by rw [hmarker, Region.read_opener_source]
  obtain ⟨k', htext', hk', hpass'⟩ :=
    exists_reduce hmode hread e (written c.breadcrumb r (k.fill (Binding.rename r.bindings)))
  rw [h.isolate] at htext'
  have hquote' : '"' ∉ k.fill (Binding.rename r.bindings) := by
    refine not_mem_fill (fun b hb => ?_) fun hk => hquote (h.infix_source.subset hk)
    exact not_mem_of_all (isIdentifier_name hid hserial h.bindings hb).1.2 (by decide)
  refine ⟨r, _, h.run, h.output, fun stem' exporting => ?_⟩
  obtain ⟨r', hr', -, hfound', hbs', -⟩ := hpass' stem' exporting
  have hnew : ∀ m ∈ r'.found, ∀ b ∈ r.bindings, m.text ≠ b.call := by
    intro m hm b hb hcall
    rw [hfound'] at hm
    obtain ⟨l, z, hl, htake, hfirst⟩ := exists_of_mem_behind_feed hk' htext' hquote' hm
    obtain ⟨name, hname⟩ := Binding.nameOf?_of_mem hb
    have hcalls := h.bindings b hb
    rw [h.found] at hcalls
    have hsub : b.call <:+: source := hcalls.call_occurs.trans h.infix_source
    rw [← hcall] at hname hsub
    exact not_comesFirst_of_nameOf? hid hserial h.bindings (takes_call_congr htake) (fun hq => hquote (hsub.subset hq))
      (fun hs => hfresh (hs.trans hsub)) hname h.fits hl hfirst
  refine ⟨r', hr', hnew, fun b' hb' b hb => ?_⟩
  obtain ⟨m, hm, htext⟩ := List.mem_map.1 (hbs' b' hb').call
  rw [← htext]
  exact hnew m hm b hb

/-- A second pass with the same stem over a source in which the first binds a call. -/
theorem not_found_again_standard :
    ∃ r out, reduce Config.standard Engine.defaults
          "let \x7b a = f(float2(1)) + float2(1); \x7d".toList "tmp".toList true = .ok r ∧
      r.output = some out ∧ r.bindings.map (·.call) = ["float2(1)".toList] ∧
      ∃ r', reduce Config.standard Engine.defaults out "tmp".toList true = .ok r' ∧
        ∀ m ∈ r'.found, ∀ b ∈ r.bindings, m.text ≠ b.call := by
  obtain ⟨r, out, hr, hout, hagain⟩ :=
    not_found_again Config.standard rfl rfl rfl (by decide) Engine.defaults (by decide +kernel) "tmp".toList
      ⟨⟨by decide, by decide⟩, by decide⟩ (by decide) "let \x7b a = f(float2(1)) + float2(1); \x7d".toList (by decide)
      (by decide +kernel)
  obtain ⟨r', hr', hnew, -⟩ := hagain "tmp".toList true
  have heval : (reduce Config.standard Engine.defaults
      "let \x7b a = f(float2(1)) + float2(1); \x7d".toList "tmp".toList true).toOption.map
        (fun r => r.bindings.map (·.call)) = some ["float2(1)".toList] := by
    decide +kernel
  rw [hr] at heval
  exact ⟨r, out, hr, hout, Option.some.inj heval, r', hr', hnew⟩

end Reduction

end CallHoist
