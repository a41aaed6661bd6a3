import CallHoist.Inference.Defaults
import CallHoist.Proofs.Grammar.Found
import CallHoist.Proofs.Reduction
import CallHoist.Proofs.Region

/-!
# The region of an output

The output of a pass is searched by the next one from behind the declarations that the pass has put in: its region is
what the pass has made of the body, behind one line feed (`Reduction.isolate_output`).

Substitution brings in no breadcrumb and no opener. A name ends in a digit and holds no brace, so no opener goes across
the seams of a name; and a breadcrumb that did would begin with a word in front of a call, but a call that is found is
not cut out of a longer word.
-/

namespace CallHoist

open Text Grammar

/-! ### Names -/

namespace Binding

section

variable {e : Engine} {stem : Text} {serial : Int} {calls : List Text} {bs : List Binding}
  (hbs : ∀ b ∈ bs, b.Of e stem serial calls)
include hbs

/-- A replacement ends with the closing parenthesis of a call or with a digit. -/
theorem exists_last_rename {o : Order} {t s : Text} (ht : (functionCall o).Takes t s) :
    ∃ u c, rename bs t = u ++ [c] ∧ (c = ')' ∨ isDigit c = true) := by
  rcases rename_cases bs t with h | ⟨b, hb, -, h⟩
  · obtain ⟨u, hu⟩ := exists_close_of_call ht
    exact ⟨u, ')', h.trans hu, .inl rfl⟩
  · obtain ⟨i, -, hname⟩ := (hbs b hb).name
    obtain ⟨u, c, hu, hc⟩ := exists_last_decimal i
    exact ⟨stem ++ u, c, by rw [h, hname, Sorting.nameOf, hu, List.append_assoc], .inr hc⟩

/-- A name has the characters of its stem, digits and perhaps a minus sign. -/
theorem not_mem_name {c : Char} (hstem : c ∉ stem) (hdigit : isDigit c = false) (hdash : c ≠ '-')
    {b : Binding} (hb : b ∈ bs) : c ∉ b.name := by
  obtain ⟨i, -, hname⟩ := (hbs b hb).name
  rw [hname, Sorting.nameOf, List.mem_append]
  rintro (h | h)
  · exact hstem h
  · rcases cases_of_mem_decimal h with h | h
    · exact hdash h
    · rw [h] at hdigit
      cases hdigit

end

end Binding

/-! ### What substitution brings in -/

private theorem breadcrumb_eq : Region.breadcrumb = "_RL_REDUCT_BREADCRUMB".toList ++ ['_'] := by decide

private theorem isIdentifier_breadcrumb : IsIdentifier Region.breadcrumb := ⟨⟨by decide, by decide⟩, by decide⟩

/-- A name behind a gap brings in no breadcrumb: across the seam it would begin with a word in front of the call. -/
private theorem breadcrumb_infix_of_gap {o : Order} {stem g t s : Text} {i : Int} (hg : (functionCall o).Gap g (t ++ s))
    (ht : (functionCall o).Takes t s) (hstem : ¬ Region.breadcrumb <:+: stem)
    (h : Region.breadcrumb <:+: g ++ Sorting.nameOf stem i) : Region.breadcrumb <:+: g := by
  have hunderscore : '_' ∉ decimal i := by
    intro hmem
    rcases cases_of_mem_decimal hmem with h | h <;> revert h <;> decide
  rw [Sorting.nameOf, ← List.append_assoc] at h
  rw [breadcrumb_eq] at h
  replace h := infix_of_append_right h hunderscore
  rw [← breadcrumb_eq] at h
  have hseam : ∀ u v, u ≠ [] → v ≠ [] → Region.breadcrumb = u ++ v → u <:+ g → ¬ v <+: stem := by
    rintro u v hu - huv ⟨g', rfl⟩ -
    exact not_isIdentifier_of_gap hg ht ((huv ▸ isIdentifier_breadcrumb).of_append hu)
  rcases infix_append_of_seam h hseam with h | h
  · exact h
  · exact absurd h hstem

section

variable {e : Engine} {stem : Text} {serial : Int} {calls : List Text} {bs : List Binding}
  (hbs : ∀ b ∈ bs, b.Of e stem serial calls)
include hbs

namespace Region

/-- Substitution brings in no opener. -/
theorem not_hasOpener_fill {o : Order} {k : Cutting} (hk : k.Fits (functionCall o)) (hstem : '{' ∉ stem)
    (h : ¬ HasOpener k.text) : ¬ HasOpener (k.fill (Binding.rename bs)) := by
  rintro ⟨n, hn, hinfix⟩
  refine h ⟨n, hn, Cutting.infix_of_fill hk (fun g t s _ _ hgt => ?_) (fun t s ht => ?_) hinfix⟩
  · rcases Binding.rename_cases bs t with ht | ⟨b, hb, -, ht⟩
    · rwa [ht] at hgt
    · have hbrace := Binding.not_mem_name hbs hstem (by decide) (by decide) hb
      rw [ht] at hgt
      exact List.infix_append_of_infix_left (hn.infix_of_append_right hbrace hgt)
  · obtain ⟨u, c, hu, hc⟩ := Binding.exists_last_rename hbs ht
    refine ⟨u, c, hu, ?_⟩
    rcases hc with rfl | hc
    · exact hn.not_mem (by decide) (by decide)
    · refine hn.not_mem ?_ ?_
      · intro hmem
        simp at hmem
        rcases hmem with rfl | rfl | rfl | rfl <;> cases hc
      · exact isSpacing_of_isWordChar (isWordChar_of_isDigit hc)

end Region

/-- Substitution brings in no breadcrumb. -/
theorem not_breadcrumb_fill {o : Order} {k : Cutting} (hk : k.Fits (functionCall o))
    (hstem : ¬ Region.breadcrumb <:+: stem) (h : ¬ Region.breadcrumb <:+: k.text) :
    ¬ Region.breadcrumb <:+: k.fill (Binding.rename bs) := by
  have hdigit : Region.breadcrumb.all (!isDigit ·) = true := by decide
  refine fun hinfix => h (Cutting.infix_of_fill hk (fun g t s hg ht hgt => ?_) (fun t s ht => ?_) hinfix)
  · rcases Binding.rename_cases bs t with hname | ⟨b, hb, -, hname⟩
    · rwa [hname] at hgt
    · obtain ⟨i, -, hb⟩ := (hbs b hb).name
      rw [hname, hb] at hgt
      exact List.infix_append_of_infix_left (breadcrumb_infix_of_gap hg ht hstem hgt)
  · obtain ⟨u, c, hu, hc⟩ := Binding.exists_last_rename hbs ht
    refine ⟨u, c, hu, fun hmem => ?_⟩
    rcases hc with rfl | hc
    · exact absurd hmem (by decide)
    · have hnot := List.all_eq_true.1 hdigit c hmem
      rw [hc] at hnot
      cases hnot

end

/-! ### Declarations -/

/-- A block is empty or ends with a breadcrumb and a line feed. -/
theorem Binding.block_cases (crumb : Text) (bs : List Binding) :
    block crumb bs = [] ∨ ∃ D, block crumb bs = D ++ (crumb ++ ['\n']) := by
  cases bs with
  | nil => exact .inl rfl
  | cons b bs =>
    refine .inr ⟨block crumb bs ++ (b.declaration ++ "  // ".toList), ?_⟩
    rw [block, List.reverse_cons, List.flatMap_append, block, List.flatMap_singleton, declarationLine]
    simp only [List.append_assoc]

namespace Region

private theorem IsOpener.infix_of_declarationLine {n z : Text} (hn : IsOpener n) {b : Binding}
    (htype : '{' ∉ b.typeName) (hname : '{' ∉ b.name) (hcall : ¬ n <:+: b.call)
    (h : n <:+: b.declarationLine breadcrumb ++ z) : n <:+: z := by
  have hequals : " = ".toList = [' '] ++ ['='] ++ [' '] := by decide
  have hline : b.declarationLine breadcrumb ++ z = (b.typeName ++ ' ' :: (b.name ++ [' '])) ++ '=' ::
      (([' '] ++ b.call) ++ ';' :: (("  // ".toList ++ "_RL_REDUCT_BREADCRUMB".toList) ++ '_' :: (['\n'] ++ z))) := by
    rw [Binding.declarationLine, Binding.declaration, breadcrumb_eq, hequals]
    simp only [List.append_assoc, List.cons_append, List.nil_append]
  rw [hline] at h
  rcases infix_append_cons h (hn.not_mem (by decide) (by decide)) with h | h
  · exact absurd h (hn.not_infix (by simp [htype, hname]))
  rcases infix_append_cons h (hn.not_mem (by decide) (by decide)) with h | h
  · exact absurd (hn.infix_of_append_left (by decide) h) hcall
  rcases infix_append_cons h (hn.not_mem (by decide) (by decide)) with h | h
  · exact absurd h (hn.not_infix (by decide))
  · exact hn.infix_of_append_left (by decide) h

private theorem IsOpener.infix_of_block {n z : Text} (hn : IsOpener n) {bs : List Binding}
    (hbs : ∀ b ∈ bs, '{' ∉ b.typeName ∧ '{' ∉ b.name ∧ ¬ n <:+: b.call)
    (h : n <:+: Binding.block breadcrumb bs ++ z) : n <:+: z := by
  replace hbs : ∀ b ∈ bs.reverse, '{' ∉ b.typeName ∧ '{' ∉ b.name ∧ ¬ n <:+: b.call := fun b hb =>
    hbs b (List.mem_reverse.1 hb)
  rw [Binding.block] at h
  generalize bs.reverse = l at h hbs
  induction l with
  | nil => exact h
  | cons b l ih =>
    obtain ⟨htype, hname, hcall⟩ := hbs b (List.mem_cons_self ..)
    rw [List.flatMap_cons, List.append_assoc] at h
    exact ih (hn.infix_of_declarationLine htype hname hcall h) fun b hb => hbs b (List.mem_cons_of_mem _ hb)

/-- The front up to the opener stays in front of what a pass makes of the source. -/
private theorem Opens.output {x w y S : Text} {bs : List Binding} (h : Opens x (w ++ y))
    (hw : Leavings breadcrumb w)
    (hbs : ∀ b ∈ bs, '{' ∉ b.typeName ∧ '{' ∉ b.name ∧ b.call <:+: y) (hS : ¬ HasOpener y → ¬ HasOpener S) :
    Opens x (w ++ '\n' :: (Binding.block breadcrumb bs ++ S)) := by
  refine h.congr fun _ hnone => ?_
  have hy : ¬ HasOpener y := fun h => hnone (h.mono (List.suffix_append w y).isInfix)
  rintro ⟨n, hn, hinfix⟩
  -- no opener goes across the line feed, as the part in front is empty or ends with a breadcrumb
  have hblock : n <:+: Binding.block breadcrumb bs ++ S := by
    rcases hw with rfl | ⟨u, rfl⟩
    · exact hn.infix_of_append_left (x := ['\n']) (by decide) hinfix
    · have hcut : (u ++ breadcrumb) ++ '\n' :: (Binding.block breadcrumb bs ++ S) =
          (u ++ "_RL_REDUCT_BREADCRUMB".toList) ++ '_' :: (['\n'] ++ (Binding.block breadcrumb bs ++ S)) := by
        rw [breadcrumb_eq]
        simp only [List.append_assoc, List.cons_append, List.nil_append]
      rw [hcut] at hinfix
      rcases infix_append_cons hinfix (hn.not_mem (by decide) (by decide)) with h | h
      · have hsub : u ++ "_RL_REDUCT_BREADCRUMB".toList <:+: (u ++ breadcrumb) ++ y :=
          ⟨[], '_' :: y, by rw [breadcrumb_eq]; simp⟩
        exact absurd ⟨n, hn, h.trans hsub⟩ hnone
      · exact hn.infix_of_append_left (by decide) h
  refine hS hy ⟨n, hn, hn.infix_of_block (fun b hb => ?_) hblock⟩
  obtain ⟨htype, hname, hcall⟩ := hbs b hb
  exact ⟨htype, hname, fun h => hy ⟨n, hn, h.trans hcall⟩⟩

/-- The region of an output begins with the line feed in front of the substituted body. -/
private theorem isolate_block {x w S : Text} {bs : List Binding}
    (h : Opens x (w ++ '\n' :: (Binding.block breadcrumb bs ++ S))) (hw : Leavings breadcrumb w)
    (hS : ¬ breadcrumb <:+: S) :
    ∃ head, head ++ ['\n'] = (x ++ w) ++ '\n' :: Binding.block breadcrumb bs ∧
      isolate opener breadcrumb (x ++ (w ++ '\n' :: (Binding.block breadcrumb bs ++ S))) = ⟨head, '\n' :: S⟩ := by
  have hne : breadcrumb ≠ [] := by decide
  have hfeed : '\n' ∉ breadcrumb := by decide
  rcases Binding.block_cases breadcrumb bs with hD | ⟨D, hD⟩
  · rw [hD, List.nil_append] at h
    rw [hD, List.nil_append]
    rcases hw with rfl | ⟨u, rfl⟩
    · refine ⟨x, by simp, isolate_of_not_occurring h fun hinfix => ?_⟩
      rcases infix_append_cons (x := []) hinfix hfeed with hinfix | hinfix
      · exact hne (List.infix_nil.1 hinfix)
      · exact hS hinfix
    · have hcut : (u ++ breadcrumb) ++ '\n' :: S = u ++ (breadcrumb ++ '\n' :: S) := by simp
      rw [hcut] at h ⊢
      exact ⟨x ++ (u ++ breadcrumb), by simp, isolate_of_last h hne hfeed hS⟩
  · have hcut : w ++ '\n' :: (Binding.block breadcrumb bs ++ S) =
        (w ++ '\n' :: D) ++ (breadcrumb ++ '\n' :: S) := by rw [hD]; simp
    rw [hcut] at h ⊢
    exact ⟨x ++ ((w ++ '\n' :: D) ++ breadcrumb), by rw [hD]; simp, isolate_of_last h hne hfeed hS⟩

/-- A line feed that is put in front of a body becomes the front of the body. -/
theorem isolate_feed {source : Text} {region : Region} (h : isolate opener breadcrumb source = region) :
    isolate opener breadcrumb (region.head ++ '\n' :: region.body) = ⟨region.head, '\n' :: region.body⟩ := by
  obtain ⟨x, w, y, rfl, hopens, hw, hy, hiso⟩ := exists_isolate (b := breadcrumb) (by decide) source
  obtain rfl := hiso.symm.trans h
  have hopens' : Opens x (w ++ '\n' :: (Binding.block breadcrumb [] ++ y)) :=
    hopens.output hw (fun b hb => absurd hb (List.not_mem_nil)) id
  obtain ⟨front, hfront, hisolate⟩ := isolate_block hopens' hw hy
  obtain rfl : front = x ++ w := List.append_cancel_right hfront
  rw [← List.append_assoc] at hisolate
  exact hisolate

end Region

/-! ### The output of a pass -/

namespace Reduction

/-- The source as a pass writes it back, given the substituted body. -/
def written (crumb : Text) (r : Reduction) (S : Text) : Text :=
  r.region.head ++ '\n' :: (Binding.block crumb r.bindings ++ S)

/-- What an exporting pass over calls yields: the body is cut as `k`, and the next pass leaves out `front`. -/
structure Exported (c : Config) (e : Engine) (stem source : Text) (k : Cutting) (r : Reduction) (front : Text) :
    Prop where
  run : reduce c e source stem true = .ok r
  region : r.region = Region.isolate Region.opener c.breadcrumb source
  body : k.text = r.region.body
  fits : k.Fits (functionCall c.order)
  found : r.found = k.matchesFrom 0
  bindings : ∀ b ∈ r.bindings, b.Of e stem c.firstSerial (r.found.map (·.text))
  output : r.output = some (written c.breadcrumb r (k.fill (Binding.rename r.bindings)))
  isolate : Region.isolate Region.opener c.breadcrumb (written c.breadcrumb r (k.fill (Binding.rename r.bindings))) =
    ⟨front, '\n' :: k.fill (Binding.rename r.bindings)⟩
  front : front ++ ['\n'] = r.region.head ++ '\n' :: Binding.block c.breadcrumb r.bindings
  clear : ¬ c.breadcrumb <:+: k.fill (Binding.rename r.bindings)

theorem Exported.infix_source {c : Config} {e : Engine} {stem source front : Text} {k : Cutting} {r : Reduction}
    (h : Exported c e stem source k r front) : k.text <:+: source := by
  rw [h.body, h.region]
  exact ⟨(Region.isolate Region.opener c.breadcrumb source).head, [],
    by rw [List.append_nil, Region.head_append_body]⟩

section

variable {c : Config} (hmode : c.mode = .functionCalls) (hmarker : c.startMarker = Region.opener.source)
include hmode hmarker

theorem exists_exported (hcrumb : c.breadcrumb = Region.breadcrumb) {e : Engine}
    (he : ∀ r ∈ e.typeRules, '{' ∉ r.typeName) {stem : Text} (hbrace : '{' ∉ stem)
    (hstem : ¬ Region.breadcrumb <:+: stem) (source : Text) : ∃ k r front, Exported c e stem source k r front := by
  have hread : Regex.read c.startMarker = .ok Region.opener := by rw [hmarker, Region.read_opener_source]
  obtain ⟨k, htext, hk, hpass⟩ := exists_reduce hmode hread e source
  obtain ⟨r, hr, hregion, hfound, hbs, hout⟩ := hpass stem true
  have hregion' := hregion
  rw [hcrumb] at htext hregion hout
  obtain ⟨x, w, y, rfl, hopens, hw, hy, hiso⟩ := Region.exists_isolate (b := Region.breadcrumb) (by decide) source
  rw [hiso] at htext hregion
  obtain rfl : k.text = y := htext
  -- neither the body nor the declarations get an opener or a breadcrumb behind the last one
  have hclear := not_breadcrumb_fill hbs hk hstem hy
  have hcalls : ∀ b ∈ r.bindings, '{' ∉ b.typeName ∧ '{' ∉ b.name ∧ b.call <:+: k.text := by
    intro b hb
    obtain ⟨rule, hrule, htype⟩ := (hbs b hb).type
    rw [hfound] at hbs
    exact ⟨htype ▸ he rule hrule, Binding.not_mem_name hbs hbrace (by decide) (by decide) hb, (hbs b hb).call_occurs⟩
  have hopens' := hopens.output hw hcalls (Region.not_hasOpener_fill hbs hk hbrace)
  obtain ⟨front, hfront, hisolate⟩ := Region.isolate_block hopens' hw hclear
  refine ⟨k, r, front, hr, hregion', by rw [hregion], hk, hfound, hbs, ?_, ?_, ?_, by rwa [hcrumb]⟩
  · rw [hcrumb]
    exact hout rfl
  · rw [hcrumb, written, hregion, List.append_assoc]
    exact hisolate
  · rw [hcrumb, hregion]
    exact hfront

end

/-- The next pass over an output searches what this pass has made of the body, behind one line feed, and nothing of the
declarations that were put in. -/
theorem isolate_output (c : Config) (hmode : c.mode = .functionCalls) (hmarker : c.startMarker = Region.opener.source)
    (hcrumb : c.breadcrumb = Region.breadcrumb) (e : Engine) (he : ∀ r ∈ e.typeRules, '{' ∉ r.typeName) (stem : Text)
    (hbrace : '{' ∉ stem) (hstem : ¬ Region.breadcrumb <:+: stem) (source : Text) :
    ∃ r S out front, reduce c e source stem true = .ok r ∧
      Edit.applyAll r.region.body (Binding.edits r.found r.bindings) = .ok S ∧
      r.output = some out ∧ out = r.region.head ++ '\n' :: (Binding.block c.breadcrumb r.bindings ++ S) ∧
      Region.isolate Region.opener c.breadcrumb out = ⟨front, '\n' :: S⟩ ∧
      front ++ ['\n'] = r.region.head ++ '\n' :: Binding.block c.breadcrumb r.bindings ∧
      ∀ b : Binding, ¬ b.declarationLine c.breadcrumb <:+: '\n' :: S := by
  obtain ⟨k, r, front, h⟩ := exists_exported hmode hmarker hcrumb he hbrace hstem source
  refine ⟨r, _, _, front, h.run, ?_, h.output, rfl, h.isolate, h.front, fun b hinfix => ?_⟩
  · rw [← h.body, h.found]
    exact Binding.applyAll_edits _ h.fits
  · -- a declaration would bring a breadcrumb, and the body has none
    have hline : c.breadcrumb <:+: b.declarationLine c.breadcrumb := ⟨_, ['\n'], rfl⟩
    have hfeed : '\n' ∉ c.breadcrumb := by
      rw [hcrumb]
      decide
    rcases infix_append_cons (x := []) (hline.trans hinfix) hfeed with hnil | hclear
    · rw [hcrumb] at hnil
      exact absurd (List.infix_nil.1 hnil) (by decide)
    · exact h.clear hclear

/-- A source with a call twice behind its opener. The call in front of the opener stays. -/
theorem isolate_output_standard :
    ∃ r S front, reduce Config.standard Engine.defaults
          "float2(1) let \x7b a = float2(1) + float2(1); \x7d".toList "x".toList true = .ok r ∧
      r.output = some
        "float2(1) let \x7b\nfloat2 x0 = float2(1);  // _RL_REDUCT_BREADCRUMB_\n a = x0 + x0; \x7d".toList ∧
      Region.isolate Region.opener Config.standard.breadcrumb (written Config.standard.breadcrumb r S) =
        ⟨front, '\n' :: S⟩ := by
  obtain ⟨r, S, out, front, hr, -, hout, rfl, hisolate, -⟩ :=
    isolate_output Config.standard rfl rfl rfl Engine.defaults (by decide +kernel) "x".toList (by decide) (by decide)
      "float2(1) let \x7b a = float2(1) + float2(1); \x7d".toList
  have heval : (reduce Config.standard Engine.defaults
      "float2(1) let \x7b a = float2(1) + float2(1); \x7d".toList "x".toList true).toOption.bind (·.output) =
        some "float2(1) let \x7b\nfloat2 x0 = float2(1);  // _RL_REDUCT_BREADCRUMB_\n a = x0 + x0; \x7d".toList := by
    decide +kernel
  rw [hr] at heval
  exact ⟨r, S, front, hr, heval, hisolate⟩

end Reduction

end CallHoist
