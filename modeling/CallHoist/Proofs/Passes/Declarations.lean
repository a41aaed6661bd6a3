import CallHoist.Inference.Defaults
import CallHoist.Proofs.Passes.Run

/-!
# Declarations in order

The declarations of a run stand one after the other behind the head of the first source, those of earlier passes first,
and within a pass the last binding first; a later pass puts its own behind them and changes none (`Run.exists_lines`).

If each stem is new to the source of its pass, no declaration uses a name that is declared at or below it
(`declarations_in_order`). Within a pass a call is a part of the source, and the names are not. The calls of earlier
passes are part of the head by then, so a later name is none of theirs either.
-/

namespace CallHoist

open Text Grammar

theorem Binding.call_infix_block {crumb : Text} {bs : List Binding} {b : Binding} (hb : b ∈ bs) :
    b.call <:+: block crumb bs := by
  have hline : b.call <:+: b.declarationLine crumb := by
    refine ⟨b.typeName ++ ' ' :: (b.name ++ " = ".toList), ';' :: ("  // ".toList ++ (crumb ++ ['\n'])), ?_⟩
    simp [declarationLine, declaration]
  exact hline.trans (List.infix_of_mem_flatten (List.mem_map.2 ⟨b, List.mem_reverse.2 hb, rfl⟩))

namespace Reduction

/-- The bindings of several passes in the order of their declarations. -/
def declared (rs : List Reduction) : List Binding :=
  rs.flatMap fun r => r.bindings.reverse

/-- Each stem is new to the source that its pass is run on. -/
def NewStems (c : Config) (e : Engine) : Text → List Text → Prop
  | _, [] => True
  | source, stem :: stems => ¬ stem <:+: source ∧
      ∀ r out, reduce c e source stem true = .ok r → r.output = some out → NewStems c e out stems

theorem declared_cons (r : Reduction) (rs : List Reduction) : declared (r :: rs) = r.bindings.reverse ++ declared rs :=
  List.flatMap_cons

/-! ### A pass -/

section

variable {c : Config} {e : Engine} {stem source front : Text} {k : Cutting} {r : Reduction}
  (h : Exported c e stem source k r front)
include h

theorem Exported.written_eq :
    written c.breadcrumb r (k.fill (Binding.rename r.bindings)) =
      front ++ '\n' :: k.fill (Binding.rename r.bindings) := by
  have hcut := Region.head_append_body Region.opener c.breadcrumb
    (written c.breadcrumb r (k.fill (Binding.rename r.bindings)))
  rw [h.isolate] at hcut
  exact hcut.symm

theorem Exported.call_infix_source {b : Binding} (hb : b ∈ r.bindings) : b.call <:+: source := by
  have hof := h.bindings b hb
  rw [h.found] at hof
  exact hof.call_occurs.trans h.infix_source

/-- A new stem makes names that none of the calls has. -/
theorem Exported.not_name_infix_call (hfresh : ¬ stem <:+: source) {a b : Binding} (ha : a ∈ r.bindings)
    (hb : b ∈ r.bindings) : ¬ b.name <:+: a.call := by
  intro hoccurs
  have hstem : stem <:+: b.name := (h.bindings b hb).stem_prefix_name.isInfix
  exact hfresh (hstem.trans (hoccurs.trans (h.call_infix_source ha)))

end

/-! ### A run -/

section

variable {c : Config} {e : Engine} {source : Text} {stems : List Text} {rs : List Reduction}

/-- The lines that have been put in stay where they are, and those of the next pass come behind them. -/
theorem Run.exists_lines (h : Run c e source stems rs) {earlier later : List Reduction} {r : Reduction}
    (hrs : rs = earlier ++ r :: later) :
    ∃ S, r.output = some ((Region.isolate Region.opener c.breadcrumb source).head ++ '\n' ::
      ((declared (earlier ++ [r])).flatMap (Binding.declarationLine c.breadcrumb) ++ S)) := by
  induction h generalizing earlier with
  | nil => simp at hrs
  | @cons stem source front k r' stems rs hr _ ih =>
    have hhead : r'.region.head = (Region.isolate Region.opener c.breadcrumb source).head := by rw [hr.region]
    cases earlier with
    | nil =>
      obtain ⟨rfl, rfl⟩ := List.cons.inj hrs
      refine ⟨k.fill (Binding.rename r'.bindings), ?_⟩
      rw [hr.output, written, hhead, List.nil_append, declared_cons]
      simp [declared, Binding.block]
    | cons d earlier =>
      rw [List.cons_append] at hrs
      obtain ⟨rfl, hrest⟩ := List.cons.inj hrs
      obtain ⟨S, hout⟩ := ih hrest
      refine ⟨S, ?_⟩
      rw [hout, hr.isolate]
      have hlines : front ++ ['\n'] = (Region.isolate Region.opener c.breadcrumb source).head ++
          '\n' :: Binding.block c.breadcrumb r'.bindings := by
        rw [hr.front, hhead]
      have hcut : ∀ Z, front ++ '\n' :: Z = (front ++ ['\n']) ++ Z := by simp
      rw [hcut, hlines, List.cons_append, declared_cons, List.flatMap_append, ← Binding.block]
      simp

/-- No name of the run is in the head of its source. -/
private theorem Run.not_name_infix_head (h : Run c e source stems rs) (hnew : NewStems c e source stems) {x y : Text}
    (hsource : source = x ++ '\n' :: y) (hhead : (Region.isolate Region.opener c.breadcrumb source).head = x)
    {b : Binding} (hb : b ∈ declared rs) : ¬ b.name <:+: x ++ ['\n'] := by
  induction h generalizing x y with
  | nil => cases hb
  | @cons stem source front k r stems rs hr _ ih =>
    obtain ⟨hfresh, hnext⟩ := hnew
    rw [declared_cons, List.mem_append, List.mem_reverse] at hb
    rcases hb with hb | hb
    · intro hoccurs
      have hstem : stem <:+: b.name := (hr.bindings b hb).stem_prefix_name.isInfix
      have hsub : x ++ ['\n'] <:+: source := ⟨[], y, by rw [hsource]; simp⟩
      exact hfresh (hstem.trans (hoccurs.trans hsub))
    · have hrest := ih (hnext r _ hr.run hr.output) hr.written_eq (by rw [hr.isolate]) hb
      have hregion : r.region.head = x := by rw [hr.region, hhead]
      intro hoccurs
      apply hrest
      rw [hr.front, hregion]
      exact hoccurs.trans ⟨[], Binding.block c.breadcrumb r.bindings, by simp⟩

/-- No call has the name of its own declaration, or of one below it. -/
private theorem Run.not_name_infix_call (h : Run c e source stems rs) (hnew : NewStems c e source stems) :
    (declared rs).Pairwise (fun a b => ¬ b.name <:+: a.call) ∧ ∀ b ∈ declared rs, ¬ b.name <:+: b.call := by
  induction h with
  | nil => exact ⟨.nil, fun b hb => by cases hb⟩
  | @cons stem source front k r stems rs hr hrun ih =>
    obtain ⟨hfresh, hnext⟩ := hnew
    have hnew' := hnext r _ hr.run hr.output
    obtain ⟨hpairs, hself⟩ := ih hnew'
    have hsame : ∀ a ∈ r.bindings.reverse, ∀ b ∈ r.bindings.reverse, ¬ b.name <:+: a.call := by
      intro a ha b hb
      exact hr.not_name_infix_call hfresh (List.mem_reverse.1 ha) (List.mem_reverse.1 hb)
    have hlater : ∀ a ∈ r.bindings.reverse, ∀ b ∈ declared rs, ¬ b.name <:+: a.call := by
      -- the call is part of the head by then
      intro a ha b hb hoccurs
      have hnot := hrun.not_name_infix_head hnew' hr.written_eq (by rw [hr.isolate]) hb
      apply hnot
      rw [hr.front]
      have hblock : a.call <:+: Binding.block c.breadcrumb r.bindings :=
        Binding.call_infix_block (List.mem_reverse.1 ha)
      exact hoccurs.trans (hblock.trans ⟨r.region.head ++ ['\n'], [], by simp⟩)
    rw [declared_cons]
    constructor
    · rw [List.pairwise_append]
      refine ⟨?_, hpairs, hlater⟩
      rw [List.pairwise_iff_getElem]
      intro i j hi hj _
      exact hsame _ (List.getElem_mem hi) _ (List.getElem_mem hj)
    · intro b hb
      rcases List.mem_append.1 hb with hb | hb
      · exact hsame b hb b hb
      · exact hself b hb

theorem Run.lt_of_name_infix_call (h : Run c e source stems rs) (hnew : NewStems c e source stems) {i j : Nat}
    (hi : i < (declared rs).length) (hj : j < (declared rs).length)
    (hoccurs : (declared rs)[i].name <:+: (declared rs)[j].call) : i < j := by
  obtain ⟨hpairs, hself⟩ := h.not_name_infix_call hnew
  rw [List.pairwise_iff_getElem] at hpairs
  by_cases heq : i = j
  · subst heq
    exact absurd hoccurs (hself _ (List.getElem_mem hi))
  · by_cases hlt : j < i
    · exact absurd hoccurs (hpairs j i hj hi hlt)
    · omega

end

/-- With stems that are new to the sources of their passes, the declarations of all passes stand one after the other
behind the head of the first source. No pass changes those of an earlier one, and a name stands in a call only below the
declaration of the name. -/
theorem declarations_in_order (c : Config) (hmode : c.mode = .functionCalls)
    (hmarker : c.startMarker = Region.opener.source) (hcrumb : c.breadcrumb = Region.breadcrumb) (e : Engine)
    (he : ∀ r ∈ e.typeRules, '{' ∉ r.typeName) (stems : List Text)
    (hstems : ∀ stem ∈ stems, '{' ∉ stem ∧ ¬ Region.breadcrumb <:+: stem) (source : Text)
    (hnew : NewStems c e source stems) :
    ∃ rs, passes c e source (stems.map Pass.onward) = .ok rs ∧ rs.length = stems.length ∧
      (∀ earlier r later, rs = earlier ++ r :: later →
        ∃ S, r.output = some ((Region.isolate Region.opener c.breadcrumb source).head ++ '\n' ::
          ((declared (earlier ++ [r])).flatMap (Binding.declarationLine c.breadcrumb) ++ S))) ∧
      ∀ i j (hi : i < (declared rs).length) (hj : j < (declared rs).length),
        (declared rs)[i].name <:+: (declared rs)[j].call → i < j := by
  obtain ⟨rs, hrun⟩ := exists_run hmode hmarker hcrumb he hstems source
  refine ⟨rs, hrun.passes_eq, hrun.length_eq, ?_, ?_⟩
  · intro earlier r later hrs
    exact hrun.exists_lines hrs
  · intro i j hi hj hoccurs
    exact hrun.lt_of_name_infix_call hnew hi hj hoccurs

/-- Two passes over a call in a call. The second declares its name below the name that it uses. -/
theorem declarations_in_order_nested :
    ∃ rs, passes Config.standard Engine.defaults
          "let \x7b a = float3(float2(1)) + float3(float2(1)); \x7d".toList
          (["x".toList, "y".toList].map Pass.onward) = .ok rs ∧
      (declared rs).map (fun b => (b.name, b.call)) =
        [("x0".toList, "float2(1)".toList), ("y0".toList, "float3(x0)".toList)] ∧
      ∀ i j (hi : i < (declared rs).length) (hj : j < (declared rs).length),
        (declared rs)[i].name <:+: (declared rs)[j].call → i < j := by
  have hfirst : (reduce Config.standard Engine.defaults
      "let \x7b a = float3(float2(1)) + float3(float2(1)); \x7d".toList "x".toList true).toOption.bind (·.output) = some
      "let \x7b\nfloat2 x0 = float2(1);  // _RL_REDUCT_BREADCRUMB_\n a = float3(x0) + float3(x0); \x7d".toList := by
    decide +kernel
  have hnew : NewStems Config.standard Engine.defaults
      "let \x7b a = float3(float2(1)) + float3(float2(1)); \x7d".toList ["x".toList, "y".toList] := by
    refine ⟨by decide +kernel, fun r out hr hout => ⟨?_, fun _ _ _ _ => trivial⟩⟩
    rw [hr] at hfirst
    obtain rfl := Option.some.inj (hout.symm.trans hfirst)
    decide +kernel
  obtain ⟨rs, hrs, -, -, horder⟩ :=
    declarations_in_order Config.standard rfl rfl rfl Engine.defaults (by decide +kernel) ["x".toList, "y".toList]
      (by decide) "let \x7b a = float3(float2(1)) + float3(float2(1)); \x7d".toList hnew
  have heval : (passes Config.standard Engine.defaults
      "let \x7b a = float3(float2(1)) + float3(float2(1)); \x7d".toList
      (["x".toList, "y".toList].map Pass.onward)).toOption.map
        (fun rs => (declared rs).map fun b => (b.name, b.call)) =
      some [("x0".toList, "float2(1)".toList), ("y0".toList, "float3(x0)".toList)] := by
    decide +kernel
  rw [hrs] at heval
  exact ⟨rs, hrs, Option.some.inj heval, horder⟩

end Reduction

end CallHoist
