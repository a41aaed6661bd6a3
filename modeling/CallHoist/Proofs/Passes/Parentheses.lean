import CallHoist.Proofs.Export
import CallHoist.Proofs.Passes.Run

/-!
# Passes use up parentheses

A pass writes its calls into the declarations, so a source grows; but the body that the next pass searches loses the
opening parentheses of each bound call, as often as the call was found (`Exported.parens_eq`). A call has one at least.
So no more passes bind a call than the first body has opening parentheses (`binding_passes_le_parens`).
-/

namespace CallHoist

open Text Grammar

/-! ### Characters of the substituted text -/

namespace Binding

/-- How often a character is in the calls of some bindings, if each call is taken as often as its binding counts. -/
def spent (d : Char) : List Binding → Int
  | [] => 0
  | b :: bs => b.count * b.call.count d + spent d bs

/-- The same if each call is taken as often as it is among some texts. -/
def weight (d : Char) (texts : List Text) : List Binding → Nat
  | [] => 0
  | b :: bs => texts.count b.call * b.call.count d + weight d texts bs

section

variable {d : Char} {texts : List Text} {bs : List Binding}

theorem Tally.spent_eq_weight (h : Tally texts bs) : spent d bs = (weight d texts bs : Nat) := by
  obtain ⟨-, hcount⟩ := h
  induction bs with
  | nil => rfl
  | cons b bs ih =>
    have hfirst := (hcount b (List.mem_cons_self ..)).2
    have hrest := ih fun b hb => hcount b (List.mem_cons_of_mem _ hb)
    rw [spent, weight, hrest, hfirst, Int.natCast_add, Int.natCast_mul]

private theorem weight_eq_zero (h : ∀ b ∈ bs, b.call ∉ texts) : weight d texts bs = 0 := by
  induction bs with
  | nil => rfl
  | cons b bs ih =>
    have hfirst := List.count_eq_zero.2 (h b (List.mem_cons_self ..))
    have hrest := ih fun b hb => h b (List.mem_cons_of_mem _ hb)
    rw [weight, hfirst, hrest, Nat.zero_mul]

theorem weight_pos {b : Binding} (hb : b ∈ bs) (htext : b.call ∈ texts) (hd : d ∈ b.call) : 0 < weight d texts bs := by
  induction bs with
  | nil => cases hb
  | cons b' bs ih =>
    unfold weight
    rcases List.mem_cons.1 hb with rfl | hb
    · have hterm : 0 < texts.count b.call * b.call.count d :=
        Nat.mul_pos (List.count_pos_iff.2 htext) (List.count_pos_iff.2 hd)
      omega
    · have hrest := ih hb
      omega

private theorem weight_text_cons (t : Text) : weight d (t :: texts) bs = weight d [t] bs + weight d texts bs := by
  induction bs with
  | nil => rfl
  | cons b bs ih =>
    have hcount : (t :: texts).count b.call = [t].count b.call + texts.count b.call := by
      rw [← List.singleton_append, List.count_append]
    simp only [weight, ih, hcount, Nat.add_mul]
    omega

private theorem weight_of_not_mem {t : Text} (h : t ∉ bs.map (·.call)) : weight d [t] bs = 0 := by
  apply weight_eq_zero
  intro b hb hmem
  exact h (List.mem_map.2 ⟨b, hb, List.mem_singleton.1 hmem⟩)

private theorem weight_of_mem (hbs : (bs.map (·.call)).Nodup) {b : Binding} (hb : b ∈ bs) :
    weight d [b.call] bs = b.call.count d := by
  induction bs with
  | nil => cases hb
  | cons b' bs ih =>
    rw [List.map_cons, List.nodup_cons] at hbs
    rw [weight]
    rcases List.mem_cons.1 hb with rfl | hb
    · rw [weight_of_not_mem hbs.1, List.count_singleton_self, Nat.one_mul, Nat.add_zero]
    · have hne : b'.call ∉ [b.call] := by
        rw [List.mem_singleton]
        intro he
        exact hbs.1 (List.mem_map.2 ⟨b, hb, he.symm⟩)
      rw [ih hbs.2 hb, List.count_eq_zero.2 hne, Nat.zero_mul, Nat.zero_add]

end

section

variable {d : Char} {bs : List Binding} (hbs : (bs.map (·.call)).Nodup) (hd : ∀ b ∈ bs, d ∉ b.name)
include hbs hd

/-- A replacement loses the characters of a call, if the names do not have them. -/
private theorem count_rename (t : Text) : (rename bs t).count d + weight d [t] bs = t.count d := by
  cases hname : nameOf? bs t with
  | none =>
    have hfree : t ∉ bs.map (·.call) := by
      intro hmem
      obtain ⟨b, hb, rfl⟩ := List.mem_map.1 hmem
      obtain ⟨name, hsome⟩ := nameOf?_of_mem hb
      rw [hname] at hsome
      cases hsome
    rw [rename, hname, weight_of_not_mem hfree]
    rfl
  | some name =>
    obtain ⟨b, hb, rfl, rfl⟩ := exists_of_nameOf? hname
    rw [rename, hname, weight_of_mem hbs hb, Option.getD_some, List.count_eq_zero.2 (hd b hb), Nat.zero_add]

/-- The substituted text has lost the characters of each bound call, as often as the call is found. -/
theorem count_fill (k : Cutting) (pos : Nat) :
    (k.fill (rename bs)).count d + weight d ((k.matchesFrom pos).map (·.text)) bs = k.text.count d := by
  induction k generalizing pos with
  | rest g => exact congrArg (g.count d + ·) (weight_eq_zero fun _ _ => List.not_mem_nil)
  | part g t k ih =>
    have hhit := count_rename hbs hd t
    have hrest := ih (pos + g.length + t.length)
    rw [Cutting.matchesFrom, List.map_cons, weight_text_cons]
    simp only [Cutting.fill, Cutting.text, List.count_append]
    omega

end

end Binding

namespace Reduction

/-! ### A pass -/

/-- The opening parentheses of the part of a source that is searched. -/
def parens (c : Config) (source : Text) : Nat :=
  (Region.isolate Region.opener c.breadcrumb source).body.count '('

section

variable {c : Config} (hmode : c.mode = .functionCalls) {e : Engine} {stem source front : Text} {k : Cutting}
  {r : Reduction}
include hmode

/-- The body of the next pass has lost what the bindings have taken out. -/
theorem Exported.parens_eq (h : Exported c e stem source k r front) (hstem : '(' ∉ stem) :
    (parens c (written c.breadcrumb r (k.fill (Binding.rename r.bindings))) : Int) =
      r.region.body.count '(' - Binding.spent '(' r.bindings := by
  have hnames : ∀ b ∈ r.bindings, '(' ∉ b.name := fun b hb =>
    Binding.not_mem_name h.bindings hstem (by decide) (by decide) hb
  have hcount := Binding.count_fill (tally_of_reduce hmode h.run).distinct hnames k 0
  have hfeed : ∀ S : Text, ('\n' :: S).count '(' = S.count '(' := fun S => List.count_cons_of_ne (by decide)
  rw [← h.found, h.body] at hcount
  rw [parens, h.isolate, hfeed, (tally_of_reduce hmode h.run).spent_eq_weight]
  omega

/-- A pass that binds a call takes out a parenthesis. -/
theorem Exported.spent_pos (h : Exported c e stem source k r front) (hbound : r.bindings ≠ []) :
    0 < Binding.spent '(' r.bindings := by
  obtain ⟨b, hb⟩ := List.exists_mem_of_ne_nil _ hbound
  have hfound := ((tally_of_reduce hmode h.run).count b hb).1
  have hparen : '(' ∈ b.call := by
    obtain ⟨m, hm, hcall⟩ := List.mem_map.1 hfound
    rw [h.found] at hm
    obtain ⟨y, htake⟩ := h.fits.exists_takes_of_mem hm
    rw [← hcall]
    exact mem_paren_of_call htake
  rw [(tally_of_reduce hmode h.run).spent_eq_weight]
  have hpos := Binding.weight_pos hb hfound hparen
  omega

theorem Exported.parens_lt (h : Exported c e stem source k r front) (hstem : '(' ∉ stem) (hbound : r.bindings ≠ []) :
    parens c (written c.breadcrumb r (k.fill (Binding.rename r.bindings))) < r.region.body.count '(' := by
  have heq := h.parens_eq hmode hstem
  have hpos := h.spent_pos hmode hbound
  omega

theorem Exported.parens_le (h : Exported c e stem source k r front) (hstem : '(' ∉ stem) :
    parens c (written c.breadcrumb r (k.fill (Binding.rename r.bindings))) ≤ r.region.body.count '(' := by
  have heq := h.parens_eq hmode hstem
  rw [(tally_of_reduce hmode h.run).spent_eq_weight] at heq
  omega

end

/-! ### A run -/

section

variable {c : Config} (hmode : c.mode = .functionCalls) {e : Engine} {source : Text} {stems : List Text}
  {rs : List Reduction}
include hmode

theorem Run.exists_parens_eq (h : Run c e source stems rs) (hstems : ∀ stem ∈ stems, '(' ∉ stem) {r : Reduction}
    (hr : r ∈ rs) :
    ∃ out, r.output = some out ∧ (parens c out : Int) = r.region.body.count '(' - Binding.spent '(' r.bindings ∧
      (r.bindings ≠ [] → parens c out < r.region.body.count '(') := by
  obtain ⟨stem, hmem, source', k, front, hexported⟩ := h.exists_of_mem hr
  have hstem := hstems stem hmem
  exact ⟨_, hexported.output, hexported.parens_eq hmode hstem, hexported.parens_lt hmode hstem⟩

/-- What a pass has taken out is missing in the body of the next one. -/
theorem Run.count_next (h : Run c e source stems rs) (hstems : ∀ stem ∈ stems, '(' ∉ stem)
    {earlier later : List Reduction} {r next : Reduction} (hrs : rs = earlier ++ r :: next :: later) :
    (next.region.body.count '(' : Int) = r.region.body.count '(' - Binding.spent '(' r.bindings := by
  have hmem : r ∈ rs := by simp [hrs]
  obtain ⟨out, hout, heq, -⟩ := h.exists_parens_eq hmode hstems hmem
  obtain ⟨out', hout', hregion⟩ := h.exists_output hrs
  rw [hout] at hout'
  obtain rfl := Option.some.inj hout'
  rw [hregion]
  exact heq

/-- At most as many passes bind a call as there are opening parentheses to begin with. -/
theorem Run.countP_le_parens (h : Run c e source stems rs) (hstems : ∀ stem ∈ stems, '(' ∉ stem) :
    rs.countP (fun r => !r.bindings.isEmpty) ≤ parens c source := by
  induction h with
  | nil => exact Nat.zero_le _
  | @cons stem source front k r stems rs hr _ ih =>
    have hstem := hstems stem (List.mem_cons_self ..)
    have hrest := ih fun s hs => hstems s (List.mem_cons_of_mem _ hs)
    have hfirst : r.region.body.count '(' = parens c source := by rw [hr.region, parens]
    rw [List.countP_cons]
    by_cases hbound : r.bindings = []
    · have hle := hr.parens_le hmode hstem
      rw [hbound, List.isEmpty_nil, Bool.not_true, if_neg Bool.false_ne_true]
      omega
    · have hlt := hr.parens_lt hmode hstem hbound
      have hone : (if (!r.bindings.isEmpty) = true then 1 else 0) ≤ 1 := by
        split <;> omega
      omega

end

/-- With stems that hold no parenthesis, a pass takes out of the body the opening parentheses of each bound call, as
often as the binding counts. So each pass that binds a call lowers their number, and at most as many passes bind one as
the first body has opening parentheses. -/
theorem binding_passes_le_parens (c : Config) (hmode : c.mode = .functionCalls)
    (hmarker : c.startMarker = Region.opener.source) (hcrumb : c.breadcrumb = Region.breadcrumb) (e : Engine)
    (he : ∀ r ∈ e.typeRules, '{' ∉ r.typeName) (stems : List Text)
    (hstems : ∀ stem ∈ stems, '{' ∉ stem ∧ '(' ∉ stem ∧ ¬ Region.breadcrumb <:+: stem) (source : Text) :
    ∃ rs, passes c e source (stems.map Pass.onward) = .ok rs ∧ rs.length = stems.length ∧
      (∀ r ∈ rs, ∃ out, r.output = some out ∧
        (parens c out : Int) = r.region.body.count '(' - Binding.spent '(' r.bindings ∧
        (r.bindings ≠ [] → parens c out < r.region.body.count '(')) ∧
      (∀ earlier r next later, rs = earlier ++ r :: next :: later →
        (next.region.body.count '(' : Int) = r.region.body.count '(' - Binding.spent '(' r.bindings) ∧
      rs.countP (fun r => !r.bindings.isEmpty) ≤ parens c source := by
  have hopens : ∀ stem ∈ stems, '{' ∉ stem ∧ ¬ Region.breadcrumb <:+: stem := by
    intro stem hstem
    obtain ⟨hbrace, -, hcrumb⟩ := hstems stem hstem
    exact ⟨hbrace, hcrumb⟩
  have hparen : ∀ stem ∈ stems, '(' ∉ stem := fun stem hstem => (hstems stem hstem).2.1
  obtain ⟨rs, hrun⟩ := exists_run hmode hmarker hcrumb he hopens source
  refine ⟨rs, hrun.passes_eq, hrun.length_eq, ?_, ?_, hrun.countP_le_parens hmode hparen⟩
  · intro r hr
    exact hrun.exists_parens_eq hmode hparen hr
  · intro earlier r next later hrs
    exact hrun.count_next hmode hparen hrs

/-- Four passes over calls in calls. The first three bind one each. -/
theorem binding_passes_le_parens_nested :
    ∃ rs, passes Config.standard Engine.defaults
          "let \x7b a = color(float3(float2(1))) + color(float3(float2(1))); \x7d".toList
          (["x".toList, "y".toList, "z".toList, "w".toList].map Pass.onward) = .ok rs ∧
      rs.map (fun r => (r.region.body.count '(', Binding.spent '(' r.bindings)) = [(6, 2), (4, 2), (2, 2), (0, 0)] ∧
      rs.countP (fun r => !r.bindings.isEmpty) ≤ 6 := by
  obtain ⟨rs, hrs, -, -, -, hcount⟩ :=
    binding_passes_le_parens Config.standard rfl rfl rfl Engine.defaults (by decide +kernel)
      ["x".toList, "y".toList, "z".toList, "w".toList] (by decide)
      "let \x7b a = color(float3(float2(1))) + color(float3(float2(1))); \x7d".toList
  have heval : (passes Config.standard Engine.defaults
      "let \x7b a = color(float3(float2(1))) + color(float3(float2(1))); \x7d".toList
      (["x".toList, "y".toList, "z".toList, "w".toList].map Pass.onward)).toOption.map
        (fun rs => rs.map fun r => (r.region.body.count '(', Binding.spent '(' r.bindings)) =
          some [(6, 2), (4, 2), (2, 2), (0, 0)] := by
    decide +kernel
  have hparens : parens Config.standard
      "let \x7b a = color(float3(float2(1))) + color(float3(float2(1))); \x7d".toList = 6 := by
    decide +kernel
  rw [hrs] at heval
  rw [hparens] at hcount
  exact ⟨rs, hrs, Option.some.inj heval, hcount⟩

end Reduction

end CallHoist
