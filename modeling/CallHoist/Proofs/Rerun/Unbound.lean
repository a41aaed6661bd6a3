import CallHoist.Proofs.Rerun.Guard

/-!
# Passes that bind nothing

A pass that puts no name in place of anything writes the body of the region back as it is, behind one line feed. The
next pass has that line feed in front of its region and all else as before (`Reduction.reduce_feed`), as a scan passes
over spacing (`Grammar.scan_cons_of_isSpacing`) and what it finds at a place does not hang on what stands in front.
-/

namespace CallHoist

open Text Grammar

/-! ### Matches further on -/

namespace Grammar

/-- The match in a text with `n` characters more in front. -/
def Match.shift (n : Nat) (m : Match) : Match := ⟨m.start + n, m.stop + n, m.text⟩

theorem Cutting.matchesFrom_add (k : Cutting) (pos n : Nat) :
    k.matchesFrom (pos + n) = (k.matchesFrom pos).map (Match.shift n) := by
  induction k generalizing pos with
  | rest g => rfl
  | part g t k ih =>
    have hpos : pos + n + g.length + t.length = pos + g.length + t.length + n := by omega
    rw [matchesFrom, matchesFrom, List.map_cons, hpos, ih]
    congr 1
    rw [Match.shift, Match.mk.injEq]
    refine ⟨?_, ?_, rfl⟩ <;> push_cast <;> omega

/-- A scan passes over spacing in front of a text. -/
theorem scan_cons_of_isSpacing (p : Peg) {c : Char} (hc : isSpacing c = true) (s : Text) :
    scan p (c :: s) = (scan p s).map (Match.shift 1) := by
  obtain ⟨k, rfl, hk, hscan⟩ := exists_cutting p s
  calc scan p (c :: k.text) = scanFrom p 0 (0 + 1) k.text := by rw [scan, scanFrom, if_pos hc]
    _ = k.matchesFrom (0 + 1) := hk.scanFrom_eq (0 + 1)
    _ = (k.matchesFrom 0).map (Match.shift 1) := k.matchesFrom_add 0 1
    _ = (scan p k.text).map (Match.shift 1) := by rw [hscan]

theorem map_text_shift (n : Nat) (ms : List Match) : (ms.map (Match.shift n)).map (·.text) = ms.map (·.text) := by
  rw [List.map_map]
  rfl

end Grammar

/-! ### The next pass -/

theorem Binding.rewrite_nil (crumb body : Text) (found : List Match) : rewrite crumb body found [] = .ok body := by
  have hedits : edits found [] = [] := List.filterMap_eq_nil_iff.2 fun m _ => rfl
  rw [rewrite, hedits]
  rfl

namespace Reduction

/-- Without bindings a body is written back as it is, and so it is where conditional expressions are looked for. -/
theorem rewriteBody_of_unbound {c : Config} {bs : List Binding} (h : c.mode = .conditionalExpressions ∨ bs = [])
    (body : Text) (found : List Match) : rewriteBody c body found bs = .ok body := by
  cases hmode : c.mode with
  | functionCalls =>
    obtain rfl : bs = [] := by
      rcases h with h | h
      · rw [hmode] at h
        cases h
      · exact h
    rw [rewriteBody, hmode]
    exact Binding.rewrite_nil c.breadcrumb body found
  | conditionalExpressions => rw [rewriteBody, hmode]

/-- A pass over the region of another with a line feed in front of the body, where the bindings of that are none, or
are not put in. -/
theorem reduce_feed {c : Config} {o : Regex} (ho : Regex.read c.startMarker = .ok o) {e : Engine}
    {source source' stem : Text} {exporting : Bool} {r : Reduction} (hr : reduce c e source stem exporting = .ok r)
    (hregion : Region.isolate o c.breadcrumb source' = ⟨r.region.head, '\n' :: r.region.body⟩)
    (h : c.mode = .conditionalExpressions ∨ r.bindings = []) :
    reduce c e source' stem true = .ok ⟨⟨r.region.head, '\n' :: r.region.body⟩, r.found.map (Match.shift 1), r.table,
      r.sorting, some (r.region.head ++ '\n' :: '\n' :: r.region.body)⟩ := by
  obtain ⟨-, hfound, htable, hsorting, -⟩ := (reduce_eq_ok_iff ho).1 hr
  refine (reduce_eq_ok_iff ho).2 ⟨hregion.symm, ?_, ?_, hsorting, ?_⟩
  · rw [hfound]
    exact (scan_cons_of_isSpacing _ (by decide) _).symm
  · rw [map_text_shift]
    exact htable
  · exact ⟨'\n' :: r.region.body, rewriteBody_of_unbound h _ _, rfl⟩

/-- The output of a pass that binds nothing, or binds conditional expressions, differs from the source by a line feed in
front of the body. Another pass over it finds the same one place further on, sorts it in the same way, and puts in one
line feed more at the same place. -/
theorem reduce_output_of_unbound (c : Config) (hmarker : c.startMarker = Region.opener.source)
    (hcrumb : c.breadcrumb = Region.breadcrumb) (e : Engine) (source stem : Text) :
    ∃ r out, reduce c e source stem true = .ok r ∧ r.output = some out ∧
      (c.mode = .conditionalExpressions ∨ r.bindings = [] →
        ∃ r', reduce c e out stem true = .ok r' ∧ r'.region.head = r.region.head ∧ r'.table = r.table ∧
          r'.bindings = r.bindings ∧ r'.unknown = r.unknown ∧ r'.ignored = r.ignored ∧ r'.report = r.report ∧
          r'.found = (r.found.map fun m => ⟨m.start + 1, m.stop + 1, m.text⟩) ∧
          r'.output = some (out.take r.region.start ++ '\n' :: out.drop r.region.start)) := by
  have ho : Regex.read c.startMarker = .ok Region.opener := by rw [hmarker, Region.read_opener_source]
  obtain ⟨r, hr⟩ := exists_of_read ho e source stem true
  obtain ⟨hregion, -, -, -, S, hbody, hout⟩ := (reduce_eq_ok_iff ho).1 hr
  refine ⟨r, _, hr, hout, fun h => ?_⟩
  have hS : S = r.region.body := by
    rw [rewriteBody_of_unbound h] at hbody
    exact (Except.ok.inj hbody).symm
  have hnext : Region.isolate Region.opener c.breadcrumb (r.region.head ++ '\n' :: r.region.body) =
      ⟨r.region.head, '\n' :: r.region.body⟩ := by
    rw [hcrumb] at hregion ⊢
    exact Region.isolate_feed hregion.symm
  rw [hS]
  refine ⟨_, reduce_feed ho hr hnext h, rfl, rfl, rfl, rfl, rfl, rfl, rfl, ?_⟩
  rw [Region.start, List.take_left, List.drop_left]

/-- A source without an opener, in which calls of no known type stand right behind a breadcrumb. -/
theorem reduce_output_of_unbound_breadcrumb :
    ∃ r r', reduce Config.standard Engine.defaults "// _RL_REDUCT_BREADCRUMB_f(x) + f(x)".toList "x".toList true =
          .ok r ∧
      reduce Config.standard Engine.defaults "// _RL_REDUCT_BREADCRUMB_\nf(x) + f(x)".toList "x".toList true =
          .ok r' ∧
      r.found = [⟨0, 4, "f(x)".toList⟩, ⟨7, 11, "f(x)".toList⟩] ∧
      r'.found = [⟨1, 5, "f(x)".toList⟩, ⟨8, 12, "f(x)".toList⟩] ∧ r'.report = r.report ∧
      r'.output = some "// _RL_REDUCT_BREADCRUMB_\n\nf(x) + f(x)".toList := by
  obtain ⟨r, out, hr, hout, hnext⟩ := reduce_output_of_unbound Config.standard rfl rfl Engine.defaults
    "// _RL_REDUCT_BREADCRUMB_f(x) + f(x)".toList "x".toList
  have heval : (reduce Config.standard Engine.defaults "// _RL_REDUCT_BREADCRUMB_f(x) + f(x)".toList "x".toList
      true).toOption.map (fun r => (r.bindings, r.found, r.output, r.region.start)) =
      some ([], [⟨0, 4, "f(x)".toList⟩, ⟨7, 11, "f(x)".toList⟩],
        some "// _RL_REDUCT_BREADCRUMB_\nf(x) + f(x)".toList, 25) := by
    decide +kernel
  rw [hr] at heval
  obtain ⟨hbindings, heval⟩ := Prod.mk.inj (Option.some.inj heval)
  obtain ⟨hfound, heval⟩ := Prod.mk.inj heval
  obtain ⟨hout', hstart⟩ := Prod.mk.inj heval
  obtain rfl := Option.some.inj (hout.symm.trans hout')
  obtain ⟨r', hr', -, -, -, -, -, hreport, hfound', houtput⟩ := hnext (.inr hbindings)
  rw [hfound] at hfound'
  rw [hstart] at houtput
  exact ⟨r, r', hr, hr', hfound, hfound', hreport, houtput⟩

end Reduction

end CallHoist
