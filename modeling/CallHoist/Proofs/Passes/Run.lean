import CallHoist.Proofs.Rerun.Guard

/-!
# Runs of exporting passes

A run is a sequence of exporting passes over calls, each on what the pass before has written. With the default marker
and breadcrumb there is a run for all stems that hold neither an opening brace nor the breadcrumb (`exists_run`), and it
is what `passes` does (`Run.passes_eq`). What is to be shown of all passes is shown by induction on the run.
-/

namespace CallHoist.Reduction

open Text Grammar

/-- An exporting pass over what the passes before have left. -/
def Pass.onward (stem : Text) : Pass := ⟨stem, true, none⟩

/-- The passes with some stems over a source, each as `Exported` tells it. -/
inductive Run (c : Config) (e : Engine) : Text → List Text → List Reduction → Prop where
  | nil {source : Text} : Run c e source [] []
  | cons {stem source front : Text} {k : Cutting} {r : Reduction} {stems : List Text} {rs : List Reduction} :
      Exported c e stem source k r front →
      Run c e (written c.breadcrumb r (k.fill (Binding.rename r.bindings))) stems rs →
      Run c e source (stem :: stems) (r :: rs)

theorem exists_run {c : Config} (hmode : c.mode = .functionCalls) (hmarker : c.startMarker = Region.opener.source)
    (hcrumb : c.breadcrumb = Region.breadcrumb) {e : Engine} (he : ∀ r ∈ e.typeRules, '{' ∉ r.typeName)
    {stems : List Text} (hstems : ∀ stem ∈ stems, '{' ∉ stem ∧ ¬ Region.breadcrumb <:+: stem) (source : Text) :
    ∃ rs, Run c e source stems rs := by
  induction stems generalizing source with
  | nil => exact ⟨[], .nil⟩
  | cons stem stems ih =>
    obtain ⟨hbrace, hstem⟩ := hstems stem (List.mem_cons_self ..)
    obtain ⟨k, r, front, h⟩ := exists_exported hmode hmarker hcrumb he hbrace hstem source
    obtain ⟨rs, hrs⟩ := ih (fun s hs => hstems s (List.mem_cons_of_mem _ hs))
      (written c.breadcrumb r (k.fill (Binding.rename r.bindings)))
    exact ⟨r :: rs, .cons h hrs⟩

section

variable {c : Config} {e : Engine} {source : Text} {stems : List Text} {rs : List Reduction}

theorem Run.passes_eq (h : Run c e source stems rs) : passes c e source (stems.map Pass.onward) = .ok rs := by
  induction h with
  | nil => rfl
  | @cons stem source front k r stems rs hr _ ih =>
    have hnext : r.output.getD source = written c.breadcrumb r (k.fill (Binding.rename r.bindings)) := by
      rw [hr.output, Option.getD_some]
    have hpass : reduce c e ((Pass.onward stem).source.getD source) (Pass.onward stem).stem
        (Pass.onward stem).exporting = .ok r := hr.run
    rw [List.map_cons, passes, hpass]
    show (passes c e (r.output.getD source) (stems.map Pass.onward) >>= fun rs => .ok (r :: rs)) = .ok (r :: rs)
    rw [hnext, ih]
    rfl

theorem Run.exists_of_mem (h : Run c e source stems rs) {r : Reduction} (hr : r ∈ rs) :
    ∃ stem ∈ stems, ∃ source k front, Exported c e stem source k r front := by
  induction h with
  | nil => cases hr
  | @cons stem source front k r' stems rs hr' _ ih =>
    rcases List.mem_cons.1 hr with rfl | hr
    · exact ⟨stem, List.mem_cons_self .., source, k, front, hr'⟩
    · obtain ⟨stem', hstem', hexported⟩ := ih hr
      exact ⟨stem', List.mem_cons_of_mem _ hstem', hexported⟩

/-- A pass searches the region of what the pass before it has written. -/
theorem Run.exists_output (h : Run c e source stems rs) {earlier later : List Reduction} {r next : Reduction}
    (hrs : rs = earlier ++ r :: next :: later) :
    ∃ out, r.output = some out ∧ next.region = Region.isolate Region.opener c.breadcrumb out := by
  induction h generalizing earlier with
  | nil => simp at hrs
  | cons hr hrun ih =>
    cases earlier with
    | nil =>
      obtain ⟨rfl, rfl⟩ := List.cons.inj hrs
      cases hrun with
      | cons hnext _ => exact ⟨_, hr.output, hnext.region⟩
    | cons d earlier => exact ih (List.cons.inj hrs).2

theorem Run.length_eq (h : Run c e source stems rs) : rs.length = stems.length := by
  induction h with
  | nil => rfl
  | cons _ _ ih => rw [List.length_cons, List.length_cons, ih]

end

end CallHoist.Reduction
