import CallHoist.Proofs.SExpr.Reading
import CallHoist.RuleFile
import Mathlib.Data.List.Forall2

/-!
# Rule files form by form

A form is read with the table of the forms before it, but all that it does to this table is to put its own rules
behind (`addForm_eq`). So the rules of a file are those of its forms, each in a file of its own, one behind another, and
what is wrong with a file is what is wrong with its first form that cannot be read (`rules_by_forms`). No form is
exempt: those that are no lists, have no tag or have an unknown one are forms that cannot be read, and so are those
with a pattern at which the compiler breaks off.

All this is about the expressions of a file. That the expressions of a text, put between the parentheses of a file, are
the forms of that file is the law of the reader for lists (`read_enclosed`).
-/

namespace CallHoist

namespace RuleTables

@[simp]
theorem append_empty (t : RuleTables) : t.append .empty = t := by
  simp [append, empty, Engine.append]

theorem append_assoc (t u v : RuleTables) : (t.append u).append v = t.append (u.append v) := by
  simp [append, Engine.append, Bool.or_assoc]

@[simp]
theorem append_addType (t u : RuleTables) (r : TypeRule) : t.append (u.addType r) = (t.append u).addType r := by
  simp [append, addType, Engine.append]

@[simp]
theorem append_addIgnore (t u : RuleTables) (r : IgnoreRule) :
    t.append (u.addIgnore r) = (t.append u).addIgnore r := by
  simp [append, addIgnore, Engine.append]

@[simp]
theorem append_inherit (t u : RuleTables) : t.append u.inherit = (t.append u).inherit := by
  simp [append, inherit, Engine.append]

/-- Tables one behind another. -/
def concat : List RuleTables → RuleTables
  | [] => .empty
  | t :: ts => t.append (concat ts)

@[simp]
theorem typeRules_concat (ts : List RuleTables) : (concat ts).own.typeRules = ts.flatMap (·.own.typeRules) := by
  induction ts with
  | nil => rfl
  | cons t ts ih => simp [concat, append, Engine.append, ih]

@[simp]
theorem ignoreRules_concat (ts : List RuleTables) : (concat ts).own.ignoreRules = ts.flatMap (·.own.ignoreRules) := by
  induction ts with
  | nil => rfl
  | cons t ts ih => simp [concat, append, Engine.append, ih]

@[simp]
theorem inheritDefaults_concat (ts : List RuleTables) :
    (concat ts).inheritDefaults = true ↔ ∃ t ∈ ts, t.inheritDefaults = true := by
  induction ts with
  | nil => simp [concat, empty]
  | cons t ts ih => simp [concat, append, ih]

end RuleTables

theorem exists_ok_of_isSome {ε α : Type} {x : Except ε α} (h : x.toOption.isSome = true) : ∃ a, x = .ok a := by
  cases x with
  | error e => cases h
  | ok a => exact ⟨a, rfl⟩

namespace RuleFile

open RuleTables (concat append_empty)

variable {compile : Compiler}

/-! ### Forms one after another -/

/-- A rule that is read for a table is read alike for the empty one, if what adds it puts it behind all others. -/
private theorem map_add_eq {α : Type} {add : RuleTables → α → RuleTables} {t : RuleTables}
    (hadd : ∀ a, t.append (add .empty a) = add t a) (x : Except RuleFault α) :
    x.map (add t) = (x.map (add .empty)).map t.append := by
  cases x with
  | error e => rfl
  | ok a => exact congrArg Except.ok (hadd a).symm

/-- What a form does to a table is what it does to the empty one, behind that table. -/
theorem addForm_eq (t : RuleTables) (f : SExpr) : addForm compile t f = (addForm compile .empty f).map t.append := by
  cases f with
  | list items =>
    simp only [addForm, bind, Except.bind]
    cases tag items with
    | error e => rfl
    | ok name =>
      dsimp only
      split
      · cases arguments name items with
        | error e => rfl
        | ok a => exact map_add_eq (fun rule => by simp) ((TypeRule.read compile a.1 a.2).mapError _)
      · split
        · cases arguments name items with
          | error e => rfl
          | ok a => exact map_add_eq (fun rule => by simp) ((IgnoreRule.read compile a.1 a.2).mapError _)
        · split
          · split
            · simp [pure, Except.pure, Except.map]
            · rfl
          · rfl
  | _ => rfl

theorem addForms_cons (t : RuleTables) (f : SExpr) (fs : List SExpr) :
    addForms compile t (f :: fs) = (addForm compile t f).bind fun u => addForms compile u fs := rfl

/-- What forms do to a table is what they do to the empty one, behind that table. -/
theorem addForms_eq (t : RuleTables) (fs : List SExpr) :
    addForms compile t fs = (addForms compile .empty fs).map t.append := by
  induction fs generalizing t with
  | nil =>
    show Except.ok t = .ok (t.append .empty)
    rw [append_empty]
  | cons f fs ih =>
    rw [addForms_cons, addForms_cons, addForm_eq t f]
    cases addForm compile .empty f with
    | error e => rfl
    | ok u =>
      have happend : (t.append u).append = t.append ∘ u.append := funext fun v => RuleTables.append_assoc t u v
      simp only [Except.map, Except.bind]
      rw [ih (t.append u), ih u, happend]
      cases addForms compile .empty fs <;> rfl

theorem addForms_cons_of_ok {f : SExpr} {u : RuleTables} (h : addForm compile .empty f = .ok u) (fs : List SExpr) :
    addForms compile .empty (f :: fs) = (addForms compile .empty fs).map u.append := by
  rw [addForms_cons, h, ← addForms_eq]
  rfl

theorem addForms_cons_of_error {f : SExpr} {e : RuleFault} (h : addForm compile .empty f = .error e)
    (fs : List SExpr) : addForms compile .empty (f :: fs) = .error e := by
  rw [addForms_cons, h]
  rfl

theorem addForms_singleton (f : SExpr) : addForms compile .empty [f] = addForm compile .empty f := by
  cases h : addForm compile .empty f with
  | error e => exact addForms_cons_of_error h []
  | ok u =>
    rw [addForms_cons_of_ok h]
    show Except.ok (u.append .empty) = _
    rw [append_empty]

theorem exists_addForms_iff {fs : List SExpr} :
    (∃ t, addForms compile .empty fs = .ok t) ↔ ∀ f ∈ fs, ∃ u, addForm compile .empty f = .ok u := by
  induction fs with
  | nil => exact ⟨fun _ f hf => absurd hf List.not_mem_nil, fun _ => ⟨_, rfl⟩⟩
  | cons f fs ih =>
    rw [List.forall_mem_cons, ← ih]
    cases h : addForm compile .empty f with
    | error e => simp [addForms_cons_of_error h]
    | ok u => cases hrest : addForms compile .empty fs <;> simp [addForms_cons_of_ok h, hrest, Except.map]

theorem addForms_eq_ok_iff {fs : List SExpr} {t : RuleTables} :
    addForms compile .empty fs = .ok t ↔
      ∃ ts, List.Forall₂ (fun f u => addForm compile .empty f = .ok u) fs ts ∧ concat ts = t := by
  induction fs generalizing t with
  | nil =>
    have hnil : addForms compile .empty [] = .ok .empty := rfl
    simp [hnil, concat]
  | cons f fs ih =>
    cases h : addForm compile .empty f with
    | error e => simp [addForms_cons_of_error h, List.forall₂_cons_left_iff, h]
    | ok u =>
      rw [addForms_cons_of_ok h]
      constructor
      · intro hmap
        obtain ⟨t', hrest, rfl⟩ : ∃ t', addForms compile .empty fs = .ok t' ∧ u.append t' = t := by
          cases hrest : addForms compile .empty fs with
          | error e => simp [hrest, Except.map] at hmap
          | ok t' => simpa [hrest, Except.map] using hmap
        obtain ⟨ts, hts, rfl⟩ := ih.1 hrest
        exact ⟨u :: ts, .cons h hts, rfl⟩
      · rintro ⟨ts, hts, rfl⟩
        obtain ⟨u', ts', hu', hts', rfl⟩ := List.forall₂_cons_left_iff.1 hts
        obtain rfl : u = u' := Except.ok.inj (h.symm.trans hu')
        rw [ih.2 ⟨ts', hts', rfl⟩]
        rfl

/-- The first form that cannot be read counts, whatever stands behind it. -/
theorem addForms_eq_error_iff {fs : List SExpr} {e : RuleFault} :
    addForms compile .empty fs = .error e ↔ ∃ front f back, fs = front ++ f :: back ∧
      (∀ g ∈ front, ∃ t, addForm compile .empty g = .ok t) ∧ addForm compile .empty f = .error e := by
  constructor
  · intro herror
    induction fs with
    | nil => cases herror
    | cons f fs ih =>
      cases h : addForm compile .empty f with
      | error e' =>
        rw [addForms_cons_of_error h] at herror
        exact ⟨[], f, fs, rfl, by simp, by rw [h, herror]⟩
      | ok u =>
        have hrest : addForms compile .empty fs = .error e := by
          rw [addForms_cons_of_ok h] at herror
          cases hrest : addForms compile .empty fs with
          | error e' => simpa [hrest, Except.map] using herror
          | ok t => simp [hrest, Except.map] at herror
        obtain ⟨front, g, back, rfl, hfront, hg⟩ := ih hrest
        exact ⟨f :: front, g, back, rfl, List.forall_mem_cons.2 ⟨⟨u, h⟩, hfront⟩, hg⟩
  · rintro ⟨front, f, back, rfl, hfront, hf⟩
    induction front with
    | nil => exact addForms_cons_of_error hf back
    | cons g front ih =>
      obtain ⟨⟨u, hu⟩, hfront⟩ := List.forall_mem_cons.1 hfront
      rw [List.cons_append, addForms_cons_of_ok hu, ih hfront]
      rfl

/-! ### Files -/

/-- The expression of a file with given forms. -/
def rulesOf (forms : List SExpr) : SExpr := .list (.symbol "rules".toList :: forms)

theorem ofSExpr_rulesOf (fs : List SExpr) : ofSExpr compile (rulesOf fs) = addForms compile .empty fs := rfl

theorem ofSExpr_rulesOf_singleton (f : SExpr) : ofSExpr compile (rulesOf [f]) = addForm compile .empty f :=
  addForms_singleton f

theorem read_of_rulesOf {s : Text} {fs : List SExpr} (h : SExpr.read s = .ok (rulesOf fs)) :
    read compile s = ofSExpr compile (rulesOf fs) := by
  rw [read, h]
  rfl

/-- The text of a file around the text of its forms. The line feed ends a comment behind the last form. -/
def enclosed (forms : Text) : Text := "(rules ".toList ++ (forms ++ ['\n']) ++ [')']

open SExpr in
theorem read_enclosed {w : Text} {fs : List SExpr} (h : readAll w = .ok fs) :
    SExpr.read (enclosed w) = .ok (rulesOf fs) := by
  have hforms : Reads (w ++ ['\n']) fs [')'] := reads_of_readAll h [')']
  have hfile : Reads (enclosed w) [rulesOf fs] [] := reads_tagged_of_blank (by decide +kernel) (by decide +kernel) hforms
  exact read_of_readAll hfile.readAll_eq

/-- A file can be read just if each of its forms can, in a file of its own. Its rules are then those of its forms one
behind another, and it inherits the default rules just if one of its forms does. Else what is wrong with it is what is
wrong with the first form that cannot be read. -/
theorem rules_by_forms (compile : Compiler) (fs : List SExpr) :
    ((∃ t, ofSExpr compile (rulesOf fs) = .ok t) ↔ ∀ f ∈ fs, ∃ t, ofSExpr compile (rulesOf [f]) = .ok t) ∧
    (∀ t, ofSExpr compile (rulesOf fs) = .ok t →
      ∃ ts, List.Forall₂ (fun f u => ofSExpr compile (rulesOf [f]) = .ok u) fs ts ∧
        t.own.typeRules = ts.flatMap (·.own.typeRules) ∧ t.own.ignoreRules = ts.flatMap (·.own.ignoreRules) ∧
        (t.inheritDefaults = true ↔ ∃ u ∈ ts, u.inheritDefaults = true)) ∧
    (∀ e, ofSExpr compile (rulesOf fs) = .error e ↔ ∃ front f back, fs = front ++ f :: back ∧
      (∀ g ∈ front, ∃ t, ofSExpr compile (rulesOf [g]) = .ok t) ∧ ofSExpr compile (rulesOf [f]) = .error e) ∧
    (∀ s, SExpr.read s = .ok (rulesOf fs) → read compile s = ofSExpr compile (rulesOf fs)) ∧
    ∀ w, SExpr.readAll w = .ok fs → SExpr.read (enclosed w) = .ok (rulesOf fs) := by
  simp only [ofSExpr_rulesOf_singleton]
  refine ⟨?_, ?_, fun e => addForms_eq_error_iff, fun s => read_of_rulesOf, fun w => read_enclosed⟩
  · exact exists_addForms_iff
  · intro t ht
    obtain ⟨ts, hts, rfl⟩ := addForms_eq_ok_iff.1 ht
    exact ⟨ts, hts, RuleTables.typeRules_concat ts, RuleTables.ignoreRules_concat ts, RuleTables.inheritDefaults_concat ts⟩

/-- The second form is a number, and counts before the third, which has an unknown tag. -/
theorem rules_by_forms_second :
    ofSExpr .ofRead (rulesOf [.list [.symbol "inherit-defaults".toList], .int 5, .list [.symbol "other".toList]]) =
      .error (.invalid (.notForm (.int 5))) := by
  have hfirst : (ofSExpr .ofRead (rulesOf [.list [.symbol "inherit-defaults".toList]])).toOption.isSome = true := by
    decide +kernel
  refine ((rules_by_forms .ofRead _).2.2.1 _).2 ⟨[.list [.symbol "inherit-defaults".toList]], .int 5, _, rfl, ?_, rfl⟩
  intro g hg
  rw [List.mem_singleton.1 hg]
  exact exists_ok_of_isSome hfirst

end RuleFile

end CallHoist
