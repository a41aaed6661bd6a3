import CallHoist.Proofs.RuleFile.Forms
import CallHoist.RuleFile.Printer

/-!
# Written rule files read back

A rule file that is written from entries reads back as these entries (`read_written`). Whatever is in a string, the
reader meets a double quote or a backslash of it only behind a backslash, so it stays in the string until the quote that
ends it (`reads_writtenString`). So each entry reads as the list of its parts in front of any text, and the file as the
list of the entries (`read_written_eq`). What is left is what the forms stand for.
-/

namespace CallHoist

namespace RuleFile

open SExpr hiding true

/-! ### Strings -/

/-- A character of a string, read within it. -/
private theorem tokensFrom_writtenChar (c : Char) (before : Text) (offset : Nat) (s : Text) :
    tokensFrom (.string before) offset (writtenChar c ++ s) =
      tokensFrom (.string (c :: before)) (offset + (writtenChar c).length) s := by
  by_cases hescape : c = '\\'
  · subst hescape
    rfl
  · by_cases hquote : c = '"'
    · subst hquote
      rfl
    · have hwritten : writtenChar c = [c] := by simp [writtenChar, hescape, hquote]
      have hnext : next (.string before) offset c s = ([], .string (c :: before)) := by
        simp [next, hescape, hquote]
      rw [hwritten, List.singleton_append, tokensFrom_cons, hnext]
      rfl

private theorem tokensFrom_written (s before : Text) (offset : Nat) (r : Text) :
    tokensFrom (.string before) offset (s.flatMap writtenChar ++ '"' :: r) =
      .value (.string (before.reverse ++ s)) ::
        tokensFrom .nothing (offset + (s.flatMap writtenChar).length + 1) r := by
  induction s generalizing before offset with
  | nil =>
    rw [List.append_nil]
    rfl
  | cons c s ih =>
    rw [List.flatMap_cons, List.append_assoc, tokensFrom_writtenChar, ih, List.reverse_cons, List.append_assoc,
      List.length_append, Nat.add_assoc offset]
    rfl

theorem reads_writtenString (s r : Text) : Reads (writtenString s) [.string s] r := by
  apply Reads.of_value
  intro offset
  have hlength : offset + (writtenString s).length = offset + 1 + (s.flatMap writtenChar).length + 1 := by
    simp only [writtenString, List.length_append, List.length_singleton]
    omega
  have htext : writtenString s ++ r = '"' :: (s.flatMap writtenChar ++ '"' :: r) := by
    simp [writtenString]
  rw [htext, hlength]
  exact tokensFrom_written s [] (offset + 1) r

/-- A list of a name and two strings. -/
private theorem reads_pair {opening tag : Text} (hopening : opening = '(' :: (tag ++ [' '])) (htag : isName tag)
    (a b r : Text) :
    Reads (opening ++ writtenString a ++ [' '] ++ writtenString b ++ [')'])
      [.list [.symbol tag, .string a, .string b]] r := by
  have hblank : Reads [' '] [] (writtenString b ++ ')' :: r) := reads_blank (by decide) _
  have hstrings : Reads (writtenString a ++ ([' '] ++ writtenString b)) [.string a, .string b] (')' :: r) :=
    (reads_writtenString a _).append (hblank.append (reads_writtenString b _))
  simpa only [List.append_assoc] using reads_tagged_of_blank hopening htag hstrings

/-! ### Entries -/

namespace Entry

/-- The form that an entry is written as. -/
def form : Entry → SExpr
  | type pattern typeName => .list [.symbol "type".toList, .string pattern, .string typeName]
  | ignore name pattern => .list [.symbol "ignore".toList, .string name, .string pattern]
  | inheritDefaults => .list [.symbol "inherit-defaults".toList]

theorem reads_written (e : Entry) (r : Text) : Reads e.written [e.form] r := by
  cases e with
  | type pattern typeName => exact reads_pair (by decide +kernel) (by decide +kernel) pattern typeName r
  | ignore name pattern => exact reads_pair (by decide +kernel) (by decide +kernel) name pattern r
  | inheritDefaults =>
    have hlist : Reads ("(inherit-defaults".toList ++ [] ++ [')']) [inheritDefaults.form] r :=
      reads_tagged (by decide +kernel) (by decide +kernel) ⟨')', r, rfl, by decide⟩ (Reads.nil (')' :: r))
    have htext : written inheritDefaults = "(inherit-defaults".toList ++ [] ++ [')'] := by decide +kernel
    rw [htext]
    exact hlist

end Entry

private theorem reads_entries (es : List Entry) (r : Text) :
    Reads (es.flatMap fun e => [' '] ++ e.written) (es.map Entry.form) r := by
  induction es with
  | nil => exact Reads.nil r
  | cons e es ih =>
    have hblank : Reads [' '] [] (e.written ++ ((es.flatMap fun e => [' '] ++ e.written) ++ r)) :=
      reads_blank (by decide) _
    rw [List.flatMap_cons]
    exact (hblank.append (e.reads_written _)).append ih

/-- What is written reads as the list of the forms of the entries. -/
theorem read_written_eq (es : List Entry) : SExpr.read (written es) = .ok (rulesOf (es.map Entry.form)) := by
  have hends : ∃ d s, (es.flatMap fun e => [' '] ++ e.written) ++ [')'] = d :: s ∧ endsAtom d := by
    cases es with
    | nil => exact ⟨')', [], rfl, by decide⟩
    | cons e es => exact ⟨' ', _, rfl, by decide⟩
  have hfile : Reads (written es) [rulesOf (es.map Entry.form)] [] :=
    reads_tagged (by decide +kernel) (by decide +kernel) hends (reads_entries es [')'])
  exact read_of_readAll hfile.readAll_eq

/-! ### Rules -/

variable {compile : Compiler}

namespace Entry

theorem tables_cases {e : Entry} {t : RuleTables} (h : e.tables compile = .ok t) :
    (∃ p typeName m, e = .type p typeName ∧ compile.matcher p = .ok m ∧ t = ⟨⟨[⟨m, typeName⟩], []⟩, false⟩) ∨
    (∃ name p m, e = .ignore name p ∧ compile.matcher p = .ok m ∧ t = ⟨⟨[], [⟨name, m⟩]⟩, false⟩) ∨
    (e = .inheritDefaults ∧ t = ⟨⟨[], []⟩, true⟩) := by
  cases e with
  | type p typeName =>
    cases hm : compile.matcher p with
    | error err => simp [tables, TypeRule.read, hm, Except.map] at h
    | ok m =>
      simp only [tables, TypeRule.read, hm, Except.map, Except.ok.injEq] at h
      exact .inl ⟨p, typeName, m, rfl, hm, h.symm⟩
  | ignore name p =>
    cases hm : compile.matcher p with
    | error err => simp [tables, IgnoreRule.read, hm, Except.map] at h
    | ok m =>
      simp only [tables, IgnoreRule.read, hm, Except.map, Except.ok.injEq] at h
      exact .inr (.inl ⟨name, p, m, rfl, hm, h.symm⟩)
  | inheritDefaults => exact .inr (.inr ⟨rfl, (Except.ok.inj h).symm⟩)

/-- The form of an entry stands for its rules. -/
theorem addForm_form {e : Entry} {t : RuleTables} (h : e.tables compile = .ok t) :
    addForm compile .empty e.form = .ok t := by
  obtain ⟨p, typeName, m, rfl, hm, rfl⟩ | ⟨name, p, m, rfl, hm, rfl⟩ | ⟨rfl, rfl⟩ := tables_cases h
  · have hrule : TypeRule.read compile p typeName = .ok ⟨m, typeName⟩ := by
      rw [TypeRule.read, hm]
      rfl
    simp [form, addForm, tag, arguments, argument, hrule, Except.mapError, bind, Except.bind, pure, Except.pure,
      RuleTables.empty, RuleTables.addType]
  · have hrule : IgnoreRule.read compile name p = .ok ⟨name, m⟩ := by
      rw [IgnoreRule.read, hm]
      rfl
    simp [form, addForm, tag, arguments, argument, hrule, Except.mapError, bind, Except.bind, pure, Except.pure,
      RuleTables.empty, RuleTables.addIgnore]
  · simp [form, addForm, tag, bind, Except.bind, pure, Except.pure, RuleTables.empty, RuleTables.inherit]

/-- The pattern of an entry. -/
def pattern? : Entry → Option Text
  | type pattern _ => some pattern
  | ignore _ pattern => some pattern
  | inheritDefaults => none

/-- The pattern and the type of a type entry. -/
def type? : Entry → Option (Text × Text)
  | type pattern typeName => some (pattern, typeName)
  | _ => none

/-- The name and the pattern of an ignore entry. -/
def ignore? : Entry → Option (Text × Text)
  | ignore name pattern => some (name, pattern)
  | _ => none

theorem exists_tables {e : Entry} (h : ∀ p, e.pattern? = some p → ∃ accepts, compile p = .ok accepts) :
    ∃ t, e.tables compile = .ok t := by
  cases e with
  | type pattern typeName =>
    obtain ⟨accepts, hp⟩ := h pattern rfl
    exact ⟨⟨⟨[⟨⟨pattern, accepts⟩, typeName⟩], []⟩, false⟩, by
      simp [tables, TypeRule.read, Compiler.matcher, hp, Except.map]⟩
  | ignore name pattern =>
    obtain ⟨accepts, hp⟩ := h pattern rfl
    exact ⟨⟨⟨[], [⟨name, ⟨pattern, accepts⟩⟩]⟩, false⟩, by
      simp [tables, IgnoreRule.read, Compiler.matcher, hp, Except.map]⟩
  | inheritDefaults => exact ⟨_, rfl⟩

end Entry

theorem tablesOf_cons_eq_ok_iff {e : Entry} {es : List Entry} {t : RuleTables} :
    tablesOf compile (e :: es) = .ok t ↔
      ∃ u v, e.tables compile = .ok u ∧ tablesOf compile es = .ok v ∧ u.append v = t := by
  cases hu : e.tables compile with
  | error err => simp [tablesOf, hu, bind, Except.bind]
  | ok u => cases hv : tablesOf compile es <;> simp [tablesOf, hu, hv, bind, Except.bind, pure, Except.pure]

theorem exists_tablesOf {es : List Entry}
    (h : ∀ e ∈ es, ∀ p, e.pattern? = some p → ∃ accepts, compile p = .ok accepts) :
    ∃ t, tablesOf compile es = .ok t := by
  induction es with
  | nil => exact ⟨_, rfl⟩
  | cons e es ih =>
    obtain ⟨he, hes⟩ := List.forall_mem_cons.1 h
    obtain ⟨u, hu⟩ := Entry.exists_tables he
    obtain ⟨v, hv⟩ := ih hes
    exact ⟨u.append v, tablesOf_cons_eq_ok_iff.2 ⟨u, v, hu, hv, rfl⟩⟩

theorem addForms_of_tablesOf {es : List Entry} {t : RuleTables} (h : tablesOf compile es = .ok t) :
    addForms compile .empty (es.map Entry.form) = .ok t := by
  induction es generalizing t with
  | nil =>
    cases h
    rfl
  | cons e es ih =>
    obtain ⟨u, v, hu, hv, rfl⟩ := tablesOf_cons_eq_ok_iff.1 h
    rw [List.map_cons, addForms_cons_of_ok (Entry.addForm_form hu), ih hv]
    rfl

/-- Tables with just the rules of given entries, in their order, and with patterns that are compiled from their
texts. -/
structure Holds (compile : Compiler) (t : RuleTables) (es : List Entry) : Prop where
  types : t.own.typeRules.map (fun r => (r.regex.source, r.typeName)) = es.filterMap Entry.type?
  ignores : t.own.ignoreRules.map (fun r => (r.name, r.regex.source)) = es.filterMap Entry.ignore?
  inherits : t.inheritDefaults = true ↔ .inheritDefaults ∈ es
  typePatterns : ∀ r ∈ t.own.typeRules, compile r.regex.source = .ok r.regex.accepts
  ignorePatterns : ∀ r ∈ t.own.ignoreRules, compile r.regex.source = .ok r.regex.accepts

namespace Holds

theorem empty : Holds compile .empty [] := by
  constructor <;> simp [RuleTables.empty]

theorem append {t u : RuleTables} {es fs : List Entry} (ht : Holds compile t es) (hu : Holds compile u fs) :
    Holds compile (t.append u) (es ++ fs) where
  types := by simp [RuleTables.append, Engine.append, ht.types, hu.types]
  ignores := by simp [RuleTables.append, Engine.append, ht.ignores, hu.ignores]
  inherits := by simp [RuleTables.append, ht.inherits, hu.inherits]
  typePatterns := List.forall_mem_append.2 ⟨ht.typePatterns, hu.typePatterns⟩
  ignorePatterns := List.forall_mem_append.2 ⟨ht.ignorePatterns, hu.ignorePatterns⟩

theorem of_tables {e : Entry} {t : RuleTables} (h : e.tables compile = .ok t) : Holds compile t [e] := by
  obtain ⟨p, typeName, m, rfl, hm, rfl⟩ | ⟨name, p, m, rfl, hm, rfl⟩ | ⟨rfl, rfl⟩ := Entry.tables_cases h
  · obtain ⟨hp, hsource⟩ := Compiler.matcher_eq_ok_iff.1 hm
    constructor <;> simp [Entry.type?, Entry.ignore?, hsource, hp]
  · obtain ⟨hp, hsource⟩ := Compiler.matcher_eq_ok_iff.1 hm
    constructor <;> simp [Entry.type?, Entry.ignore?, hsource, hp]
  · constructor <;> simp [Entry.type?, Entry.ignore?]

theorem of_tablesOf {es : List Entry} {t : RuleTables} (h : tablesOf compile es = .ok t) : Holds compile t es := by
  induction es generalizing t with
  | nil =>
    cases h
    exact .empty
  | cons e es ih =>
    obtain ⟨u, v, hu, hv, rfl⟩ := tablesOf_cons_eq_ok_iff.1 h
    exact (of_tables hu).append (ih hv)

end Holds

/-- A file written from entries whose patterns are compiled holds these entries when it is read. -/
theorem read_written (compile : Compiler) {es : List Entry}
    (h : ∀ e ∈ es, ∀ p, e.pattern? = some p → ∃ accepts, compile p = .ok accepts) :
    ∃ t, RuleFile.read compile (written es) = .ok t ∧ Holds compile t es := by
  obtain ⟨t, ht⟩ := exists_tablesOf h
  refine ⟨t, ?_, .of_tablesOf ht⟩
  rw [read_of_rulesOf (read_written_eq es), ofSExpr_rulesOf]
  exact addForms_of_tablesOf ht

/-- Strings with what would end them, or the list around them, or begin a comment. -/
theorem read_written_delimiters :
    let es : List Entry := [.type "f\\(\".*\"\\)".toList "a ; (b".toList, .inheritDefaults,
      .ignore "x\ny".toList "g\\\\".toList]
    written es =
        "(rules (type \"f\\\\(\\\".*\\\"\\\\)\" \"a ; (b\") (inherit-defaults) (ignore \"x\ny\" \"g\\\\\\\\\"))".toList ∧
      ∃ t, RuleFile.read .ofRead (written es) = .ok t ∧ Holds .ofRead t es := by
  intro es
  have htype : (Compiler.ofRead "f\\(\".*\"\\)".toList).toOption.isSome = Bool.true := by decide +kernel
  have hignore : (Compiler.ofRead "g\\\\".toList).toOption.isSome = Bool.true := by decide +kernel
  refine ⟨by decide +kernel, read_written .ofRead (fun e he p hp => ?_)⟩
  simp only [es, List.mem_cons, List.not_mem_nil, or_false] at he
  rcases he with rfl | rfl | rfl
  · cases hp
    exact exists_ok_of_isSome htype
  · cases hp
  · cases hp
    exact exists_ok_of_isSome hignore

end RuleFile

end CallHoist
