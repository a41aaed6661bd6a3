import CallHoist.CommandLine.Run
import CallHoist.Proofs.Reduction
import CallHoist.Proofs.Region
import CallHoist.Proofs.RuleFile.Loading

/-!
# The course of a run

A run of an invocation stops at the first of its three files that it cannot use: the input, the rule file, the output.
`Invocation.Course` has the ways that it can go, each with what is known of the files then, what is told and what is
left; `Invocation.course_of_run` is that there is no other.

All of them end with an exit code but those in which the run escapes: `Invocation.Escapes` lists these, and a run
escapes in no other (`CommandLine.run_exit`). All this holds on every platform.
-/

namespace CallHoist

open Text

namespace CommandLine.Invocation

/-- What the pass of a run yields, from the input and the rules that the run has. -/
def Yields (inv : Invocation) (p : Platform) (files : FileTree) (r : Reduction) : Prop :=
  ∃ source engine, p.Holds files inv.input source ∧ RuleFile.engineFor p files inv.config = .ok engine ∧
    Reduction.reduce inv.config engine source inv.stem inv.output.isSome = .ok r

/-- All serial numbers of a pass, which are those in the names of its bindings (`Reduction.names_of_reduce`), can be
written. -/
def Numbered (inv : Invocation) (r : Reduction) : Prop := ∀ n ∈ r.serials inv.config, Literal.isWritable n = true

/-- What a run escapes on: a NUL in the path of its input; what the loading of its rule file breaks off at; the first
serial number of the pass with too many digits; a path for its output that cannot be handed to the system. Each of them
is met only if the run has got that far. -/
inductive Escapes (inv : Invocation) (p : Platform) (files : FileTree) : Escape → Prop where
  | input : '\x00' ∈ inv.input → Escapes inv p files (.input .nul)
  | rules {source path : Text} {e : RuleEscape} : p.Holds files inv.input source → inv.config.rulesPath = some path →
      RuleFile.Escapes p files path e → Escapes inv p files (.rules e)
  | serial {r : Reduction} {n : Int} : inv.Yields p files r →
      (r.serials inv.config).find? (fun n => !Literal.isWritable n) = some n → Escapes inv p files (.serial n)
  | output {r : Reduction} {output : Text} {fault : PathFault} : inv.Yields p files r → inv.Numbered r →
      inv.output = some output → p.Misses output fault → Escapes inv p files (.output fault)

/-- The ways that a run can go. -/
inductive Course (inv : Invocation) (p : Platform) (files : FileTree) :
    Except Escape (Outcome × FileTree) → Prop where
  | escape {esc : Escape} : inv.Escapes p files esc → Course inv p files (.error esc)
  | noInput {o : Outcome} : (¬ ∃ source, p.Holds files inv.input source) → o.exit = .infrastructure →
      o.stdout = "file not opened.\n".toList → Course inv p files (.ok (o, files))
  | noRules {source path : Text} {e : RuleFileError} {o : Outcome} : p.Holds files inv.input source →
      RuleFile.engineFor p files inv.config = .error (.notRules path e) → o.exit = .infrastructure → o.stdout = [] →
      Course inv p files (.ok (o, files))
  | reported {r : Reduction} {o : Outcome} : inv.Yields p files r → inv.output = none → o.exit = .ok →
      o.stdout = r.report → Course inv p files (.ok (o, files))
  | written {r : Reduction} {output out : Text} {o : Outcome} {after : FileTree} : inv.Yields p files r →
      inv.output = some output → r.output = some out → p.write files output (encode out) = .ok after → o.exit = .ok →
      o.stdout = r.report → Course inv p files (.ok (o, after))
  | unwritten {r : Reduction} {output : Text} {o : Outcome} : inv.Yields p files r → inv.output = some output →
      ¬ p.Writable files output → o.exit = .infrastructure →
      o.stdout = r.report ++ "failed to write ".toList ++ output ++ "!\n".toList → Course inv p files (.ok (o, files))

variable {inv : Invocation} {p : Platform} {files : FileTree}

theorem numbered_iff {r : Reduction} :
    inv.Numbered r ↔ (r.serials inv.config).find? (fun n => !Literal.isWritable n) = none := by
  unfold Numbered
  simp

/-- The opener of a run is the default one. -/
theorem read_startMarker (inv : Invocation) : Regex.read inv.config.startMarker = .ok Region.opener :=
  Region.read_opener_source

/-- The pass of a run does not fail. -/
theorem exists_yields_iff :
    (∃ r, inv.Yields p files r) ↔
      (∃ source, p.Holds files inv.input source) ∧ inv.config.RulesReadable p files := by
  rw [← RuleFile.exists_engineFor_iff]
  constructor
  · rintro ⟨r, source, engine, hsource, hengine, -⟩
    exact ⟨⟨source, hsource⟩, ⟨engine, hengine⟩⟩
  · rintro ⟨⟨source, hsource⟩, ⟨engine, hengine⟩⟩
    obtain ⟨r, hr⟩ := Reduction.exists_of_read (read_startMarker inv) engine source inv.stem inv.output.isSome
    exact ⟨r, source, engine, hsource, hengine, hr⟩

/-- The pass of a run that has an output makes the source to be written. -/
theorem Yields.exists_output {r : Reduction} (h : inv.Yields p files r) {output : Text}
    (houtput : inv.output = some output) : ∃ S, r.output = some (r.region.head ++ '\n' :: S) := by
  obtain ⟨source, engine, -, -, hr⟩ := h
  obtain ⟨-, -, -, -, hout⟩ := (Reduction.reduce_eq_ok_iff (read_startMarker inv)).1 hr
  rw [houtput] at hout
  obtain ⟨S, -, hS⟩ := hout
  exact ⟨S, hS⟩

/-! ### One step after another -/

private theorem run_of_nul (h : '\x00' ∈ inv.input) : inv.run p files = .error (.input .nul) := by
  have hread : p.read files inv.input = .error (.badPath .nul) := Platform.read_eq_badPath_iff.2 ⟨h, rfl⟩
  simp only [run, work, hread]

private theorem run_of_unread (hnul : '\x00' ∉ inv.input) (h : ¬ ∃ source, p.Holds files inv.input source) :
    ∃ o, inv.run p files = .ok (o, files) ∧ o.exit = .infrastructure ∧ o.stdout = "file not opened.\n".toList := by
  cases hread : p.read files inv.input with
  | error e =>
    cases e with
    | badPath fault => exact absurd (Platform.read_eq_badPath_iff.1 hread).1 hnul
    | refused e =>
      simp only [run, work, hread]
      cases inv.output <;> exact ⟨_, rfl, rfl, rfl⟩
  | ok bytes =>
    cases hdecode : decode bytes with
    | ok source => exact absurd ⟨source, bytes, hread, hdecode⟩ h
    | error e =>
      simp only [run, work, hread, hdecode]
      cases inv.output <;> exact ⟨_, rfl, rfl, rfl⟩

/-- The work of a run whose input is read is done on its source. -/
private theorem work_of_holds {source : Text} (h : p.Holds files inv.input source)
    (rules : Except OpenError (List UInt8)) :
    inv.work p (p.read files inv.input) rules = inv.workOn p source rules := by
  obtain ⟨bytes, hread, hdecode⟩ := h
  simp only [work, hread, hdecode]

private theorem run_of_ruleEscape {source : Text} {e : RuleEscape} (hsource : p.Holds files inv.input source)
    (hengine : RuleFile.engineFor p files inv.config = .error (.escape e)) :
    inv.run p files = .error (.rules e) := by
  unfold RuleFile.engineFor at hengine
  simp only [run, work_of_holds hsource, workOn, hengine]

private theorem run_of_notRules {source path : Text} {e : RuleFileError} (hsource : p.Holds files inv.input source)
    (hengine : RuleFile.engineFor p files inv.config = .error (.notRules path e)) :
    ∃ o, inv.run p files = .ok (o, files) ∧ o.exit = .infrastructure ∧ o.stdout = [] := by
  unfold RuleFile.engineFor at hengine
  simp only [run, work_of_holds hsource, workOn, hengine]
  cases inv.output <;> exact ⟨_, rfl, rfl, rfl⟩

private theorem run_of_longSerial {r : Reduction} {n : Int} (h : inv.Yields p files r)
    (hn : (r.serials inv.config).find? (fun n => !Literal.isWritable n) = some n) :
    inv.run p files = .error (.serial n) := by
  obtain ⟨source, engine, hsource, hengine, hr⟩ := h
  unfold RuleFile.engineFor at hengine
  simp only [run, work_of_holds hsource, workOn, hengine, hr, hn]

/-- The work of a run whose pass is numbered is the report and the output of the pass. -/
private theorem exists_work {r : Reduction} (h : inv.Yields p files r) (hnumbered : inv.Numbered r) :
    ∃ log, inv.work p (p.read files inv.input) (p.read files (inv.config.rulesPath.getD [])) =
      .ok ⟨⟨.ok, r.report, log⟩, r.output⟩ := by
  obtain ⟨source, engine, hsource, hengine, hr⟩ := h
  unfold RuleFile.engineFor at hengine
  exact ⟨_, by simp only [work_of_holds hsource, workOn, hengine, hr, numbered_iff.1 hnumbered]; rfl⟩

private theorem run_of_misses {r : Reduction} {output : Text} {fault : PathFault} (h : inv.Yields p files r)
    (hnumbered : inv.Numbered r) (houtput : inv.output = some output) (hmisses : p.Misses output fault) :
    inv.run p files = .error (.output fault) := by
  obtain ⟨log, hwork⟩ := exists_work h hnumbered
  obtain ⟨S, hS⟩ := h.exists_output houtput
  have hwrite : p.write files output (encode (r.region.head ++ '\n' :: S)) = .error (.badPath fault) :=
    Platform.write_eq_badPath_iff.2 hmisses
  simp only [run, hwork, houtput, hS, hwrite]

/-- The course of a run from the pass on. -/
private theorem course_of_numbered {r : Reduction} (h : inv.Yields p files r) (hnumbered : inv.Numbered r) :
    Course inv p files (inv.run p files) := by
  obtain ⟨log, hwork⟩ := exists_work h hnumbered
  cases houtput : inv.output with
  | none =>
    simp only [run, hwork, houtput]
    exact .reported h houtput rfl rfl
  | some output =>
    obtain ⟨S, hS⟩ := h.exists_output houtput
    cases hwrite : p.write files output (encode (r.region.head ++ '\n' :: S)) with
    | ok after =>
      simp only [run, hwork, houtput, hS, hwrite]
      exact .written h houtput hS hwrite rfl rfl
    | error e =>
      cases e with
      | badPath fault =>
        have hmisses : p.Misses output fault := Platform.write_eq_badPath_iff.1 hwrite
        rw [run_of_misses h hnumbered houtput hmisses]
        exact .escape (.output h hnumbered houtput hmisses)
      | refused e =>
        simp only [run, hwork, houtput, hS, hwrite]
        refine .unwritten h houtput (fun hwritable => ?_) rfl rfl
        obtain ⟨after, hafter⟩ := Platform.exists_write_iff.2 hwritable
        rw [hwrite] at hafter
        cases hafter

/-- The course of a run that has its source. -/
private theorem course_of_holds {source : Text} (hsource : p.Holds files inv.input source) :
    Course inv p files (inv.run p files) := by
  cases hengine : RuleFile.engineFor p files inv.config with
  | error e =>
    cases e with
    | escape e =>
      obtain ⟨path, hpath, hescapes⟩ := RuleFile.engineFor_eq_escape_iff.1 hengine
      rw [run_of_ruleEscape hsource hengine]
      exact .escape (.rules hsource hpath hescapes)
    | notRules path e =>
      obtain ⟨o, hrun, hexit, hstdout⟩ := run_of_notRules hsource hengine
      rw [hrun]
      exact .noRules hsource hengine hexit hstdout
  | ok engine =>
    obtain ⟨r, h⟩ := exists_yields_iff.2 ⟨⟨source, hsource⟩, RuleFile.exists_engineFor_iff.1 ⟨engine, hengine⟩⟩
    cases hn : (r.serials inv.config).find? (fun n => !Literal.isWritable n) with
    | some n =>
      rw [run_of_longSerial h hn]
      exact .escape (.serial h hn)
    | none => exact course_of_numbered h (numbered_iff.2 hn)

theorem course_of_run (inv : Invocation) (p : Platform) (files : FileTree) :
    Course inv p files (inv.run p files) := by
  by_cases hsource : ∃ source, p.Holds files inv.input source
  · obtain ⟨source, hsource⟩ := hsource
    exact course_of_holds hsource
  · by_cases hnul : '\x00' ∈ inv.input
    · rw [run_of_nul hnul]
      exact .escape (.input hnul)
    · obtain ⟨o, hrun, hexit, hstdout⟩ := run_of_unread hnul hsource
      rw [hrun]
      exact .noInput hsource hexit hstdout

/-! ### Exit codes -/

/-- A run cannot use its input, its rule file or its output. -/
def Faulty (inv : Invocation) (p : Platform) (files : FileTree) : Prop :=
  (¬ ∃ source, p.Holds files inv.input source) ∨ ¬ inv.config.RulesReadable p files ∨
    ∃ output, inv.output = some output ∧ ¬ p.Writable files output

theorem not_faulty_iff : ¬ inv.Faulty p files ↔
    (∃ r, inv.Yields p files r) ∧ ∀ output, inv.output = some output → p.Writable files output := by
  rw [exists_yields_iff]
  unfold Faulty
  grind

theorem Course.exit_iff {o : Outcome} {after : FileTree} (h : Course inv p files (.ok (o, after))) :
    (o.exit = .ok ∧ ¬ inv.Faulty p files) ∨ (o.exit = .infrastructure ∧ inv.Faulty p files) := by
  cases h with
  | noInput hinput hexit hstdout => exact .inr ⟨hexit, .inl hinput⟩
  | noRules hsource hengine hexit hstdout =>
    refine .inr ⟨hexit, .inr (.inl fun h => ?_)⟩
    obtain ⟨engine, h⟩ := RuleFile.exists_engineFor_iff.2 h
    rw [hengine] at h
    cases h
  | unwritten hr houtput hwritable hexit hstdout => exact .inr ⟨hexit, .inr (.inr ⟨_, houtput, hwritable⟩)⟩
  | reported hr houtput hexit hstdout =>
    refine .inl ⟨hexit, not_faulty_iff.2 ⟨⟨_, hr⟩, fun output h => ?_⟩⟩
    rw [houtput] at h
    cases h
  | written hr houtput hout hwrite hexit hstdout =>
    refine .inl ⟨hexit, not_faulty_iff.2 ⟨⟨_, hr⟩, fun output h => ?_⟩⟩
    obtain rfl := Option.some.inj (houtput.symm.trans h)
    exact Platform.exists_write_iff.1 ⟨_, hwrite⟩

theorem run_eq_error_iff {esc : Escape} : inv.run p files = .error esc ↔ inv.Escapes p files esc := by
  constructor
  · intro h
    have hcourse := course_of_run inv p files
    rw [h] at hcourse
    cases hcourse with
    | escape hescapes => exact hescapes
  · intro h
    cases h with
    | input hnul => exact run_of_nul hnul
    | rules hsource hpath hescapes =>
      exact run_of_ruleEscape hsource (RuleFile.engineFor_eq_escape_iff.2 ⟨_, hpath, hescapes⟩)
    | serial hr hn => exact run_of_longSerial hr hn
    | output hr hnumbered houtput hmisses => exact run_of_misses hr hnumbered houtput hmisses

end Invocation

/-- On every platform a run escapes just on what `Invocation.Escapes` lists. Else it ends with 1 if the command line is
at fault, with 2 if one of the files is, and with 0 in all other cases. -/
theorem run_exit (p : Platform) (words : List Text) (files : FileTree) :
    (∀ esc, run p words files = .error esc ↔
      ∃ inv, Invocation.ofTexts words = .ok inv ∧ inv.Escapes p files esc) ∧
    ∀ o after, run p words files = .ok (o, after) →
      (o.exit.code = 1 ↔ Invocation.ofTexts words = .error .usage) ∧
      (o.exit.code = 2 ↔ ∃ inv, Invocation.ofTexts words = .ok inv ∧ inv.Faulty p files) ∧
      (o.exit.code = 0 ∨ o.exit.code = 1 ∨ o.exit.code = 2) := by
  unfold run
  cases hinv : Invocation.ofTexts words with
  | error stop =>
    refine ⟨fun esc => by simp, fun o after h => ?_⟩
    cases h
    cases stop <;> simp [Stop.outcome, Exit.code]
  | ok inv =>
    constructor
    · intro esc
      simp [Invocation.run_eq_error_iff]
    · intro o after h
      have hcourse : inv.Course p files (.ok (o, after)) := h ▸ Invocation.course_of_run inv p files
      rcases hcourse.exit_iff with ⟨hexit, hfaulty⟩ | ⟨hexit, hfaulty⟩
      · simp [hexit, Exit.code, hfaulty]
      · simp [hexit, Exit.code, hfaulty]

/-- The output would be in a directory that is not there. -/
theorem run_exit_unwritable :
    ∃ files o, files = (⟨[(["in.mdl".toList], encode "let \x7b \x7d".toList)], [], []⟩ : FileTree) ∧
      run .plain ["in.mdl".toList, "v_".toList, "sub/out.mdl".toList] files = .ok (o, files) ∧ o.exit.code = 2 ∧
      ∃ inv, Invocation.ofTexts ["in.mdl".toList, "v_".toList, "sub/out.mdl".toList] = .ok inv ∧
        inv.Faulty .plain files := by
  obtain ⟨files, hfiles⟩ :
      ∃ files, files = (⟨[(["in.mdl".toList], encode "let \x7b \x7d".toList)], [], []⟩ : FileTree) := ⟨_, rfl⟩
  have heval : (run .plain ["in.mdl".toList, "v_".toList, "sub/out.mdl".toList] files).toOption.map
      (fun ended => (ended.1.exit, ended.2)) = some (.infrastructure, files) := by
    subst hfiles
    decide +kernel
  cases hrun : run .plain ["in.mdl".toList, "v_".toList, "sub/out.mdl".toList] files with
  | error esc =>
    rw [hrun] at heval
    cases heval
  | ok ended =>
    obtain ⟨o, after⟩ := ended
    rw [hrun] at heval
    obtain ⟨hexit, rfl⟩ : o.exit = .infrastructure ∧ after = files := Prod.mk.inj (Option.some.inj heval)
    have hcode : o.exit.code = 2 := congrArg Exit.code hexit
    exact ⟨after, o, hfiles, hrun, hcode, ((run_exit .plain _ after).2 o after hrun).2.1.1 hcode⟩

/-- The run of a rule file that is not UTF-8 has no exit code. -/
theorem run_undecodable_rules :
    run .plain ["in.mdl".toList, "v_".toList, "--rules".toList, "bad.rules".toList]
      ⟨[(["in.mdl".toList], encode "let \x7b \x7d".toList), (["bad.rules".toList], [0xFF])], [], []⟩ =
      .error (.rules (.undecodable ⟨0xFF, 0, 1, .invalidStart⟩)) := by
  have hinv : Invocation.ofTexts ["in.mdl".toList, "v_".toList, "--rules".toList, "bad.rules".toList] =
      .ok ⟨"in.mdl".toList, "v_".toList, none, .functionCalls, some "bad.rules".toList, .ternaryFirst, 0, 2, 0⟩ := by
    decide +kernel
  simp only [run, hinv]
  have hinput : Platform.plain.Holds
      ⟨[(["in.mdl".toList], encode "let \x7b \x7d".toList), (["bad.rules".toList], [0xFF])], [], []⟩
      "in.mdl".toList "let \x7b \x7d".toList :=
    ⟨encode "let \x7b \x7d".toList, by decide +kernel, by decide +kernel⟩
  have hread : Platform.plain.read
      ⟨[(["in.mdl".toList], encode "let \x7b \x7d".toList), (["bad.rules".toList], [0xFF])], [], []⟩
      "bad.rules".toList = .ok [0xFF] := by
    decide +kernel
  have hdecode : decode [0xFF] = .error ⟨0xFF, 0, 1, .invalidStart⟩ := by decide +kernel
  exact Invocation.run_eq_error_iff.2 (.rules hinput (by decide +kernel) (.undecodable hread hdecode))

end CommandLine

end CallHoist
