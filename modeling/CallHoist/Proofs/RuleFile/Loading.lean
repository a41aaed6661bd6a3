import CallHoist.Proofs.Files
import CallHoist.RuleFile.Load

/-!
# What comes of loading a rule file

Loading yields an engine just if the file can be read without a fault (`RuleFile.exists_engineFor_iff`). It breaks off
without a report at four things, which `RuleFile.Escapes` tells of the file (`RuleFile.engineFor_eq_escape_iff`); all
else that is wrong with the file is reported.
-/

namespace CallHoist

open Text

/-- The rule file of a configuration, if it names one, can be read without a fault. -/
def Config.RulesReadable (c : Config) (p : Platform) (files : FileTree) : Prop :=
  ∀ path, c.rulesPath = some path → ∃ s t, p.Holds files path s ∧ RuleFile.read p.compile (lineFeeds s) = .ok t

namespace RuleFile

/-- What the loading of the file at a path breaks off at: a NUL in the path, bytes that are not UTF-8, a pattern that
the compiler breaks off at, or a fault that is to be reported with an expression for which there is no text. -/
inductive Escapes (p : Platform) (files : FileTree) (path : Text) : RuleEscape → Prop where
  | badPath : '\x00' ∈ path → Escapes p files path (.badPath .nul)
  | undecodable {bytes : List UInt8} {err : DecodeError} : p.read files path = .ok bytes → decode bytes = .error err →
      Escapes p files path (.undecodable err)
  | compiler {s pattern : Text} : p.Holds files path s → read p.compile (lineFeeds s) = .error (.crash pattern) →
      Escapes p files path (.compiler pattern)
  | undescribed {s : Text} {e : RuleFileError} {shown : SExpr} : p.Holds files path s →
      read p.compile (lineFeeds s) = .error (.invalid e) → e.shown? = some shown → p.describes shown = false →
      Escapes p files path (.undescribed shown)

variable {p : Platform} {files : FileTree} {c : Config} {path : Text}

theorem ofBytes_eq_ok_iff {bytes : Except OpenError (List UInt8)} {t : RuleTables} :
    ofBytes p path bytes = .ok t ↔
      ∃ bs s, bytes = .ok bs ∧ decode bs = .ok s ∧ read p.compile (lineFeeds s) = .ok t := by
  cases bytes with
  | error e => cases e <;> simp [ofBytes]
  | ok bs =>
    cases hdecode : decode bs with
    | error err => simp [ofBytes, hdecode]
    | ok s => simp [ofBytes, hdecode, Except.mapError_eq_ok_iff]

/-- A file that is decoded is loaded as its text is read. -/
private theorem ofBytes_of_holds {s : Text} (h : p.Holds files path s) :
    ofBytes p path (p.read files path) = (read p.compile (lineFeeds s)).mapError (.ofFault p path) := by
  obtain ⟨bytes, hread, hdecode⟩ := h
  simp only [ofBytes, hread, hdecode]

private theorem escapes_of_fault {s : Text} (h : p.Holds files path s) {f : RuleFault} {e : RuleEscape}
    (hread : read p.compile (lineFeeds s) = .error f) (hf : RuleLoadError.ofFault p path f = .escape e) :
    Escapes p files path e := by
  cases f with
  | crash pattern =>
    cases hf
    exact .compiler h hread
  | invalid err =>
    cases hshown : err.shown? with
    | none => simp [RuleLoadError.ofFault, hshown] at hf
    | some shown =>
      cases hdescribes : p.describes shown with
      | true => simp [RuleLoadError.ofFault, hshown, hdescribes] at hf
      | false =>
        have he : .undescribed shown = e := by simpa [RuleLoadError.ofFault, hshown, hdescribes] using hf
        rw [← he]
        exact .undescribed h hread hshown hdescribes

theorem ofBytes_eq_escape_iff {e : RuleEscape} :
    ofBytes p path (p.read files path) = .error (.escape e) ↔ Escapes p files path e := by
  constructor
  · intro h
    cases hread : p.read files path with
    | error err =>
      rw [hread] at h
      cases err with
      | refused err => cases h
      | badPath fault =>
        cases h
        obtain ⟨hnul, rfl⟩ := Platform.read_eq_badPath_iff.1 hread
        exact .badPath hnul
    | ok bytes =>
      cases hdecode : decode bytes with
      | error err =>
        simp only [ofBytes, hread, hdecode, Except.error.injEq, RuleLoadError.escape.injEq] at h
        rw [← h]
        exact .undecodable hread hdecode
      | ok s =>
        have hholds : p.Holds files path s := ⟨bytes, hread, hdecode⟩
        rw [ofBytes_of_holds hholds, Except.mapError_eq_error_iff] at h
        obtain ⟨f, hfault, hf⟩ := h
        exact escapes_of_fault hholds hfault hf
  · intro h
    cases h with
    | badPath hnul =>
      rw [Platform.read_eq_badPath_iff.2 ⟨hnul, rfl⟩]
      rfl
    | undecodable hread hdecode => simp only [ofBytes, hread, hdecode]
    | compiler hholds hread =>
      rw [ofBytes_of_holds hholds, hread]
      rfl
    | undescribed hholds hread hshown hdescribes =>
      rw [ofBytes_of_holds hholds, hread, Except.mapError_eq_error_iff]
      exact ⟨_, rfl, by simp [RuleLoadError.ofFault, hshown, hdescribes]⟩

/-- The engine of a configuration that names a rule file is that of the rules that are loaded from it. -/
theorem engineFor_eq_load {file : Text} (h : c.rulesFile = some file) (hne : file ≠ []) :
    engineFor p files c = (load p files file).map (·.engine) := by
  have hpath : c.rulesPath = some (Files.normalPath file) := by
    unfold Config.rulesPath
    rw [h]
    cases file with
    | nil => exact absurd rfl hne
    | cons x file => rfl
  simp only [engineFor, engineOfBytes, load, hpath, Option.getD_some]

theorem exists_engineFor_iff : (∃ engine, engineFor p files c = .ok engine) ↔ c.RulesReadable p files := by
  unfold engineFor engineOfBytes Config.RulesReadable
  cases c.rulesPath with
  | none => simp
  | some path =>
    simp only [Option.getD_some, Option.some.injEq, forall_eq']
    constructor
    · rintro ⟨engine, h⟩
      cases hbytes : ofBytes p path (p.read files path) with
      | error e =>
        rw [hbytes] at h
        cases h
      | ok t =>
        obtain ⟨bs, s, hread, hdecode, ht⟩ := ofBytes_eq_ok_iff.1 hbytes
        exact ⟨s, t, ⟨bs, hread, hdecode⟩, ht⟩
    · rintro ⟨s, t, ⟨bs, hread, hdecode⟩, ht⟩
      exact ⟨t.engine, by rw [ofBytes_eq_ok_iff.2 ⟨bs, s, hread, hdecode, ht⟩]; rfl⟩

theorem engineFor_eq_escape_iff {e : RuleEscape} :
    engineFor p files c = .error (.escape e) ↔ ∃ path, c.rulesPath = some path ∧ Escapes p files path e := by
  unfold engineFor engineOfBytes
  cases c.rulesPath with
  | none => simp
  | some path =>
    simp only [Option.getD_some, Option.some.injEq, exists_eq_left']
    rw [← ofBytes_eq_escape_iff]
    cases ofBytes p path (p.read files path) <;> simp [Except.map]

end RuleFile

end CallHoist
