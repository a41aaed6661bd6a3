import CallHoist.Platform

/-!
# What writing a file does to a tree

A file that is written can be read at the same path, and at no other place is anything changed, created or removed
(`FileTree.node_write`, `FileTree.read_write`). What is on the way to a place is there before
(`FileTree.present_of_resolve`), so that a new file brings no directory with it.

On a platform a path is first put in shape and may be barred. What is written then is written in the tree
(`Platform.write_eq_ok_iff`), and whether anything can be written at a path does not depend on what it is
(`Platform.exists_write_iff`).
-/

namespace CallHoist

namespace FileTree

/-- A path names a place in a directory at which no directory is. -/
def Writable (t : FileTree) (path : Text) : Prop := ∃ place, t.resolve path = .ok place ∧ t.node place ≠ .directory

/-! ### The way to a place -/

/-- The place that a name leads to from another. -/
private def nextPlace (place : List Text) (c : Text) : List Text :=
  if c.isEmpty || c == ['.'] then place
  else if c == ['.', '.'] then place.dropLast
  else place ++ [c]

private theorem follow_cons_eq_ok_iff {t : FileTree} {place names q : List Text} {c : Text} :
    t.follow place (c :: names) = .ok q ↔ t.node place = .directory ∧ t.follow (nextPlace place c) names = .ok q := by
  rw [follow]
  cases t.node place with
  | missing => simp
  | file bytes => simp
  | directory =>
    unfold nextPlace
    simp only [true_and]
    split
    · rfl
    · split
      · rfl
      · rfl

/-- What is on the way to the place that a name leads to is on the way to the place before, or is that place. -/
private theorem prefix_of_nextPlace {place p : List Text} {c : Text} (hp : p <+: nextPlace place c)
    (hne : p ≠ nextPlace place c) : p <+: place := by
  unfold nextPlace at hp hne
  split at hp
  · exact hp
  · rename_i hempty
    rw [if_neg hempty] at hne
    split at hp
    · exact hp.trans (List.dropLast_prefix place)
    · rename_i hup
      rw [if_neg hup] at hne
      exact (List.prefix_concat_iff.1 hp).resolve_left hne

/-- The last directory that is gone through holds all that is on the way to the place. -/
private theorem directory_of_follow {t : FileTree} {place names q : List Text} {c : Text}
    (h : t.follow place (c :: names) = .ok q) :
    ∃ d, t.node d = .directory ∧ ∀ p, p <+: q → p ≠ q → p <+: d := by
  induction names generalizing place c with
  | nil =>
    obtain ⟨hnode, hrest⟩ := follow_cons_eq_ok_iff.1 h
    obtain rfl := Except.ok.inj hrest
    exact ⟨place, hnode, fun p => prefix_of_nextPlace⟩
  | cons c' names ih =>
    obtain ⟨-, hrest⟩ := follow_cons_eq_ok_iff.1 h
    exact ih hrest

/-- Something is at a place if it is the root, or if a directory or a file is at it or below it. -/
private theorem node_ne_missing_iff {t : FileTree} {p : List Text} :
    t.node p ≠ .missing ↔ p = [] ∨ (∃ d ∈ t.directories, p <+: d) ∨ ∃ f ∈ t.files, p <+: f.1 := by
  unfold node
  split
  · rename_i bytes hfile
    obtain ⟨l, r, hmem, -⟩ := List.lookup_eq_some_iff.1 hfile
    have hfile : (p, bytes) ∈ t.files := by rw [hmem]; simp
    exact ⟨fun _ => .inr (.inr ⟨_, hfile, List.prefix_rfl⟩), fun _ => by simp⟩
  · split
    · rename_i hthere
      simpa [or_assoc] using hthere
    · rename_i hthere
      simpa [or_assoc] using hthere

private theorem present_of_prefix {t : FileTree} {p q : List Text} (hp : p <+: q) (hq : t.node q ≠ .missing) :
    t.node p ≠ .missing := by
  rw [node_ne_missing_iff] at hq ⊢
  rcases hq with rfl | ⟨d, hd, hqd⟩ | ⟨f, hf, hqf⟩
  · exact .inl (List.prefix_nil.1 hp)
  · exact .inr (.inl ⟨d, hd, hp.trans hqd⟩)
  · exact .inr (.inr ⟨f, hf, hp.trans hqf⟩)

/-- What is at a place is told by the file there and by whether there is something. -/
private theorem node_congr {t t' : FileTree} {p : List Text} (hfile : t'.files.lookup p = t.files.lookup p)
    (hthere : t'.node p ≠ .missing ↔ t.node p ≠ .missing) : t'.node p = t.node p := by
  unfold node at hthere ⊢
  rw [hfile] at hthere ⊢
  cases h : t.files.lookup p with
  | some bytes => rfl
  | none =>
    rw [h] at hthere
    dsimp only at hthere ⊢
    split <;> split <;> simp_all

private theorem split_ne_nil (sep : Char) (s : Text) : Text.split sep s ≠ [] := by
  cases s with
  | nil => simp [Text.split]
  | cons c s =>
    unfold Text.split
    split
    · simp
    · split <;> simp

/-- What is on the way to a place that a path names is there. -/
theorem present_of_resolve {t : FileTree} {path : Text} {place : List Text} (h : t.resolve path = .ok place) :
    ∀ p, p <+: place → p ≠ place → t.node p ≠ .missing := by
  unfold resolve at h
  split at h
  · cases h
  · cases hnames : Text.split '/' path with
    | nil => exact absurd hnames (split_ne_nil '/' path)
    | cons c names =>
      rw [hnames] at h
      obtain ⟨d, hdir, hway⟩ := directory_of_follow h
      intro p hp hne
      apply present_of_prefix (hway p hp hne)
      rw [hdir]
      simp

/-! ### Writing -/

private theorem lookup_cons_ite (q p : List Text) (b : List UInt8) (files : List (List Text × List UInt8)) :
    List.lookup q ((p, b) :: files) = if q = p then some b else files.lookup q := by
  rw [List.lookup_cons]
  by_cases hq : q = p
  · rw [if_pos hq, beq_iff_eq.2 hq]
  · rw [if_neg hq, beq_eq_false_iff_ne.2 hq]

private theorem lookup_put (place q : List Text) (bytes : List UInt8) (files : List (List Text × List UInt8)) :
    (put place bytes files).lookup q = if q = place then some bytes else files.lookup q := by
  induction files with
  | nil => exact lookup_cons_ite q place bytes []
  | cons entry files ih =>
    obtain ⟨p, b⟩ := entry
    rw [put]
    by_cases hp : p = place
    · subst hp
      rw [if_pos rfl, lookup_cons_ite, lookup_cons_ite]
      by_cases hq : q = p <;> simp [hq]
    · rw [if_neg hp, lookup_cons_ite, lookup_cons_ite, ih]
      by_cases hq : q = p
      · subst hq
        simp [hp]
      · simp [hq]

private theorem exists_mem_put_iff {P : List Text → Prop} {place : List Text} {bytes : List UInt8}
    {files : List (List Text × List UInt8)} :
    (∃ f ∈ put place bytes files, P f.1) ↔ P place ∨ ∃ f ∈ files, P f.1 := by
  induction files with
  | nil => simp [put]
  | cons entry files ih =>
    obtain ⟨p, b⟩ := entry
    rw [put]
    split
    · rename_i hp
      subst hp
      simp
    · simp only [List.mem_cons, exists_eq_or_imp, ih]
      exact or_left_comm

/-- Writing puts the bytes in the place that the path names and leaves all other places as they are. -/
theorem node_write {t t' : FileTree} {path : Text} {bytes : List UInt8} (h : t.write path bytes = .ok t') :
    ∃ place, t.resolve path = .ok place ∧ t.node place ≠ .directory ∧ t'.node place = .file bytes ∧
      t'.workdir = t.workdir ∧ ∀ q, q ≠ place → t'.node q = t.node q := by
  unfold write at h
  split at h
  · cases h
  · rename_i place hplace
    split at h
    · cases h
    · rename_i hnode
      obtain rfl := Except.ok.inj h
      refine ⟨place, hplace, hnode, ?_, rfl, fun q hq => ?_⟩
      · rw [node, lookup_put, if_pos rfl]
      · apply node_congr
        · rw [lookup_put, if_neg hq]
        · -- a new file makes directories of the places on the way to it only, and something is there already
          have hway : q <+: place → t.node q ≠ .missing := fun h => present_of_resolve hplace q h hq
          rw [node_ne_missing_iff] at hway ⊢
          rw [node_ne_missing_iff, exists_mem_put_iff]
          constructor
          · rintro (hroot | hdirectory | hnew | hfile)
            · exact .inl hroot
            · exact .inr (.inl hdirectory)
            · exact hway hnew
            · exact .inr (.inr hfile)
          · rintro (hroot | hdirectory | hfile)
            · exact .inl hroot
            · exact .inr (.inl hdirectory)
            · exact .inr (.inr (.inr hfile))

/-- What is written is of no account for whether it can be. -/
theorem exists_write_iff {t : FileTree} {path : Text} {bytes : List UInt8} :
    (∃ t', t.write path bytes = .ok t') ↔ t.Writable path := by
  constructor
  · rintro ⟨t', h⟩
    obtain ⟨place, hplace, hnode, -⟩ := node_write h
    exact ⟨place, hplace, hnode⟩
  · rintro ⟨place, hplace, hnode⟩
    exact ⟨_, by rw [write, hplace]; exact if_neg hnode⟩

end FileTree

/-! ### Platforms -/

theorem Except.mapError_eq_ok_iff {ε ε' α : Type} {x : Except ε α} {f : ε → ε'} {a : α} :
    x.mapError f = .ok a ↔ x = .ok a := by
  cases x with
  | error e => exact ⟨nofun, nofun⟩
  | ok b =>
    show Except.ok b = Except.ok a ↔ _
    simp

theorem Except.mapError_eq_error_iff {ε ε' α : Type} {x : Except ε α} {f : ε → ε'} {e' : ε'} :
    x.mapError f = .error e' ↔ ∃ e, x = .error e ∧ f e = e' := by
  cases x with
  | error e =>
    show Except.error (f e) = Except.error e' ↔ _
    simp
  | ok a => exact ⟨nofun, nofun⟩

namespace Platform

variable {p : Platform} {files after : FileTree} {path : Text} {bytes : List UInt8} {fault : PathFault}

/-- The file at a path can be read and is the UTF-8 of a text. -/
def Holds (p : Platform) (files : FileTree) (path s : Text) : Prop :=
  ∃ bytes, p.read files path = .ok bytes ∧ Text.decode bytes = .ok s

/-- A path can be handed to the system, is not refused, and names a place at which a file can be. -/
def Writable (p : Platform) (files : FileTree) (output : Text) : Prop :=
  ∃ path, Files.expanded p.home output = .ok path ∧ p.bars? .writing path = none ∧ files.Writable path

/-- A path for an output cannot be handed to the system: its home directory is not known, or it holds a NUL. -/
def Misses (p : Platform) (output : Text) (fault : PathFault) : Prop :=
  Files.expanded p.home output = .error fault ∨
    ∃ path, Files.expanded p.home output = .ok path ∧ '\x00' ∈ path ∧ fault = .nul

theorem bars?_eq_badPath_iff (access : Access) :
    p.bars? access path = some (.badPath fault) ↔ '\x00' ∈ path ∧ fault = .nul := by
  unfold bars?
  split
  · rename_i hnul
    simp only [List.contains_eq_mem, decide_eq_true_eq] at hnul
    simp [hnul, eq_comm]
  · rename_i hnul
    simp only [List.contains_eq_mem, decide_eq_true_eq] at hnul
    simp [hnul]

theorem read_eq_badPath_iff : p.read files path = .error (.badPath fault) ↔ '\x00' ∈ path ∧ fault = .nul := by
  rw [← bars?_eq_badPath_iff (p := p) .reading]
  unfold read
  cases p.bars? .reading path with
  | some e => simp
  | none => simp [Except.mapError_eq_error_iff]

theorem write_eq_ok_iff {output : Text} : p.write files output bytes = .ok after ↔
    ∃ path, Files.expanded p.home output = .ok path ∧ p.bars? .writing path = none ∧
      files.write path bytes = .ok after := by
  unfold write
  cases Files.expanded p.home output with
  | error fault => simp
  | ok path =>
    cases hbars : p.bars? .writing path with
    | some e => simp [hbars]
    | none => simp [hbars, Except.mapError_eq_ok_iff]

theorem write_eq_badPath_iff {output : Text} :
    p.write files output bytes = .error (.badPath fault) ↔ p.Misses output fault := by
  unfold write Misses
  cases Files.expanded p.home output with
  | error fault' => simp
  | ok path =>
    simp only [reduceCtorEq, false_or, Except.ok.injEq, exists_eq_left']
    rw [← bars?_eq_badPath_iff (p := p) .writing]
    cases p.bars? .writing path with
    | some e => simp
    | none => simp [Except.mapError_eq_error_iff]

/-- What is written is of no account for whether it can be. -/
theorem exists_write_iff {output : Text} :
    (∃ after, p.write files output bytes = .ok after) ↔ p.Writable files output := by
  constructor
  · rintro ⟨after, h⟩
    obtain ⟨path, hpath, hbars, hwrite⟩ := write_eq_ok_iff.1 h
    exact ⟨path, hpath, hbars, FileTree.exists_write_iff.1 ⟨after, hwrite⟩⟩
  · rintro ⟨path, hpath, hbars, hwritable⟩
    obtain ⟨after, hwrite⟩ := FileTree.exists_write_iff.2 hwritable
    exact ⟨after, write_eq_ok_iff.2 ⟨path, hpath, hbars, hwrite⟩⟩

end Platform

end CallHoist
