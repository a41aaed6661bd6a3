import CallHoist.Proofs.Grammar.Cutting
import CallHoist.Proofs.Grammar.Whole

/-!
# Matches by themselves

What a rule takes in front of a text it takes as well where the text ends there (`Rule.takes_alone`). So each match of
a scan, cut out of the text that was scanned, is a whole text of the rule (`extent_of_mem_scan`).

A rule that ends in a repetition or tries alternatives may have stopped where it did because of what follows. For the
rules above the atoms it is enough that the end of the text stops them there too, since the atoms inside are taken
whether or not something follows (`carries_alone`). Of the atoms only a name looks behind itself, for a scope operator
that would make a scope of its last word, and at the end there is none.
-/

namespace CallHoist.Grammar

open Text Peg Form

/-! ### Atoms -/

theorem takes_name_alone {t y : Text} (h : qualifiedName.Takes t y) : qualifiedName.Takes t [] := by
  obtain ⟨ts, ti, td, rfl, -, -, hs, hi, hd⟩ := opens_takes.name h
  have hfields : Fields [] td := hd.imp fun _ _ _ hu => hu.imp fun _ => id
  have hcol : behindColons? (td ++ []) = none := by
    by_cases htd : td = []
    · rw [htd]
      rfl
    · exact hfields.behindColons? htd []
  exact takes_name hs hi hfields rfl rfl hcol

theorem takes_atom_alone {t y : Text} (h : atom.Takes t y) : atom.Takes t [] := by
  rcases opens_takes.alt h with h | h
  · have hname : qualifiedName.run (t ++ []) = some [] := takes_name_alone h
    rw [Takes, atom, run_alt, hname]
    rfl
  · exact takes_atom_of_constant h.derives (.inl rfl)

/-- The atoms of a text are taken whether or not something follows the text. -/
theorem carries_alone (y : Text) : Carries Takes Takes y [] := by
  intro a v hv ha
  rcases hv with rfl | hv
  · exact takes_atom_alone ha
  · exact takes_atom_congr ha hv []

/-! ### Rules -/

section

variable {t y : Text}

private theorem scope_alone (h : scope.Takes t y) : scope.Takes t [] := by
  obtain @⟨o, w, b, b', ho, hw, hb, hb'⟩ := opens_takes.isScope h
  have hlead : leads isWordChar (b ++ ':' :: ':' :: b') = false :=
    leads_eq_false_of_all hb (fun _ => isWordChar_of_isWhiteSpace) rfl
  have hblank : behindBlanks b' = [] := by
    have hb'' := behindBlanks_append hb' []
    rwa [List.append_nil] at hb''
  rw [Takes, List.append_nil, run_scope ho hw hlead, behindColons?, behindBlanks_cons hb rfl]
  simp [dropFront?, hblank]

private theorem operand_alone (h : operand.Takes t y) : operand.Takes t [] := by
  obtain ⟨hs, ha⟩ := opens_takes.operand h
  exact Operand.takes (.mk hs (takes_atom_alone ha))

private theorem sExpression_alone (h : sExpression.Takes t y) : sExpression.Takes t [] := by
  have hform := (opens_takes.sExpression h).carry (carries_alone y)
  exact hform.takes rfl

/-- A sum in parentheses does not depend on what follows it. -/
private theorem group_alone {b' : Text} (hb' : b'.all isWhiteSpace = true) (h : Plain Takes 2 t (b' ++ ')' :: y)) :
    Plain Takes 2 t (b' ++ [')']) := by
  have hseal : Seals (b' ++ [')']) := .mk hb' rfl fun h => absurd h (by decide)
  have hin := Carries.seal hseal (carries_alone y)
  simp only [List.append_assoc, List.singleton_append] at hin
  exact h.carry hin

private theorem pExpression_alone (h : pExpression.Takes t y) : pExpression.Takes t [] := by
  obtain ⟨s, b, u, b', rfl, hs, hb, hu, hb'⟩ := opens_takes.pExpression h
  exact takes_pExpression hb (group_alone hb' hu) hb' hs

private theorem term_alone (h : term.Takes t y) : term.Takes t [] := by
  rcases opens_takes.alt h with h | h
  · have hsum : sExpression.run (t ++ []) = some [] := sExpression_alone h
    rw [Takes, term, run_alt, hsum]
    rfl
  · obtain ⟨s, b, u, b', rfl, hs, hb, hu, hb'⟩ := opens_takes.pExpression h
    exact takes_term_of_group hb (group_alone hb' hu) hb' hs

private theorem signedTerm_alone (h : signedTerm.Takes t y) : signedTerm.Takes t [] := by
  have hform := (opens_takes.signedTerm h).carry (carries_alone y)
  exact hform.takes rfl

private theorem chain_alone (h : chain.Takes t y) : chain.Takes t [] :=
  takes_chain (chain_carry (carries_alone y) (opens_takes.chain h)) rfl

private theorem ternary_alone (h : ternary.Takes t y) : ternary.Takes t [] :=
  takes_ternary ((opens_takes.ternary h).carry opens_takes (carries_alone y)) rfl

private theorem expression_alone {o : Order} (h : (expression o).Takes t y) : (expression o).Takes t [] :=
  takes_expression ((Expression.of_takes h).carry opens_takes (carries_alone y)) rfl

private theorem arguments_alone {o : Order} (h : (arguments o).Takes t y) : (arguments o).Takes t [] := by
  have hform := opens_takes.arguments Expression.of_takes h
  exact takes_arguments (arguments_carry opens_takes (carries_alone y) hform) rfl rfl

private theorem one_alone {p : Char → Bool} (h : (Peg.one p).Takes t y) : (Peg.one p).Takes t [] := by
  obtain ⟨c, hc, rfl⟩ := opens_takes.one h
  simp [Takes, run, hc]

private theorem blanks_alone (h : blanks.Takes t y) : blanks.Takes t [] := by
  rw [Takes, run_blanks, behindBlanks_append (opens_takes.blanks h)]
  rfl

end

/-- What a rule takes does not depend on something following it. -/
theorem Rule.takes_alone (o : Order) (r : Rule) {t y : Text} (h : (r.peg o).Takes t y) : (r.peg o).Takes t [] := by
  cases r with
  | functionCall => exact takes_call_congr h []
  | condExpression => exact ternary_alone h
  | arguments => exact arguments_alone h
  | expression => exact expression_alone h
  | chain => exact chain_alone h
  | ternary => exact ternary_alone h
  | signedTerm => exact signedTerm_alone h
  | term => exact term_alone h
  | pExpression => exact pExpression_alone h
  | sExpression => exact sExpression_alone h
  | operand => exact operand_alone h
  | qualifiedName => exact takes_name_alone h
  | scope => exact scope_alone h
  | identifier => exact takes_identifier (opens_takes.isIdentifier h) rfl
  | word => exact takes_word (opens_takes.isWord h) rfl
  | constant => exact takes_constant_of_derives h.derives (.inl rfl)
  | string => exact takes_string (opens_takes.isString h) []
  | number => exact takes_number (opens_takes.isNumber h) rfl rfl rfl
  | sign => exact one_alone h
  | operator => exact one_alone h
  | blanks => exact blanks_alone h

/-! ### Scans -/

/-- Each match of a scan is a whole text of the rule that was searched for. -/
theorem extent_of_mem_scan {o : Order} {r : Rule} {s : Text} {m : Match} (hm : m ∈ scan (r.peg o) s) :
    extent (r.peg o) m.text = .whole m.text.length := by
  obtain ⟨k, rfl, hfit, hscan⟩ := exists_cutting (r.peg o) s
  rw [hscan] at hm
  obtain ⟨y, htake⟩ := hfit.exists_takes_of_mem hm
  have halone := r.takes_alone o htake
  rw [Takes, List.append_nil] at halone
  exact extent_eq_whole_iff.2 halone

/-- Arguments that end where a ternary was tried in vain. -/
theorem extent_of_mem_scan_arguments :
    let m : Match := ⟨0, 4, "f, a".toList⟩
    m ∈ scan (Rule.arguments.peg .ternaryFirst) "f, a ? b::c : (d".toList ∧
      extent (Rule.arguments.peg .ternaryFirst) m.text = .whole m.text.length := by
  intro m
  have hm : m ∈ scan (Rule.arguments.peg .ternaryFirst) "f, a ? b::c : (d".toList := by decide +kernel
  exact ⟨hm, extent_of_mem_scan hm⟩

end CallHoist.Grammar
