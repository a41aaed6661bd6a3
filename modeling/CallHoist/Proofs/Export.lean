import CallHoist.Inference.Defaults
import CallHoist.Proofs.Grammar.Pieces
import CallHoist.Proofs.Reduction

/-!
# What a pass over calls writes

A pass over calls writes the head of the source, the declarations, and then the body piece by piece: a match of a bound
call as the name it is bound to, all other pieces as they are (`Reduction.output_eq_written`).

The pieces are told by the cutting of the body (`Cutting.pieces_eq`), and so are the edits. That as many pieces are
replaced for a binding as it counts rests on the table: no call is bound twice, and the count of a binding is the number
of the matches of its call (`Binding.Tally`).
-/

namespace CallHoist

open Text Grammar

/-! ### Bindings and their matches -/

namespace Binding

/-- The bindings are of distinct calls among the texts, and each counts the occurrences of its call. -/
structure Tally (texts : List Text) (bs : List Binding) : Prop where
  distinct : (bs.map (·.call)).Nodup
  count : ∀ b ∈ bs, b.call ∈ texts ∧ b.count = texts.count b.call

/-- The binding that a piece is replaced for. -/
def boundTo? (bs : List Binding) (p : Piece) : Option Binding :=
  if p.isMatch then bs.find? (·.call == p.text) else none

/-- A piece as it is written: the name of its binding, or the piece itself. -/
def written (bs : List Binding) (p : Piece) : Text := ((boundTo? bs p).map (·.name)).getD p.text

private theorem find?_call_eq_some_iff {bs : List Binding} (h : (bs.map (·.call)).Nodup) {t : Text} {b : Binding} :
    bs.find? (·.call == t) = some b ↔ b ∈ bs ∧ b.call = t := by
  induction bs with
  | nil => simp
  | cons d bs ih =>
    rw [List.map_cons, List.nodup_cons] at h
    rw [List.find?_cons]
    by_cases hd : d.call = t
    · simp only [hd, beq_self_eq_true, Option.some.injEq, List.mem_cons]
      constructor
      · rintro rfl
        exact ⟨.inl rfl, hd⟩
      · rintro ⟨rfl | hb, hcall⟩
        · rfl
        · exact absurd (List.mem_map.2 ⟨b, hb, hcall.trans hd.symm⟩) h.1
    · have hne : (d.call == t) = false := beq_eq_false_iff_ne.2 hd
      rw [hne, ih h.2, List.mem_cons]
      constructor
      · exact fun ⟨hb, hcall⟩ => ⟨.inr hb, hcall⟩
      · rintro ⟨rfl | hb, hcall⟩
        · exact absurd hcall hd
        · exact ⟨hb, hcall⟩

/-- Where no call is bound twice, it does not matter from which end the binding is looked for. -/
theorem nameOf?_eq_find? {bs : List Binding} (h : (bs.map (·.call)).Nodup) (t : Text) :
    nameOf? bs t = (bs.find? (·.call == t)).map (·.name) := by
  have hrev : (bs.reverse.map (·.call)).Nodup := ((List.reverse_perm bs).map _).nodup_iff.2 h
  have hfind : bs.reverse.find? (·.call == t) = bs.find? (·.call == t) := by
    apply Option.ext
    intro b
    rw [find?_call_eq_some_iff hrev, find?_call_eq_some_iff h, List.mem_reverse]
  rw [nameOf?, hfind]

namespace Tally

variable {texts : List Text} {bs : List Binding} (h : Tally texts bs)
include h

theorem boundTo?_eq_some_iff {b : Binding} (hb : b ∈ bs) (p : Piece) :
    boundTo? bs p = some b ↔ p.isMatch = true ∧ p.text = b.call := by
  unfold boundTo?
  split
  · rename_i hp
    rw [find?_call_eq_some_iff h.distinct]
    constructor
    · exact fun hcall => ⟨hp, hcall.2.symm⟩
    · exact fun hcall => ⟨hb, hcall.2.symm⟩
  · rename_i hp
    simp [hp]

theorem rename_eq_written (t : Text) : rename bs t = written bs ⟨true, t⟩ := by
  rw [rename, nameOf?_eq_find? h.distinct]
  rfl

theorem fill_eq_written (k : Cutting) : k.fill (rename bs) = k.pieces.flatMap (written bs) := by
  have hgap : ∀ g, written bs ⟨false, g⟩ = g := fun _ => rfl
  rw [Cutting.flatMap_pieces hgap, funext h.rename_eq_written]

end Tally

/-- As many pieces are replaced for a binding as it counts. -/
theorem Tally.count_eq_countP {k : Cutting} {pos : Nat} {bs : List Binding}
    (h : Tally ((k.matchesFrom pos).map (·.text)) bs) {b : Binding} (hb : b ∈ bs) :
    b.count = k.pieces.countP fun p => boundTo? bs p = some b := by
  have hgap : ∀ g, decide (boundTo? bs ⟨false, g⟩ = some b) = false := fun _ => by simp [boundTo?]
  have hmatch : (fun t => decide (boundTo? bs ⟨true, t⟩ = some b)) = fun t => t == b.call := by
    funext t
    rw [Bool.eq_iff_iff]
    simp [h.boundTo?_eq_some_iff hb]
  rw [Cutting.countP_pieces hgap k pos, hmatch]
  exact (h.count b hb).2

theorem block_eq (crumb : Text) (bs : List Binding) :
    block crumb bs = bs.reverse.flatMap fun b => b.typeName ++ [' '] ++ b.name ++ " = ".toList ++ b.call ++
      ";  // ".toList ++ crumb ++ ['\n'] := by
  unfold block
  congr 1
  funext b
  simp [declarationLine, declaration]

end Binding

namespace Reduction

section

variable {c : Config} (hmode : c.mode = .functionCalls)
include hmode

private theorem tally_sort (e : Engine) (stem : Text) (found : List Text) :
    Binding.Tally found (sort c e stem (.ofTexts found)).bindings := by
  obtain ⟨texts, hmem, haccounts⟩ := exists_accounts hmode e stem found
  constructor
  · refine haccounts.calls_ascending.imp ?_
    intro s t hlt he
    exact List.lt_irrefl t (he ▸ hlt)
  · intro b hb
    have hcall : b.call ∈ texts := haccounts.mem_iff.2 (.inl (List.mem_map_of_mem hb))
    exact ⟨((hmem _).1 hcall).1, (haccounts.bound b hb).2⟩

/-- The bindings of a pass over calls are of distinct matches, and they count these. -/
theorem tally_of_reduce {e : Engine} {source stem : Text} {exporting : Bool} {r : Reduction}
    (h : reduce c e source stem exporting = .ok r) : Binding.Tally (r.found.map (·.text)) r.bindings := by
  have hsorting := (of_reduce h).2
  rw [bindings, hsorting]
  exact tally_sort hmode e stem _

end

/-- A pass over calls that exports never fails. It writes the head of the source, a line feed, a line for each binding
with the last binding first, and the pieces of the body, those of bound calls as the names. As many pieces are replaced
for a binding as it counts. -/
theorem output_eq_written (c : Config) (hmode : c.mode = .functionCalls) (o : Regex)
    (ho : Regex.read c.startMarker = .ok o) (e : Engine) (source stem : Text) :
    ∃ r, reduce c e source stem true = .ok r ∧
      r.region = Region.isolate o c.breadcrumb source ∧ r.found = scan (functionCall c.order) r.region.body ∧
      r.output = some (r.region.head ++ ['\n'] ++
        (r.bindings.reverse.flatMap fun b => b.typeName ++ [' '] ++ b.name ++ " = ".toList ++ b.call ++
          ";  // ".toList ++ c.breadcrumb ++ ['\n']) ++
        (pieces r.region.body r.found).flatMap (Binding.written r.bindings)) ∧
      (r.bindings.map (·.call)).Nodup ∧
      ∀ b ∈ r.bindings, b.count =
        (pieces r.region.body r.found).countP fun p => Binding.boundTo? r.bindings p = some b := by
  obtain ⟨k, hk, hfits, hpass⟩ := exists_reduce hmode ho e source
  obtain ⟨r, hr, hregion, hfound, -, hout⟩ := hpass stem true
  have htally := tally_of_reduce hmode hr
  have hpieces : pieces r.region.body r.found = k.pieces := by
    rw [hfound, hregion, ← hk]
    exact k.pieces_eq
  refine ⟨r, hr, hregion, ?_, ?_, htally.distinct, ?_⟩
  · rw [(of_reduce hr).1, collect_functionCalls hmode]
  · rw [hout rfl, hpieces, Binding.block_eq, htally.fill_eq_written]
    simp only [List.append_assoc, List.cons_append, List.nil_append]
  · intro b hb
    rw [hfound] at htally
    rw [hpieces]
    exact htally.count_eq_countP hb

/-- A source with a call of a known type twice, a call of no known type twice, and a call just once. Only the first is
replaced. -/
theorem output_eq_written_unbound :
    ∃ r, reduce { Config.standard with breadcrumb := "#".toList, firstSerial := -1 } Engine.defaults
          "let \x7b a = float2(1) + f(2) + float2(1) + f(2) + float2(3); \x7d".toList "x".toList true = .ok r ∧
      r.output = some
        "let \x7b\nfloat2 x-1 = float2(1);  // #\n a = x-1 + f(2) + x-1 + f(2) + float2(3); \x7d".toList ∧
      ∀ b ∈ r.bindings, b.count =
        (pieces r.region.body r.found).countP fun p => Binding.boundTo? r.bindings p = some b := by
  obtain ⟨r, hr, -, -, -, -, hcount⟩ :=
    output_eq_written { Config.standard with breadcrumb := "#".toList, firstSerial := -1 } rfl Region.opener
      (by rfl) Engine.defaults "let \x7b a = float2(1) + f(2) + float2(1) + f(2) + float2(3); \x7d".toList "x".toList
  have heval : (reduce { Config.standard with breadcrumb := "#".toList, firstSerial := -1 } Engine.defaults
      "let \x7b a = float2(1) + f(2) + float2(1) + f(2) + float2(3); \x7d".toList "x".toList true).toOption.bind
        (·.output) =
      some "let \x7b\nfloat2 x-1 = float2(1);  // #\n a = x-1 + f(2) + x-1 + f(2) + float2(3); \x7d".toList := by
    decide +kernel
  rw [hr] at heval
  exact ⟨r, hr, heval, hcount⟩

end Reduction

end CallHoist
