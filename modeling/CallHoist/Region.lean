import CallHoist.Pattern.Matching
import CallHoist.Pattern.Reader

/-!
# The region of a source

A source is searched from behind the first opener of a block on and, where earlier passes have left declarations, from
behind the last breadcrumb after that. All before is the head of the source, which no pass changes. Without an opener
the whole source counts as behind it.
-/

namespace CallHoist

/-- A source cut in two: `head ++ body` is the source. -/
structure Region where
  head : Text
  body : Text
  deriving DecidableEq, Repr

namespace Region

/-- The pattern of the opener of a block: `let`, any spacing, an opening brace. -/
def opener : Regex :=
  ⟨"let\\s*\\\x7b".toList, ⟨false, false⟩,
    .catAll [.single 'l', .single 'e', .single 't',
      .rep .greedy 0 none (.one (.oneOf false [.category .space false])), .single '{']⟩

/-- The comment text that ends each declaration of a pass. -/
def breadcrumb : Text :=
  "_RL_REDUCT_BREADCRUMB_".toList

def start (r : Region) : Nat :=
  r.head.length

/-- The offset behind the opener, and behind the last breadcrumb that follows it. -/
def startIn (opener : Regex) (breadcrumb s : Text) : Nat :=
  let opened := ((opener.search s).map (·.2)).getD 0
  match Text.lastIndexOf? breadcrumb (s.drop opened) with
  | some i => opened + i + breadcrumb.length
  | none => opened

def isolate (opener : Regex) (breadcrumb s : Text) : Region :=
  let n := startIn opener breadcrumb s
  ⟨s.take n, s.drop n⟩

theorem head_append_body (o : Regex) (b s : Text) : (isolate o b s).head ++ (isolate o b s).body = s := by
  simp [isolate]

theorem read_opener : (Regex.read opener.source).toOption = some opener := by
  decide

end Region

end CallHoist
