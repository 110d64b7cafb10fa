import TemplateTree.Proofs.Scans.Unclosed
import TemplateTree.Proofs.Written.Passing
import TemplateTree.Proofs.Written.Quotes
import TemplateTree.Proofs.Written.Strings

/-!
# Quoted values of attributes

A scan for expressions knows nothing of interpolations: it ends the string of a quoted value at the
first quote in an insert. When it comes to the end of the value outside of every string and group,
the value is read as a string whatever follows it. Else what follows can close what is open, the
expression is longer than the string, and the value is an insert.
-/

set_option autoImplicit false

namespace TemplateTree

namespace Scan
variable {delimiters s rest : List Char} {d : Char}

/-- Optional spaces and then a delimiter, a closing bracket or the end of the line. -/
def Ends (delimiters text : List Char) : Prop :=
  ∃ spaces rest, text = List.replicate spaces ' ' ++ rest ∧
    ∀ c ∈ rest.head?, isCloser c ∨ c ∈ delimiters

theorem stops_of_ends {c : Char} (hdelimiters : ∀ d ∈ delimiters, IsPlain d)
    (h : isCloser c ∨ c ∈ delimiters) : Stops delimiters c := by
  rcases h with hcloser | hmem
  · refine ⟨?_, ?_, Or.inl hcloser⟩ <;> rcases eq_of_isCloser hcloser with rfl | rfl | rfl <;> rfl
  · exact ⟨(hdelimiters c hmem).quote, (hdelimiters c hmem).opener, Or.inr hmem⟩

/-- An expression that starts with a text that leaves nothing open does not reach beyond it when the
text ends there. -/
theorem le_length_of_ends {m : Nat} (hdelimiters : ∀ d ∈ delimiters, IsPlain d)
    (hclosed : ¬ LeavesOpen delimiters s) (hlast : s.getLast? ≠ some '\\')
    (hends : Ends delimiters rest) (h : expression delimiters (s ++ rest) = some m) :
    m ≤ s.length := by
  obtain ⟨spaces, after, rfl, hafter⟩ := hends
  have hstart : Reach.start.After delimiters [] := .start
  have hend : expressionEnd delimiters .start (s ++ (List.replicate spaces ' ' ++ after)) ≤
      ([] ++ s).length :=
    hstart.expressionEnd_le hclosed hlast spaces fun c hc => stops_of_ends hdelimiters (hafter c hc)
  rw [expression_eq] at h
  split at h
  · cases h
  · rwa [← Option.some.inj h]

/-- A text that starts with a string starts with an expression. -/
theorem exists_expression (delimiters : List Char) (h : IsString s) (rest : List Char) :
    ∃ m, expression delimiters (s ++ rest) = some m ∧ 0 < m ∧ m ≤ (s ++ rest).length := by
  cases hscan : expression delimiters (s ++ rest) with
  | none =>
    refine absurd ?_ (expression_eq_none_iff.mp hscan s.length (by simp))
    rw [List.take_left]
    exact h.isExpression
  | some m =>
    exact ⟨m, rfl, (expression_pos hscan).1, le_length_of_expression hscan⟩

end Scan

namespace Production
variable {r r' : Reading} {n : Node} {delimiters : List Char} {pieces : List Piece}

/-- What ends the name of an attribute, a value between commas, and a value between spaces. -/
def attributeDelimiters : List (List Char) := [['=', ','], [','], [' ']]

theorem isPlain_of_attributeDelimiters (h : delimiters ∈ attributeDelimiters) :
    ∀ d ∈ delimiters, Scan.IsPlain d := by
  have hequals : Scan.IsPlain '=' := ⟨rfl, rfl, rfl, by decide⟩
  have hcomma : Scan.IsPlain ',' := ⟨rfl, rfl, rfl, by decide⟩
  have hspace : Scan.IsPlain ' ' := ⟨rfl, rfl, rfl, by decide⟩
  simp only [attributeDelimiters, List.mem_cons, List.not_mem_nil, or_false] at h
  rcases h with rfl | rfl | rfl
  · simp [hequals, hcomma]
  · simp [hcomma]
  · simp [hspace]

theorem exists_mem_of_attributeDelimiters (h : delimiters ∈ attributeDelimiters) :
    ∃ d, d ∈ delimiters := by
  cases delimiters with
  | nil => exact absurd h (by decide)
  | cons d delimiters => exact ⟨d, List.mem_cons_self⟩

/-- A string in double quotes is the value when no expression that starts with it is longer. -/
theorem run_attributeExpression_quoted (delimiters : List Char) (h : r.cursor.Inside)
    {after : List Char}
    (hrest : r.cursor.rest = Piece.writeQuoted pieces ++ after)
    (hrun : (interpolatedString .quoted).run r =
      (.ok n, r.skip (Piece.writeQuoted pieces).length)) :
    ∃ m, Scan.expression delimiters r.cursor.rest = some m ∧ (attributeExpression delimiters).run r =
      if m ≤ (Piece.writeQuoted pieces).length
        then (.ok n, r.skip (Piece.writeQuoted pieces).length)
        else (.ok (.ofExpression (r.cursor.rest.take m) r.cursor.position), r.skip m) := by
  obtain ⟨s, rest, hs, heq⟩ := Piece.exists_string pieces
  obtain ⟨m, hscan, hpos, hle⟩ := Scan.exists_expression delimiters hs (rest ++ after)
  rw [← List.append_assoc, ← heq, ← hrest] at hscan hle
  have hliteral : literal? (r.cursor.rest.take m) = some (interpolatedString .quoted) := by
    obtain ⟨k, rfl⟩ := Nat.exists_eq_succ_of_ne_zero (Nat.ne_of_gt hpos)
    rw [hrest]
    rfl
  refine ⟨m, hscan, run_attributeExpression_literal h hscan hliteral hrun hle ?_⟩
  rw [hrest, List.length_append]
  exact Nat.le_add_right _ _

/-- There is a line on which the pieces are a string and end, and on which they only start the
expression that is read as the value. -/
def Outgrown (delimiters : List Char) (pieces : List Piece) : Prop :=
  ∃ r after n m, r.cursor.Inside ∧ r.cursor.rest = Piece.writeQuoted pieces ++ after ∧
    Scan.Ends delimiters after ∧ (interpolatedString .quoted).run r =
      (.ok n, r.skip (Piece.writeQuoted pieces).length) ∧ n.pieces? = some pieces ∧
    (Piece.writeQuoted pieces).length < m ∧ (attributeExpression delimiters).run r =
      (.ok (.ofExpression (r.cursor.rest.take m) r.cursor.position), r.skip m)

theorem outgrown_of_leavesOpen (h : r.cursor.Inside)
    (hdelimiters : delimiters ∈ attributeDelimiters) (hne : pieces ≠ [])
    (hapart : Piece.Apart pieces)
    (hopen : Scan.LeavesOpen delimiters (Piece.writeQuoted pieces)) :
    Outgrown delimiters pieces := by
  have hplain := isPlain_of_attributeDelimiters hdelimiters
  obtain ⟨d, hd⟩ := exists_mem_of_attributeDelimiters hdelimiters
  obtain ⟨closing, hexpression⟩ := hopen.isExpression (hplain d hd)
  -- the same source, with another text in place of the line
  let r₁ : Reading :=
    { r with cursor := r.cursor.replaceLine (Piece.writeQuoted pieces ++ d :: closing) r.cursor.anchor }
  have hrest : r₁.cursor.rest = Piece.writeQuoted pieces ++ d :: closing := Text.tail_natCast _ 0
  have hinside : r₁.cursor.Inside :=
    ⟨Int.le_refl 0, Int.natCast_nonneg _, h.anchor_nonneg, h.anchor_lt⟩
  obtain ⟨n₁, hrun, hn₁⟩ := quotedString_of_rest hinside hne hapart hrest
  obtain ⟨m, hscan, hvalue⟩ := run_attributeExpression_quoted delimiters hinside hrest hrun
  have hlong : (Piece.writeQuoted pieces).length < m := by
    have hgreatest := (Scan.expression_eq_some_iff.mp hscan).2
    have hle : r₁.cursor.rest.length ≤ m := hgreatest ⟨Nat.le_refl _, by
      rw [List.take_length, hrest]
      exact hexpression⟩
    rw [hrest, List.length_append, List.length_cons] at hle
    omega
  refine ⟨r₁, _, n₁, m, hinside, hrest, ⟨0, d :: closing, rfl, ?_⟩, hrun, hn₁, hlong, ?_⟩
  · rintro c hc
    obtain rfl := Option.some.inj hc
    exact Or.inr hd
  · rw [hvalue, if_neg (Nat.not_le_of_lt hlong)]

/-- A string in double quotes is read as the value whatever follows it if and only if it leaves
nothing open. What is left open can be closed further to the right, and the value is then an insert
that holds more than the string. -/
theorem quotedValue (h : r.cursor.Inside) (hdelimiters : delimiters ∈ attributeDelimiters)
    (hrun : (interpolatedString .quoted).run r = (.ok n, r')) :
    ∃ pieces, n.pieces? = some pieces ∧
      r.cursor.rest = Piece.writeQuoted pieces ++ r'.cursor.rest ∧
      r' = r.skip (Piece.writeQuoted pieces).length ∧
      (∃ m, Scan.expression delimiters r.cursor.rest = some m ∧
        (attributeExpression delimiters).run r =
          if m ≤ (Piece.writeQuoted pieces).length then (.ok n, r')
          else (.ok (.ofExpression (r.cursor.rest.take m) r.cursor.position), r.skip m)) ∧
      (¬ Scan.LeavesOpen delimiters (Piece.writeQuoted pieces) →
        Scan.Ends delimiters r'.cursor.rest → (attributeExpression delimiters).run r = (.ok n, r')) ∧
      (Scan.LeavesOpen delimiters (Piece.writeQuoted pieces) → Outgrown delimiters pieces) ∧
      ((∀ content, .insert content ∈ pieces → '"' ∉ content) →
        ¬ Scan.LeavesOpen delimiters (Piece.writeQuoted pieces)) := by
  have hplain := isPlain_of_attributeDelimiters hdelimiters
  obtain ⟨d, hd⟩ := exists_mem_of_attributeDelimiters hdelimiters
  obtain ⟨pieces, hpieces, hne, hapart, hrest, rfl⟩ := skip_of_quotedString h hrun
  obtain ⟨m, hscan, hvalue⟩ := run_attributeExpression_quoted delimiters h hrest hrun
  refine ⟨pieces, hpieces, hrest, rfl, ⟨m, hscan, hvalue⟩, ?_,
    outgrown_of_leavesOpen h hdelimiters hne hapart, ?_⟩
  · intro hclosed hends
    have hlast : (Piece.writeQuoted pieces).getLast? ≠ some '\\' := by
      rw [Piece.getLast?_writeQuoted]
      decide
    rw [hvalue, if_pos (Scan.le_length_of_ends hplain hclosed hlast hends (hrest ▸ hscan))]
  · intro hinserts
    exact (Piece.isString_writeQuoted hinserts).isExpression.closed (hplain d hd) hd

/-- An insert with a string of its own, whose quotes the scan pairs with those of the value. -/
theorem quotedValue_call : ∃ n r',
    (interpolatedString .quoted).run (.onFirstLine "\"#\x7bf(\"x\")\x7d\" , y") = (.ok n, r') ∧
    r'.cursor.rest = " , y".toList ∧
    (attributeExpression [',']).run (.onFirstLine "\"#\x7bf(\"x\")\x7d\" , y") = (.ok n, r') := by
  have hinside : (Reading.onFirstLine "\"#\x7bf(\"x\")\x7d\" , y").cursor.Inside :=
    (Reading.standsBefore_onFirstLine (by decide)).inside
  have hapart : Piece.Apart [.insert "f(\"x\")".toList] := by
    refine ⟨.singleton _, fun h => absurd h (by decide), fun content h => ?_⟩
    obtain rfl : content = "f(\"x\")".toList := by simpa using h
    exact Scan.isBody_iff.mpr (by decide +kernel)
  have hrest : (Reading.onFirstLine "\"#\x7bf(\"x\")\x7d\" , y").cursor.rest =
      Piece.writeQuoted [.insert "f(\"x\")".toList] ++ " , y".toList := rfl
  have hexpression : Scan.IsExpression [','] (Piece.writeQuoted [.insert "f(\"x\")".toList]) := by
    have hscan : Scan.expression [','] (Piece.writeQuoted [.insert "f(\"x\")".toList]) =
        some (Piece.writeQuoted [.insert "f(\"x\")".toList]).length := by decide +kernel
    have hwhole := (Scan.expression_eq_some_iff.mp hscan).1.2
    rwa [List.take_length] at hwhole
  have hends : Scan.Ends [','] " , y".toList :=
    ⟨1, ", y".toList, rfl, fun c hc => Or.inr (by obtain rfl := Option.some.inj hc; decide)⟩
  obtain ⟨n, hrun, hn⟩ := quotedString_of_rest hinside (by decide) hapart hrest
  have hafter := Reading.rest_skip hinside (Piece.writeQuoted [.insert "f(\"x\")".toList]).length
  rw [hrest, List.drop_left] at hafter
  have hcomma : [','] ∈ attributeDelimiters := by decide
  obtain ⟨pieces, hpieces, -, -, -, hvalue, -⟩ := quotedValue hinside hcomma hrun
  obtain rfl := Option.some.inj (hn.symm.trans hpieces)
  refine ⟨n, _, hrun, hafter, hvalue ?_ (hafter ▸ hends)⟩
  exact hexpression.closed ⟨rfl, rfl, rfl, by decide⟩ List.mem_cons_self

/-- A quote in each of two values. The scan takes what stands between them for a string, and the
first value reaches up to the end of the second one. -/
theorem not_quotedValue_of_ends : ¬ ∀ {r r' : Reading} {n : Node} {delimiters : List Char},
    r.cursor.Inside → delimiters ∈ attributeDelimiters →
      (interpolatedString .quoted).run r = (.ok n, r') → Scan.Ends delimiters r'.cursor.rest →
      (attributeExpression delimiters).run r = (.ok n, r') := by
  intro hall
  have hinside : (Reading.onFirstLine "\"#\x7b'\"'\x7d\", :b => \"#\x7b'\"'\x7d\"").cursor.Inside :=
    (Reading.standsBefore_onFirstLine (by decide)).inside
  have heval : ((interpolatedString .quoted).run
      (.onFirstLine "\"#\x7b'\"'\x7d\", :b => \"#\x7b'\"'\x7d\"")).1.toOption.map Node.kind =
        some .interpolatedString := by decide +kernel
  have hvalue : ((attributeExpression [',']).run
      (.onFirstLine "\"#\x7b'\"'\x7d\", :b => \"#\x7b'\"'\x7d\"")).1.toOption.map Node.kind =
        some .insert := by decide +kernel
  have hafter : ((interpolatedString .quoted).run
      (.onFirstLine "\"#\x7b'\"'\x7d\", :b => \"#\x7b'\"'\x7d\"")).2.cursor.rest =
        ", :b => \"#\x7b'\"'\x7d\"".toList := by decide +kernel
  rcases hrun : (interpolatedString .quoted).run
      (.onFirstLine "\"#\x7b'\"'\x7d\", :b => \"#\x7b'\"'\x7d\"") with ⟨_ | n, r'⟩
  · rw [hrun] at heval
    cases heval
  · rw [hrun] at heval hafter
    have hends : Scan.Ends [','] r'.cursor.rest :=
      ⟨0, _, hafter, fun c hc => Or.inr (by obtain rfl := Option.some.inj hc; decide)⟩
    rw [hall hinside (by decide) hrun hends] at hvalue
    cases heval.symm.trans hvalue

end Production

end TemplateTree
