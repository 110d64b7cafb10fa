import TemplateTree.Proofs.Written.Quotes
import TemplateTree.Proofs.Written.Strings

/-!
# Ends of quoted strings

Two readers look for the end of a string in double quotes. One skips a backslash with the character
behind it and stops at the first quote, the other reads texts and inserts. The first one never stops
behind the second one, and before it only at a quote in an insert.
-/

set_option autoImplicit false

namespace TemplateTree

namespace Scan
variable {quote : Char} {cs s : List Char}

theorem closingQuote_of_protected (h : Protected quote cs) (hquote : quote ≠ '\\')
    (rest : List Char) : closingQuote quote (cs ++ quote :: rest) = some (cs.length + 1) := by
  induction h with
  | nil =>
    rw [List.nil_append, closingQuote.eq_def]
    simp [hquote]
  | @escaped c cs _ ih =>
    change (closingQuote quote (cs ++ quote :: rest)).map (· + 2) = _
    rw [ih]
    rfl
  | @plain c cs hc hbackslash _ ih =>
    rw [List.cons_append, closingQuote.eq_def]
    simp [hc, hbackslash, ih]

/-- A scan of a text that starts with a whole string stops at its end. -/
theorem quoted_append (h : IsString s) (rest : List Char) : quoted (s ++ rest) = some s.length := by
  obtain ⟨hquote, hinside⟩ := h
  rw [List.cons_append, List.append_assoc, List.singleton_append, quoted,
    closingQuote_of_protected hinside (ne_backslash_of_isQuote hquote)]
  simp

theorem quotedAt_natCast {text : List Char} {start n : Nat}
    (h : quoted (text.drop start) = some n) :
    quotedAt text start = .ok (some (start + n)) := by
  cases hdrop : text.drop start with
  | nil => rw [hdrop] at h; cases h
  | cons c cs =>
    rw [hdrop] at h
    simp [quotedAt, hdrop, h, stopOf, pure, Except.pure, bind, Except.bind]

end Scan

namespace Piece
variable {pieces : List Piece}

/-- The end that a scan finds lies in what the pieces are written as. It is the end of all of them
when no insert has a double quote. -/
theorem exists_quoted (pieces : List Piece) (after : List Char) :
    ∃ n, Scan.quoted (writeQuoted pieces ++ after) = some n ∧ n ≤ (writeQuoted pieces).length ∧
      ((∀ content, .insert content ∈ pieces → '"' ∉ content) →
        n = (writeQuoted pieces).length) := by
  obtain ⟨s, rest, hs, heq⟩ := exists_string pieces
  have hscan : Scan.quoted (writeQuoted pieces ++ after) = some s.length := by
    rw [heq, List.append_assoc]
    exact Scan.quoted_append hs (rest ++ after)
  refine ⟨s.length, hscan, ?_, fun hinserts => ?_⟩
  · rw [heq, List.length_append]
    exact Nat.le_add_right _ _
  · rw [Scan.quoted_append (isString_writeQuoted hinserts)] at hscan
    exact (Option.some.inj hscan).symm

end Piece

namespace Node
variable {n : Node} {pieces : List Piece} {content : List Char}

/-- The expression of an insert. -/
def expression? : Node → Option (List Char)
  | insert (.str (.chars s)) _ _ _ => some s.toList
  | _ => none

theorem expression?_of_piece? (h : n.piece? = some (.insert content)) :
    n.kind = .insert ∧ n.expression? = some content := by
  unfold piece? at h
  split at h
  · cases h
  · cases h
    exact ⟨rfl, rfl⟩
  · cases h

theorem exists_of_mem_pieces {children : List Node} {p : Piece}
    (h : children.mapM piece? = some pieces) (hmem : p ∈ pieces) :
    ∃ child ∈ children, child.piece? = some p := by
  induction children generalizing pieces with
  | nil =>
    cases h
    cases hmem
  | cons child children ih =>
    simp only [List.mapM_cons, bind, Option.bind_eq_some_iff, pure] at h
    obtain ⟨first, hfirst, rest, hrest, heq⟩ := h
    obtain rfl := Option.some.inj heq
    rcases List.mem_cons.mp hmem with rfl | hlater
    · exact ⟨child, List.mem_cons_self, hfirst⟩
    · obtain ⟨other, hother, hpiece⟩ := ih hrest hlater
      exact ⟨other, List.mem_cons_of_mem _ hother, hpiece⟩

/-- Every insert among the pieces of a string is a child of it. -/
theorem exists_child (h : n.pieces? = some pieces) (hmem : .insert content ∈ pieces) :
    ∃ child ∈ n.children, child.kind = .insert ∧ child.expression? = some content := by
  unfold pieces? at h
  split at h
  · obtain ⟨child, hchild, hpiece⟩ := exists_of_mem_pieces h hmem
    exact ⟨child, hchild, expression?_of_piece? hpiece⟩
  · cases h

end Node

namespace Production
variable {r r' : Reading} {n : Node}

/-- Both readers of a string in double quotes find an end. The one that knows nothing of inserts
finds the same end when no insert has a quote, and an earlier one at most else. -/
theorem quotedAt_of_quotedString (h : r.cursor.Inside)
    (hrun : (interpolatedString .quoted).run r = (.ok n, r')) :
    ∃ stop, Scan.quotedAt r.cursor.line r.cursor.column = .ok (some stop) ∧
      r'.cursor.line = r.cursor.line ∧ stop ≤ r'.cursor.column ∧
      ((∀ child ∈ n.children, child.kind ≠ .insert) → stop = r'.cursor.column) ∧
      ((∀ child ∈ n.children, ∀ content, child.expression? = some content → '"' ∉ content) →
        stop = r'.cursor.column) := by
  obtain ⟨pieces, hpieces, -, -, hrest, rfl⟩ := skip_of_quotedString h hrun
  obtain ⟨k, hk, -, hdrop⟩ := Cursor.exists_rest h
  obtain ⟨m, hscan, hle, hwhole⟩ := Piece.exists_quoted pieces
    (r.skip (Piece.writeQuoted pieces).length).cursor.rest
  have hcolumn : (r.skip (Piece.writeQuoted pieces).length).cursor.column =
      r.cursor.column + (Piece.writeQuoted pieces).length :=
    Cursor.column_skip h (by rw [hrest, List.length_append]; exact Nat.le_add_right _ _)
  have hend : (∀ content, .insert content ∈ pieces → '"' ∉ content) →
      r.cursor.column + m = (r.skip (Piece.writeQuoted pieces).length).cursor.column :=
    fun hinserts => by rw [hcolumn, hwhole hinserts]
  rw [← hrest, hdrop] at hscan
  refine ⟨r.cursor.column + m, ?_, rfl, ?_, fun hkinds => hend fun content hmem => ?_,
    fun hquotes => hend fun content hmem => ?_⟩
  · rw [hk]
    exact Scan.quotedAt_natCast hscan
  · omega
  · obtain ⟨child, hchild, hkind, -⟩ := Node.exists_child hpieces hmem
    exact absurd hkind (hkinds child hchild)
  · obtain ⟨child, hchild, -, hcontent⟩ := Node.exists_child hpieces hmem
    exact hquotes child hchild content hcontent

/-- A quote that a backslash protects, and then text behind the string. -/
theorem quotedAt_of_quotedString_escaped : ∃ n r',
    (interpolatedString .quoted).run (.onFirstLine "\"a\\\"b\" \"") = (.ok n, r') ∧
    (∀ child ∈ n.children, child.kind ≠ .insert) ∧ r'.cursor.column = 6 ∧
    Scan.quotedAt "\"a\\\"b\" \"".toList 0 = .ok (some 6) := by
  have hinside : (Reading.onFirstLine "\"a\\\"b\" \"").cursor.Inside :=
    (Reading.standsBefore_onFirstLine (by decide)).inside
  have hkinds : ((interpolatedString .quoted).run (.onFirstLine "\"a\\\"b\" \"")).1.toOption.map
      (·.children.map Node.kind) = some [.text] := by decide +kernel
  have hcolumn : ((interpolatedString .quoted).run
      (.onFirstLine "\"a\\\"b\" \"")).2.cursor.column = 6 := by decide +kernel
  rcases hrun : (interpolatedString .quoted).run (.onFirstLine "\"a\\\"b\" \"") with ⟨_ | n, r'⟩
  · rw [hrun] at hkinds
    cases hkinds
  · rw [hrun] at hkinds hcolumn
    have hall : ∀ child ∈ n.children, child.kind ≠ .insert := by
      intro child hchild hinsert
      have hmem : child.kind ∈ n.children.map Node.kind := List.mem_map_of_mem hchild
      have hkind : n.children.map Node.kind = [.text] := Option.some.inj hkinds
      rw [hkind, hinsert] at hmem
      exact absurd hmem (by decide)
    obtain ⟨stop, hscan, -, -, hstop, -⟩ := quotedAt_of_quotedString hinside hrun
    rw [hstop hall, hcolumn] at hscan
    exact ⟨n, r', rfl, hall, hcolumn, hscan⟩

/-- The quote in an insert is found first; the string is eight characters long. -/
example : Scan.quotedAt "\"#\x7b\"a\"\x7d\"".toList 0 = .ok (some 4) := rfl

end Production

end TemplateTree
