import TemplateTree.Proofs.Written.Lines
import TemplateTree.Proofs.Written.Pieces

/-!
# Strings as they are written

A string is read up to where its parts end, and it is one if it ends there. So bare text loses
nothing when it is read, and a string in double quotes is what its pieces are written as: reading
it and writing it undo each other.
-/

set_option autoImplicit false

namespace TemplateTree

namespace Node

/-- A text or an insert as it is found in a string. -/
def piece? : Node → Option Piece
  | text (.str (.chars s)) _ => some (.text s.toList)
  | insert (.str (.chars s)) .inherit (.bool false) _ => some (.insert s.toList)
  | _ => none

/-- The pieces of a string. -/
def pieces? : Node → Option (List Piece)
  | interpolatedString children .inherit _ => children.mapM piece?
  | _ => none

theorem piece?_ofText (cs : List Char) (p : Position) : (ofText cs p).piece? = some (.text cs) := by
  simp [ofText, piece?]

theorem piece?_ofPart (c : Cursor) (p : Part) : (ofPart c p).piece? = some p.piece := by
  cases p <;> simp [ofPart, ofText, ofExpression, piece?, Part.piece]

/-- The string of the parts that are read from one cursor on up to another one. -/
def ofParts (c stopped : Cursor) (parts : List Part) : Node :=
  .interpolatedString
    (if parts.isEmpty then [ofText [] stopped.position] else parts.map (ofPart c))
    .inherit c.position

theorem pieces?_ofParts (c stopped : Cursor) (parts : List Part) :
    (ofParts c stopped parts).pieces? = some (Part.pieces parts) := by
  cases parts with
  | nil =>
    change [ofText [] stopped.position].mapM piece? = _
    rw [List.mapM_cons, piece?_ofText]
    rfl
  | cons p parts =>
    change ((p :: parts).map (ofPart c)).mapM piece? = some ((p :: parts).map Part.piece)
    induction p :: parts with
    | nil => rfl
    | cons p parts ih =>
      rw [List.map_cons, List.mapM_cons, piece?_ofPart, ih]
      rfl

end Node

theorem Pattern.quote_eq_none {cs : List Char} (h : cs.head? ≠ some '"') : quote cs = none := by
  cases cs with
  | nil => rfl
  | cons c cs => simpa [quote, char, satisfy] using h

namespace Quoting

/-- Where a string ends. -/
def Ends : Quoting → List Char → Prop
  | quoted, cs => cs.head? = some '"'
  | bare, cs => cs = []

def closing : Quoting → List Char
  | quoted => ['"']
  | bare => []

end Quoting

namespace Production
variable {r : Reading} (h : r.cursor.Inside)
include h

theorem run_stringEnd {q : Quoting} (hend : q.Ends r.cursor.rest) :
    (stringEnd q).run r = (.ok (), r.skip q.closing.length) := by
  cases q with
  | quoted =>
    obtain ⟨rest, hrest⟩ := List.head?_eq_some_iff.mp hend
    unfold stringEnd
    rw [run_bind, run_eat h, hrest]
    rfl
  | bare =>
    unfold stringEnd
    rw [run_cursor_bind, (Cursor.isEnd_iff h).mpr hend]
    exact congrArg (Prod.mk _) (Reading.skip_zero h).symm

theorem run_stringEnd_refused {q : Quoting} (hend : ¬ q.Ends r.cursor.rest) :
    ∃ e, (stringEnd q).run r = (.error (.refused e), r) := by
  cases q with
  | quoted =>
    unfold stringEnd
    rw [run_bind, run_eat h, Pattern.quote_eq_none hend]
    exact ⟨_, run_expected h _⟩
  | bare =>
    have hnot : r.cursor.isEnd = false := by
      rw [← Bool.not_eq_true, Cursor.isEnd_iff h]
      exact hend
    unfold stringEnd
    rw [run_cursor_bind, hnot]
    exact ⟨_, run_expected h _⟩

theorem run_stringBody_eq (q : Quoting) {n : Nat}
    (hstop : (Part.read q r.cursor.column r.cursor.rest).2 = r.cursor.column + n) :
    (stringBody q).run r = (do
      stringEnd q
      let stopped ← cursor
      return Node.ofParts r.cursor stopped (Part.read q r.cursor.column r.cursor.rest).1
        : Production Node).run (r.skip n) := by
  unfold stringBody
  rw [run_cursor_bind, Cursor.readLine_eq h]
  change (advanceTo (Part.read q r.cursor.column r.cursor.rest).2 >>= fun _ => _).run r = _
  rw [hstop, run_bind, run_advanceTo]
  rfl

/-- A string is read up to where its parts end. It is one if and only if it ends there. -/
theorem run_stringBody (q : Quoting) {n : Nat}
    (hstop : (Part.read q r.cursor.column r.cursor.rest).2 = r.cursor.column + n) :
    (q.Ends (r.cursor.rest.drop n) → ∃ stopped, (stringBody q).run r =
      (.ok (Node.ofParts r.cursor stopped (Part.read q r.cursor.column r.cursor.rest).1),
        r.skip (n + q.closing.length))) ∧
    (¬ q.Ends (r.cursor.rest.drop n) →
      ∃ e, (stringBody q).run r = (.error (.refused e), r.skip n)) := by
  have hinside : (r.skip n).cursor.Inside := (Cursor.onward_skip h n).inside
  have hrest : (r.skip n).cursor.rest = r.cursor.rest.drop n := Cursor.rest_skip h n
  have hrun := run_stringBody_eq h q hstop
  rw [← hrest]
  constructor
  · intro hend
    refine ⟨((r.skip n).skip q.closing.length).cursor, ?_⟩
    rw [hrun, run_bind, run_stringEnd hinside hend, ← Reading.skip_skip]
    rfl
  · intro hend
    obtain ⟨e, he⟩ := run_stringEnd_refused hinside hend
    refine ⟨e, ?_⟩
    rw [hrun, run_bind, he]

theorem run_quotedString {rest : List Char} (hrest : r.cursor.rest = '"' :: rest) :
    (interpolatedString .quoted).run r = (stringBody .quoted).run (r.skip 1) := by
  unfold interpolatedString
  change ((eat Pattern.quote >>= fun matched => _) : Production Node).run r = _
  rw [run_bind, run_eat h, hrest]
  rfl

theorem run_quotedString_refused (hrest : r.cursor.rest.head? ≠ some '"') :
    ∃ e, (interpolatedString .quoted).run r = (.error (.refused e), r) := by
  refine ⟨r.cursor.error (.unexpected r.cursor.rest.head? .quotedString), ?_⟩
  unfold interpolatedString
  change ((eat Pattern.quote >>= fun matched => _) : Production Node).run r = _
  rw [run_bind, run_eat h, Pattern.quote_eq_none hrest]
  exact run_expected_bind h _

end Production

namespace Production
variable {r r' : Reading} {n : Node}

/-- Bare text is read up to the end of its line, and written back it is the text again. -/
theorem write_of_bareString (h : r.cursor.Inside)
    (hrun : (interpolatedString .bare).run r = (.ok n, r')) :
    r' = { r with cursor := r.cursor.skipRest } ∧
      ∃ pieces, n.pieces? = some pieces ∧
        pieces.flatMap (Piece.write .bare) = r.cursor.rest := by
  obtain ⟨k, hk, hstop, hwrite⟩ := Part.write_read .bare r.cursor.column r.cursor.rest
  obtain ⟨hends, hnot⟩ := run_stringBody h .bare hstop
  have hbody : (stringBody .bare).run r = (.ok n, r') := hrun
  by_cases hend : Quoting.bare.Ends (r.cursor.rest.drop k)
  · obtain ⟨stopped, hok⟩ := hends hend
    obtain ⟨hn, rfl⟩ := Prod.mk.inj (hok.symm.trans hbody)
    obtain rfl := Except.ok.inj hn
    obtain rfl : k = r.cursor.rest.length :=
      Nat.le_antisymm hk (List.drop_eq_nil_iff.mp hend)
    rw [List.take_length] at hwrite
    refine ⟨congrArg (fun c => { r with cursor := c }) (Cursor.skip_length_rest h), _,
      Node.pieces?_ofParts _ _ _, ?_⟩
    rw [Part.write_pieces, hwrite]
  · obtain ⟨e, he⟩ := hnot hend
    cases he.symm.trans hbody

/-- An interpolation after two backslashes, and none after one. -/
theorem write_of_bareString_escaped : ∃ n r',
    (Reading.onFirstLine "\\\\#\x7ba\x7d\\#\x7bb").cursor.Inside ∧
    (interpolatedString .bare).run (.onFirstLine "\\\\#\x7ba\x7d\\#\x7bb") = (.ok n, r') ∧
    ∃ pieces, n.pieces? = some pieces ∧
      pieces.flatMap (Piece.write .bare) = "\\\\#\x7ba\x7d\\#\x7bb".toList := by
  have heval : ((interpolatedString .bare).run
      (.onFirstLine "\\\\#\x7ba\x7d\\#\x7bb")).1.toOption.isSome := by decide +kernel
  have hinside : (Reading.onFirstLine "\\\\#\x7ba\x7d\\#\x7bb").cursor.Inside :=
    (Reading.standsBefore_onFirstLine (by decide)).inside
  rcases hrun :
      (interpolatedString .bare).run (.onFirstLine "\\\\#\x7ba\x7d\\#\x7bb") with ⟨_ | n, r'⟩
  · rw [hrun] at heval
    cases heval
  · exact ⟨n, r', hinside, rfl, (write_of_bareString hinside hrun).2⟩

/-- What a string in double quotes was read from is what its pieces are written as. -/
theorem skip_of_quotedString (h : r.cursor.Inside)
    (hrun : (interpolatedString .quoted).run r = (.ok n, r')) :
    ∃ pieces, n.pieces? = some pieces ∧ pieces ≠ [] ∧ Piece.Apart pieces ∧
      r.cursor.rest = Piece.writeQuoted pieces ++ r'.cursor.rest ∧
      r' = r.skip (Piece.writeQuoted pieces).length := by
  by_cases hhead : r.cursor.rest.head? = some '"'
  · obtain ⟨rest, hrest⟩ := List.head?_eq_some_iff.mp hhead
    have hinside := Reading.inside_skip h 1
    have hskip : (r.skip 1).cursor.rest = rest := by
      rw [Reading.rest_skip h, hrest]
      rfl
    obtain ⟨k, hk, hstop, hwrite⟩ :=
      Part.write_read .quoted (r.skip 1).cursor.column (r.skip 1).cursor.rest
    obtain ⟨hends, hnot⟩ := run_stringBody hinside .quoted hstop
    rw [run_quotedString h hrest] at hrun
    rw [hskip] at hk hwrite hends hnot
    by_cases hend : Quoting.quoted.Ends (rest.drop k)
    · obtain ⟨stopped, hok⟩ := hends hend
      obtain ⟨hn, rfl⟩ := Prod.mk.inj (hok.symm.trans hrun)
      obtain rfl := Except.ok.inj hn
      obtain ⟨after, hafter⟩ := List.head?_eq_some_iff.mp hend
      have hparts := Part.apart_pieces_read .quoted (r.skip 1).cursor.column rest
      -- both quotes and the characters between them
      have hwritten : Piece.writeQuoted
          (Part.pieces (Part.read .quoted (r.skip 1).cursor.column rest).1) =
          '"' :: (rest.take k ++ ['"']) := by
        rw [Piece.writeQuoted, Part.write_pieces, hwrite]
      have hsplit : r.cursor.rest = '"' :: (rest.take k ++ ['"']) ++ after := by
        rw [hrest, List.cons_append, List.append_assoc, List.singleton_append, ← hafter,
          List.take_append_drop]
      have hlength : 1 + (k + Quoting.quoted.closing.length) =
          ('"' :: (rest.take k ++ ['"'])).length := by
        simp only [List.length_cons, List.length_append, List.length_take_of_le hk, Quoting.closing,
          List.length_nil]
        omega
      refine ⟨_, Node.pieces?_ofParts _ _ _, Part.pieces_ne_nil _, hparts, ?_, ?_⟩
      · rw [hwritten, Reading.skip_skip, Reading.rest_skip h, hlength, hsplit, List.drop_left]
      · rw [hwritten, Reading.skip_skip, hlength]
    · obtain ⟨e, he⟩ := hnot hend
      cases he.symm.trans hrun
  · obtain ⟨e, he⟩ := run_quotedString_refused h hhead
    cases he.symm.trans hrun

theorem slice_of_quotedString (h : r.cursor.Inside)
    (hrun : (interpolatedString .quoted).run r = (.ok n, r')) :
    ∃ pieces, n.pieces? = some pieces ∧ r'.cursor.line = r.cursor.line ∧
      Text.slice r.cursor.line r.cursor.column r'.cursor.column = Piece.writeQuoted pieces := by
  obtain ⟨pieces, hpieces, -, -, hrest, rfl⟩ := skip_of_quotedString h hrun
  have hcolumn : (r.skip (Piece.writeQuoted pieces).length).cursor.column =
      r.cursor.column + (Piece.writeQuoted pieces).length :=
    Cursor.column_skip h (by rw [hrest, List.length_append]; exact Nat.le_add_right _ _)
  refine ⟨pieces, hpieces, rfl, ?_⟩
  rw [hcolumn, Cursor.slice_eq h, hrest, List.take_left]

/-- Pieces that are written between double quotes are read again, and no more than them. -/
theorem quotedString_of_rest {pieces : List Piece} {after : List Char} (h : r.cursor.Inside)
    (hne : pieces ≠ []) (hapart : Piece.Apart pieces)
    (hrest : r.cursor.rest = Piece.writeQuoted pieces ++ after) :
    ∃ n, (interpolatedString .quoted).run r =
        (.ok n, r.skip (Piece.writeQuoted pieces).length) ∧ n.pieces? = some pieces := by
  have hsplit : Piece.writeQuoted pieces ++ after =
      '"' :: (pieces.flatMap (Piece.write .quoted) ++ '"' :: after) := by
    simp [Piece.writeQuoted]
  rw [hsplit] at hrest
  have hskip : (r.skip 1).cursor.rest = pieces.flatMap (Piece.write .quoted) ++ '"' :: after := by
    rw [Reading.rest_skip h, hrest]
    rfl
  obtain ⟨parts, hread, hparts⟩ :=
    Piece.pieces_read_write after (r.skip 1).cursor.column hne hapart
  rw [← hskip] at hread
  obtain ⟨stopped, hok⟩ := (run_stringBody (Reading.inside_skip h 1) .quoted
    (congrArg Prod.snd hread)).1 (by rw [hskip, List.drop_left]; rfl)
  refine ⟨Node.ofParts (r.skip 1).cursor stopped
    (Part.read .quoted (r.skip 1).cursor.column (r.skip 1).cursor.rest).1, ?_, ?_⟩
  · rw [run_quotedString h hrest, hok, Reading.skip_skip]
    have hlength : 1 + ((pieces.flatMap (Piece.write .quoted)).length +
        Quoting.quoted.closing.length) = (Piece.writeQuoted pieces).length := by
      simp [Piece.writeQuoted, Quoting.closing, Nat.add_comm]
    rw [hlength]
  · rw [Node.pieces?_ofParts, hread, hparts]

/-- A string in double quotes is the same text when it is written back. Pieces that are written
between double quotes are read again, whatever follows them. -/
theorem quotedString_write :
    (∀ {r r' : Reading} {n : Node}, r.cursor.Inside →
      (interpolatedString .quoted).run r = (.ok n, r') →
      ∃ pieces, n.pieces? = some pieces ∧ r'.cursor.line = r.cursor.line ∧
        Text.slice r.cursor.line r.cursor.column r'.cursor.column = Piece.writeQuoted pieces) ∧
    ∀ {r : Reading} {pieces : List Piece} {after : List Char}, r.cursor.Inside →
      pieces ≠ [] → Piece.Apart pieces → r.cursor.rest = Piece.writeQuoted pieces ++ after →
      ∃ n, (interpolatedString .quoted).run r =
          (.ok n, r.skip (Piece.writeQuoted pieces).length) ∧ n.pieces? = some pieces :=
  ⟨slice_of_quotedString, quotedString_of_rest⟩

/-- A quote in a text, an expression with a quote of its own, and more of the line behind them. -/
theorem quotedString_write_quotes : ∃ n,
    (interpolatedString .quoted).run (.onFirstLine "\"a\\\"#\x7b'\"'\x7d\" b") =
      (.ok n, (Reading.onFirstLine "\"a\\\"#\x7b'\"'\x7d\" b").skip 11) ∧
    n.pieces? = some [.text "a\"".toList, .insert "'\"'".toList] ∧
    ∃ pieces, n.pieces? = some pieces ∧
      Text.slice "\"a\\\"#\x7b'\"'\x7d\" b".toList 0 11 = Piece.writeQuoted pieces := by
  have hinside : (Reading.onFirstLine "\"a\\\"#\x7b'\"'\x7d\" b").cursor.Inside :=
    (Reading.standsBefore_onFirstLine (by decide)).inside
  have hapart : Piece.Apart [.text "a\"".toList, .insert "'\"'".toList] := by
    refine ⟨by decide, fun h => absurd h (by decide), fun content h => ?_⟩
    obtain rfl : content = "'\"'".toList := by simpa using h
    exact Scan.isBody_iff.mpr (by decide +kernel)
  have hrest : (Reading.onFirstLine "\"a\\\"#\x7b'\"'\x7d\" b").cursor.rest =
      Piece.writeQuoted [.text "a\"".toList, .insert "'\"'".toList] ++ " b".toList := rfl
  obtain ⟨n, hrun, hn⟩ := quotedString_write.2 hinside (by decide) hapart hrest
  obtain ⟨pieces, hpieces, -, hslice⟩ := quotedString_write.1 hinside hrun
  exact ⟨n, hrun, hn, pieces, hpieces, hslice⟩

/-- No pieces at all are written like an empty text, and an empty text is read. -/
theorem quotedString_write_nil : ¬ ∀ {r : Reading} {pieces : List Piece} {after : List Char},
    r.cursor.Inside → Piece.Apart pieces → r.cursor.rest = Piece.writeQuoted pieces ++ after →
      ∃ n, (interpolatedString .quoted).run r =
        (.ok n, r.skip (Piece.writeQuoted pieces).length) ∧ n.pieces? = some pieces := by
  intro hall
  have hapart : Piece.Apart [] := ⟨.nil, nofun, nofun⟩
  have hinside : (Reading.onFirstLine "\"\"").cursor.Inside :=
    (Reading.standsBefore_onFirstLine (by decide)).inside
  have hrest : (Reading.onFirstLine "\"\"").cursor.rest = Piece.writeQuoted [] ++ [] := rfl
  obtain ⟨n, hrun, hn⟩ := hall hinside hapart hrest
  have heval : ((interpolatedString .quoted).run (.onFirstLine "\"\"")).1.toOption.bind
      Node.pieces? = some [.text []] := by decide +kernel
  rw [hrun] at heval
  exact absurd (hn.symm.trans heval) (by decide)

end Production

end TemplateTree
