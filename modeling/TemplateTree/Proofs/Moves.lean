import TemplateTree.Proofs.LineEnds
import TemplateTree.Proofs.SourceLines
import TemplateTree.Proofs.Strings

/-!
# Moves over a source

A cursor is moved to the next line, over what a pattern matches, by a number of characters, to the
end of its line, over indentation, or to a column. As long as its line is never replaced, it stays
inside of its line, a move that is refused changes nothing, and its offset is where the rest of the
line stands in the source.

Offsets never fall along such moves, but for the first one: outside of the source a cursor has the
offset of its end, also before the first line.
-/

set_option autoImplicit false

namespace TemplateTree

inductive Move where
  | nextLine
  | eat (p : Pattern)
  | skip (count : Nat)
  | skipRest
  | skipIndent
  | advanceTo (target : Int)

namespace Move

/-- The production that makes a move. It gives true when the move is made. -/
def production : Move → Production Bool
  | nextLine => Production.nextLine
  | eat p => Production.eat p
  | skip count => do
    Production.modifyCursor (Cursor.skip count)
    return true
  | skipRest => do
    let _ ← Production.restOfLine
    return true
  | skipIndent => do
    Production.skipIndent
    return true
  | advanceTo target => do
    Production.advanceTo target
    return true

/-- What a move leaves, whether it was made or refused. -/
def after (m : Move) (r : Reading) : Reading := (m.production.run r).2

def Made (m : Move) (r : Reading) : Prop := (m.production.run r).1.toOption = some true

instance (m : Move) (r : Reading) : Decidable (m.Made r) :=
  inferInstanceAs (Decidable (_ = some true))

variable {r : Reading} {m : Move}

theorem run_eat (p : Pattern) (r : Reading) : (eat p).production.run r =
    match r.cursor.eat? p with
    | some (_, c) => (.ok true, { r with cursor := c })
    | none => (.ok false, r) := by
  change (Production.eat p).run r = _
  unfold Production.eat Production.eat?
  rw [Production.run_bind, Production.run_cursor_bind]
  cases r.cursor.eat? p <;> rfl

theorem run_advanceTo (target : Int) (r : Reading) : (advanceTo target).production.run r =
    match r.cursor.advanceTo target with
    | .ok c => (.ok true, { r with cursor := c })
    | .error b => (.error (.backwards b), r) := by
  change (Production.advanceTo target >>= fun _ => _).run r = _
  unfold Production.advanceTo
  rw [Production.run_bind, Production.run_cursor_bind]
  cases r.cursor.advanceTo target <;> rfl

/-- A refused move leaves everything as it was. Past the last line there is no next one, and this
move alone is then made as far as possible. -/
theorem after_of_not_made (hm : m ≠ nextLine) (h : ¬ m.Made r) : m.after r = r := by
  unfold Made at h
  unfold after
  cases m with
  | nextLine => exact absurd rfl hm
  | eat p =>
    rw [run_eat] at h ⊢
    cases heat : r.cursor.eat? p with
    | none => rfl
    | some found =>
      rw [heat] at h
      exact absurd rfl h
  | advanceTo target =>
    rw [run_advanceTo] at h ⊢
    cases hadvance : r.cursor.advanceTo target with
    | error b => rfl
    | ok c =>
      rw [hadvance] at h
      exact absurd rfl h
  | skip count => exact absurd rfl h
  | skipRest => exact absurd rfl h
  | skipIndent => exact absurd rfl h

/-- Every move but the one to the next line goes forward in the line. -/
theorem exists_column (hm : m ≠ nextLine) (hnonneg : 0 ≤ r.cursor.column)
    (hle : r.cursor.column ≤ r.cursor.line.length) :
    ∃ column, r.cursor.column ≤ column ∧ column ≤ r.cursor.line.length ∧
      m.after r = { r with cursor := { r.cursor with column } } := by
  have hskip : ∀ count : Nat, ∃ column, r.cursor.column ≤ column ∧
      column ≤ r.cursor.line.length ∧ r.cursor.skip count = { r.cursor with column } := by
    intro count
    refine ⟨_, ?_, Int.min_le_right _ _, rfl⟩
    omega
  have hline : r.cursor.inLine = r.cursor := Cursor.inLine_of_nonneg hnonneg
  cases m with
  | nextLine => exact absurd rfl hm
  | eat p =>
    rw [after, run_eat, Cursor.eat?, hline]
    cases p r.cursor.rest with
    | none => exact ⟨_, Int.le_refl _, hle, rfl⟩
    | some found =>
      obtain ⟨column, hahead, hbound, heq⟩ := hskip found.length
      exact ⟨column, hahead, hbound, congrArg (fun c => { r with cursor := c }) heq⟩
  | skip count =>
    obtain ⟨column, hahead, hbound, heq⟩ := hskip count
    exact ⟨column, hahead, hbound, congrArg (fun c => { r with cursor := c }) heq⟩
  | skipRest => exact ⟨_, hle, Int.le_refl _, rfl⟩
  | skipIndent =>
    obtain ⟨column, hahead, hbound, heq⟩ :=
      hskip (Pattern.runLength Text.isIndent r.cursor.rest)
    refine ⟨column, hahead, hbound, congrArg (fun c => { r with cursor := c }) ?_⟩
    rw [Cursor.skipIndent, hline, heq]
  | advanceTo target =>
    rw [after, run_advanceTo]
    by_cases hback : target < r.cursor.column
    · rw [Cursor.advanceTo, if_pos hback]
      exact ⟨_, Int.le_refl _, hle, rfl⟩
    · rw [Cursor.advanceTo, if_neg hback]
      refine ⟨min target r.cursor.line.length, ?_, Int.min_le_right _ _, rfl⟩
      omega

end Move

/-- A reading that a new cursor on a source comes to by moves alone. -/
inductive Roams (source : List Char) : Reading → Prop where
  | start {r : Reading} {filename : String} {firstLine : Int}
      (h : r.cursor = .start source filename firstLine) : Roams source r
  | move {r : Reading} (m : Move) (before : Roams source r) : Roams source (m.after r)

namespace Cursor

/-- A cursor whose line is the one it stands on, and empty outside of the source. -/
structure Unreplaced (source : List Char) (c : Cursor) : Prop where
  lines : c.lines = Text.Line.ofSource source
  anchor : c.anchor = c.lineIndex
  line : ∀ k : Nat, c.lineIndex = k → c.line = ((c.lines[k]?).map (·.text)).getD []
  outside : c.entered = 0 ∨ c.lines.length < c.entered → c.line = []
  nonneg : 0 ≤ c.column
  le_length : c.column ≤ c.line.length

namespace Unreplaced
variable {source piece : List Char} {c : Cursor} {k : Nat}

theorem start (source : List Char) (filename : String) (firstLine : Int) :
    (Cursor.start source filename firstLine).Unreplaced source where
  lines := rfl
  anchor := rfl
  line k hk := by
    change ((0 : Nat) : Int) - 1 = k at hk
    omega
  outside _ := rfl
  nonneg := Int.le_refl _
  le_length := Int.le_refl _

theorem column (h : c.Unreplaced source) {column : Int} (hnonneg : 0 ≤ column)
    (hle : column ≤ c.line.length) : ({ c with column } : Cursor).Unreplaced source :=
  ⟨h.lines, h.anchor, h.line, h.outside, hnonneg, hle⟩

theorem nextLine (h : c.Unreplaced source) : c.nextLine.2.Unreplaced source := by
  cases hp : c.peekLine with
  | some text =>
    obtain ⟨line, hline, rfl⟩ := Option.map_eq_some_iff.mp hp
    have hlt : c.entered < c.lines.length := (List.getElem?_eq_some_iff.mp hline).1
    rw [nextLine_eq hp]
    refine ⟨h.lines, ?_, ?_, ?_, Int.le_refl _, Int.natCast_nonneg _⟩
    · change (c.entered : Int) = ((c.entered + 1 : Nat) : Int) - 1
      omega
    · intro k hk
      change ((c.entered + 1 : Nat) : Int) - 1 = k at hk
      obtain rfl : k = c.entered := by omega
      rw [hline]
      rfl
    · rintro (hzero | hover)
      · cases hzero
      · exact absurd hover (by dsimp only; omega)
  | none =>
    rw [nextLine_eq_of_none hp]
    refine ⟨h.lines, ?_, ?_, fun _ => rfl, Int.le_refl _, Int.le_refl _⟩
    · change (c.lines.length : Int) = ((c.lines.length + 1 : Nat) : Int) - 1
      omega
    · intro k hk
      change ((c.lines.length + 1 : Nat) : Int) - 1 = k at hk
      obtain rfl : k = c.lines.length := by omega
      rw [List.getElem?_eq_none (Nat.le_refl _)]
      rfl

theorem move {r : Reading} (h : r.cursor.Unreplaced source) (m : Move) :
    (m.after r).cursor.Unreplaced source := by
  by_cases hm : m = .nextLine
  · subst hm
    exact h.nextLine
  · obtain ⟨column, hahead, hle, heq⟩ := Move.exists_column hm h.nonneg h.le_length
    rw [heq]
    exact h.column (Int.le_trans h.nonneg hahead) hle

/-- On a piece of the source, the cursor reads what the piece says, and counts from its start. -/
theorem onPiece (h : c.Unreplaced source) (hk : c.lineIndex = k)
    (hpiece : (Text.splitLines source)[k]? = some piece) :
    c.Inside ∧ c.line = Text.dropRightWhile Text.Line.isReturn piece ∧
      c.lineOffset = Text.startOf source k := by
  have hline : c.lines[k]? =
      some ⟨Text.startOf source k, Text.dropRightWhile Text.Line.isReturn piece⟩ := by
    rw [h.lines, Text.Line.getElem?_ofSource, hpiece]
    rfl
  have hlt : k < c.lines.length := (List.getElem?_eq_some_iff.mp hline).1
  have hanchor : c.anchor = k := h.anchor.trans hk
  refine ⟨⟨h.nonneg, h.le_length, by omega, by omega⟩, ?_, ?_⟩
  · rw [h.line k hk, hline]
    rfl
  · simp [lineOffset, hanchor, hline]

/-- What a source says from the offset of a cursor on. -/
theorem drop_offset (h : c.Unreplaced source) (hk : c.lineIndex = k)
    (hpiece : (Text.splitLines source)[k]? = some piece) {stop : List Char}
    (hstop : piece = c.line ++ stop) : ∃ n : Nat, c.offset = n ∧
      source.drop n = c.rest ++ stop ++ ((Text.splitLines source).drop (k + 1)).flatten ∧
      n + c.rest.length + stop.length = Text.startOf source (k + 1) := by
  obtain ⟨hinside, -, hoffset⟩ := h.onPiece hk hpiece
  obtain ⟨n, hn, hle, hrest⟩ := exists_rest hinside
  refine ⟨Text.startOf source k + n, ?_, ?_, ?_⟩
  · rw [offset, hoffset, hn, Int.natCast_add]
  · rw [← List.drop_drop, Text.Line.drop_startOf hpiece, hstop, List.append_assoc,
      List.append_assoc, List.drop_append_of_le_length hle, hrest]
  · rw [Text.Line.startOf_succ hpiece, hstop, hrest, List.length_append, List.length_drop]
    omega

theorem peekLine_eq (h : c.Unreplaced source) : c.peekLine =
    (Text.splitLines source)[c.entered]?.map (Text.dropRightWhile Text.Line.isReturn) := by
  rw [peekLine, h.lines, Text.Line.getElem?_ofSource, Option.map_map]
  rfl

theorem offset_nextLine (h : c.Unreplaced source)
    (hpiece : (Text.splitLines source)[c.entered]? = some piece) :
    c.nextLine.2.offset = Text.startOf source c.entered := by
  have hp : c.peekLine = some (Text.dropRightWhile Text.Line.isReturn piece) := by
    rw [h.peekLine_eq, hpiece]
    rfl
  have hindex : c.nextLine.2.lineIndex = c.entered := by
    rw [nextLine_eq hp]
    change ((c.entered + 1 : Nat) : Int) - 1 = c.entered
    omega
  have hcolumn : c.nextLine.2.column = 0 := by rw [nextLine_eq hp]
  obtain ⟨-, -, hoffset⟩ := h.nextLine.onPiece hindex hpiece
  rw [offset, hoffset, hcolumn, Int.add_zero]

end Unreplaced

end Cursor

namespace Roams
variable {source : List Char} {r : Reading}

theorem unreplaced (h : Roams source r) : r.cursor.Unreplaced source := by
  induction h with
  | start hstart =>
    rw [hstart]
    exact .start source _ _
  | move m _ ih => exact ih.move m

/-- After every run of moves, the column is one of the line, and a refused move changes nothing. On
a line of the source, the offset is where the rest of the line stands, and what lies between the end
of the line and the next one is the carriage return and the line feed that the line has lost. -/
theorem stands (h : Roams source r) :
    0 ≤ r.cursor.column ∧ r.cursor.column ≤ r.cursor.line.length ∧
    (∀ m : Move, m ≠ .nextLine → ¬ m.Made r → m.after r = r) ∧
    ∀ (k : Nat) (piece : List Char), r.cursor.lineIndex = k →
      (Text.splitLines source)[k]? = some piece →
      Text.slice source r.cursor.offset (r.cursor.offset + r.cursor.rest.length) = r.cursor.rest ∧
      (∀ c ∈ r.cursor.line, Text.Line.isReturn c = false) ∧
      ∃ stop, piece = r.cursor.line ++ stop ∧ (stop = [] ∨ ∃ e : Text.LineEnd, stop = e.chars) ∧
        (Move.nextLine.Made r → Text.slice source (r.cursor.offset + r.cursor.rest.length)
          (Move.nextLine.after r).cursor.offset = stop) := by
  have hunreplaced := h.unreplaced
  refine ⟨hunreplaced.nonneg, hunreplaced.le_length, fun m hm => Move.after_of_not_made hm,
    fun k piece hk hpiece => ?_⟩
  obtain ⟨-, hline, -⟩ := hunreplaced.onPiece hk hpiece
  obtain ⟨stop, hstop, hending, hreturn⟩ :=
    (Text.isPiece_splitLines source piece (List.mem_of_getElem? hpiece)).exists_stop
  rw [← hline] at hstop hreturn
  obtain ⟨n, hoffset, hdrop, hlength⟩ := hunreplaced.drop_offset hk hpiece hstop
  have hend : r.cursor.offset + r.cursor.rest.length =
      ((n + r.cursor.rest.length : Nat) : Int) := by
    rw [hoffset, Int.natCast_add]
  refine ⟨?_, hreturn, stop, hstop, hending, fun hnext => ?_⟩
  · rw [hend, hoffset, Text.slice_natCast, Nat.add_sub_cancel_left, hdrop, List.append_assoc,
      List.take_left]
  · -- the next line is there, and starts behind what this one has lost
    have hentered : r.cursor.entered = k + 1 := by
      unfold Cursor.lineIndex at hk
      omega
    have hbehind : (Move.nextLine.after r).cursor.offset = Text.startOf source (k + 1) := by
      cases hlater : (Text.splitLines source)[r.cursor.entered]? with
      | some later =>
        have hstart := hunreplaced.offset_nextLine hlater
        rwa [hentered] at hstart
      | none =>
        have hpeek : r.cursor.peekLine = none := by
          rw [hunreplaced.peekLine_eq, hlater]
          rfl
        have hfalse : (Except.ok r.cursor.nextLine.1 : Except Failure Bool).toOption = some true :=
          hnext
        rw [Cursor.nextLine_eq_of_none hpeek] at hfalse
        cases hfalse
    rw [hend, hbehind, Text.slice_natCast, ← hlength, Nat.add_sub_cancel_left, ← List.drop_drop,
      hdrop, List.append_assoc, List.drop_left, List.take_left]

/-- A line that kept a vertical tab, and one that has lost a carriage return and a line feed. -/
theorem stands_breaks :
    let source := "a\x0bcd\r\ne"
    let r := (Move.skip 1).after (Move.nextLine.after (Move.nextLine.after
      (.opening (.standard .haml) source "t" 1)))
    r.cursor.lineIndex = 1 ∧ (Text.splitLines source.toList)[1]? = some ['c', 'd', '\r', '\n'] ∧
      r.cursor.offset = 3 ∧ r.cursor.rest = ['d'] ∧ Text.slice source.toList 3 4 = ['d'] ∧
      (Move.nextLine.after r).cursor.offset = 6 ∧ Text.slice source.toList 4 6 = ['\r', '\n'] ∧
      ¬ (Move.eat (.char 'c')).Made r ∧ (Move.eat (.char 'c')).after r = r ∧
      ¬ (Move.advanceTo 0).Made r ∧ (Move.advanceTo 0).after r = r := by
  intro source r
  have hroams : Roams source.toList r := .move _ (.move _ (.move _ (.start rfl)))
  have hoffset : r.cursor.offset = 3 := by decide +kernel
  have hrest : r.cursor.rest = ['d'] := by decide +kernel
  have hnext : (Move.nextLine.after r).cursor.offset = 6 := by decide +kernel
  have heat : ¬ (Move.eat (.char 'c')).Made r := by decide +kernel
  have hadvance : ¬ (Move.advanceTo 0).Made r := by decide +kernel
  have hpiece : (Text.splitLines source.toList)[1]? = some ['c', 'd', '\r', '\n'] := by
    decide +kernel
  have hline : r.cursor.line = ['c', 'd'] := by decide +kernel
  have hindex : r.cursor.lineIndex = (1 : Nat) := by decide +kernel
  obtain ⟨-, -, hrefused, hplaced⟩ := stands hroams
  obtain ⟨hslice, -, stop, hstop, -, hgap⟩ := hplaced 1 _ hindex hpiece
  have hbehind := hgap (by decide +kernel)
  rw [hoffset, hrest] at hslice hbehind
  rw [hnext] at hbehind
  rw [hline] at hstop
  obtain rfl : stop = ['\r', '\n'] := by simpa using hstop.symm
  exact ⟨hindex, hpiece, hoffset, hrest, hslice, hnext, hbehind, heat, hrefused _ nofun heat,
    hadvance, hrefused _ nofun hadvance⟩

end Roams

namespace Cursor

/-- The end of the last line of a source. -/
def finalOffset (c : Cursor) : Nat := (c.lines.getLast?.map (·.stop)).getD 0

namespace Unreplaced
variable {source : List Char} {c : Cursor}

theorem offset_of_outside (h : c.Unreplaced source)
    (hout : c.entered = 0 ∨ c.lines.length < c.entered) : c.offset = c.finalOffset := by
  have hcolumn : c.column = 0 := by
    have hle := h.le_length
    rw [h.outside hout] at hle
    exact Int.le_antisymm hle h.nonneg
  have hanchor := h.anchor
  have hline : (if 0 ≤ c.anchor then c.lines[c.anchor.toNat]? else none) = none := by
    unfold lineIndex at hanchor
    split
    · exact List.getElem?_eq_none (by omega)
    · rfl
  rw [offset, lineOffset, hline, hcolumn, Int.add_zero]
  rfl

/-- Past the last line, a cursor is led to the end of the source. -/
theorem offset_nextLine_of_none (h : c.Unreplaced source) (hpeek : c.peekLine = none) :
    c.nextLine.2.offset = c.finalOffset := by
  have hnext := h.nextLine
  rw [nextLine_eq_of_none hpeek] at hnext ⊢
  exact hnext.offset_of_outside (Or.inr (Nat.lt_succ_self _))

/-- Before its first line, a cursor is led to the start of the source. -/
theorem offset_nextLine_of_start (h : c.Unreplaced source) (hzero : c.entered = 0) :
    c.nextLine.2.offset = 0 := by
  cases hpiece : (Text.splitLines source)[c.entered]? with
  | some piece =>
    rw [h.offset_nextLine hpiece, hzero]
    rfl
  | none =>
    rw [hzero, List.getElem?_eq_none_iff, Nat.le_zero, List.length_eq_zero_iff] at hpiece
    have hlines : c.lines = [] := by
      rw [h.lines, Text.Line.ofSource, hpiece]
      rfl
    have hpeek : c.peekLine = none := by
      rw [peekLine, hlines]
      rfl
    rw [h.offset_nextLine_of_none hpeek, finalOffset, hlines]
    rfl

/-- From a line on, a cursor is led forward. -/
theorem offset_le_nextLine (h : c.Unreplaced source) (hpos : 0 < c.entered) :
    c.offset ≤ c.nextLine.2.offset := by
  have hcount : c.lines.length = (Text.splitLines source).length := by
    rw [h.lines, Text.Line.length_ofSource]
  obtain ⟨k, hk⟩ : ∃ k, c.entered = k + 1 := ⟨c.entered - 1, by omega⟩
  have hindex : c.lineIndex = k := by
    unfold lineIndex
    omega
  cases hnext : (Text.splitLines source)[c.entered]? with
  | some next =>
    have hlt : k < (Text.splitLines source).length := by
      have hentered := (List.getElem?_eq_some_iff.mp hnext).1
      omega
    have hpiece := List.getElem?_eq_getElem hlt
    obtain ⟨stop, hstop, -, -⟩ :=
      (Text.isPiece_splitLines source _ (List.getElem_mem hlt)).exists_stop
    rw [← (h.onPiece hindex hpiece).2.1] at hstop
    obtain ⟨n, hoffset, -, hlength⟩ := h.drop_offset hindex hpiece hstop
    rw [h.offset_nextLine hnext, hoffset, hk]
    omega
  | none =>
    have hover := List.getElem?_eq_none_iff.mp hnext
    rw [h.offset_nextLine_of_none (by rw [h.peekLine_eq, hnext]; rfl)]
    by_cases hlt : k < (Text.splitLines source).length
    · -- the last line, of which the column is not behind the end
      have hpiece := List.getElem?_eq_getElem hlt
      obtain ⟨-, hline, hstart⟩ := h.onPiece hindex hpiece
      have hlast : c.lines.getLast? = some ⟨Text.startOf source k, c.line⟩ := by
        rw [List.getLast?_eq_getElem?, hcount, h.lines, Text.Line.getElem?_ofSource, hline,
          show (Text.splitLines source).length - 1 = k by omega, hpiece]
        rfl
      have hle := h.le_length
      rw [offset, hstart, finalOffset, hlast]
      change _ ≤ ((Text.startOf source k + c.line.length : Nat) : Int)
      omega
    · exact Int.le_of_eq (h.offset_of_outside (Or.inr (by omega)))

theorem offset_le_after {r : Reading} (h : r.cursor.Unreplaced source) {m : Move}
    (hm : m = .nextLine → 0 < r.cursor.entered) : r.cursor.offset ≤ (m.after r).cursor.offset := by
  by_cases hnext : m = .nextLine
  · subst hnext
    exact h.offset_le_nextLine (hm rfl)
  · obtain ⟨column, hahead, -, heq⟩ := Move.exists_column hnext h.nonneg h.le_length
    rw [heq]
    exact Int.add_le_add_left hahead _

end Unreplaced

theorem entered_pos_after {r : Reading} {source : List Char} (h : r.cursor.Unreplaced source)
    (hpos : 0 < r.cursor.entered) (m : Move) : 0 < (m.after r).cursor.entered := by
  by_cases hnext : m = .nextLine
  · subst hnext
    change 0 < r.cursor.nextLine.2.entered
    unfold nextLine
    split <;> exact Nat.succ_pos _
  · obtain ⟨column, -, -, heq⟩ := Move.exists_column hnext h.nonneg h.le_length
    rw [heq]
    exact hpos

end Cursor

namespace Roams
variable {source : List Char} {r : Reading}

/-- After the first line is entered, no run of moves leads to an earlier offset. -/
theorem offset_le_moves (h : Roams source r) (hpos : 0 < r.cursor.entered) (moves : List Move) :
    r.cursor.offset ≤ (moves.foldl (fun r m => m.after r) r).cursor.offset := by
  induction moves generalizing r with
  | nil => exact Int.le_refl _
  | cons m moves ih =>
    have hstep : r.cursor.offset ≤ (m.after r).cursor.offset :=
      h.unreplaced.offset_le_after fun _ => hpos
    exact Int.le_trans hstep (ih (h.move m) (Cursor.entered_pos_after h.unreplaced hpos m))

/-- An offset falls exactly when the first line of a source is entered whose last line does not end
where the source starts. -/
theorem offset_lt_iff (h : Roams source r) (m : Move) :
    (m.after r).cursor.offset < r.cursor.offset ↔
      m = .nextLine ∧ r.cursor.entered = 0 ∧ 0 < r.cursor.offset := by
  constructor
  · intro hlt
    have hfirst : m = .nextLine ∧ r.cursor.entered = 0 := by
      by_contra hnot
      refine absurd hlt (Int.not_lt.mpr (h.unreplaced.offset_le_after fun hm => ?_))
      exact Nat.pos_of_ne_zero fun hzero => hnot ⟨hm, hzero⟩
    obtain ⟨rfl, hzero⟩ := hfirst
    refine ⟨rfl, hzero, ?_⟩
    rwa [← h.unreplaced.offset_nextLine_of_start hzero]
  · rintro ⟨rfl, hzero, hpos⟩
    rwa [← h.unreplaced.offset_nextLine_of_start hzero] at hpos

/-- Before the only line of a source, and on it. -/
theorem offset_lt_before_line :
    let r := Reading.opening (.standard .haml) "ab" "t" 1
    r.cursor.offset = 2 ∧ (Move.nextLine.after r).cursor.offset = 0 ∧
      (Move.nextLine.after r).cursor.offset < r.cursor.offset := by
  intro r
  have hroams : Roams "ab".toList r := .start rfl
  have hoffset : r.cursor.offset = 2 := by decide +kernel
  have hpos : 0 < r.cursor.offset := by omega
  exact ⟨hoffset, by decide +kernel, (offset_lt_iff hroams .nextLine).mpr ⟨rfl, rfl, hpos⟩⟩

/-- A new cursor reports the end of its source, and then the start of its first line. -/
theorem not_offset_le : ¬ ∀ {source : List Char} {r : Reading} (m : Move), Roams source r →
    m.Made r → r.cursor.offset ≤ (m.after r).cursor.offset := by
  intro hall
  have hroams : Roams "a".toList (.opening (.standard .haml) "a" "t" 1) := .start rfl
  have hmade : Move.nextLine.Made (.opening (.standard .haml) "a" "t" 1) := by
    decide +kernel
  have hback : ¬ (Reading.opening (.standard .haml) "a" "t" 1).cursor.offset ≤
      (Move.nextLine.after (.opening (.standard .haml) "a" "t" 1)).cursor.offset := by
    decide +kernel
  exact hback (hall .nextLine hroams hmade)

end Roams

end TemplateTree
