import Mathlib.Tactic.Common
import TemplateTree.Cursor

/-!
# Cursors inside a source

A cursor is inside its source when it stands on one of the lines, at a column of that line. From
there every move leads to a later cursor that is inside again, and no character is asked for that
lies before the line.
-/

set_option autoImplicit false

namespace TemplateTree

namespace Cursor

/-- A cursor on a line of the source. -/
structure Inside (c : Cursor) : Prop where
  nonneg : 0 ≤ c.column
  le_length : c.column ≤ c.line.length
  anchor_nonneg : 0 ≤ c.anchor
  anchor_lt : c.anchor < c.lines.length

/-- A later cursor on the same source. -/
structure Onward (c c' : Cursor) : Prop where
  filename : c'.filename = c.filename
  firstLine : c'.firstLine = c.firstLine
  lines : c'.lines = c.lines
  entered : c.entered ≤ c'.entered
  remaining : c'.remaining ≤ c.remaining
  inside : c'.Inside

namespace Onward
variable {a b c : Cursor}

theorem refl (h : a.Inside) : a.Onward a := ⟨rfl, rfl, rfl, Nat.le_refl _, Nat.le_refl _, h⟩

theorem trans (hab : a.Onward b) (hbc : b.Onward c) : a.Onward c where
  filename := hbc.filename.trans hab.filename
  firstLine := hbc.firstLine.trans hab.firstLine
  lines := hbc.lines.trans hab.lines
  entered := Nat.le_trans hab.entered hbc.entered
  remaining := Nat.le_trans hbc.remaining hab.remaining
  inside := hbc.inside

end Onward

section Moves
variable {c : Cursor} (h : c.Inside)
include h

/-- Every column further on in the line is a later place. -/
theorem onward_column {column : Int} (ahead : c.column ≤ column) (le : column ≤ c.line.length) :
    c.Onward { c with column } where
  filename := rfl
  firstLine := rfl
  lines := rfl
  entered := Nat.le_refl _
  remaining := by simp only [remaining, Cursor.ahead]; omega
  inside := ⟨Int.le_trans h.nonneg ahead, le, h.anchor_nonneg, h.anchor_lt⟩

theorem onward_skip (n : Nat) : c.Onward (c.skip n) :=
  onward_column h (by have := h.le_length; omega) (Int.min_le_right _ _)

theorem onward_skipRest : c.Onward c.skipRest := onward_column h h.le_length (Int.le_refl _)

omit h in
theorem advanceTo_of_le {target : Int} (ahead : c.column ≤ target) :
    c.advanceTo target = .ok { c with column := min target c.line.length } :=
  if_neg (Int.not_lt.mpr ahead)

theorem inLine_eq : c.inLine = c := inLine_of_nonneg h.nonneg

theorem eat?_eq (p : Pattern) : c.eat? p = (p c.rest).map fun m => (m, c.skip m.length) := by
  unfold eat?
  rw [inLine_eq h]

/-- The column of a cursor inside is a natural number. -/
theorem exists_column : ∃ n : Nat, c.column = n ∧ n ≤ c.line.length := by
  obtain ⟨n, hn⟩ := Int.eq_ofNat_of_zero_le h.nonneg
  have hle := h.le_length
  exact ⟨n, hn, by omega⟩

/-- A cursor before something has it ahead on its line. -/
theorem column_lt_of_rest_ne_nil (hr : c.rest ≠ []) : c.column < c.line.length := by
  obtain ⟨n, hn, _⟩ := exists_column h
  rw [rest, hn, Text.tail_natCast] at hr
  have hlt := List.length_pos_iff.mpr hr
  rw [List.length_drop] at hlt
  omega

theorem remaining_skip_lt {n : Nat} (hn : 0 < n) (hr : c.rest ≠ []) :
    (c.skip n).remaining < c.remaining := by
  have hlt := column_lt_of_rest_ne_nil h hr
  simp only [remaining, skip, Cursor.ahead]
  omega

theorem peekChar_eq : c.peekChar = .ok c.rest.head? := by
  obtain ⟨n, hn, _⟩ := exists_column h
  rw [peekChar, rest, hn, Text.tail_natCast, Text.charAt?_natCast, List.head?_drop]

theorem unexpected_eq (what : Expected) :
    c.unexpected what = .ok (c.error (.unexpected c.rest.head? what)) := by
  unfold unexpected
  rw [peekChar_eq h]
  rfl

end Moves

section Lines
variable {c : Cursor} {line : List Char}

theorem nextLine_eq (hp : c.peekLine = some line) :
    c.nextLine =
      (true, { c with entered := c.entered + 1, anchor := c.entered, line, column := 0 }) := by
  obtain ⟨l, hl, rfl⟩ := Option.map_eq_some_iff.mp hp
  simp only [nextLine, hl]

theorem nextLine_eq_of_none (hp : c.peekLine = none) :
    c.nextLine = (false, { c with
      entered := c.lines.length + 1, anchor := c.lines.length, line := [], column := 0 }) := by
  have hl := Option.map_eq_none_iff.mp hp
  simp only [nextLine, hl]

/-- A line that is entered leaves less of the source. -/
theorem onward_nextLine (hp : c.peekLine = some line) :
    c.Onward c.nextLine.2 ∧ c.nextLine.2.remaining < c.remaining := by
  have hnext := nextLine_eq hp
  obtain ⟨l, hl, rfl⟩ := Option.map_eq_some_iff.mp hp
  have hlt : c.entered < c.lines.length := (List.getElem?_eq_some_iff.mp hl).1
  have hahead : c.ahead = l :: c.lines.drop (c.entered + 1) := by
    rw [ahead, List.drop_eq_getElem_cons hlt, (List.getElem?_eq_some_iff.mp hl).2]
  have hless : c.nextLine.2.remaining < c.remaining := by
    rw [hnext]
    simp only [remaining, hahead, List.map_cons, Text.extent]
    simp only [ahead]
    omega
  refine ⟨?_, hless⟩
  rw [hnext] at hless ⊢
  exact {
    filename := rfl
    firstLine := rfl
    lines := rfl
    entered := Nat.le_succ _
    remaining := Nat.le_of_lt hless
    inside := ⟨Int.le_refl _, Int.natCast_nonneg _, Int.natCast_nonneg _, Int.ofNat_lt.mpr hlt⟩ }

/-- The texts of the lines that are not entered yet. -/
def upcoming (c : Cursor) : List (List Char) := c.ahead.map (·.text)

theorem peekLine_eq (c : Cursor) : c.peekLine = c.upcoming.head? := by
  rw [peekLine, upcoming, ahead, List.head?_map, List.head?_drop]

theorem upcoming_of_peekLine (hp : c.peekLine = some line) :
    c.upcoming = line :: c.upcoming.tail := by
  rw [peekLine_eq] at hp
  obtain ⟨rest, hrest⟩ := List.head?_eq_some_iff.mp hp
  rw [hrest, List.tail_cons]

theorem peekLine_of_upcoming {rest : List (List Char)} (h : c.upcoming = line :: rest) :
    c.peekLine = some line := by
  rw [peekLine_eq, h]
  rfl

theorem upcoming_nextLine {rest : List (List Char)}
    (h : c.upcoming = line :: rest) : c.nextLine.2.upcoming = rest := by
  have hp := peekLine_of_upcoming h
  unfold upcoming ahead at h ⊢
  rw [nextLine_eq hp, ← List.tail_drop, List.map_tail, h]
  rfl

end Lines

end Cursor

end TemplateTree
