import TemplateTree.Proofs.Keeping

/-!
# Where refusals are reported

A production that refuses a template reports the line that its cursor stands on at that moment. That
line is the one the production began on, or the line that was entered last.
-/

set_option autoImplicit false

namespace TemplateTree

/-- A cursor after some moves: it reports the line that it reported before them, or, where lines
were entered, the last one of these. -/
structure Cursor.Moved (c c' : Cursor) : Prop where
  firstLine : c'.firstLine = c.firstLine
  lines : c'.lines = c.lines
  -- the minimum, since a cursor behind the last line stays there when it is told to enter a line
  reported : (c'.entered = c.entered ∧ c'.anchor = c.anchor) ∨
    (min c.entered c.lines.length < c'.entered ∧ c'.anchor + 1 = c'.entered)

namespace Cursor.Moved
variable {a b c : Cursor}

theorem refl (c : Cursor) : c.Moved c := ⟨rfl, rfl, .inl ⟨rfl, rfl⟩⟩

theorem trans (hab : a.Moved b) (hbc : b.Moved c) : a.Moved c where
  firstLine := hbc.firstLine.trans hab.firstLine
  lines := hbc.lines.trans hab.lines
  reported := by
    have h := hab.reported
    have h' := hbc.reported
    rw [hab.lines] at h'
    omega

/-- A move on the line. -/
theorem column (c : Cursor) (column : Int) : c.Moved { c with column } :=
  ⟨rfl, rfl, .inl ⟨rfl, rfl⟩⟩

theorem nextLine (c : Cursor) : c.Moved c.nextLine.2 := by
  unfold Cursor.nextLine
  split
  · rename_i hl
    have hlt := (List.getElem?_eq_some_iff.mp hl).1
    exact ⟨rfl, rfl, .inr ⟨by dsimp only; omega, rfl⟩⟩
  · exact ⟨rfl, rfl, .inr ⟨by dsimp only; omega, rfl⟩⟩

end Cursor.Moved

/-- Every cursor is a given one after some moves. -/
def Invariant.moved (c : Cursor) : Invariant := ⟨c.Moved, fun _ => True, fun _ => True⟩

instance (c : Cursor) : (Invariant.moved c).Kept where
  column {_} column h := h.trans (.column _ column)
  nextLine h := h.trans (.nextLine _)
  unexpected _ _ _ := trivial
  checked _ := trivial
  selfClosing := trivial
  unitEstablished _ _ := trivial
  silentBlock _ _ := trivial
  filterBlock _ _ _ := trivial
  speculationFailed _ _ := trivial

theorem Invariant.holds_moved {c : Cursor} {r : Reading} (h : c.Moved r.cursor) :
    (Invariant.moved c).Holds r := ⟨h, fun _ _ => trivial⟩

end TemplateTree
