import TemplateTree.Proofs.Appended
import TemplateTree.Proofs.Parallel

/-!
# Templates that start on another line

The number of the first line is added to what is reported and asked for nothing else. A template that
starts so many lines later comes to the same tree with all positions so many lines later, or to the
same error so many lines later.
-/

set_option autoImplicit false

namespace TemplateTree

/-- A position so many lines later. -/
def Position.lowered (count : Int) (p : Position) : Position :=
  match p.line with
  | .int line => { p with line := .int (line + count) }
  | _ => p

theorem Position.lowered_of (count line column offset : Int) :
    lowered count (.of line column offset) = .of (line + count) column offset := rfl

/-- A failure that is reported so many lines later. -/
def Failure.lowered (count : Int) : Failure → Failure
  | .refused e => .refused { e with line := e.line + count }
  | e => e

open Correspondence

/-- The lines of a source do not depend on the number of the first one. -/
theorem parallel_lowered (g : Grammar) (source filename : String) (firstLine count : Int) :
    (moved (.lowered count) []).Parallel (.opening g source filename firstLine)
      (.opening g source filename (firstLine + count)) where
  ahead := by
    refine ahead_moved rfl (List.append_nil _).symm fun k line hline => ⟨line, hline, fun column => ?_⟩
    rw [Position.lowered_of]
    simp only [Reading.opening, Reading.start, Cursor.start, Position.of, Position.mk.injEq,
      Value.int.injEq, and_true]
    omega
  indent := rfl
  outline := rfl

/-- The first line of a template may have any number: all lines are counted from it, and nothing
else depends on it. -/
theorem readTemplate_add_firstLine (g : Grammar) (source filename : String) (firstLine count : Int) :
    (readTemplate g source filename (firstLine + count)).1 =
      ((readTemplate g source filename firstLine).1.mapError (Failure.lowered count)).map
        (Node.relocate (.lowered count)) := by
  have hconcur := (parallel_lowered g source filename firstLine count).concur rfl .start .start
  generalize (readTemplate g source filename firstLine).1 = result at hconcur ⊢
  generalize (readTemplate g source filename (firstLine + count)).1 = result' at hconcur ⊢
  cases hconcur with
  | @trees root root' same =>
    have hroot : root.relocate (.lowered count) = root'.relocate id := same
    rw [Node.relocate_id] at hroot
    simp only [Except.mapError, Except.map, hroot]
  | @refused e e' refused =>
    obtain ⟨s, s', rfl, rfl, hcause, hfilename, hcolumn, offset, offset', hplace⟩ := refused
    have hline : s.line + count = s'.line :=
      Value.int.inj (congrArg Position.line hplace)
    simp only [Except.mapError, Except.map, Failure.lowered, hline, ← hcause, ← hfilename, ← hcolumn]

end TemplateTree
