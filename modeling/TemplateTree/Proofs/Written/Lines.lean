import TemplateTree.Proofs.LineEnds
import TemplateTree.Proofs.Strings

/-!
# What is left of a source

A cursor stands before a text if what is left of its line and the lines after it are the lines of
the text. It goes over text that ends no line by reading on in its line, and over the end of a line
by entering the next one. What ends a line stays in it, except carriage returns and line feeds.
-/

set_option autoImplicit false

namespace TemplateTree

namespace Text

/-- What holds of the first character, if there is one. -/
def Starts (P : Char → Prop) (cs : List Char) : Prop := ∀ c ∈ cs.head?, P c

section Starts
variable {P Q : Char → Prop} {c : Char} {cs text : List Char}

@[simp] theorem starts_nil : Starts P [] := nofun

@[simp] theorem starts_cons : Starts P (c :: cs) ↔ P c := by simp [Starts]

theorem Starts.imp (h : Starts P cs) (himp : ∀ c, P c → Q c) : Starts Q cs :=
  fun c hc => himp c (h c hc)

theorem Starts.dropWhile_eq {p : Char → Bool} (h : Starts (p · = false) cs) :
    cs.dropWhile p = cs := by
  cases cs with
  | nil => rfl
  | cons c cs => rw [List.dropWhile_cons, if_neg (by simpa using h)]

theorem starts_dropWhile (p : Char → Bool) (cs : List Char) :
    Starts (p · = false) (cs.dropWhile p) := by
  intro c hc
  have hmem := List.head?_dropWhile_not p cs
  rw [hc] at hmem
  exact hmem

theorem Starts.append (h : Starts P text) (hne : text ≠ []) : Starts P (text ++ cs) := by
  cases text with
  | nil => exact absurd rfl hne
  | cons => exact h

theorem Starts.left (h : Starts P (text ++ cs)) : Starts P text := by
  cases text with
  | nil => exact starts_nil
  | cons => exact h

end Starts

/-- What the lines of a text say. -/
def lineTexts (cs : List Char) : List (List Char) := (Line.ofSource cs).map (·.text)

def headLine (cs : List Char) : List Char := (lineTexts cs).headD []

def laterLines (cs : List Char) : List (List Char) := (lineTexts cs).tail

/-- What ends a line. -/
inductive IsBreak : List Char → Prop where
  | crlf : IsBreak ['\r', '\n']
  | char {c : Char} (ends : isLineBreak c) : IsBreak [c]

/-- What the end of a line leaves in it. -/
def residue (ends : List Char) : List Char := dropRightWhile Line.isReturn ends

/-- What is read as the end of a line before a text: a carriage return goes together with a line
feed after it. -/
structure Breaks (ends cs : List Char) : Prop where
  isBreak : IsBreak ends
  follows : Starts (· ≠ '\n') cs

section Lines
variable {text cs ends : List Char} {c : Char}

theorem Unbroken.cons (hc : isLineBreak c = false) (h : Unbroken cs) : Unbroken (c :: cs) :=
  List.forall_mem_cons.mpr ⟨hc, h⟩

theorem unbroken_spaces (count : Nat) : Unbroken (List.replicate count ' ') := by
  intro c hc
  rw [List.eq_of_mem_replicate hc]
  rfl

theorem lineTexts_eq (cs : List Char) :
    lineTexts cs = (splitLines cs).map (dropRightWhile Line.isReturn) := texts_place 0 _

theorem lineTexts_eq_cons (h : cs ≠ []) : lineTexts cs = headLine cs :: laterLines cs := by
  have hne : lineTexts cs ≠ [] := by
    intro hnil
    have hflat := flatten_splitLines cs
    rw [lineTexts_eq] at hnil
    rw [List.map_eq_nil_iff.mp hnil] at hflat
    exact h hflat.symm
  unfold headLine laterLines
  cases hlines : lineTexts cs with
  | nil => exact absurd hlines hne
  | cons => rfl

theorem lineTexts_cons (hc : isLineBreak c = false) :
    lineTexts (c :: cs) = (c :: headLine cs) :: laterLines cs := by
  have hreturn := isReturn_of_not_isLineBreak hc
  cases hsplit : splitLines cs with
  | nil =>
    have hlines : lineTexts cs = [] := by rw [lineTexts_eq, hsplit, List.map_nil]
    have hcs : cs = [] := by rw [← flatten_splitLines cs, hsplit, List.flatten_nil]
    rw [headLine, laterLines, hlines, hcs]
    simp [lineTexts_eq, splitLines, hc, dropRightWhile, hreturn]
  | cons piece pieces =>
    have hlines : lineTexts cs =
        dropRightWhile Line.isReturn piece :: pieces.map (dropRightWhile Line.isReturn) := by
      rw [lineTexts_eq, hsplit, List.map_cons]
    have hpiece : dropRightWhile Line.isReturn (c :: piece) =
        c :: dropRightWhile Line.isReturn piece := by
      rw [dropRightWhile_cons, hreturn, Bool.and_false]
      rfl
    rw [headLine, laterLines, hlines, lineTexts_eq, splitLines_cons hc hsplit, List.map_cons,
      hpiece]
    rfl

theorem not_isLineBreak_of_isIndent (h : isIndent c) : isLineBreak c = false := by
  simp only [isIndent, Bool.or_eq_true, beq_iff_eq] at h
  rcases h with rfl | rfl <;> rfl

theorem headLine_cons (hc : isLineBreak c = false) : headLine (c :: cs) = c :: headLine cs := by
  rw [headLine, lineTexts_cons hc]
  rfl

theorem headLine_ne_nil (h : Starts (isLineBreak · = false) cs) (hne : cs ≠ []) :
    headLine cs ≠ [] := by
  cases cs with
  | nil => exact absurd rfl hne
  | cons c cs =>
    rw [headLine_cons (starts_cons.mp h)]
    exact List.cons_ne_nil _ _

theorem headLine_append (h : Unbroken text) : headLine (text ++ cs) = text ++ headLine cs := by
  induction text with
  | nil => rfl
  | cons c text ih =>
    rw [List.cons_append, headLine_cons (h c List.mem_cons_self),
      ih fun d hd => h d (List.mem_cons_of_mem _ hd)]
    rfl

theorem laterLines_append (h : Unbroken text) : laterLines (text ++ cs) = laterLines cs := by
  induction text with
  | nil => rfl
  | cons c text ih =>
    rw [List.cons_append, laterLines, lineTexts_cons (h c List.mem_cons_self),
      ih fun d hd => h d (List.mem_cons_of_mem _ hd)]
    rfl

theorem lineTexts_break (h : Breaks ends cs) :
    lineTexts (ends ++ cs) = residue ends :: lineTexts cs := by
  cases h.isBreak with
  | crlf =>
    rw [lineTexts_eq, lineTexts_eq, List.cons_append, List.cons_append, List.nil_append, splitLines]
    rfl
  | @char c hends =>
    have hsplit : splitLines (c :: cs) = [c] :: splitLines cs := by
      rw [splitLines, if_pos hends]
      rintro rest - rfl
      exact h.follows '\n' rfl rfl
    rw [lineTexts_eq, lineTexts_eq, List.singleton_append, hsplit]
    rfl

theorem headLine_break (h : Breaks ends cs) : headLine (ends ++ cs) = residue ends := by
  rw [headLine, lineTexts_break h]
  rfl

theorem exists_headLine (cs : List Char) : ∃ rest, cs = headLine cs ++ rest := by
  have hflat := flatten_splitLines cs
  cases hsplit : splitLines cs with
  | nil => exact ⟨cs, by rw [headLine, lineTexts_eq, hsplit]; rfl⟩
  | cons piece pieces =>
    obtain ⟨dropped, hpiece, -⟩ := exists_dropRightWhile Line.isReturn piece
    refine ⟨dropped ++ pieces.flatten, ?_⟩
    rw [hsplit, List.flatten_cons] at hflat
    rw [headLine, lineTexts_eq, hsplit, List.map_cons, List.headD_cons, ← List.append_assoc,
      ← hpiece, hflat]

/-- The rest of a line starts like what is left of the source. -/
theorem Starts.headLine {P : Char → Prop} (h : Starts P cs) : Starts P (Text.headLine cs) := by
  obtain ⟨rest, hrest⟩ := exists_headLine cs
  rw [hrest] at h
  exact h.left

end Lines

end Text

namespace Cursor

/-- What is left of the source from the cursor on says what the text says. -/
structure StandsBefore (c : Cursor) (cs : List Char) : Prop where
  inside : c.Inside
  rest : c.rest = Text.headLine cs
  upcoming : c.upcoming = Text.laterLines cs

namespace StandsBefore
open Text
variable {c : Cursor} {text cs ends : List Char}

theorem skip (h : c.StandsBefore (text ++ cs)) (htext : Unbroken text) :
    (c.skip text.length).StandsBefore cs where
  inside := (onward_skip h.inside _).inside
  rest := by rw [rest_skip h.inside, h.rest, headLine_append htext, List.drop_left]
  upcoming := h.upcoming.trans (laterLines_append htext)

theorem take_rest (h : c.StandsBefore (text ++ cs)) (htext : Unbroken text) :
    c.rest.take text.length = text := by
  rw [h.rest, headLine_append htext, List.take_left]

theorem of_upcoming (h : c.upcoming = lineTexts cs) (hne : cs ≠ []) :
    c.nextLine.2.StandsBefore cs := by
  have hupcoming := h.trans (lineTexts_eq_cons hne)
  have hp := peekLine_of_upcoming hupcoming
  have hnext := onward_nextLine hp
  refine ⟨hnext.1.inside, ?_, upcoming_nextLine hupcoming⟩
  rw [nextLine_eq hp]
  exact Text.tail_natCast _ 0

theorem upcoming_of_break (h : c.StandsBefore (ends ++ cs)) (hends : Breaks ends cs) :
    c.upcoming = lineTexts cs := by
  rw [h.upcoming, laterLines, lineTexts_break hends]
  rfl

theorem exists_peekLine (h : c.StandsBefore (ends ++ cs)) (hends : Breaks ends cs) (hne : cs ≠ []) :
    ∃ line, c.peekLine = some line :=
  ⟨_, peekLine_of_upcoming ((h.upcoming_of_break hends).trans (lineTexts_eq_cons hne))⟩

/-- The end of a line is passed by entering the next line. -/
theorem nextLine (h : c.StandsBefore (ends ++ cs)) (hends : Breaks ends cs) (hne : cs ≠ []) :
    c.nextLine.2.StandsBefore cs :=
  of_upcoming (h.upcoming_of_break hends) hne

/-- Past what the end of a line leaves in it, the cursor stands as before a line feed. -/
theorem skip_residue (h : c.StandsBefore (ends ++ cs)) (hends : Breaks ends cs) :
    (c.skip (residue ends).length).StandsBefore ('\n' :: cs) := by
  have hfeed : Breaks ['\n'] cs := ⟨.char rfl, hends.follows⟩
  have hlines : lineTexts ('\n' :: cs) = [] :: lineTexts cs := lineTexts_break hfeed
  have hfirst : headLine ('\n' :: cs) = [] := by rw [headLine, hlines]; rfl
  refine ⟨(onward_skip h.inside _).inside, ?_, ?_⟩
  · rw [rest_skip h.inside, h.rest, hfirst, headLine_break hends]
    exact List.drop_length
  · change c.upcoming = _
    rw [h.upcoming, laterLines, lineTexts_break hends, laterLines, hlines]
    rfl

end StandsBefore

end Cursor

namespace Reading

/-- A reading that stands at the start of a source. -/
def onFirstLine (source : String) : Reading :=
  let r := opening (.standard .haml) source "t" 1
  { r with cursor := r.cursor.nextLine.2 }

theorem standsBefore_onFirstLine {source : String} (h : source.toList ≠ []) :
    (onFirstLine source).cursor.StandsBefore source.toList :=
  .of_upcoming rfl h

end Reading

end TemplateTree
