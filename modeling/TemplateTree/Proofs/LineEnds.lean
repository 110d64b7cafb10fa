import TemplateTree.Proofs.Joining
import TemplateTree.Proofs.Parallel

/-!
# The ends of lines

Lines may end with a line feed, with a carriage return, or with both. A source says the same lines
whichever it is, and a template depends on its source through its lines only. Only the offsets of
positions count the characters that end a line.
-/

set_option autoImplicit false

namespace TemplateTree

namespace Text

inductive LineEnd where
  | lf
  | crlf
  | cr
  deriving DecidableEq, Repr

def LineEnd.chars : LineEnd → List Char
  | lf => ['\n']
  | crlf => ['\r', '\n']
  | cr => ['\r']

/-- A source of the given lines, which all end in one way. The last one may end with the source,
when there is something in it. -/
inductive Writes (stop : LineEnd) : List (List Char) → List Char → Prop where
  | closed (lines : List (List Char)) : Writes stop lines (lines.flatMap (· ++ stop.chars))
  | unclosed (lines : List (List Char)) {last : List Char} (h : last ≠ []) :
    Writes stop (lines ++ [last]) (lines.flatMap (· ++ stop.chars) ++ last)

/-- A line without any character that ends one. -/
def Unbroken (line : List Char) : Prop := ∀ c ∈ line, isLineBreak c = false

instance (line : List Char) : Decidable (Unbroken line) :=
  List.decidableBAll (fun c => isLineBreak c = false) line

section Lines
variable {stop : LineEnd} {line last rest : List Char} {lines : List (List Char)}

theorem isReturn_eq_false_iff {c : Char} : Line.isReturn c = false ↔ c ≠ '\r' ∧ c ≠ '\n' := by
  simp [Line.isReturn]

theorem isReturn_of_class {p : Char → Bool} (hcr : p '\r' = false) (hlf : p '\n' = false)
    {c : Char} (h : p c) : Line.isReturn c = false := by
  apply isReturn_eq_false_iff.mpr
  constructor
  · rintro rfl
    cases hcr.symm.trans h
  · rintro rfl
    cases hlf.symm.trans h

theorem isReturn_of_not_isLineBreak {c : Char} (h : isLineBreak c = false) :
    Line.isReturn c = false :=
  isReturn_of_class (p := fun c => !isLineBreak c) rfl rfl (by simpa using h)

theorem isReturn_of_unbroken (h : Unbroken line) : ∀ c ∈ line, Line.isReturn c = false :=
  fun c hc => isReturn_of_not_isLineBreak (h c hc)

theorem dropRightWhile_append {p : Char → Bool} {cs tail : List Char} (h : ∀ c ∈ cs, p c = false)
    (htail : ∀ c ∈ tail, p c) : dropRightWhile p (cs ++ tail) = cs := by
  induction cs with
  | nil =>
    induction tail with
    | nil => rfl
    | cons c tail ih =>
      obtain ⟨hc, hlater⟩ := List.forall_mem_cons.mp htail
      have hnil : dropRightWhile p tail = [] := ih hlater
      rw [List.nil_append, dropRightWhile_cons, hnil, hc]
      rfl
  | cons c cs ih =>
    obtain ⟨hc, hlater⟩ := List.forall_mem_cons.mp h
    rw [List.cons_append, dropRightWhile_cons, ih hlater, hc]
    simp

theorem dropRightWhile_of_none {p : Char → Bool} {cs : List Char} (h : ∀ c ∈ cs, p c = false) :
    dropRightWhile p cs = cs := by
  have hcut := dropRightWhile_append h (List.forall_mem_nil _)
  rwa [List.append_nil] at hcut

theorem isReturn_of_mem_chars : ∀ stop : LineEnd, ∀ c ∈ stop.chars, Line.isReturn c
  | .lf => List.forall_mem_singleton.mpr rfl
  | .crlf => List.forall_mem_cons.mpr ⟨rfl, List.forall_mem_singleton.mpr rfl⟩
  | .cr => List.forall_mem_singleton.mpr rfl

/-- What ends a line is no part of it. -/
theorem dropRightWhile_chars (h : Unbroken line) (stop : LineEnd) :
    dropRightWhile Line.isReturn (line ++ stop.chars) = line :=
  dropRightWhile_append (isReturn_of_unbroken h) (isReturn_of_mem_chars stop)

/-- A piece of a source is a text without returns and what ends it, if anything does. -/
def IsPiece (piece : List Char) : Prop :=
  ∃ text stop, piece = text ++ stop ∧ (∀ c ∈ text, Line.isReturn c = false) ∧
    (stop = [] ∨ ∃ e : LineEnd, stop = e.chars)

theorem isPiece_singleton (c : Char) : IsPiece [c] := by
  by_cases hlf : c = '\n'
  · exact ⟨[], [c], rfl, List.forall_mem_nil _, Or.inr ⟨.lf, by rw [hlf]; rfl⟩⟩
  · by_cases hcr : c = '\r'
    · exact ⟨[], [c], rfl, List.forall_mem_nil _, Or.inr ⟨.cr, by rw [hcr]; rfl⟩⟩
    · exact ⟨[c], [], rfl, by simp [Line.isReturn, hlf, hcr], Or.inl rfl⟩

theorem isPiece_splitLines (source : List Char) : ∀ piece ∈ splitLines source, IsPiece piece := by
  fun_induction splitLines source with
  | case1 => exact List.forall_mem_nil _
  | case2 rest ih =>
    exact List.forall_mem_cons.mpr
      ⟨⟨[], ['\r', '\n'], rfl, List.forall_mem_nil _, Or.inr ⟨.crlf, rfl⟩⟩, ih⟩
  | case3 c rest _ _ ih => exact List.forall_mem_cons.mpr ⟨isPiece_singleton c, ih⟩
  | case4 c rest _ _ _ _ =>
    exact List.forall_mem_cons.mpr ⟨isPiece_singleton c, List.forall_mem_nil _⟩
  | case5 c rest _ hbreak line lines hsplit ih =>
    rw [hsplit] at ih
    obtain ⟨⟨text, stop, rfl, htext, hstop⟩, hlines⟩ := List.forall_mem_cons.mp ih
    have hc : Line.isReturn c = false := isReturn_of_not_isLineBreak (by simpa using hbreak)
    exact List.forall_mem_cons.mpr
      ⟨⟨c :: text, stop, rfl, List.forall_mem_cons.mpr ⟨hc, htext⟩, hstop⟩, hlines⟩

/-- A line has lost what ended it, and no return is left in it. -/
theorem IsPiece.exists_stop {piece : List Char} (h : IsPiece piece) : ∃ stop,
    piece = dropRightWhile Line.isReturn piece ++ stop ∧
    (stop = [] ∨ ∃ e : LineEnd, stop = e.chars) ∧
    ∀ c ∈ dropRightWhile Line.isReturn piece, Line.isReturn c = false := by
  obtain ⟨text, stop, rfl, htext, hstop⟩ := h
  have hreturn : ∀ c ∈ stop, Line.isReturn c := by
    rcases hstop with rfl | ⟨e, rfl⟩
    · exact List.forall_mem_nil _
    · exact isReturn_of_mem_chars e
  rw [dropRightWhile_append htext hreturn]
  exact ⟨stop, rfl, hstop, htext⟩

/-- A carriage return that ends a line has no line feed after it. -/
def Separates (stop : LineEnd) (rest : List Char) : Prop := stop = .cr → rest.head? ≠ some '\n'

theorem splitLines_cons {c : Char} (hc : isLineBreak c = false) {piece : List Char}
    {pieces : List (List Char)} (hrest : splitLines rest = piece :: pieces) :
    splitLines (c :: rest) = (c :: piece) :: pieces := by
  have hreturn : c ≠ '\r' := by
    rintro rfl
    exact absurd hc (by decide)
  rw [splitLines, hrest, if_neg (by simp [hc])]
  rintro others rfl
  exact absurd rfl hreturn

theorem splitLines_line (hline : Unbroken line) (hrest : Separates stop rest) :
    splitLines (line ++ stop.chars ++ rest) = (line ++ stop.chars) :: splitLines rest := by
  induction line with
  | nil =>
    cases stop with
    | lf => simp [LineEnd.chars, splitLines, isLineBreak]
    | crlf => simp [LineEnd.chars, splitLines]
    | cr =>
      have hnext := hrest rfl
      cases rest with
      | nil => rfl
      | cons d rest =>
        have hd : d ≠ '\n' := fun heq => hnext (congrArg some heq)
        rw [LineEnd.chars, List.nil_append, List.cons_append, List.nil_append, splitLines,
          if_pos (by decide)]
        intro others _ heq
        exact hd (List.cons.inj heq).1
  | cons c line ih =>
    have hunbroken : Unbroken line := fun d hd => hline d (List.mem_cons_of_mem _ hd)
    exact splitLines_cons (hline c List.mem_cons_self) (ih hunbroken)

theorem splitLines_last (hline : Unbroken line) (hne : line ≠ []) : splitLines line = [line] := by
  induction line with
  | nil => exact absurd rfl hne
  | cons c line ih =>
    have hc := hline c List.mem_cons_self
    cases line with
    | nil => simp [splitLines, hc]
    | cons d line =>
      exact splitLines_cons hc (ih (fun e he => hline e (List.mem_cons_of_mem _ he))
        (List.cons_ne_nil _ _))

/-- What follows a line starts with a character of the next line or with the end of it. -/
theorem separates_lines (hlines : ∀ line ∈ lines, Unbroken line) (hlast : Unbroken last) :
    Separates stop (lines.flatMap (· ++ stop.chars) ++ last) := by
  rintro rfl hfeed
  have hnot : ∀ line : List Char, Unbroken line → line.head? ≠ some '\n' := by
    intro line hline hhead
    have hbreak := hline _ (List.mem_of_mem_head? hhead)
    exact absurd hbreak (by decide)
  cases lines with
  | nil => exact hnot last hlast hfeed
  | cons line lines =>
    cases line with
    | nil => simp [LineEnd.chars] at hfeed
    | cons c line => exact hnot _ (hlines _ List.mem_cons_self) hfeed

theorem splitLines_lines (hlines : ∀ line ∈ lines, Unbroken line) (hlast : Unbroken last) :
    splitLines (lines.flatMap (· ++ stop.chars) ++ last) =
      lines.map (· ++ stop.chars) ++ splitLines last := by
  induction lines with
  | nil => rfl
  | cons line lines ih =>
    have hrest : ∀ l ∈ lines, Unbroken l := fun l hl => hlines l (List.mem_cons_of_mem _ hl)
    rw [List.flatMap_cons, List.append_assoc, splitLines_line (hlines line List.mem_cons_self)
      (separates_lines hrest hlast), ih hrest]
    rfl

theorem texts_place (offset : Nat) (raws : List (List Char)) :
    (Line.place offset raws).map (·.text) = raws.map (dropRightWhile Line.isReturn) := by
  induction raws generalizing offset with
  | nil => rfl
  | cons raw raws ih => rw [Line.place, List.map_cons, List.map_cons, ih]

theorem isReturn_ofSource (source : List Char) :
    ∀ line ∈ Line.ofSource source, ∀ c ∈ line.text, Line.isReturn c = false := by
  intro line hline
  have hmem : line.text ∈ (Line.ofSource source).map (·.text) := List.mem_map_of_mem hline
  rw [Line.ofSource, texts_place] at hmem
  obtain ⟨piece, hpiece, heq⟩ := List.mem_map.mp hmem
  obtain ⟨_, -, -, htext⟩ := (isPiece_splitLines source piece hpiece).exists_stop
  exact heq ▸ htext

/-- The lines of a source are the lines that were written, however they end. -/
theorem Writes.texts {source : List Char} (h : Writes stop lines source)
    (hlines : ∀ line ∈ lines, Unbroken line) : (Line.ofSource source).map (·.text) = lines := by
  have hpieces : ∀ ls : List (List Char), (∀ line ∈ ls, Unbroken line) →
      (ls.map (· ++ stop.chars)).map (dropRightWhile Line.isReturn) = ls := by
    intro ls hls
    rw [List.map_map]
    exact (List.map_congr_left fun line hline => dropRightWhile_chars (hls line hline) stop).trans
      (List.map_id ls)
  rw [Line.ofSource, texts_place]
  cases h with
  | closed =>
    have hsplit : splitLines (lines.flatMap (· ++ stop.chars) ++ []) =
        lines.map (· ++ stop.chars) ++ splitLines [] := splitLines_lines hlines (by decide)
    rw [List.append_nil] at hsplit
    rw [hsplit, splitLines, List.append_nil, hpieces lines hlines]
  | @unclosed lines last hne =>
    have hbefore : ∀ line ∈ lines, Unbroken line :=
      fun line hline => hlines line (List.mem_append_left _ hline)
    have hlast : Unbroken last := hlines last (List.mem_append_right _ List.mem_cons_self)
    rw [splitLines_lines hbefore hlast, splitLines_last hlast hne, List.map_append,
      hpieces lines hbefore, List.map_cons, List.map_nil,
      dropRightWhile_of_none (isReturn_of_unbroken hlast)]

end Lines

end Text

/-- A position without its offset. -/
def Position.withoutOffset (p : Position) : Position := { p with offset := .null }

namespace Correspondence

/-- Places on the same lines of two sources, of which the offsets may differ. -/
def sameLines : Correspondence where
  first := Position.withoutOffset
  second := Position.withoutOffset
  lies _ := True
  reads _ _ := True
  extra := []

theorem ahead_sameLines {c c' : Cursor} (hfile : c'.filename = c.filename)
    (hfirst : c'.firstLine = c.firstLine) (hentered : c'.entered = c.entered)
    (hupcoming : c'.upcoming = c.upcoming) : sameLines.Ahead c c' := by
  have hplaces : ∀ (anchor : Int) (text : List Char),
      sameLines.OnLine (c.placeOn anchor) (c'.placeOn anchor) text := by
    intro anchor text
    refine ⟨fun column => ⟨?_, trivial⟩, fun _ _ => trivial⟩
    change Position.withoutOffset _ = Position.withoutOffset _
    simp only [Position.withoutOffset, Cursor.placeOn, Cursor.positionAt, Cursor.lineNumber, hfirst,
      Position.of]
  refine ⟨hfile, hupcoming.trans (List.append_nil _).symm, fun k line _ => ?_,
    fun k line text _ _ => ?_⟩
  · rw [hentered]
    exact hplaces _ _
  · rw [hentered]
    exact hplaces _ _

end Correspondence

open Correspondence Text

/-- A template depends on its source through its lines. However they end, it comes to the same tree
up to the offsets of positions, or it is refused for the same cause at the same place. -/
theorem readTemplate_of_writes {lines : List (List Char)} (hlines : ∀ line ∈ lines, Unbroken line)
    {stop stop' : LineEnd} {source source' : String} (h : Writes stop lines source.toList)
    (h' : Writes stop' lines source'.toList) (g : Grammar) (filename : String) (firstLine : Int) :
    (readTemplate g source filename firstLine).1.map (Node.relocate .withoutOffset) =
      (readTemplate g source' filename firstLine).1.map (Node.relocate .withoutOffset) := by
  have hupcoming : (Cursor.start source'.toList filename firstLine).upcoming =
      (Cursor.start source.toList filename firstLine).upcoming :=
    (h'.texts hlines).trans (h.texts hlines).symm
  have hparallel : sameLines.Parallel (.opening g source filename firstLine)
      (.opening g source' filename firstLine) :=
    ⟨ahead_sameLines rfl rfl rfl hupcoming, rfl, rfl⟩
  have hconcur := hparallel.concur rfl .start .start
  generalize (readTemplate g source filename firstLine).1 = result at hconcur ⊢
  generalize (readTemplate g source' filename firstLine).1 = result' at hconcur ⊢
  cases hconcur with
  | trees same => exact congrArg Except.ok same
  | refused refused =>
    obtain ⟨s, s', rfl, rfl, hcause, hfilename, hcolumn, offset, offset', hplace⟩ := refused
    have hline : s.line = s'.line := Value.int.inj (congrArg Position.line hplace)
    refine congrArg (fun e => Except.error (Failure.refused e)) ?_
    cases s
    cases s'
    simp_all

/-- A tag whose attributes go on over lines, one whose text does, and a comment with a block. All
lines end with a carriage return, or all but the last with a carriage return and a line feed. -/
theorem readTemplate_of_writes_comment :
    let lines := ["%a(b=c", "  d=e)", "%b |", "", " f |", "-# g", "  h"].map String.toList
    let returns := "%a(b=c\r  d=e)\r%b |\r\r f |\r-# g\r  h\r"
    let pairs := "%a(b=c\r\n  d=e)\r\n%b |\r\n\r\n f |\r\n-# g\r\n  h"
    (∀ line ∈ lines, Unbroken line) ∧ Writes .cr lines returns.toList ∧
      Writes .crlf lines pairs.toList ∧
      (readTemplate (.standard .haml) returns "t" 1).1.map (Node.relocate .withoutOffset) =
        (readTemplate (.standard .haml) pairs "t" 1).1.map (Node.relocate .withoutOffset) ∧
      (readTemplate (.standard .haml) returns "t" 1).1.toOption.isSome := by
  intro lines returns pairs
  have hlines : ∀ line ∈ lines, Unbroken line := by decide +kernel
  have hreturns : Writes .cr lines returns.toList := by
    rw [show returns.toList = lines.flatMap (· ++ LineEnd.cr.chars) by decide +kernel]
    exact .closed lines
  have hpairs : Writes .crlf lines pairs.toList := by
    rw [show pairs.toList = lines.dropLast.flatMap (· ++ LineEnd.crlf.chars) ++ "  h".toList by
      decide +kernel]
    exact .unclosed lines.dropLast (by decide +kernel)
  exact ⟨hlines, hreturns, hpairs,
    readTemplate_of_writes hlines hreturns hpairs (.standard .haml) "t" 1, by decide +kernel⟩

end TemplateTree
