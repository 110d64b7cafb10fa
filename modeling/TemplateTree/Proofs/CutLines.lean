import TemplateTree.Proofs.FilterTrees
import TemplateTree.Proofs.LineTexts

/-!
# Lines that are cut into strings

Where filters are interpolated, each line of a filter is a string. `cutLine` cuts it out of the text
that stands there otherwise: every part starts where it stands in the text, and where no backslash
protects an opening the string says the same as the text.
-/

set_option autoImplicit false

namespace TemplateTree

/-- The position that lies so many characters further on its line. -/
def Position.onward (count : Int) (p : Position) : Position :=
  match p.column, p.offset with
  | .int column, .int offset => ⟨p.line, .int (column + count), .int (offset + count)⟩
  | _, _ => p

theorem Cursor.positionAt_add (c : Cursor) (count : Int) :
    c.positionAt (count + c.column) = c.position.onward count := by
  have hcolumn : count + c.column + 1 = c.column + 1 + count := by omega
  have hoffset : (c.lineOffset : Int) + (count + c.column) = c.lineOffset + c.column + count := by
    omega
  rw [Cursor.position, Cursor.positionAt, Cursor.positionAt, hcolumn, hoffset]
  rfl

namespace Part

/-- A part that starts so many columns further on. -/
def shift (count : Int) : Part → Part
  | text start content => text (start + count) content
  | insert start content => insert (start + count) content

theorem read_shift (q : Quoting) (start count : Int) (cs : List Char) :
    (read q (start + count) cs).1 = (read q start cs).1.map (shift count) := by
  fun_induction read q start cs with
  | case1 start cs hn n parts stop heq ih =>
    rw [heq] at ih
    rw [read_run hn, List.map_cons, ← ih, shift, Int.add_right_comm]
  | case2 start cs hn n hs hlt parts stop heq ih =>
    rw [heq] at ih
    have hstart : start + count + n + 1 = start + n + 1 + count := by omega
    rw [read_interpolation (Nat.eq_zero_of_not_pos hn) hs, List.map_cons, ← ih, shift, hstart,
      Int.add_right_comm]
  | case3 start cs hn hs => rw [read_none (Nat.eq_zero_of_not_pos hn) hs, List.map_nil]

/-- A text that is read to its end has parts, unless there is nothing in it. -/
theorem read_ne_nil {start : Int} {cs : List Char} (hne : cs ≠ [])
    (hreaches : ¬ Reaches Blocked cs) : (read .bare start cs).1 ≠ [] := by
  intro hnil
  obtain ⟨n, -, hstop, hwrite⟩ := write_read .bare start cs
  obtain ⟨m, -, hstop', ⟨hdrop, -⟩ | ⟨-, hblocked⟩⟩ := reaches_read start cs
  · obtain rfl : n = m := by omega
    have happend := List.take_append_drop n cs
    rw [← hwrite, hnil, hdrop] at happend
    exact hne happend.symm
  · exact hreaches hblocked

end Part

namespace Node
variable {c stopped : Cursor} {cs : List Char} {m n : Node}

/-- A part of a string that starts at a position. -/
def partAt (p : Position) : Part → Node
  | .text start content => ofText content (p.onward start)
  | .insert start content => ofExpression content (p.onward start)

theorem ofPart_shift (c : Cursor) (part : Part) :
    ofPart c (part.shift c.column) = partAt c.position part := by
  cases part with
  | text start content => rw [Part.shift, ofPart, partAt, Cursor.positionAt_add]
  | insert start content => rw [Part.shift, ofPart, partAt, Cursor.positionAt_add]

/-- The string that is cut out of a text. Nothing is cut out of an empty one. -/
def cutLine : Node → Node
  | text (.str (.chars s)) (some p) =>
    if s.toList = [] then text (.str (.chars s)) (some p)
    else .interpolatedString ((Part.read .bare 0 s.toList).1.map (partAt p)) .inherit (some p)
  | n => n

/-- The string that is read is cut out of the text that is read there otherwise. -/
theorem cutLine_ofText (hne : cs ≠ []) (hreaches : ¬ Reaches Blocked cs) :
    cutLine (ofText cs c.position) = ofParts c stopped (Part.read .bare c.column cs).1 := by
  have hparts : (Part.read .bare c.column cs).1 ≠ [] := Part.read_ne_nil hne hreaches
  have hshift := Part.read_shift .bare 0 c.column cs
  rw [Int.zero_add] at hshift
  have hempty : (Part.read .bare c.column cs).1.isEmpty = false := by simpa using hparts
  rw [ofParts, if_neg (by simp [hempty]), hshift, List.map_map, ofText, cutLine,
    String.toList_ofList, if_neg hne]
  congr 2
  funext part
  exact (ofPart_shift c part).symm

theorem lineText_partAt (p : Position) (part : Part) :
    (partAt p part).lineText = .ok (textOf part.piece.said) := by
  cases part with
  | text start content => rfl
  | insert start content => exact lineText_ofExpression content _

/-- A text in which nothing is protected says the same when it is cut. -/
theorem lineText_cutLine {s : String} (p : Option Position)
    (hplain : ¬ ['\\', '#', '\x7b'] <:+: s.toList)
    (hreaches : ¬ Reaches Blocked s.toList) :
    (cutLine (text (.str (.chars s)) p)).lineText = .ok (.str (.chars s)) := by
  cases p with
  | none => rfl
  | some p =>
    rw [cutLine]
    split
    · rfl
    · rw [lineText_ofNodes (lineText_partAt p)]
      have hsaid : ((Part.read .bare 0 s.toList).1.map Part.piece).flatMap Piece.said = s.toList :=
        Part.said_eq_self hplain hreaches
      rw [hsaid, textOf, String.ofList_toList]

/-- The lines of a filter that are texts can be read as strings. -/
def ReadsLines (n : Node) : Prop :=
  n.kind = .filter → ∀ s p q, statement (text (.str (.chars s)) p) q ∈ n.children →
    ¬ Reaches Blocked s.toList

/-- Nothing is protected in the lines of a filter that are texts. -/
def ProtectsNothing (n : Node) : Prop :=
  ∀ s p q, statement (text (.str (.chars s)) p) q ∈ n.children →
    ¬ ['\\', '#', '\x7b'] <:+: s.toList

theorem lineText_unwrap_mapLine {c : Node}
    (h : ∀ s p q, c = statement (text (.str (.chars s)) p) q →
      ¬ ['\\', '#', '\x7b'] <:+: s.toList ∧ ¬ Reaches Blocked s.toList) :
    (mapLine cutLine (c.mapLines cutLine)).unwrap.lineText = c.unwrap.lineText := by
  cases c with
  | statement content q =>
    cases content with
    | text v p =>
      change (cutLine (text v p)).lineText = (text v p).lineText
      cases v with
      | str s =>
        cases s with
        | chars s =>
          obtain ⟨hplain, hreaches⟩ := h s p q rfl
          exact lineText_cutLine p hplain hreaches
        | _ => rfl
      | _ => rfl
    | _ => rfl
  | _ => rfl

/-- The text of a filter stays the same when its lines are cut, if nothing is protected in them. -/
theorem filterContent_mapLines (hn : n.kind = .filter) (hreads : n.ReadsLines)
    (hplain : n.ProtectsNothing) : (n.mapLines cutLine).filterContent = n.filterContent := by
  cases n with
  | filter name cs p =>
    have hlines : ∀ ds, ds ⊆ cs →
        lineTexts (((ds.map (mapLines cutLine)).map (mapLine cutLine)).map unwrap) =
          lineTexts (ds.map unwrap) := by
      intro ds hds
      induction ds with
      | nil => rfl
      | cons c ds ih =>
        have hc : c ∈ cs := hds List.mem_cons_self
        have hline := lineText_unwrap_mapLine (c := c) fun s p q heq =>
          ⟨hplain s p q (heq ▸ hc), hreads rfl s p q (heq ▸ hc)⟩
        simp only [List.map_cons, lineTexts, hline, ih fun d hd => hds (List.mem_cons_of_mem c hd)]
    have hchildren := hlines cs (List.Subset.refl cs)
    rw [filterContent, filterContent, mapLines, mapLinesIn_eq_map]
    exact congrArg (fun texts => texts >>= joinTexts "\n") hchildren
  | _ => cases hn

end Node

end TemplateTree
