import TemplateTree.Proofs.Blocks
import TemplateTree.Proofs.Comparing
import TemplateTree.Proofs.Units

/-!
# Lines of filters

A filter takes the lines ahead that belong to its block, and no other line. Where its lines are kept
as they stand, each of them is a text that has lost the indentation of the block. A template with a
known unit has one such indentation for all of them: the unit, once more than the filter has it.
-/

set_option autoImplicit false

namespace TemplateTree

open Production

namespace Indent
variable {t : Indent} {u : IndentUnit}

theorem below_one (hunit : t.unit = some u) (line : List Char) :
    t.below 1 line = List.replicate (u.width * (t.level + 1)) u.char := by
  unfold below
  rw [hunit]
  dsimp only
  congr 1

/-- In a template with a known unit, a block holds the lines that are blank or indented by one
level more than its statement. -/
theorem inBlock_of_unit (hunit : t.unit = some u) (hwidth : 0 < u.width) (line : List Char) :
    inBlock t line = (Text.isBlankLine line ||
      (List.replicate (u.width * (t.level + 1)) u.char).isPrefixOf line) := by
  have hnonempty : (List.replicate (u.width * (t.level + 1)) u.char).isEmpty = false := by
    rw [List.isEmpty_replicate, decide_eq_false_iff_not]
    exact Nat.mul_ne_zero hwidth.ne' (Nat.succ_ne_zero _)
  rw [inBlock, below_one hunit, hnonempty, Bool.not_false, Bool.true_and]

/-- How much of a line of a block is its indentation. -/
def margin (t : Indent) (line : List Char) : Nat :=
  if Text.isBlankLine line then 0 else (t.below 1 line).length

theorem margin_le_length {line : List Char} (hin : inBlock t line) :
    t.margin line ≤ line.length := by
  unfold margin
  split
  · exact Nat.zero_le _
  · rename_i hblank
    rw [inBlock, Bool.or_eq_true, Bool.and_eq_true] at hin
    exact (List.isPrefixOf_iff_prefix.mp (hin.resolve_left hblank).2).length_le

end Indent

namespace Cursor
variable {c : Cursor} {line : List Char}

/-- The cursor at the end of the line that is so many lines further on. -/
def pass : Nat → Cursor → Cursor
  | 0, c => c
  | n + 1, c => c.nextLine.2.skipRest.pass n

theorem placeOn_nextLine (hp : c.peekLine = some line) (anchor : Int) :
    c.nextLine.2.skipRest.placeOn anchor = c.placeOn anchor := by
  rw [nextLine_eq hp]
  rfl

theorem upcoming_pass {lines rest : List (List Char)} (h : c.upcoming = lines ++ rest) :
    (c.pass lines.length).upcoming = rest := by
  induction lines generalizing c with
  | nil => exact h
  | cons line lines ih => exact ih (upcoming_nextLine h)

/-- The last line that was passed is read to its end. -/
theorem pass_concat {lines rest : List (List Char)} (h : c.upcoming = lines ++ line :: rest) :
    c.pass (lines.length + 1) = { c with
      entered := c.entered + (lines.length + 1), anchor := ((c.entered + lines.length : Nat) : Int),
      line, column := line.length } := by
  induction lines generalizing c with
  | nil =>
    rw [pass, nextLine_eq (peekLine_of_upcoming h)]
    rfl
  | cons first lines ih =>
    have hp := peekLine_of_upcoming h
    have hnext : c.nextLine.2.skipRest.upcoming = lines ++ line :: rest := upcoming_nextLine h
    rw [List.length_cons, pass, ih hnext, nextLine_eq hp]
    simp only [skipRest, Cursor.mk.injEq, true_and, and_true]
    omega

theorem isEnd_pass {lines rest : List (List Char)} (hend : c.isEnd)
    (h : c.upcoming = lines ++ rest) : (c.pass lines.length).isEnd := by
  rcases List.eq_nil_or_concat' lines with rfl | ⟨before, line, rfl⟩
  · exact hend
  · rw [List.append_assoc] at h
    rw [List.length_append, List.length_singleton, pass_concat h]
    exact decide_eq_true (Int.le_refl _)

end Cursor

/-- A line of a filter that is kept as it stands; `place` gives the places of its columns. -/
def Node.blockText (t : Indent) (place : Int → Position) (line : List Char) : Node :=
  (ofText (if Text.isBlankLine line then [] else line.drop (t.margin line))
    (place (t.margin line))).wrap

namespace Production
variable {g : Grammar} {r : Reading} {line : List Char}

/-- A line of a block is read from behind its indentation on. -/
theorem run_enterBlockLine (hp : r.cursor.peekLine = some line) :
    (enterBlockLine line).run r = (.ok (Text.isBlankLine line),
      { r with cursor := r.cursor.nextLine.2.skip (r.indent.margin line) }) := by
  have hnext : (discard nextLine : Production Unit).run r =
      (.ok (), { r with cursor := r.cursor.nextLine.2 }) := rfl
  have hzero := Reading.skip_zero (r := { r with cursor := r.cursor.nextLine.2 })
    (Cursor.onward_nextLine hp).1.inside
  unfold enterBlockLine Indent.margin
  change ((discard nextLine : Production Unit) >>= fun _ => _).run r = _
  rw [run_bind, hnext]
  cases Text.isBlankLine line with
  | true => exact congrArg (Prod.mk _) hzero.symm
  | false => rfl

theorem run_blockText (hraw : g.options.interpolateFilters.isTrue = false)
    (hp : r.cursor.peekLine = some line) (hin : inBlock r.indent line) :
    (do filterLine g (← enterBlockLine line) : Production Node).run r =
      (.ok (Node.blockText r.indent (r.cursor.placeOn r.cursor.entered) line),
        { r with cursor := r.cursor.nextLine.2.skipRest }) := by
  have hle := Indent.margin_le_length hin
  have hnext := Cursor.nextLine_eq hp
  have hrest : r.cursor.nextLine.2.rest = line := by
    rw [hnext]
    exact Text.tail_natCast line 0
  have hinside := (Cursor.onward_nextLine hp).1.inside
  have hposition : (r.cursor.nextLine.2.skip (r.indent.margin line)).position =
      r.cursor.placeOn r.cursor.entered (r.indent.margin line) := by
    have hcolumn : (r.cursor.nextLine.2.skip (r.indent.margin line)).column =
        r.cursor.nextLine.2.column + r.indent.margin line :=
      Cursor.column_skip hinside (by rw [hrest]; exact hle)
    rw [Cursor.position, hcolumn, hnext, Int.zero_add]
    rfl
  have hdrop := Cursor.rest_skip hinside (r.indent.margin line)
  rw [hrest] at hdrop
  rw [run_bind, run_enterBlockLine hp]
  unfold filterLine Node.blockText
  rw [← hposition, ← hdrop]
  cases Text.isBlankLine line with
  | true => rfl
  | false =>
    rw [hraw]
    rfl

/-- The lines of a block are texts, in their order, and the last one is read to its end. -/
theorem run_blockTexts (hraw : g.options.interpolateFilters.isTrue = false)
    {lines rest : List (List Char)} (hl : r.cursor.upcoming = lines ++ rest)
    (hin : ∀ line ∈ lines, inBlock r.indent line) :
    (lines.mapM fun line => do
        filterLine g (← enterBlockLine line) : Production (List Node)).run r =
      (.ok (lines.mapIdx fun i =>
          Node.blockText r.indent (r.cursor.placeOn ((r.cursor.entered + i : Nat) : Int))),
        { r with cursor := r.cursor.pass lines.length }) := by
  induction lines generalizing r with
  | nil => rfl
  | cons line lines ih =>
    have hp := Cursor.peekLine_of_upcoming hl
    have hnext : r.cursor.nextLine.2.skipRest.upcoming = lines ++ rest :=
      Cursor.upcoming_nextLine hl
    rw [List.mapM_cons, run_bind, run_blockText hraw hp (hin line List.mem_cons_self)]
    dsimp only
    have hlater := ih (r := { r with cursor := r.cursor.nextLine.2.skipRest }) hnext
      fun l hl => hin l (List.mem_cons_of_mem _ hl)
    have hentered : r.cursor.nextLine.2.skipRest.entered = r.cursor.entered + 1 := by
      rw [Cursor.nextLine_eq hp]
      rfl
    rw [run_bind, hlater, List.mapIdx_cons]
    simp only [Cursor.placeOn_nextLine hp, hentered, Nat.add_assoc, Nat.add_comm 1]
    rfl

theorem filterMarker_eq {name : List Char} (hname : '\n' ∉ name) :
    Pattern.filterMarker (':' :: name) = some ⟨name.length + 1, [some name]⟩ := by
  have hall : name.takeWhile (· != '\n') = name :=
    List.takeWhile_eq_self_iff.mpr fun c hc => by
      simpa using fun heq : c = '\n' => hname (heq ▸ hc)
  have hlength : Pattern.runLength (· != '\n') name = name.length := congrArg List.length hall
  have hcaptured : Pattern.captured Pattern.anything name = some ⟨name.length, [some name]⟩ := by
    simp [Pattern.captured, Pattern.anything, Pattern.many, Match.plain, hlength]
  simp [Pattern.filterMarker, Pattern.sequence, Pattern.andThen, Pattern.char, Pattern.satisfy,
    Match.plain, hcaptured, Nat.add_comm 1]

/-- A filter reads its name to the end of the line, and then its block. -/
theorem run_filter? (h : r.cursor.Inside) {name : List Char} (hrest : r.cursor.rest = ':' :: name)
    (hname : '\n' ∉ name) :
    (filter? g).run r = (do
      let children ← block (filterLine g)
      record (.filterBlock (String.ofList (Text.trim name)) children.length)
      return some (.filter (.str (String.ofList (Text.trim name))) children r.cursor.position)
        : Production (Option Node)).run { r with cursor := r.cursor.skipRest } := by
  have hlength : r.cursor.rest.length = name.length + 1 := by rw [hrest]; rfl
  unfold filter?
  rw [run_cursor_bind, run_bind, run_eat? h, hrest, filterMarker_eq hname, Cursor.inLine_eq h,
    ← Cursor.skip_length_rest h, hlength]
  rfl

/-- A filter whose lines are kept as they stand. -/
theorem run_filter?_texts (h : r.cursor.Inside)
    (hraw : g.options.interpolateFilters.isTrue = false) {name : List Char}
    (hrest : r.cursor.rest = ':' :: name) (hname : '\n' ∉ name) :
    (filter? g).run r =
      (.ok (some (.filter (.str (String.ofList (Text.trim name)))
          ((blockLines r).mapIdx fun i =>
            Node.blockText r.indent (r.cursor.placeOn ((r.cursor.entered + i : Nat) : Int)))
          r.cursor.position)),
        { r with
          cursor := r.cursor.skipRest.pass (blockLines r).length
          log :=
            r.log ++ [.filterBlock (String.ofList (Text.trim name)) (blockLines r).length] }) := by
  have htexts := run_blockTexts (r := { r with cursor := r.cursor.skipRest }) hraw
    (List.takeWhile_append_dropWhile (p := inBlock r.indent)).symm
    fun line hline => List.mem_takeWhile_imp hline
  have hblock : (block (filterLine g)).run { r with cursor := r.cursor.skipRest } =
      (.ok ((blockLines r).mapIdx fun i =>
          Node.blockText r.indent (r.cursor.placeOn ((r.cursor.entered + i : Nat) : Int))),
        { r with cursor := r.cursor.skipRest.pass (blockLines r).length }) := by
    unfold block
    rw [run_get_bind]
    exact htexts
  rw [run_filter? h hrest hname, run_bind, hblock]
  dsimp only
  rw [List.length_mapIdx]
  rfl

/-- A filter in a template with a known unit, whose lines are kept as they stand. It takes the
longest run of lines ahead that are blank or indented by one level more than it. Each of them is a
text without that indentation, a blank one an empty text. The last one is read to its end, so the
next line to be read is the first one outside the block. -/
theorem run_filter?_of_unit {u : IndentUnit} {name indent : List Char} {lines : List (List Char)}
    (h : r.cursor.Inside) (hunit : r.indent.unit = some u) (hwidth : 0 < u.width)
    (hraw : g.options.interpolateFilters.isTrue = false)
    (hrest : r.cursor.rest = ':' :: name) (hname : '\n' ∉ name)
    (hindent : List.replicate (u.width * (r.indent.level + 1)) u.char = indent)
    (hlines : (r.cursor.upcoming.takeWhile fun line =>
      Text.isBlankLine line || indent.isPrefixOf line) = lines) :
    ∃ stopped,
      (filter? g).run r =
        (.ok (some (.filter (.str (String.ofList (Text.trim name)))
            (lines.mapIdx fun i line =>
              (Node.ofText (if Text.isBlankLine line then [] else line.drop indent.length)
                (r.cursor.placeOn ((r.cursor.entered + i : Nat) : Int)
                  (if Text.isBlankLine line then 0 else indent.length : Nat))).wrap)
            r.cursor.position)),
          { r with
            cursor := stopped
            log := r.log ++ [.filterBlock (String.ofList (Text.trim name)) lines.length] }) ∧
      stopped.isEnd ∧
      (∀ last ∈ lines.getLast?,
        stopped.line = last ∧ stopped.lineIndex = r.cursor.lineIndex + lines.length) ∧
      (stopped.upcoming = r.cursor.upcoming.dropWhile fun line =>
        Text.isBlankLine line || indent.isPrefixOf line) ∧
      stopped.nextLine.2.line = (r.cursor.upcoming.dropWhile fun line =>
        Text.isBlankLine line || indent.isPrefixOf line).headD [] := by
  have hin : inBlock r.indent = fun line => Text.isBlankLine line || indent.isPrefixOf line := by
    funext line
    rw [Indent.inBlock_of_unit hunit hwidth, hindent]
  have hmargin (line : List Char) : r.indent.margin line =
      if Text.isBlankLine line then 0 else indent.length := by
    rw [Indent.margin, Indent.below_one hunit, hindent]
  rw [← hin] at hlines ⊢
  obtain rfl : blockLines r = lines := hlines
  have hl : r.cursor.skipRest.upcoming =
      blockLines r ++ r.cursor.upcoming.dropWhile (inBlock r.indent) :=
    List.takeWhile_append_dropWhile.symm
  have hupcoming := Cursor.upcoming_pass hl
  have hend : r.cursor.skipRest.isEnd := decide_eq_true (Int.le_refl _)
  refine ⟨_, ?_, Cursor.isEnd_pass hend hl, ?_, hupcoming, ?_⟩
  · have htext : Node.blockText r.indent = fun place line =>
        (Node.ofText (if Text.isBlankLine line then [] else line.drop indent.length)
          (place (if Text.isBlankLine line then 0 else indent.length : Nat))).wrap := by
      funext place line
      rw [Node.blockText, hmargin]
      cases Text.isBlankLine line <;> rfl
    rw [run_filter?_texts h hraw hrest hname, htext]
  · intro last hlast
    obtain ⟨before, hbefore⟩ := List.getLast?_eq_some_iff.mp hlast
    rw [hbefore, List.append_assoc] at hl
    rw [hbefore, List.length_append, List.length_singleton, Cursor.pass_concat hl]
    refine ⟨rfl, ?_⟩
    simp only [Cursor.lineIndex, Cursor.skipRest]
    omega
  · cases hdrop : r.cursor.upcoming.dropWhile (inBlock r.indent) with
    | nil =>
      rw [hdrop] at hupcoming
      rw [Cursor.nextLine_eq_of_none (by rw [Cursor.peekLine_eq, hupcoming]; rfl)]
      rfl
    | cons line rest =>
      rw [hdrop] at hupcoming
      rw [Cursor.nextLine_eq (Cursor.peekLine_of_upcoming hupcoming)]
      rfl

/-- A filter below a tag, with a line in its block that is indented further and a blank one, before
a line outside the block. -/
theorem run_filter?_of_unit_nested :
    ∃ (r : Reading) (children : List Node) (stopped : Cursor), r.cursor.Inside ∧
      r.indent = ⟨some ⟨' ', 2⟩, 1, 0⟩ ∧ r.cursor.rest = ":f".toList ∧
      r.cursor.upcoming = ["    a".toList, [], "      b".toList, "  c".toList] ∧
      (filter? (.standard .haml)).run r =
        (.ok (some (.filter (.str "f") children r.cursor.position)),
          { r with cursor := stopped, log := [.filterBlock "f" 3] }) ∧
      children.map (fun n => n.unwrap.lineText.toOption) =
        [some (.str "a"), some (.str ""), some (.str "  b")] ∧
      stopped.line = "      b".toList ∧ stopped.nextLine.2.line = "  c".toList := by
  let start := Cursor.start "%a\n  :f\n    a\n\n      b\n  c".toList "t" 1
  let r : Reading := ⟨start.nextLine.2.nextLine.2.skip 2, ⟨some ⟨' ', 2⟩, 1, 0⟩,
    .start (.root [] none) .null, []⟩
  have hinside : r.cursor.Inside := ⟨by decide +kernel, by decide +kernel, by decide +kernel,
    by decide +kernel⟩
  have hrest : r.cursor.rest = ':' :: ['f'] := by decide +kernel
  have hindent : List.replicate (2 * (1 + 1)) ' ' = "    ".toList := by decide
  have hlines : (r.cursor.upcoming.takeWhile fun line =>
      Text.isBlankLine line || "    ".toList.isPrefixOf line) =
      ["    a".toList, [], "      b".toList] := by decide +kernel
  obtain ⟨stopped, hrun, -, hlast, -, hnext⟩ := run_filter?_of_unit (g := .standard .haml)
    (u := ⟨' ', 2⟩) hinside rfl (by decide) rfl hrest (by decide) hindent hlines
  refine ⟨r, _, stopped, hinside, rfl, by decide +kernel, by decide +kernel, hrun, ?_,
    (hlast "      b".toList (by decide +kernel)).1, ?_⟩
  · have ha : Text.isBlankLine "    a".toList = false := by decide
    have hempty : Text.isBlankLine [] = true := rfl
    have hb : Text.isBlankLine "      b".toList = false := by decide
    simp only [List.mapIdx_cons, List.mapIdx_nil, ha, hempty, hb, Node.ofText, Node.wrap,
      List.map_cons, List.map_nil, Node.unwrap, Node.lineText]
    rfl
  · rw [hnext]
    decide +kernel

end Production

end TemplateTree
