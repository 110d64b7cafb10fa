import TemplateTree.Proofs.Limits
import TemplateTree.Proofs.LineTexts
import TemplateTree.Proofs.Remainders

/-!
# Blocks before and after the unit is known

A filter of the first level may be the first statement of a template, or it comes after the unit of
indentation is known. Its block holds the same lines then. Known, the unit is what a line loses; a
block that comes first loses one blank of every line and keeps the others.
-/

set_option autoImplicit false

namespace TemplateTree

open Production

namespace Production
variable {g : Grammar} {r s : Reading} {name : List Char} {block : List (List Char)}

/-- What comes before filters in the grammar does not start with a colon. -/
theorem run_statement?_of_filter (h : r.cursor.Inside) (hrest : r.cursor.rest = ':' :: name) :
    (statement? g).run r = (do
      match ← filter? g with
      | some node => return some node
      | none => firstOf [comment? g, run?, doctype? g.dialect, return (← inline? g).map Node.wrap] :
        Production (Option Node)).run r := by
  have htag : (tag? g).run r = (.ok none, r) := by
    unfold tag?
    rw [run_cursor_bind, run_bind, run_eat? h, hrest]
    cases g.dialect <;> rfl
  have hextra : (extra? g).run r = (.ok none, r) := by
    unfold extra?
    cases g.dialect with
    | haml => rfl
    | jade =>
      have hdoctype : (doctype? .jade).run r = (.ok none, r) := by
        unfold doctype?
        rw [run_cursor_bind, run_bind, run_eat? h, hrest]
        rfl
      have hpipe : (eat .pipe).run r = (.ok false, r) := by
        rw [run_eat h, hrest]
        rfl
      have hmarkup : (eat .markup).run r = (.ok false, r) := by
        rw [run_eat h, hrest]
        rfl
      have hliteral : (literalLine? g).run r = (.ok none, r) := by
        unfold literalLine?
        rw [run_cursor_bind]
        cases g.options.pipedText.isTrue <;> simp [run_bind, hpipe, hmarkup] <;> rfl
      dsimp only
      rw [run_bind, hdoctype]
      exact hliteral
  unfold statement? firstOf
  rw [run_bind, hextra]
  unfold firstOf
  dsimp only
  rw [run_bind, htag]
  unfold firstOf
  rfl

/-- The reading that has entered a line of the first level. -/
def onTopLine (r : Reading) : Reading :=
  { r with cursor := r.cursor.nextLine.2, indent := ⟨r.indent.unit, 0, r.indent.level⟩ }

theorem run_checkIndent_nil (atStart : Bool) : (checkIndent [] atStart).run r =
    (.ok 0, { r with indent := ⟨r.indent.unit, 0, r.indent.level⟩ }) := by
  have hcheck : r.indent.check [] atStart = (.ok 0, ⟨r.indent.unit, 0, r.indent.level⟩) := rfl
  unfold checkIndent
  rw [run_get_bind, run_get_bind, hcheck]
  cases r.indent.unit <;> rfl

section Lines
variable (hl : r.cursor.upcoming = (':' :: name) :: block)
  (hplain : Text.isMultiline (':' :: name) = false)
include hl

theorem rest_onTopLine : (onTopLine r).cursor.rest = ':' :: name := by
  have hstarts := Cursor.starts_nextLine hl
  rw [onTopLine, Cursor.rest, hstarts.line, hstarts.column]
  rfl

include hplain

theorem run_nextEntry_onTopLine : (nextEntry g).run r = (do
    let said ← (do
      match ← statement? g with
      | none => expected .statement
      | some node => return .statement node 0 (← get).indent.previous : Production Entry)
    return some said : Production (Option Entry)).run (onTopLine r) := by
  have hstarts := Cursor.starts_nextLine hl
  have hinside : r.cursor.nextLine.2.Inside := hstarts.inside
  have hblank : Text.isBlankLine r.cursor.nextLine.2.line = false := by
    rw [hstarts.line]
    rfl
  have hrest : r.cursor.nextLine.2.rest = ':' :: name := rest_onTopLine hl
  have hindent : Pattern.run Text.isIndent r.cursor.nextLine.2.rest = [] := by
    rw [hrest]
    rfl
  have hlength : Pattern.runLength Text.isIndent r.cursor.nextLine.2.rest = 0 :=
    congrArg List.length hindent
  have hskip := Reading.skip_zero (r := { r with cursor := r.cursor.nextLine.2 }) hinside
  rw [run_nextEntry (Cursor.peekLine_of_upcoming hl),
    Cursor.joined_of_plain (by rw [hstarts.line, hplain]), run_bind, run_bind]
  unfold entry
  rw [run_cursor_bind, hblank, if_neg Bool.false_ne_true]
  dsimp only
  rw [hindent, run_skipIndent_bind hinside, hlength, hskip, run_get_bind, run_bind,
    run_checkIndent_nil]
  rfl

variable {node : Node} {e : Failure}

theorem run_nextEntry_of_filter (hfilter : (filter? g).run (onTopLine r) = (.ok (some node), s)) :
    (nextEntry g).run r = (.ok (some (.statement node 0 s.indent.previous)), s) := by
  have hinside : (onTopLine r).cursor.Inside := (Cursor.starts_nextLine hl).inside
  rw [run_nextEntry_onTopLine hl hplain, run_bind, run_bind,
    run_statement?_of_filter hinside (rest_onTopLine hl), run_bind, hfilter]
  rfl

theorem run_nextEntry_of_filter_refused
    (hfilter : (filter? g).run (onTopLine r) = (.error e, s)) :
    (nextEntry g).run r = (.error e, s) := by
  have hinside : (onTopLine r).cursor.Inside := (Cursor.starts_nextLine hl).inside
  rw [run_nextEntry_onTopLine hl hplain, run_bind, run_bind,
    run_statement?_of_filter hinside (rest_onTopLine hl), run_bind, hfilter]

end Lines

end Production

namespace Run
variable {g : Grammar} {source filename : String} {firstLine : Int} {es : List Entry} {r : Reading}
  {name : List Char} {block after : List (List Char)}

section Next
variable (hrun : Run g (.opening g source filename firstLine) es r)
  (hl : r.cursor.upcoming = (':' :: name) :: (block ++ after))
  (hplain : Text.isMultiline (':' :: name) = false)
  (hblock : ∀ line ∈ block, inBlock (onTopLine r).indent line)
  (hafter : ∀ line ∈ after.head?, ¬ inBlock (onTopLine r).indent line)
include hl

theorem blockLines_onTopLine (hblock : ∀ line ∈ block, inBlock (onTopLine r).indent line)
    (hafter : ∀ line ∈ after.head?, ¬ inBlock (onTopLine r).indent line) :
    blockLines (onTopLine r) = block := by
  have hahead : (onTopLine r).cursor.upcoming = block ++ after := Cursor.upcoming_nextLine hl
  have hends : after.takeWhile (inBlock (onTopLine r).indent) = [] := by
    cases after with
    | nil => rfl
    | cons line after => exact List.takeWhile_cons_of_neg (hafter line rfl)
  unfold blockLines
  refine (congrArg (List.takeWhile _) hahead).trans ?_
  rw [List.takeWhile_append_of_pos hblock, hends, List.append_nil]

include hrun

theorem lf_notMem_name : '\n' ∉ name := by
  obtain ⟨line, hline, htext⟩ := Option.map_eq_some_iff.mp (Cursor.peekLine_of_upcoming hl)
  have hmem := List.mem_of_getElem? hline
  rw [hrun.settled.lines] at hmem
  have hnot := Text.lf_notMem_ofSource _ line hmem
  rw [htext] at hnot
  exact fun hname => hnot (List.mem_cons_of_mem _ hname)

include hplain hblock hafter

/-- A filter of the first level comes after the statements that were read before it. -/
theorem exists_step_of_filter
    (htakes : ∀ line ∈ block, g.TakesBlockLine (onTopLine r).indent line) :
    ∃ lines p s, Run g (.opening g source filename firstLine) (es ++
        [.statement (.filter (.str (String.ofList (Text.trim name))) lines p) 0 r.indent.level]) s ∧
      s.cursor.upcoming = after ∧
      s.outline.root.children = r.outline.root.children ++
        [.filter (.str (String.ofList (Text.trim name))) lines p] ∧
      lines.map (fun n => n.unwrap.lineText) =
        block.map fun line => .ok (Node.textOf (g.blockLineSaid (onTopLine r).indent line)) := by
  have hset := hrun.settled
  have hinside : (onTopLine r).cursor.Inside := (Cursor.starts_nextLine hl).inside
  have hahead := blockLines_onTopLine hl hblock hafter
  rw [← hahead] at htakes
  obtain ⟨lines, hfilter, htexts⟩ := run_filter?_said hinside (rest_onTopLine hl)
    (lf_notMem_name hrun hl) htakes
  rw [hahead] at hfilter htexts
  have hroot : r.outline.root.canNest := by rw [Node.canNest, hset.isRoot]; rfl
  have haccepts : Outline.refusal? (r.outline.root.lastAt 0) = none := by
    have hkind := hset.isRoot
    cases hcases : r.outline.root <;> rw [hcases] at hkind <;> cases hkind
    rfl
  have hat := hset.levelled.grown.atLevel
  rw [← hset.level] at hat
  have hinsert (node : Node) : r.outline.insert node (0 : Nat) r.indent.level =
      (.ok (), r.outline.withStatement node 0) := by
    rw [Outline.insert_eq hat (Nat.zero_le _) fun _ => rfl, Outline.attach_eq, haccepts,
      if_neg fun hlt => Nat.not_lt_zero _ hlt.1]
  have hreads := run_nextEntry_of_filter hl hplain hfilter
  have hnext : (onTopLine r).cursor.skipRest.upcoming = block ++ after :=
    Cursor.upcoming_nextLine hl
  exact ⟨lines, (onTopLine r).cursor.position, _,
    Run.step hrun hreads (place_statement_iff.mpr ⟨_, hinsert _, rfl⟩), Cursor.upcoming_pass hnext,
    Node.children_withChildren hroot _, htexts⟩

/-- A filter with a line that it cannot read is refused. -/
theorem readTemplate_of_filter_refused
    (hnot : ¬ ∀ line ∈ block, g.TakesBlockLine (onTopLine r).indent line) :
    ∃ e, (readTemplate g source filename firstLine).1 = .error (.refused e) := by
  have hinside : (onTopLine r).cursor.Inside := (Cursor.starts_nextLine hl).inside
  rw [← blockLines_onTopLine hl hblock hafter] at hnot
  obtain ⟨e, s, hfilter⟩ := run_filter?_refused hinside (rest_onTopLine hl)
    (lf_notMem_name hrun hl) hnot
  exact ⟨e,
    hrun.readTemplate_eq_of_ends (.unread (run_nextEntry_of_filter_refused hl hplain hfilter))⟩

end Next

end Run

namespace Grammar
variable {g : Grammar} {c : Char} {cs : List Char}

theorem said_replicate (hc : Text.isIndent c) (n : Nat) :
    g.said (List.replicate n c ++ cs) = List.replicate n c ++ g.said cs := by
  unfold said
  split
  · induction n with
    | zero => rfl
    | succ n ih =>
      rw [List.replicate_succ, List.cons_append, Part.said_cons hc, ih, List.cons_append]
  · rfl

theorem refusesLine_replicate (hc : Text.isIndent c) (n : Nat) :
    g.RefusesLine (List.replicate n c ++ cs) ↔ g.RefusesLine cs := by
  refine and_congr_right fun _ => ?_
  induction n with
  | zero => rfl
  | succ n ih => rw [List.replicate_succ, List.cons_append, Part.blocked_cons_iff hc, ih]

end Grammar

/-- A line that is indented by one unit has lost one blank, and the others stand before the rest. -/
theorem Text.drop_one_of_replicate {c : Char} {w : Nat} {line : List Char} (hw : 0 < w)
    (h : List.replicate w c <+: line) :
    line.drop 1 = List.replicate (w - 1) c ++ line.drop w := by
  obtain ⟨rest, rfl⟩ := h
  obtain ⟨n, rfl⟩ := Nat.exists_eq_succ_of_ne_zero hw.ne'
  rw [List.drop_left' List.length_replicate, List.replicate_succ]
  rfl

namespace Indent
variable {t : Indent} {c : Char} {w : Nat} {line : List Char}

theorem below_of_unknown (hunit : t.unit = none) (hc : Text.isIndent c) (hw : 0 < w)
    (h : List.replicate w c <+: line) : t.below 1 line = [c] := by
  obtain ⟨rest, rfl⟩ := h
  obtain ⟨n, rfl⟩ := Nat.exists_eq_succ_of_ne_zero hw.ne'
  unfold below
  rw [hunit, List.replicate_succ]
  simp [hc]

/-- While no unit is known, the first blank of a line is the indentation of its block. -/
theorem inBlock_of_unknown (hunit : t.unit = none) (hc : Text.isIndent c) (hw : 0 < w)
    (h : Text.isBlankLine line ∨ List.replicate w c <+: line) : inBlock t line := by
  unfold inBlock
  rcases h with hblank | hprefix
  · rw [hblank]
    rfl
  · have hfirst : [c] <+: line := by
      refine List.IsPrefix.trans ?_ hprefix
      obtain ⟨n, rfl⟩ := Nat.exists_eq_succ_of_ne_zero hw.ne'
      exact ⟨List.replicate n c, rfl⟩
    rw [below_of_unknown hunit hc hw hprefix, List.isPrefixOf_iff_prefix.mpr hfirst]
    simp

theorem inBlock_iff_of_known (hunit : t.unit = some ⟨c, w⟩) (hlevel : t.level = 0) (hw : 0 < w) :
    inBlock t line ↔ Text.isBlankLine line ∨ List.replicate w c <+: line := by
  rw [inBlock_of_unit hunit hw, hlevel, Nat.zero_add, Nat.mul_one, Bool.or_eq_true,
    List.isPrefixOf_iff_prefix]

end Indent

namespace Grammar
variable {g : Grammar} {t : Indent} {c : Char} {w : Nat} {line : List Char}

theorem blockLineSaid_of_unknown (hunit : t.unit = none) (hc : Text.isIndent c) (hw : 0 < w)
    (h : Text.isBlankLine line ∨ List.replicate w c <+: line) : g.blockLineSaid t line =
      if Text.isBlankLine line then [] else List.replicate (w - 1) c ++ g.said (line.drop w) := by
  unfold blockLineSaid Indent.margin
  split
  · rfl
  · rename_i hblank
    have hprefix := h.resolve_left hblank
    rw [Indent.below_of_unknown hunit hc hw hprefix, List.length_singleton,
      Text.drop_one_of_replicate hw hprefix, said_replicate hc]

theorem blockLineSaid_of_known (hunit : t.unit = some ⟨c, w⟩) (hlevel : t.level = 0) :
    g.blockLineSaid t line = if Text.isBlankLine line then [] else g.said (line.drop w) := by
  unfold blockLineSaid Indent.margin
  rw [Indent.below_one hunit, hlevel, List.length_replicate, Nat.zero_add, Nat.mul_one]
  split <;> rfl

theorem takesBlockLine_iff {t' : Indent} (hunit : t.unit = none) (hunit' : t'.unit = some ⟨c, w⟩)
    (hlevel : t'.level = 0) (hc : Text.isIndent c) (hw : 0 < w)
    (h : Text.isBlankLine line ∨ List.replicate w c <+: line) :
    g.TakesBlockLine t line ↔ g.TakesBlockLine t' line := by
  unfold TakesBlockLine Indent.margin
  by_cases hblank : Text.isBlankLine line
  · simp only [hblank, true_or]
  · have hprefix := h.resolve_left hblank
    rw [if_neg hblank, if_neg hblank, Indent.below_of_unknown hunit hc hw hprefix,
      Indent.below_one hunit', hlevel, List.length_singleton, List.length_replicate, Nat.zero_add,
      Nat.mul_one, Text.drop_one_of_replicate hw hprefix, refusesLine_replicate hc]

/-- Without interpolation every line is read. -/
theorem interpolates_of_not_takesBlockLine (h : ¬ g.TakesBlockLine t line) :
    g.options.interpolateFilters.isTrue :=
  (not_not.mp (not_or.mp h).2).1

end Grammar

theorem Node.textOf_inj {cs ds : List Char} : textOf cs = textOf ds ↔ cs = ds := by
  refine ⟨fun h => ?_, congrArg textOf⟩
  simpa using congrArg String.toList (Str.chars.inj (Value.str.inj h))

section Filters
variable {g : Grammar} {c : Char} {w : Nat} {name : List Char} {block after : List (List Char)}
  {alone document filename filename' : String} {firstLine firstLine' : Int} {es : List Entry}
  {r : Reading}

/-- A filter of the first level with its block is a template on its own, and in another template
the same lines come after the unit of indentation is known. Either both templates are refused for a
line with an expression that cannot be read, or both have the filter. On its own it loses one blank
of every line that is not blank, and with a known unit it loses the whole unit. So its lines say the
same if and only if the unit is one blank wide, or there are blank lines only. -/
theorem readTemplate_filter_unit (hc : Text.isIndent c) (hw : 0 < w)
    (hplain : Text.isMultiline (':' :: name) = false)
    (hblock : ∀ line ∈ block, Text.isBlankLine line ∨ List.replicate w c <+: line)
    (halone : (Text.Line.ofSource alone.toList).map (·.text) = (':' :: name) :: block)
    (hrun : Run g (.opening g document filename' firstLine') es r)
    (hunit : r.indent.unit = some ⟨c, w⟩)
    (hahead : r.cursor.upcoming = (':' :: name) :: (block ++ after))
    (hafter : ∀ line ∈ after.head?, ¬ (Text.isBlankLine line ∨ List.replicate w c <+: line)) :
    (g.options.interpolateFilters.isTrue ∧
      ∃ e e', (readTemplate g alone filename firstLine).1 = .error (.refused e) ∧
        (readTemplate g document filename' firstLine').1 = .error (.refused e')) ∨
    ∃ root lines lines' p p' s,
      (readTemplate g alone filename firstLine).1 = .ok root ∧
      root.children = [.filter (.str (String.ofList (Text.trim name))) lines p] ∧
      Run g (.opening g document filename' firstLine') (es ++
        [.statement (.filter (.str (String.ofList (Text.trim name))) lines' p') 0 r.indent.level]) s ∧
      s.cursor.upcoming = after ∧
      s.outline.root.children = r.outline.root.children ++
        [.filter (.str (String.ofList (Text.trim name))) lines' p'] ∧
      (after = [] → (readTemplate g document filename' firstLine').1 = .ok s.outline.root) ∧
      (lines.map fun n => n.unwrap.lineText) = (block.map fun line => .ok (Node.textOf
        (if Text.isBlankLine line then []
          else List.replicate (w - 1) c ++ g.said (line.drop w)))) ∧
      (lines'.map fun n => n.unwrap.lineText) = (block.map fun line => .ok (Node.textOf
        (if Text.isBlankLine line then [] else g.said (line.drop w)))) ∧
      ((lines.map fun n => n.unwrap.lineText) = (lines'.map fun n => n.unwrap.lineText) ↔
        w = 1 ∨ ∀ line ∈ block, Text.isBlankLine line) := by
  have hopening : (Reading.opening g alone filename firstLine).cursor.upcoming =
      (':' :: name) :: (block ++ []) := by
    rw [List.append_nil]
    exact halone
  have hunknown : ∀ line ∈ block, inBlock
      (onTopLine (.opening g alone filename firstLine)).indent line :=
    fun line hline => Indent.inBlock_of_unknown rfl hc hw (hblock line hline)
  have hknown : ∀ line, inBlock (onTopLine r).indent line ↔
      Text.isBlankLine line ∨ List.replicate w c <+: line :=
    fun line => Indent.inBlock_iff_of_known hunit rfl hw
  have hinside : ∀ line ∈ block, inBlock (onTopLine r).indent line :=
    fun line hline => (hknown line).mpr (hblock line hline)
  have houtside : ∀ line ∈ after.head?, ¬ inBlock (onTopLine r).indent line :=
    fun line hline => mt (hknown line).mp (hafter line hline)
  have hboth : ∀ line ∈ block, (g.TakesBlockLine
      (onTopLine (.opening g alone filename firstLine)).indent line ↔
        g.TakesBlockLine (onTopLine r).indent line) :=
    fun line hline => Grammar.takesBlockLine_iff rfl hunit rfl hc hw (hblock line hline)
  by_cases htakes : ∀ line ∈ block, g.TakesBlockLine (onTopLine r).indent line
  · refine .inr ?_
    obtain ⟨lines, p, t, hstart, hend, hchildren, htexts⟩ := Run.start.exists_step_of_filter hopening
      hplain hunknown nofun fun line hline => (hboth line hline).mpr (htakes line hline)
    obtain ⟨lines', p', s, hrun', hend', hchildren', htexts'⟩ :=
      hrun.exists_step_of_filter hahead hplain hinside houtside htakes
    replace htexts := htexts.trans <| List.map_congr_left fun line hline => by
      rw [Grammar.blockLineSaid_of_unknown rfl hc hw (hblock line hline)]
    replace htexts' := htexts'.trans <| List.map_congr_left fun line _ => by
      rw [Grammar.blockLineSaid_of_known (t := (onTopLine r).indent) hunit rfl]
    refine ⟨t.outline.root, lines, lines', p, p', s, hstart.readTemplate_of_upcoming hend, hchildren,
      hrun', hend', hchildren', fun hlast => hrun'.readTemplate_of_upcoming (hend'.trans hlast),
      htexts, htexts', ?_⟩
    rw [htexts, htexts', List.map_inj_left]
    constructor
    · intro hsame
      refine Classical.or_iff_not_imp_right.mpr fun hnot => ?_
      obtain ⟨line, hline, hblank⟩ := not_forall₂.mp hnot
      -- a line that is not blank is longer by `w - 1` blanks on its own
      have htext := hsame line hline
      rw [if_neg hblank, if_neg hblank] at htext
      have hlength := congrArg List.length (Node.textOf_inj.mp (Except.ok.inj htext))
      rw [List.length_append, List.length_replicate] at hlength
      omega
    · rintro (rfl | hblank) line hline
      · rfl
      · rw [if_pos (hblank line hline), if_pos (hblank line hline)]
  · refine .inl ⟨?_, ?_⟩
    · obtain ⟨line, hnot⟩ := not_forall.mp htakes
      exact Grammar.interpolates_of_not_takesBlockLine fun h => hnot fun _ => h
    · obtain ⟨e, he⟩ := Run.start.readTemplate_of_filter_refused hopening hplain hunknown nofun
        fun h => htakes fun line hline => (hboth line hline).mp (h line hline)
      obtain ⟨e', he'⟩ :=
        hrun.readTemplate_of_filter_refused hahead hplain hinside houtside htakes
      exact ⟨e, e', he, he'⟩

/-- A filter with a blank line in its block, on its own and after a tag that sets the unit to two
spaces. -/
theorem readTemplate_filter_unit_two : ∃ root root' lines lines' p p',
    (readTemplate (.standard .haml) ":f\n  a\n\n    b" "t" 1).1 = .ok root ∧
      (readTemplate (.standard .haml) ("%c\n  d\n" ++ ":f\n  a\n\n    b") "t" 1).1 = .ok root' ∧
      root.children = [.filter (.str "f") lines p] ∧
      root'.children.getLast? = some (.filter (.str "f") lines' p') ∧
      (lines.map fun n => n.unwrap.lineText) = [.ok (.str " a"), .ok (.str ""), .ok (.str "   b")] ∧
      (lines'.map fun n => n.unwrap.lineText) =
        [.ok (.str "a"), .ok (.str ""), .ok (.str "  b")] := by
  have hevalA : (readTemplate (.standard .haml) "%c\n  d\n" "t" 1).1.toOption.isSome := by
    decide +kernel
  have hunitA : (readTemplate (.standard .haml) "%c\n  d\n" "t" 1).2.indent.unit =
    some ⟨' ', 2⟩ := by decide +kernel
  have hlines : (Text.Line.ofSource ":f\n  a\n\n    b".toList).map (·.text) =
      (':' :: ['f']) :: ["  a".toList, [], "    b".toList] := by decide +kernel
  have hover : StartsOver ((Text.Line.ofSource ":f\n  a\n\n    b".toList).map (·.text)) := by
    rw [hlines]
    intro line hline
    obtain rfl := Option.some.inj hline
    exact ⟨rfl, by decide, rfl⟩
  rcases ha : (readTemplate (.standard .haml) "%c\n  d\n" "t" 1).1 with _ | rootA
  · rw [ha] at hevalA
    cases hevalA
  obtain ⟨es, r, hrun, hend, -, hindent⟩ := exists_run_to_end ha
  obtain ⟨es', r', hrun', hfollows⟩ :=
    exists_run_append (b := ":f\n  a\n\n    b") (by decide) hover hrun
  have hunit : r'.indent.unit = some ⟨' ', 2⟩ := by
    rw [hfollows.unit, ← hindent, hunitA]
    rfl
  have hahead := hfollows.ahead.upcoming
  rw [hend, List.nil_append] at hahead
  have hblock : ∀ line ∈ ["  a".toList, [], "    b".toList],
      Text.isBlankLine line ∨ List.replicate 2 ' ' <+: line := by decide
  obtain ⟨hinterpolates, -⟩ | ⟨root, lines, lines', p, p', s, hroot, hchildren, -, -, hchildren',
      hlast, htexts, htexts', -⟩ :=
    @readTemplate_filter_unit _ ' ' 2 _ _ [] _ _ "t" _ 1 _ _ _ rfl (by decide) (by decide) hblock
      hlines hrun' hunit (hahead.trans hlines) nofun
  · cases hinterpolates
  · refine ⟨root, s.outline.root, lines, lines', p, p', hroot, hlast rfl, hchildren, ?_, ?_, ?_⟩
    · rw [hchildren', List.getLast?_concat]
      rfl
    · rw [htexts]
      rfl
    · rw [htexts']
      rfl

/-- A line of two spaces and a letter keeps one space when no unit is known, and none when the unit
is two spaces. -/
theorem readTemplate_filter_unit_differs :
    ((readTemplate (.standard .haml) ":plain\n  a" "t" 1).1.toOption.bind fun root =>
        root.children.getLast?.bind fun n => n.filterContent.toOption) = some " a" ∧
      ((readTemplate (.standard .haml) "%a\n  b\n:plain\n  a" "t" 1).1.toOption.bind fun root =>
        root.children.getLast?.bind fun n => n.filterContent.toOption) = some "a" := by
  decide +kernel

end Filters

end TemplateTree
