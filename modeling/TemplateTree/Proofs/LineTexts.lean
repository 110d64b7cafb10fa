import TemplateTree.Proofs.BareText
import TemplateTree.Proofs.FilterBlocks

/-!
# What the lines of filters say

A line of a filter is a text, or a string where filters are interpolated. The text of the filter has
the line for the first, and for the second its runs of text and its expressions between braces. The
two differ only where a backslash protects an opening.
-/

set_option autoImplicit false

namespace TemplateTree

theorem Text.intercalate_ofList (texts : List (List Char)) :
    "".intercalate (texts.map String.ofList) = String.ofList texts.flatten := by
  have hflatten : List.intercalate [] texts = texts.flatten := by
    induction texts with
    | nil => rfl
    | cons first texts ih =>
      cases texts with
      | nil => simp
      | cons second texts =>
        rw [List.intercalate_cons_cons, ih, List.append_nil, ← List.flatten_cons]
  apply String.toList_injective
  rw [String.toList_intercalate, List.map_map, String.toList_ofList, ← hflatten]
  simp [Function.comp_def]

/-- A text that protects nothing is written as it is. -/
theorem Quoting.escape_eq_self {cs : List Char}
    (h : ¬ ['\\', '#', '\x7b'] <:+: escape bare cs) : escape bare cs = cs := by
  generalize hq : bare = q at h ⊢
  fun_induction escape q cs with
  | case1 => rfl
  | case2 q rest => exact absurd (List.prefix_append ['\\', '#', '\x7b'] _).isInfix h
  | case3 | case4 => cases hq
  | case5 q c rest _ _ _ ih => rw [ih hq fun hin => h (List.infix_cons hin)]

namespace Piece

/-- What the text of a filter has for a piece. -/
def said : Piece → List Char
  | text content => content
  | insert content => '#' :: '\x7b' :: (content ++ ['\x7d'])

/-- Where nothing is protected, a filter has its pieces as they are written. -/
theorem flatMap_said {pieces : List Piece}
    (h : ¬ ['\\', '#', '\x7b'] <:+: pieces.flatMap (write .bare)) :
    pieces.flatMap said = pieces.flatMap (write .bare) := by
  induction pieces with
  | nil => rfl
  | cons p pieces ih =>
    rw [List.flatMap_cons] at h
    rw [List.flatMap_cons, List.flatMap_cons,
      ih fun hin => h (hin.trans (List.suffix_append _ _).isInfix)]
    congr 1
    cases p with
    | text content =>
      have hcontent : ¬ ['\\', '#', '\x7b'] <:+: Quoting.bare.escape content :=
        fun hin => h (hin.trans (List.prefix_append _ _).isInfix)
      exact (Quoting.escape_eq_self hcontent).symm
    | insert content => rfl

end Piece

namespace Node

/-- A text value of the given characters. -/
def textOf (cs : List Char) : Value := .str (.chars (String.ofList cs))

theorem lineText_ofExpression (cs : List Char) (p : Position) :
    (ofExpression cs p).lineText = .ok (textOf (Piece.insert cs).said) := by
  change (.ok (.str ("#\x7b" ++ String.ofList cs ++ "\x7d" : String)) :
    Except FilterError Value) = _
  have htext : "#\x7b" ++ String.ofList cs ++ "\x7d" = String.ofList (Piece.insert cs).said := by
    apply String.toList_injective
    simp [Piece.said]
  rw [htext]
  rfl

theorem lineText_ofPart (c : Cursor) (p : Part) :
    (ofPart c p).lineText = .ok (textOf p.piece.said) := by
  cases p with
  | text start content => rfl
  | insert start content => exact lineText_ofExpression content _

theorem joinTexts_textOf (separator : String) (texts : List (List Char)) :
    joinTexts separator (texts.map textOf) =
      .ok (separator.intercalate (texts.map String.ofList)) := by
  have hall : ∀ f : Value → Except FilterError String,
      (∀ cs, f (textOf cs) = .ok (String.ofList cs)) →
      (texts.map textOf).mapM f = .ok (texts.map String.ofList) := by
    intro f hf
    induction texts with
    | nil => rfl
    | cons cs texts ih =>
      rw [List.map_cons, List.mapM_cons, hf, ih]
      rfl
  unfold joinTexts
  rw [hall _ fun _ => rfl]
  rfl

/-- A string says what its parts say. -/
theorem lineText_ofNodes {node : Part → Node}
    (hnode : ∀ p, (node p).lineText = .ok (textOf p.piece.said)) (parts : List Part) (e : Escaping)
    (p : Option Position) : (interpolatedString (parts.map node) e p).lineText =
      .ok (textOf ((parts.map Part.piece).flatMap Piece.said)) := by
  have htexts : lineTexts (parts.map node) = .ok (parts.map fun q => textOf q.piece.said) := by
    induction parts with
    | nil => rfl
    | cons q parts ih =>
      rw [List.map_cons, lineTexts, hnode, ih]
      rfl
  have hjoin := joinTexts_textOf "" (parts.map fun q => q.piece.said)
  rw [List.map_map, Text.intercalate_ofList] at hjoin
  change (do return .str (← joinTexts "" (← lineTexts (parts.map node))) :
    Except FilterError Value) = _
  rw [htexts]
  change (do return .str (← joinTexts "" (parts.map (textOf ∘ fun q => q.piece.said))) :
    Except FilterError Value) = _
  rw [hjoin, ← List.flatMap_def, ← List.flatMap_map]
  rfl

theorem lineText_ofParts (c stopped : Cursor) (parts : List Part) :
    (ofParts c stopped parts).lineText =
      .ok (textOf ((parts.map Part.piece).flatMap Piece.said)) := by
  cases parts with
  | nil => rfl
  | cons p parts => exact lineText_ofNodes (lineText_ofPart c) (p :: parts) _ _

end Node

namespace Part
variable {q : Quoting} {c : Char} {cs : List Char}

/-- The parts of a text say the same wherever it starts. -/
theorem map_piece_read (q : Quoting) (start start' : Int) (cs : List Char) :
    (read q start cs).1.map piece = (read q start' cs).1.map piece := by
  fun_induction read q start cs generalizing start' with
  | case1 start cs hn n parts stop heq ih =>
    rw [heq] at ih
    rw [read_run hn, List.map_cons, List.map_cons, ih]
    rfl
  | case2 start cs hn n hs hlt parts stop heq ih =>
    rw [heq] at ih
    rw [read_interpolation (Nat.eq_zero_of_not_pos hn) hs, List.map_cons, List.map_cons, ih]
    rfl
  | case3 start cs hn hs => rw [read_none (Nat.eq_zero_of_not_pos hn) hs]

/-- What the text of a filter has for a line that is cut into parts. -/
def said (cs : List Char) : List Char := ((read .bare 0 cs).1.map piece).flatMap Piece.said

/-- A line that is read to its end, and in which nothing is protected, says what it is. -/
theorem said_eq_self (hplain : ¬ ['\\', '#', '\x7b'] <:+: cs) (hreaches : ¬ Reaches Blocked cs) :
    said cs = cs := by
  obtain ⟨n, -, hstop, hwrite⟩ := write_read .bare 0 cs
  obtain ⟨m, -, hstop', ⟨hnil, -⟩ | ⟨-, hblocked⟩⟩ := reaches_read 0 cs
  · obtain rfl : n = m := by omega
    rw [List.take_of_length_le (List.drop_eq_nil_iff.mp hnil)] at hwrite
    rw [said, Piece.flatMap_said (by rwa [hwrite]), hwrite]
  · exact absurd hblocked hreaches

theorem bareRun_cons (h : Text.isIndent c) :
    Pattern.bareRun (c :: cs) = Pattern.bareRun cs + 1 := by
  have hc : c = ' ' ∨ c = '\t' := by simpa [Text.isIndent] using h
  rcases hc with rfl | rfl <;> simp [Pattern.bareRun]

/-- A blank before a line stays before what the line says. -/
theorem said_cons (h : Text.isIndent c) : said (c :: cs) = c :: said cs := by
  have hbackslash : c ≠ '\\' := by
    rintro rfl
    exact absurd h (by decide)
  have hrun : Quoting.bare.run (c :: cs) = Quoting.bare.run cs + 1 := bareRun_cons h
  unfold said
  rw [read_run (by omega), hrun, List.take_succ_cons, List.drop_succ_cons,
    Quoting.unescape_bare_cons fun hc => absurd hc hbackslash, List.map_cons, List.flatMap_cons,
    map_piece_read .bare _ 0]
  by_cases hn : 0 < Quoting.bare.run cs
  · rw [read_run hn, List.map_cons, List.flatMap_cons, map_piece_read .bare (0 + _) 0]
    rfl
  · obtain hzero := Nat.eq_zero_of_not_pos hn
    rw [hzero]
    rfl

theorem blocked_cons_iff (h : Text.isIndent c) :
    Reaches Blocked (c :: cs) ↔ Reaches Blocked cs := by
  have hc : c ≠ '\\' ∧ c ≠ '#' := by
    constructor <;> rintro rfl <;> exact absurd h (by decide)
  have hopens : ¬ ['#', '\x7b'] <+: c :: cs := fun hin => hc.2 (List.cons_prefix_cons.mp hin).1.symm
  exact Reaches.plain_iff hc.1 hopens
    (Blocked.not_of hopens fun hin => absurd (List.cons_prefix_cons.mp hin).1.symm hc.1)

end Part

namespace Production
variable {r : Reading}

/-- Bare text that is not refused is read to the end of its line. -/
theorem run_bareString (h : r.cursor.Inside) (hreaches : ¬ Reaches Blocked r.cursor.rest) :
    ∃ stopped, (interpolatedString .bare).run r =
      (.ok (Node.ofParts r.cursor stopped (Part.read .bare r.cursor.column r.cursor.rest).1),
        { r with cursor := r.cursor.skipRest }) := by
  obtain ⟨k, hk, hstop, ⟨hnil, -⟩ | ⟨-, hblocked⟩⟩ :=
    Part.reaches_read r.cursor.column r.cursor.rest
  · obtain ⟨stopped, hok⟩ := (run_stringBody h .bare hstop).1 hnil
    obtain rfl : k = r.cursor.rest.length := Nat.le_antisymm hk (List.drop_eq_nil_iff.mp hnil)
    refine ⟨stopped, hok.trans ?_⟩
    rw [← Cursor.skip_length_rest h]
    rfl
  · exact absurd hblocked hreaches

end Production

namespace Grammar

/-- What the text of a filter has for what is left of a line behind the indentation of its block. -/
def said (g : Grammar) (cs : List Char) : List Char :=
  if g.options.interpolateFilters.isTrue then Part.said cs else cs

/-- A line of a filter that cannot be read. -/
def RefusesLine (g : Grammar) (cs : List Char) : Prop :=
  g.options.interpolateFilters.isTrue ∧ Reaches Blocked cs

/-- What the text of a filter has for a line of its block. -/
def blockLineSaid (g : Grammar) (t : Indent) (line : List Char) : List Char :=
  if Text.isBlankLine line then [] else g.said (line.drop (t.margin line))

/-- A filter can read a line of its block. -/
def TakesBlockLine (g : Grammar) (t : Indent) (line : List Char) : Prop :=
  Text.isBlankLine line ∨ ¬ g.RefusesLine (line.drop (t.margin line))

end Grammar

namespace Production
variable {g : Grammar} {r : Reading}

theorem run_filterLine (h : r.cursor.Inside) (htakes : ¬ g.RefusesLine r.cursor.rest) :
    ∃ n, (filterLine g false).run r = (.ok n, { r with cursor := r.cursor.skipRest }) ∧
      n.unwrap.lineText = .ok (Node.textOf (g.said r.cursor.rest)) := by
  unfold filterLine
  rw [if_neg Bool.false_ne_true]
  cases hi : g.options.interpolateFilters.isTrue with
  | true =>
    obtain ⟨stopped, hrun⟩ := run_bareString h fun hreaches => htakes ⟨hi, hreaches⟩
    refine ⟨(Node.ofParts r.cursor stopped
      (Part.read .bare r.cursor.column r.cursor.rest).1).wrap, ?_, ?_⟩
    · rw [if_pos rfl, run_bind, hrun]
      rfl
    · rw [Grammar.said, hi, if_pos rfl, Part.said, Part.map_piece_read .bare 0 r.cursor.column]
      exact Node.lineText_ofParts _ _ _
  | false =>
    refine ⟨(Node.ofText r.cursor.rest r.cursor.position).wrap, rfl, ?_⟩
    rw [Grammar.said, hi, if_neg Bool.false_ne_true]
    rfl

theorem run_filterLine_refused (h : r.cursor.Inside) (hrefuses : g.RefusesLine r.cursor.rest) :
    ∃ e s, (filterLine g false).run r = (.error (.refused e), s) := by
  obtain ⟨hi, hreaches⟩ := hrefuses
  obtain ⟨e, s, hrun⟩ := bareString_refused h hreaches
  refine ⟨e, s, ?_⟩
  unfold filterLine
  rw [if_neg Bool.false_ne_true, if_pos hi, run_bind, hrun]

/-- The rest of a line of a block that is entered. -/
theorem rest_skip_margin {line : List Char} (hp : r.cursor.peekLine = some line) :
    (r.cursor.nextLine.2.skip (r.indent.margin line)).rest = line.drop (r.indent.margin line) := by
  have hrest : r.cursor.nextLine.2.rest = line := by
    rw [Cursor.nextLine_eq hp]
    exact Text.tail_natCast line 0
  rw [Cursor.rest_skip (Cursor.onward_nextLine hp).1.inside, hrest]

theorem run_filterBlockLine {line : List Char} (hp : r.cursor.peekLine = some line)
    (htakes : g.TakesBlockLine r.indent line) :
    ∃ n, (do filterLine g (← enterBlockLine line) : Production Node).run r =
        (.ok n, { r with cursor := r.cursor.nextLine.2.skipRest }) ∧
      n.unwrap.lineText = .ok (Node.textOf (g.blockLineSaid r.indent line)) := by
  unfold Grammar.TakesBlockLine at htakes
  unfold Grammar.blockLineSaid
  rw [run_bind, run_enterBlockLine hp]
  cases hblank : Text.isBlankLine line with
  | true => exact ⟨_, rfl, rfl⟩
  | false =>
    rw [hblank] at htakes
    have hrest := rest_skip_margin hp
    have hinside := Cursor.onward_skip (Cursor.onward_nextLine hp).1.inside (r.indent.margin line)
    rw [← hrest] at htakes ⊢
    exact run_filterLine hinside.inside (htakes.resolve_left Bool.false_ne_true)

theorem run_filterBlockLine_refused {line : List Char} (hp : r.cursor.peekLine = some line)
    (hnot : ¬ g.TakesBlockLine r.indent line) :
    ∃ e s, (do filterLine g (← enterBlockLine line) : Production Node).run r =
      (.error (.refused e), s) := by
  obtain ⟨hblank, hrefuses⟩ := not_or.mp hnot
  have hrest := rest_skip_margin hp
  have hinside := Cursor.onward_skip (Cursor.onward_nextLine hp).1.inside (r.indent.margin line)
  rw [← hrest] at hrefuses
  rw [run_bind, run_enterBlockLine hp, Bool.eq_false_iff.mpr hblank]
  exact run_filterLine_refused hinside.inside (not_not.mp hrefuses)

theorem run_filterLines {lines rest : List (List Char)} (hl : r.cursor.upcoming = lines ++ rest)
    (htakes : ∀ line ∈ lines, g.TakesBlockLine r.indent line) :
    ∃ children, (lines.mapM fun line => do filterLine g (← enterBlockLine line) :
        Production (List Node)).run r =
          (.ok children, { r with cursor := r.cursor.pass lines.length }) ∧
      children.map (fun n => n.unwrap.lineText) =
        lines.map fun line => .ok (Node.textOf (g.blockLineSaid r.indent line)) := by
  induction lines generalizing r with
  | nil => exact ⟨[], rfl, rfl⟩
  | cons line lines ih =>
    have hp := Cursor.peekLine_of_upcoming hl
    obtain ⟨n, hrun, htext⟩ := run_filterBlockLine hp (htakes line List.mem_cons_self)
    obtain ⟨children, hlater, htexts⟩ := ih (r := { r with cursor := r.cursor.nextLine.2.skipRest })
      (Cursor.upcoming_nextLine hl) fun l hl => htakes l (List.mem_cons_of_mem _ hl)
    refine ⟨n :: children, ?_, ?_⟩
    · rw [List.mapM_cons, run_bind, hrun]
      dsimp only
      rw [run_bind, hlater]
      rfl
    · rw [List.map_cons, List.map_cons, htext, htexts]

/-- A filter is refused when one of its lines is. -/
theorem run_filterLines_refused {lines rest : List (List Char)}
    (hl : r.cursor.upcoming = lines ++ rest)
    (hnot : ¬ ∀ line ∈ lines, g.TakesBlockLine r.indent line) :
    ∃ e s, (lines.mapM fun line => do filterLine g (← enterBlockLine line) :
      Production (List Node)).run r = (.error (.refused e), s) := by
  induction lines generalizing r with
  | nil => exact absurd nofun hnot
  | cons line lines ih =>
    have hp := Cursor.peekLine_of_upcoming hl
    rw [List.mapM_cons, run_bind]
    -- the first line that is not taken is the one that is refused
    by_cases hfirst : g.TakesBlockLine r.indent line
    · obtain ⟨n, hrun, -⟩ := run_filterBlockLine hp hfirst
      have hlater : ¬ ∀ l ∈ lines, g.TakesBlockLine r.indent l :=
        fun hall => hnot (List.forall_mem_cons.mpr ⟨hfirst, hall⟩)
      obtain ⟨e, s, hrest⟩ := ih (r := { r with cursor := r.cursor.nextLine.2.skipRest })
        (Cursor.upcoming_nextLine hl) hlater
      refine ⟨e, s, ?_⟩
      rw [hrun]
      dsimp only
      rw [run_bind, hrest]
    · obtain ⟨e, s, hrun⟩ := run_filterBlockLine_refused hp hfirst
      refine ⟨e, s, ?_⟩
      rw [hrun]

section Filters
variable (h : r.cursor.Inside) {name : List Char} (hrest : r.cursor.rest = ':' :: name)
  (hname : '\n' ∉ name)
include h hrest hname

/-- A filter reads its block, unless it cannot read one of the lines. -/
theorem run_filter?_said (htakes : ∀ line ∈ blockLines r, g.TakesBlockLine r.indent line) :
    ∃ children, (filter? g).run r =
        (.ok (some (.filter (.str (String.ofList (Text.trim name))) children r.cursor.position)),
          { r with
            cursor := r.cursor.skipRest.pass (blockLines r).length
            log := r.log ++ [.filterBlock (String.ofList (Text.trim name)) children.length] }) ∧
      children.map (fun n => n.unwrap.lineText) =
        (blockLines r).map fun line => .ok (Node.textOf (g.blockLineSaid r.indent line)) := by
  obtain ⟨children, hrun, htexts⟩ := run_filterLines (r := { r with cursor := r.cursor.skipRest })
    (List.takeWhile_append_dropWhile (p := inBlock r.indent)).symm htakes
  refine ⟨children, ?_, htexts⟩
  have hblock : (block (filterLine g)).run { r with cursor := r.cursor.skipRest } =
      (.ok children, { r with cursor := r.cursor.skipRest.pass (blockLines r).length }) := by
    unfold block
    rw [run_get_bind]
    exact hrun
  rw [run_filter? h hrest hname, run_bind, hblock]
  rfl

theorem run_filter?_refused (hnot : ¬ ∀ line ∈ blockLines r, g.TakesBlockLine r.indent line) :
    ∃ e s, (filter? g).run r = (.error (.refused e), s) := by
  obtain ⟨e, s, hrun⟩ := run_filterLines_refused (r := { r with cursor := r.cursor.skipRest })
    (List.takeWhile_append_dropWhile (p := inBlock r.indent)).symm hnot
  refine ⟨e, s, ?_⟩
  have hblock : (block (filterLine g)).run { r with cursor := r.cursor.skipRest } =
      (.error (.refused e), s) := by
    unfold block
    rw [run_get_bind]
    exact hrun
  rw [run_filter? h hrest hname, run_bind, hblock]

end Filters

end Production

end TemplateTree
