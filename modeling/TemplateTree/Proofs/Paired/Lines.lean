import TemplateTree.Proofs.Lines
import TemplateTree.Proofs.Paired.Statements

/-!
# Lines read twice

One step of reading a template, from readings that have the same lines ahead. They read the same
entry when they take the indentation of the line alike.
-/

set_option autoImplicit false

namespace TemplateTree

namespace Text

/-- Lines ahead that are not joined because of the first of them. -/
theorem joinTail_append {lines extra : List (List Char)}
    (h : ∀ line ∈ extra.head?, isBlankLine line = false ∧ isMultiline line = false) :
    joinTail (lines ++ extra) = joinTail lines := by
  induction lines with
  | nil =>
    cases extra with
    | nil => rfl
    | cons line extra =>
      obtain ⟨hblank, hmultiline⟩ := h line rfl
      simp [joinTail, hblank, hmultiline]
  | cons line lines ih => rw [List.cons_append, joinTail, joinTail, ih]

end Text

namespace Production
variable {r : Reading}

/-- Taking an indentation asks the tracker, and changes nothing but the tracker and the log. -/
theorem ensures_taken (indent : List Char) (atStart : Bool) :
    Ensures (checkIndent indent atStart) r
      (fun level s => r.indent.check indent atStart = (.ok level, s.indent) ∧
        s.cursor = r.cursor ∧ s.outline = r.outline)
      (fun e _ => ∃ cause, (r.indent.check indent atStart).1 = .error cause ∧
        e = .refused (r.cursor.error cause)) := by
  unfold checkIndent
  rw [ensures_get_bind, ensures_get_bind]
  rcases hc : r.indent.check indent atStart with ⟨cause | level, t⟩
  · dsimp only
    rw [ensures_modify_bind, ensures_cursor_bind]
    exact ⟨cause, rfl, rfl⟩
  · dsimp only
    rw [ensures_modify_bind]
    split
    · split
      · exact ⟨rfl, rfl, rfl⟩
      · exact ⟨rfl, rfl, rfl⟩
    · exact ⟨rfl, rfl, rfl⟩

end Production

namespace Correspondence
open Production

variable {P : Correspondence} {lost : Prop} {r r' : Reading} {g : Grammar}

/-- The correspondence while a statement is read. -/
def knowing (P : Correspondence) (t t' : Indent) (o o' : Outline) : Comparison :=
  { P with indents := (t, t'), outlines := (o, o') }

/-- The first of the lines that only the second source has starts a statement. -/
def StartsFresh (P : Correspondence) : Prop :=
  ∀ line ∈ P.extra.head?, Text.isBlankLine line = false ∧ Text.isMultiline line = false

/-- A tag that the line of a cursor starts with after its indentation. -/
def TagOf (g : Grammar) (c : Cursor) (n : Node) : Prop :=
  ∃ s : Reading, s.cursor = c.skipIndent ∧ Comparison.TagStarts g s n

/-- What a line says to both readings. `t` and `t'` are what they know after its indentation. -/
inductive SaysAlike (P : Correspondence) (g : Grammar) (c : Cursor) (r r' : Reading)
    (t t' : Indent) (s s' : Reading) : Entry → Entry → Prop where
  | blank (indent : s.indent = r.indent) (indent' : s'.indent = r'.indent) :
    SaysAlike P g c r r' t t' s s' .blank .blank
  | statement {node node' : Node} {level : Nat} (indent : s.indent = t) (indent' : s'.indent = t')
    (pair : P.Pair node node') (tag : node.kind = .tag → TagOf g c node) :
    SaysAlike P g c r r' t t' s s' (.statement node level t.previous)
      (.statement node' level t'.previous)

end Correspondence

namespace Production

/-- The statement of a line whose indentation was taken. -/
def stating (g : Grammar) (level : Nat) : Production Entry := do
  match ← statement? g with
  | none => expected .statement
  | some node => return .statement node level (← get).indent.previous

end Production

namespace Comparison
open Production Correspondence

variable {K : Comparison} {r r' : Reading} {g : Grammar}

/-- A statement whose block the readings may end at different lines. -/
def OwnedEntry (K : Comparison) (e : Entry) : Prop :=
  ¬ K.SameBlocks ∧ ∃ node level previous, e = .statement node level previous ∧ node.OwnsBlock

theorem agree_stating (h : K.Alike r r') (g : Grammar) (level : Nat) :
    (∃ e s, (stating g level).run r = (.ok e, s) ∧ K.OwnedEntry e) ∨
    K.Agree K.Lossy (stating g level) (stating g level) r r' fun e e' _ _ => ∃ node node',
      e = .statement node level K.indents.1.previous ∧
        e' = .statement node' level K.indents.2.previous ∧ Stated K g r node node' := by
  rcases unless_statement? h g with ⟨n, s, hrun, hdiff, node, hnode, howns⟩ | hagree
  · obtain rfl : n = some node := hnode
    refine Or.inl ⟨_, s, ?_, hdiff, node, level, s.indent.previous, rfl, howns⟩
    unfold stating
    rw [run_bind, hrun]
    rfl
  · refine Or.inr (Agree.bind hagree ?_)
    intro _ _ s s' hs hq
    rcases hq with ⟨rfl, rfl⟩ | ⟨node, node', rfl, rfl, hnode⟩
    · exact agree_expected hs _
    · dsimp only
      rw [agree_get_bind, hs.indent, hs.indent']
      exact Agree.pure hs ⟨node, node', rfl, rfl, hnode⟩

end Comparison

namespace Correspondence
open Production

variable {P : Correspondence} {lost : Prop} {r r' : Reading} {g : Grammar}

/-- What the line of a cursor says to both readings. -/
def EntryAlike (P : Correspondence) (g : Grammar) (c : Cursor) (r r' : Reading) (t t' : Indent)
    (e e' : Entry) (s s' : Reading) : Prop :=
  P.Together s.cursor s'.cursor ∧ s.outline = r.outline ∧ s'.outline = r'.outline ∧
    SaysAlike P g c r r' t t' s s' e e'

/-- What both readings make of an indentation. -/
def ChecksAlike (lost : Prop) (r r' : Reading) (indent : List Char) (t t' : Indent) : Prop :=
  ∃ x x', r.indent.check indent r.outline.last.isNone = (x, t) ∧
    r'.indent.check indent r'.outline.last.isNone = (x', t') ∧
      (x' = x ∨ lost ∧ ∃ cause, x = .error cause)

theorem outcomes_checkIndent {indent : List Char} {t t' : Indent}
    (hc : P.Together r.cursor r'.cursor) (hchecks : ChecksAlike lost r r' indent t t') :
    P.Outcomes lost
      (fun level level' s s' => level' = level ∧ s.cursor = r.cursor ∧
        (P.knowing t t' r.outline r'.outline).Alike s s') (fun _ _ => True)
      ((checkIndent indent r.outline.last.isNone).run r)
      ((checkIndent indent r'.outline.last.isNone).run r') := by
  obtain ⟨x, x', ht, ht', hcheck⟩ := hchecks
  have hens := ensures_taken (r := r) indent r.outline.last.isNone
  have hens' := ensures_taken (r := r') indent r'.outline.last.isNone
  unfold Ensures at hens hens'
  rw [ht] at hens
  rw [ht'] at hens'
  generalize (checkIndent indent r.outline.last.isNone).run r = y at hens ⊢
  generalize (checkIndent indent r'.outline.last.isNone).run r' = y' at hens' ⊢
  rcases y with ⟨e | level, s⟩ <;> rcases y' with ⟨e' | level', s'⟩
  · obtain ⟨cause, rfl, rfl⟩ := hens
    obtain ⟨cause', rfl, rfl⟩ := hens'
    rcases hcheck with hsame | ⟨hlosing, -⟩
    · obtain rfl := Except.error.inj hsame
      exact Or.inr ⟨hc.refused _, trivial⟩
    · exact Or.inl hlosing
  · -- only the second tracker takes the indentation, which loses the error of the first
    obtain ⟨cause, rfl, rfl⟩ := hens
    rcases hcheck with hsame | ⟨hlosing, -⟩
    · cases (congrArg Prod.fst hens'.1).symm.trans hsame
    · exact hlosing
  · obtain ⟨cause', rfl, rfl⟩ := hens'
    rcases hcheck with hsame | ⟨-, cause, hx⟩
    · cases hsame.trans (congrArg Prod.fst hens.1)
    · cases hx.symm.trans (congrArg Prod.fst hens.1)
  · obtain ⟨hens, hcursor, houtline⟩ := hens
    obtain ⟨hens', hcursor', houtline'⟩ := hens'
    obtain ⟨rfl, rfl⟩ := Prod.mk.inj hens
    obtain ⟨rfl, rfl⟩ := Prod.mk.inj hens'
    rcases hcheck with hsame | ⟨-, cause, hx⟩
    · refine ⟨Except.ok.inj hsame, hcursor, ⟨rfl, rfl, houtline, houtline'⟩, ?_⟩
      rw [hcursor, hcursor']
      exact hc
    · cases hx

theorem outcomes_entry {t t' : Indent} (hc : P.Together r.cursor r'.cursor)
    (hcolumn : r.cursor.column = 0)
    (hchecks : Text.isBlankLine r.cursor.line = false →
      ChecksAlike lost r r' (Pattern.run Text.isIndent r.cursor.line) t t')
    (hlost : (P.knowing t t' r.outline r'.outline).Lossy → lost) :
    (∃ e s, (entry g).run r = (.ok e, s) ∧ (P.knowing t t' r.outline r'.outline).OwnedEntry e) ∨
    P.Outcomes lost (EntryAlike P g r.cursor r r' t t') (fun _ _ => True) ((entry g).run r)
      ((entry g).run r') := by
  have hrest : r.cursor.rest = r.cursor.line := by
    rw [Cursor.rest, hcolumn]
    rfl
  have hrest' : r'.cursor.rest = r.cursor.line := hc.rest.trans hrest
  unfold entry
  rw [run_cursor_bind, run_cursor_bind, hc.line]
  split
  · exact Or.inr ⟨hc, rfl, rfl, .blank rfl rfl⟩
  rename_i hblank
  have hchecked := hchecks (by simpa using hblank)
  dsimp only
  rw [hrest, hrest']
  unfold skipIndent
  rw [run_modifyCursor_bind, run_modifyCursor_bind, run_get_bind, run_get_bind]
  let q : Reading := { r with cursor := r.cursor.skipIndent }
  let q' : Reading := { r' with cursor := r'.cursor.skipIndent }
  have hskip : P.Together q.cursor q'.cursor := hc.skipIndent
  apply Outcomes.bind_unless (outcomes_checkIndent hskip hchecked)
  rintro _ level s s' ⟨rfl, hcursor, halike⟩
  rcases Comparison.agree_stating halike g level with howned | hagree
  · exact Or.inl howned
  · refine Or.inr (Outcomes.imp hagree hlost ?_ fun _ _ _ => trivial)
    rintro _ _ u u' ⟨hu, node, node', rfl, rfl, hnode⟩
    refine ⟨hu.cursor, hu.outline, hu.outline', .statement hu.indent hu.indent' hnode.pair
      fun hkind => ⟨s, hcursor, hnode.tag hkind⟩⟩

end Correspondence

/-- The line of a cursor with the lines ahead that are joined to it. -/
def Cursor.joined (c : Cursor) : Cursor :=
  if Text.isMultiline c.line then
    let (tail, count) := Text.joinTail c.upcoming
    ({ c with entered := c.entered + count } : Cursor).replaceLine (Text.joinLines c.line tail)
      c.lineIndex
  else c

theorem Cursor.joined_of_plain {c : Cursor} (h : Text.isMultiline c.line = false) :
    c.joined = c := by
  rw [joined, h]
  rfl

theorem Production.run_joinMultiline (r : Reading) :
    joinMultiline.run r = (.ok (), { r with cursor := r.cursor.joined }) := by
  unfold joinMultiline Cursor.joined
  rw [run_cursor_bind]
  split
  · rfl
  · rfl

theorem Production.run_nextEntry {g : Grammar} {r : Reading} {line : List Char}
    (hp : r.cursor.peekLine = some line) : (nextEntry g).run r =
      (do return some (← entry g) : Production (Option Entry)).run
        { r with cursor := r.cursor.nextLine.2.joined } := by
  unfold nextEntry nextLine
  rw [bind_assoc, run_cursor_bind, Cursor.nextLine_eq hp, run_bind]
  change (joinMultiline >>= _).run _ = _
  rw [run_bind, run_joinMultiline]

theorem Production.run_nextEntry_of_none {g : Grammar} {r : Reading}
    (hp : r.cursor.peekLine = none) :
    (nextEntry g).run r = (.ok none, { r with cursor := r.cursor.nextLine.2 }) := by
  unfold nextEntry nextLine
  rw [bind_assoc, run_cursor_bind, Cursor.nextLine_eq_of_none hp]
  rfl

namespace Correspondence
open Production

variable {P : Correspondence} {lost : Prop} {r r' : Reading} {g : Grammar} {c c' : Cursor}
  {line : List Char}

/-- What the line `raw`, which both cursors enter, reads as with the lines that are joined to it. -/
structure Entered (P : Correspondence) (raw : List Char) (c c' : Cursor) : Prop
    extends P.Together c c' where
  start : c.column = 0
  indent : Text.isBlankLine c.line = false →
    Pattern.run Text.isIndent c.line = Pattern.run Text.isIndent raw

theorem upcoming_skipLines (c : Cursor) (count : Nat) (text : List Char) (anchor : Int) :
    (({ c with entered := c.entered + count } : Cursor).replaceLine text anchor).upcoming =
      c.upcoming.drop count := by
  unfold Cursor.upcoming Cursor.ahead Cursor.replaceLine
  rw [← List.map_drop, List.drop_drop]

/-- Lines ahead that are joined to the line of both cursors. -/
theorem Together.join (h : P.Together c c') (hfresh : P.StartsFresh) (hstart : c.column = 0)
    (hanchor : c.anchor = c.lineIndex) (hanchor' : c'.anchor = c'.lineIndex)
    (hm : Text.isMultiline c.line)
    (hany : ∀ text, P.OnLine (c.placeOn c.lineIndex) (c'.placeOn c'.lineIndex) text) :
    P.Entered c.line c.joined c'.joined := by
  rcases hj : Text.joinTail c.upcoming with ⟨tail, count⟩
  have hj' : Text.joinTail c'.upcoming = (tail, count) := by
    rw [h.upcoming, Text.joinTail_append hfresh, hj]
  have hcount : count ≤ c.upcoming.length := by
    have hle := Text.joinTail_le c.upcoming
    rwa [hj] at hle
  have hon := onward_joined h.inside hstart hanchor hj
  have hon' := onward_joined h.inside' (h.column.trans hstart) hanchor' hj'
  have hc : c.joined = ({ c with entered := c.entered + count } : Cursor).replaceLine
      (Text.joinLines c.line tail) c.lineIndex := by simp [Cursor.joined, hm, hj]
  have hc' : c'.joined = ({ c' with entered := c'.entered + count } : Cursor).replaceLine
      (Text.joinLines c.line tail) c'.lineIndex := by simp [Cursor.joined, h.line, hm, hj']
  have hlater : ∀ {k : Nat} {l : List Char}, (c.upcoming.drop count)[k]? = some l →
      c.upcoming[count + k]? = some l := by
    intro k l hl
    rwa [List.getElem?_drop] at hl
  have hanchors : ∀ n k : Nat, ((n + count : Nat) : Int) + k = n + ((count + k : Nat) : Int) := by
    intro n k
    omega
  rw [h.line] at hon'
  rw [hc, hc']
  exact {
    filename := h.filename
    upcoming := by
      rw [upcoming_skipLines, upcoming_skipLines, h.upcoming, List.drop_append_of_le_length hcount]
    lines := by
      intro k l hl
      rw [upcoming_skipLines] at hl
      have hline := h.lines (count + k) l (hlater hl)
      rw [← hanchors, ← hanchors] at hline
      exact hline
    joined := by
      intro k l text hl hml
      rw [upcoming_skipLines] at hl
      have hline := h.joined (count + k) l text (hlater hl) hml
      rw [← hanchors, ← hanchors] at hline
      exact hline
    line := rfl
    column := rfl
    inside := hon.inside
    inside' := hon'.inside
    here := hany _
    start := rfl
    indent := by
      have hhead := Text.head_joinTail c.upcoming
      rw [hj] at hhead
      exact Text.run_joinLines hm hhead }

theorem Ahead.enter (h : P.Ahead c c') (hfresh : P.StartsFresh) (hp : c.peekLine = some line) :
    P.Entered line c.nextLine.2.joined c'.nextLine.2.joined := by
  have hp' := h.peekLine hp
  have hentered := h.nextLine hp
  have hhead : c.upcoming[0]? = some line := by
    rw [← List.head?_eq_getElem?, ← Cursor.peekLine_eq, hp]
  rw [Cursor.nextLine_eq hp] at hentered ⊢
  rw [Cursor.nextLine_eq hp'] at hentered ⊢
  dsimp only at hentered ⊢
  by_cases hm : Text.isMultiline line
  · apply hentered.join hfresh rfl (by simp [Cursor.lineIndex]) (by simp [Cursor.lineIndex]) hm
    intro text
    have hany : P.OnLine (c.placeOn c.entered) (c'.placeOn c'.entered) text := by
      simpa using h.joined 0 line text hhead hm
    have hindex : ∀ n : Nat, ((n + 1 : Nat) : Int) - 1 = n := by omega
    simp only [Cursor.lineIndex, hindex]
    exact hany
  · rw [Cursor.joined_of_plain (by simpa using hm), Cursor.joined_of_plain (by simpa using hm)]
    exact { hentered with start := rfl, indent := fun _ => rfl }

/-- A step that enters a line in each reading, where the two lines read the same with the lines that
are joined to them. -/
theorem outcomes_entered {t t' : Indent} {line' : List Char} (hp : r.cursor.peekLine = some line)
    (hp' : r'.cursor.peekLine = some line')
    (hc : P.Together r.cursor.nextLine.2.joined r'.cursor.nextLine.2.joined)
    (hstart : r.cursor.nextLine.2.joined.column = 0)
    (hchecks : Text.isBlankLine r.cursor.nextLine.2.joined.line = false →
      ChecksAlike lost r r' (Pattern.run Text.isIndent r.cursor.nextLine.2.joined.line) t t')
    (hlost : (P.knowing t t' r.outline r'.outline).Lossy → lost) :
    (∃ node level previous s, (nextEntry g).run r = (.ok (some (.statement node level previous)), s) ∧
      node.OwnsBlock ∧ ¬ (P.knowing t t' r.outline r'.outline).SameBlocks) ∨
    P.Outcomes lost (fun said said' s s' => ∃ e e', said = some e ∧ said' = some e' ∧
      EntryAlike P g r.cursor.nextLine.2.joined r r' t t' e e' s s')
      (fun _ _ => True) ((nextEntry g).run r) ((nextEntry g).run r') := by
  rw [run_nextEntry hp, run_nextEntry hp', run_bind, run_bind]
  let q : Reading := { r with cursor := r.cursor.nextLine.2.joined }
  let q' : Reading := { r' with cursor := r'.cursor.nextLine.2.joined }
  have hcursors : P.Together q.cursor q'.cursor := hc
  rcases outcomes_entry (g := g) hcursors hstart hchecks hlost with
    ⟨_, s, hentry, hdiff, node, level, previous, rfl, howns⟩ | hentry
  · refine Or.inl ⟨node, level, previous, s, ?_, howns, hdiff⟩
    rw [hentry]
    rfl
  · rw [← run_bind, ← run_bind]
    refine Or.inr (Outcomes.bind hentry fun e e' s s' hs => ?_)
    obtain ⟨htogether, houtline, houtline', hsays⟩ := hs
    refine ⟨e, e', rfl, rfl, htogether, houtline, houtline', ?_⟩
    cases hsays with
    | blank hindent hindent' => exact .blank hindent hindent'
    | statement hindent hindent' pair tag => exact .statement hindent hindent' pair tag

/-- A step that enters a line in both readings. -/
theorem outcomes_nextEntry {t t' : Indent} (ha : P.Ahead r.cursor r'.cursor)
    (hfresh : P.StartsFresh) (hp : r.cursor.peekLine = some line)
    (hchecks : Text.isBlankLine r.cursor.nextLine.2.joined.line = false →
      ChecksAlike lost r r' (Pattern.run Text.isIndent line) t t')
    (hlost : (P.knowing t t' r.outline r'.outline).Lossy → lost) :
    (∃ node level previous s, (nextEntry g).run r = (.ok (some (.statement node level previous)), s) ∧
      node.OwnsBlock ∧ ¬ (P.knowing t t' r.outline r'.outline).SameBlocks) ∨
    P.Outcomes lost (fun said said' s s' => ∃ e e', said = some e ∧ said' = some e' ∧
      EntryAlike P g r.cursor.nextLine.2.joined r r' t t' e e' s s')
      (fun _ _ => True) ((nextEntry g).run r) ((nextEntry g).run r') := by
  have hentered := ha.enter hfresh hp
  refine outcomes_entered hp (ha.peekLine hp) hentered.toTogether hentered.start ?_ hlost
  intro hblank
  rw [hentered.indent hblank]
  exact hchecks hblank

end Correspondence

end TemplateTree
