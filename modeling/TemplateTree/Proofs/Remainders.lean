import Mathlib.Data.List.Infix
import TemplateTree.Proofs.Markers
import TemplateTree.Proofs.Runs
import TemplateTree.Proofs.Written.Lines

/-!
# What statements leave of their lines

A statement is read to the end of the line that the cursor then stands on: nothing but blanks is
left there. Each production does that on its own, for nothing looks at the rest of the line after
it. Filters and doctypes end where a pattern for whole lines ends, which is the end of the line only
when there is no line feed in it; and no line of a source has one.
-/

set_option autoImplicit false

namespace TemplateTree

/-- Nothing but blanks is left of the line. -/
def Reading.Finished (r : Reading) : Prop := Text.isBlankLine r.cursor.rest = true

theorem Reading.finished_of_rest {r : Reading} (h : r.cursor.rest = []) : r.Finished := by
  unfold Finished
  rw [h]
  rfl

theorem Reading.Finished.skip {r : Reading} (hr : r.Finished) (h : r.cursor.Inside) (n : Nat) :
    (r.skip n).Finished := by
  unfold Finished at hr ⊢
  rw [rest_skip h]
  exact List.all_eq_true.mpr fun c hc => List.all_eq_true.mp hr c (List.mem_of_mem_drop hc)

@[simp] theorem Cursor.rest_skipRest (c : Cursor) : c.skipRest.rest = [] := by
  simp [skipRest, rest, Text.tail_natCast]

namespace Pattern
variable {p q : Pattern}

/-- A pattern that leaves nothing of a line. -/
def Exhausts (p : Pattern) : Prop := ∀ cs m, '\n' ∉ cs → p cs = some m → cs.drop m.length = []

theorem exhausts_anything : Exhausts anything := by
  intro cs m hcs h
  obtain rfl := Option.some.inj h
  have hall : ∀ c ∈ cs, (c != '\n') = true := by
    intro c hc
    simpa using fun heq : c = '\n' => hcs (heq ▸ hc)
  exact (drop_runLength _ _).trans (List.dropWhile_eq_nil_iff.mpr hall)

theorem exhausts_atEnd : Exhausts atEnd := by
  intro cs m hcs h
  unfold atEnd at h
  split at h
  · exact List.drop_nil
  · simp at hcs
  · cases h

theorem Exhausts.captured (hp : Exhausts p) : Exhausts (captured p) := by
  intro cs m hcs h
  obtain ⟨m', hm', rfl⟩ := Option.map_eq_some_iff.mp h
  exact hp cs m' hcs hm'

theorem Exhausts.orElse (hp : Exhausts p) (hq : Exhausts q) : Exhausts (orElse p q) := by
  intro cs m hcs h
  unfold Pattern.orElse at h
  split at h
  · rename_i m' hm'
    obtain rfl := Option.some.inj h
    exact hp cs m' hcs hm'
  · exact hq cs m hcs h

theorem Exhausts.left (hp : Exhausts p) (q : Pattern) : Exhausts (p.andThen q) := by
  intro cs m hcs h
  obtain ⟨m₁, m₂, hm₁, -, rfl⟩ := sequence_pair (p := p) (q := q) h
  rw [← List.drop_drop, hp cs m₁ hcs hm₁, List.drop_nil]

theorem Exhausts.right (p : Pattern) (hq : Exhausts q) : Exhausts (p.andThen q) := by
  intro cs m hcs h
  obtain ⟨m₁, m₂, -, hm₂, rfl⟩ := sequence_pair (p := p) (q := q) h
  rw [← List.drop_drop]
  exact hq _ m₂ (fun hc => hcs (List.mem_of_mem_drop hc)) hm₂

theorem exhausts_filterMarker : Exhausts filterMarker := .right _ exhausts_anything.captured

theorem exhausts_doctype (d : Dialect) : Exhausts d.doctype := by
  have htail (separator : Pattern) : Exhausts (doctypeTail separator) :=
    .orElse (.right _ (.right _ (.right _ (.right _ exhausts_atEnd))))
      (.orElse (.right _ (.right _ (exhausts_atEnd.left _))) (exhausts_atEnd.left _))
  cases d with
  | haml => exact .right _ (htail _)
  | jade => exact .right _ (htail _)

end Pattern

namespace Text

theorem mem_of_mem_trimRight {cs : List Char} {c : Char} (h : c ∈ trimRight cs) : c ∈ cs := by
  obtain ⟨tail, heq, -⟩ := exists_dropRightWhile isBlank cs
  rw [heq]
  exact List.mem_append_left _ h

theorem mem_of_mem_trim {cs : List Char} {c : Char} (h : c ∈ trim cs) : c ∈ cs :=
  (List.dropWhile_sublist _).mem (mem_of_mem_trimRight h)

/-- No line of a source has a line feed in it. -/
theorem lf_notMem_ofSource (source : List Char) :
    ∀ line ∈ Line.ofSource source, '\n' ∉ line.text := by
  intro line hline hmem
  cases isReturn_ofSource source line hline '\n' hmem

/-- Joined lines hold what stands in the lines. -/
theorem exists_of_mem_joinTail {c : Char} {lines : List (List Char)} (h : c ∈ (joinTail lines).1) :
    ∃ line ∈ lines, c ∈ line := by
  induction lines with
  | nil => cases h
  | cons line lines ih =>
    have later : c ∈ (joinTail lines).1 → ∃ l ∈ line :: lines, c ∈ l := by
      intro hc
      obtain ⟨l, hl, hcl⟩ := ih hc
      exact ⟨l, List.mem_cons_of_mem _ hl, hcl⟩
    rw [joinTail] at h
    split at h
    · exact later h
    · split at h
      · rcases List.mem_append.mp h with hc | hc
        · exact ⟨line, List.mem_cons_self, mem_of_mem_trim (List.mem_of_mem_dropLast hc)⟩
        · exact later hc
      · cases h

theorem mem_or_mem_of_mem_joinLines {c : Char} {line tail : List Char}
    (h : c ∈ joinLines line tail) : c ∈ line ∨ c ∈ tail := by
  rcases List.mem_append.mp (mem_of_mem_trimRight h) with hc | hc
  · exact Or.inl (mem_of_mem_trimRight (List.mem_of_mem_dropLast hc))
  · exact Or.inr hc

end Text

namespace Production
variable {α : Type} {g : Grammar} {r : Reading}

theorem Reads.and {p : Production α} {Q Q' : α → Reading → Prop} (hp : Reads p r Q)
    (hq : Reads p r Q') : Reads p r fun a r' => Q a r' ∧ Q' a r' := by
  unfold Reads Ensures at hp hq ⊢
  rcases heq : p.run r with ⟨e | a, r'⟩ <;> rw [heq] at hp hq
  · exact hp
  · exact ⟨hp.1, hp.2, hq.2⟩

/-- Where the reading ends does not depend on what is made of the value. -/
theorem Reads.map {β : Type} {p : Production α} {f : α → β} {S : Reading → Prop}
    (hp : Reads p r fun _ r' => S r') : Reads (do return f (← p)) r fun _ r' => S r' :=
  Reads.bind hp fun _ _ hon hs => Reads.pure hon.inside hs

variable (h : r.cursor.Inside)
include h

theorem reads_restOfLine_finished : Reads restOfLine r fun _ r' => r'.Finished := by
  apply (reads_restOfLine h).imp
  rintro _ _ _ ⟨-, rfl⟩
  exact Reading.finished_of_rest (Cursor.rest_skipRest _)

theorem reads_bareString_finished : Reads (interpolatedString .bare) r fun _ r' => r'.Finished := by
  change Reads (stringBody .bare) r _
  unfold stringBody
  rw [reads_cursor_bind, Cursor.readLine_eq h, reads_onLine_bind]
  apply Reads.bind (reads_advanceTo h (Part.le_stop_read _ _ _))
  intro _ r₁ hon₁ _
  refine Reads.bind (Q := fun _ r' => r'.Finished) ?_ fun _ r₂ hon₂ hr₂ => ?_
  · unfold stringEnd
    rw [reads_cursor_bind]
    split
    · exact reads_expected hon₁.inside _
    · rename_i hend
      have hrest : r₁.cursor.rest = [] := (Cursor.isEnd_iff hon₁.inside).mp (by simpa using hend)
      exact Reads.pure hon₁.inside (Reading.finished_of_rest hrest)
  · rw [reads_cursor_bind]
    exact Reads.pure hon₂.inside hr₂

theorem reads_skipIndent_finished (hr : r.Finished) : Reads skipIndent r fun _ r' => r'.Finished := by
  apply (reads_skipIndent h).imp
  rintro _ _ _ rfl
  exact hr.skip h _

section Blocks

omit h in
/-- A block is read line by line, each to its end. -/
theorem reads_mapM_finished {body : Bool → Production α} {P : α → Prop}
    (hbody : ∀ blank r₁, r₁.cursor.Inside → Reads (body blank) r₁ fun a r₂ => P a ∧
      r₂.cursor.entered = r₁.cursor.entered)
    (hends : ∀ blank r₁, r₁.cursor.Inside → Reads (body blank) r₁ fun _ r₂ => r₂.Finished)
    (h : r.cursor.Inside) (hr : r.Finished) {lines rest : List (List Char)}
    (hl : r.cursor.upcoming = lines ++ rest) :
    Reads (lines.mapM fun line => do body (← enterBlockLine line)) r fun _ r' => r'.Finished := by
  induction lines generalizing r with
  | nil =>
    rw [List.mapM_nil]
    exact Reads.pure h hr
  | cons line lines ih =>
    have hp : r.cursor.peekLine = some line := by rw [Cursor.peekLine_eq, hl]; rfl
    have hline : Reads (do body (← enterBlockLine line)) r fun _ r' => r'.Finished :=
      Reads.bind (reads_enterBlockLine hp) fun blank r₁ hon₁ _ => hends blank r₁ hon₁.inside
    rw [List.mapM_cons]
    apply Reads.bind ((reads_blockLine hbody hl).and hline)
    rintro _ r₁ hon₁ ⟨⟨-, hl₁⟩, hr₁⟩
    exact (ih hon₁.inside hr₁ hl₁).map

theorem reads_block_finished {body : Bool → Production α} {P : α → Prop}
    (hbody : ∀ blank r₁, r₁.cursor.Inside → Reads (body blank) r₁ fun a r₂ => P a ∧
      r₂.cursor.entered = r₁.cursor.entered)
    (hends : ∀ blank r₁, r₁.cursor.Inside → Reads (body blank) r₁ fun _ r₂ => r₂.Finished)
    (hr : r.Finished) : Reads (block body) r fun _ r' => r'.Finished := by
  unfold block
  rw [reads_get_bind]
  exact reads_mapM_finished hbody hends h hr List.takeWhile_append_dropWhile.symm

theorem reads_restAsText_finished : Reads restAsText r fun _ r' => r'.Finished := by
  unfold restAsText
  rw [reads_cursor_bind]
  exact (reads_restOfLine_finished h).map

theorem reads_rawLines_finished (hr : r.Finished) : Reads rawLines r fun _ r' => r'.Finished := by
  rw [rawLines_eq]
  have hends : ∀ blank r₁, r₁.cursor.Inside →
      Reads (rawLine blank) r₁ fun _ r₂ => r₂.Finished := fun _ _ h₁ =>
    (reads_restAsText_finished h₁).map
  exact (reads_block_finished h (fun blank r₁ h₁ => reads_rawLine h₁ blank) hends hr).map

theorem reads_filterLine_finished (g : Grammar) (blank : Bool) :
    Reads (filterLine g blank) r fun _ r' => r'.Finished := by
  unfold filterLine
  split
  · rw [reads_cursor_bind]
    have hrest : Reads (discard restOfLine) r fun _ r' => r'.Finished :=
      (reads_restOfLine_finished h).map
    exact hrest.map
  · split
    · exact (reads_bareString_finished h).map
    · exact (reads_restAsText_finished h).map

end Blocks

/-- A production that finds nothing where it stands, or reads to the end of a line. -/
abbrev Finishes (p : Production (Option Node)) (r : Reading) : Prop :=
  Reads p r (Found r True fun _ r' => r'.Finished)

theorem finishes_comment? (g : Grammar) : Finishes (comment? g) r := by
  unfold comment?
  rw [Finishes, reads_cursor_bind, Cursor.inLine_eq h]
  apply Reads.bind (reads_eat? h _)
  intro _ r₁ hon₁ hq
  rcases hq with ⟨rfl, _, rfl⟩ | ⟨m, rfl, _, rfl⟩
  · exact Reads.pure h (Or.inl ⟨rfl, rfl, trivial⟩)
  dsimp only
  refine reads_ite_bind (Reads.bind (reads_commentCondition hon₁.inside g _) ?_)
  intro condition r₂ hon₂ _
  rw [reads_cursor_bind]
  apply Reads.bind (reads_restOfLine_finished hon₂.inside)
  intro _ r₃ hon₃ hr₃
  split
  · exact Reads.pure hon₃.inside (Or.inr ⟨_, rfl, hr₃⟩)
  · apply Reads.bind (reads_rawLines_finished hon₃.inside hr₃)
    intro children r₄ hon₄ hr₄
    apply Reads.bind (reads_record hon₄.inside)
    rintro _ _ hon₅ rfl
    exact Reads.pure hon₅.inside (Or.inr ⟨_, rfl, hr₄⟩)

/-- What may follow a tag is read to the end of the line, also when there is nothing. -/
theorem reads_inline?_finished (g : Grammar) : Reads (inline? g) r fun _ r' => r'.Finished := by
  have plain : ∀ {r : Reading}, r.cursor.Inside → Reads (do
      if Text.isBlankLine (← cursor).rest then return none
      return some (← interpolatedString .bare)) r fun _ r' => r'.Finished := by
    intro r h
    rw [reads_cursor_bind]
    split
    · rename_i hblank
      exact Reads.pure h hblank
    · exact (reads_bareString_finished h).map
  have escaped : ∀ {r : Reading} (n : Node), r.cursor.Inside → r.Finished → Reads (do
      skipIndent
      return some n) r fun _ r' => r'.Finished := by
    intro r n h hr
    exact (reads_skipIndent_finished h hr).map
  unfold inline?
  rw [reads_cursor_bind, Cursor.inLine_eq h]
  apply Reads.bind (reads_eat? h _)
  intro _ r₁ hon₁ hq
  rcases hq with ⟨rfl, _, rfl⟩ | ⟨m, rfl, _, rfl⟩
  · apply Reads.bind (finishes_comment? h g)
    rintro _ r₂ hon₂ (⟨rfl, rfl, -⟩ | ⟨n, rfl, hr₂⟩)
    · dsimp only
      rw [reads_peekChar_bind h]
      split
      · apply Reads.bind (reads_modifyCursor (Cursor.onward_skip h 1))
        exact fun _ r₃ hon₃ _ => plain hon₃.inside
      · exact plain h
    · exact Reads.pure hon₂.inside hr₂
  · dsimp only
    split
    · apply Reads.bind (reads_bareString_finished hon₁.inside)
      exact fun n r₂ hon₂ hr₂ => escaped _ hon₂.inside hr₂
    · apply Reads.bind (reads_restOfLine_finished hon₁.inside)
      exact fun _ r₂ hon₂ hr₂ => escaped _ hon₂.inside hr₂

theorem finishes_run? : Finishes run? r := by
  unfold run?
  rw [Finishes, reads_cursor_bind, Cursor.inLine_eq h]
  apply Reads.bind (reads_eat? h _)
  intro _ r₁ hon₁ hq
  rcases hq with ⟨rfl, _, rfl⟩ | ⟨m, rfl, _, rfl⟩
  · exact Reads.pure h (Or.inl ⟨rfl, rfl, trivial⟩)
  · apply Reads.bind (reads_skipIndent hon₁.inside)
    intro _ r₂ hon₂ _
    apply Reads.bind (reads_restOfLine_finished hon₂.inside)
    exact fun _ r₃ hon₃ hr₃ => Reads.pure hon₃.inside (Or.inr ⟨_, rfl, hr₃⟩)

theorem finishes_tag? (g : Grammar) : Finishes (tag? g) r := by
  unfold tag?
  rw [Finishes, reads_cursor_bind, Cursor.inLine_eq h]
  apply Reads.bind (reads_eat? h _)
  intro _ r₁ hon₁ hq
  rcases hq with ⟨rfl, _, rfl⟩ | ⟨m, rfl, _, rfl⟩
  · exact Reads.pure h (Or.inl ⟨rfl, rfl, trivial⟩)
  apply Reads.bind (reads_tagAttributes (i := g.options.interpolateFilters.isTrue) hon₁.inside)
  intro attributes r₂ hon₂ _
  apply Reads.bind (reads_tagFlags hon₂.inside _)
  intro flags r₃ hon₃ _
  rw [reads_cursor_bind]
  apply Reads.bind (reads_skipIndent hon₃.inside)
  intro _ r₄ hon₄ _
  apply Reads.bind (reads_inline?_finished hon₄.inside g)
  intro content r₅ hon₅ hr₅
  cases content with
  | none => exact Reads.pure hon₅.inside (Or.inr ⟨_, rfl, hr₅⟩)
  | some content =>
    dsimp only
    split
    · rw [reads_cursor_bind]
      exact Reads.bind (reads_refuse (Q := fun _ _ => False) hon₅.inside) fun _ _ _ hf => hf.elim
    · exact Reads.pure hon₅.inside (Or.inr ⟨_, rfl, hr₅⟩)

section WholeLine
variable (hline : '\n' ∉ r.cursor.rest)
include hline

/-- A pattern for whole lines leaves nothing. -/
theorem reads_eat?_finished {p : Pattern} (hp : p.Exhausts) :
    Reads (eat? p) r (fun m r' => (m = none ∧ r' = r) ∨ m.isSome ∧ r'.Finished) := by
  apply (reads_eat? h p).imp
  rintro _ _ _ (⟨rfl, -, rfl⟩ | ⟨m, rfl, hm, rfl⟩)
  · exact Or.inl ⟨rfl, rfl⟩
  · refine Or.inr ⟨rfl, Reading.finished_of_rest ?_⟩
    rw [Reading.rest_skip h]
    exact hp _ m hline hm

theorem finishes_filter? (g : Grammar) : Finishes (filter? g) r := by
  unfold filter?
  rw [Finishes, reads_cursor_bind]
  apply Reads.bind (reads_eat?_finished h hline Pattern.exhausts_filterMarker)
  rintro m r₁ hon₁ (⟨rfl, rfl⟩ | ⟨hm, hr₁⟩)
  · exact Reads.pure h (Or.inl ⟨rfl, rfl, trivial⟩)
  obtain ⟨m, rfl⟩ := Option.isSome_iff_exists.mp hm
  apply Reads.bind (reads_block_finished hon₁.inside
    (fun blank r₂ h₂ => reads_filterLine h₂ g blank)
    (fun blank r₂ h₂ => reads_filterLine_finished h₂ g blank) hr₁)
  intro children r₂ hon₂ hr₂
  apply Reads.bind (reads_record hon₂.inside)
  rintro _ _ hon₃ rfl
  exact Reads.pure hon₃.inside (Or.inr ⟨_, rfl, hr₂⟩)

theorem finishes_doctype? (d : Dialect) : Finishes (doctype? d) r := by
  unfold doctype?
  rw [Finishes, reads_cursor_bind, Cursor.inLine_eq h]
  apply Reads.bind (reads_eat?_finished h hline (Pattern.exhausts_doctype d))
  rintro m r₁ hon₁ (⟨rfl, rfl⟩ | ⟨hm, hr₁⟩)
  · exact Reads.pure h (Or.inl ⟨rfl, rfl, trivial⟩)
  · obtain ⟨m, rfl⟩ := Option.isSome_iff_exists.mp hm
    exact Reads.pure hon₁.inside (Or.inr ⟨_, rfl, hr₁⟩)

end WholeLine

theorem finishes_literalLine? (g : Grammar) : Finishes (literalLine? g) r := by
  have text : ∀ {r₁ : Reading} (wrapped : Node → Node), r₁.cursor.Inside →
      Reads (do return some (wrapped (← interpolatedString .bare))) r₁
        (Found r True fun _ r' => r'.Finished) := by
    intro r₁ wrapped h₁
    apply Reads.bind (reads_bareString_finished h₁)
    exact fun _ r₂ hon₂ hr₂ => Reads.pure hon₂.inside (Or.inr ⟨_, rfl, hr₂⟩)
  have markup : Finishes (do
      if ← eat .markup then return some (← interpolatedString .bare).wrap
      return none) r := by
    apply Reads.bind (reads_eat h _)
    rintro _ r₁ hon₁ (⟨rfl, -, rfl⟩ | ⟨m, rfl, -, rfl⟩)
    · exact Reads.pure h (Or.inl ⟨rfl, rfl, trivial⟩)
    · exact text Node.wrap hon₁.inside
  unfold literalLine?
  rw [Finishes, reads_cursor_bind, Cursor.inLine_eq h]
  split
  · apply Reads.bind (reads_eat h _)
    rintro _ r₁ hon₁ (⟨rfl, -, rfl⟩ | ⟨m, rfl, -, rfl⟩)
    · exact markup
    · exact text (Node.statement · r.cursor.position) hon₁.inside
  · exact markup

theorem finishes_extra? (hline : '\n' ∉ r.cursor.rest) (g : Grammar) : Finishes (extra? g) r := by
  unfold extra?
  split
  · exact Reads.pure h (Or.inl ⟨rfl, rfl, trivial⟩)
  · apply Reads.bind (finishes_doctype? h hline .jade)
    rintro _ r₁ hon₁ (⟨rfl, rfl, -⟩ | ⟨n, rfl, hr₁⟩)
    · exact finishes_literalLine? h g
    · exact Reads.pure hon₁.inside (Or.inr ⟨n, rfl, hr₁⟩)

theorem reads_statement?_finished (hline : '\n' ∉ r.cursor.rest) (g : Grammar) :
    Reads (statement? g) r fun n r' => n.isSome → r'.Finished := by
  have found : ∀ (n : Node) (r' : Reading), r'.Finished → (some n).isSome → r'.Finished :=
    fun _ _ hr _ => hr
  unfold statement?
  refine reads_firstOf_cons h (finishes_extra? h hline g) (fun _ => ?_) found
  refine reads_firstOf_cons h (finishes_tag? h g) (fun _ => ?_) found
  refine reads_firstOf_cons h (finishes_filter? h hline g) (fun _ => ?_) found
  refine reads_firstOf_cons h (finishes_comment? h g) (fun _ => ?_) found
  refine reads_firstOf_cons h (finishes_run? h) (fun _ => ?_) found
  refine reads_firstOf_cons h (finishes_doctype? h hline _) (fun _ => ?_) found
  refine Reads.bind (p := (do return (← inline? g).map Node.wrap))
    (Q := fun _ r' => r'.Finished) ?_ ?_
  · exact (reads_inline?_finished h g).map
  · intro n r₁ hon₁ hr₁
    cases n with
    | none => exact Reads.pure hon₁.inside nofun
    | some n => exact Reads.pure hon₁.inside fun _ => hr₁

section Entries

omit h in
theorem reads_joinMultiline_line (h : r.cursor.Inside) (hcolumn : r.cursor.column = 0)
    (hanchor : r.cursor.anchor = r.cursor.lineIndex)
    (hlines : ∀ line ∈ r.cursor.lines, '\n' ∉ line.text) (hline : '\n' ∉ r.cursor.line) :
    Reads joinMultiline r fun _ r' => '\n' ∉ r'.cursor.line := by
  unfold joinMultiline
  rw [reads_cursor_bind]
  split
  · rcases hj : Text.joinTail (r.cursor.ahead.map (·.text)) with ⟨tail, count⟩
    rw [hj]
    apply (reads_setCursor (onward_joined h hcolumn hanchor hj)).imp
    rintro _ _ _ rfl hlf
    rcases Text.mem_or_mem_of_mem_joinLines hlf with hc | hc
    · exact hline hc
    · obtain ⟨_, hmem, hcl⟩ := Text.exists_of_mem_joinTail (by rwa [hj])
      obtain ⟨line, hl, rfl⟩ := List.mem_map.mp hmem
      exact hlines line (List.mem_of_mem_drop hl) hcl
  · exact Reads.pure h hline

omit h in
theorem lf_notMem_rest (hline : '\n' ∉ r.cursor.line) (h : r.cursor.Inside) :
    '\n' ∉ r.cursor.rest := by
  obtain ⟨n, -, -, hrest⟩ := Cursor.exists_rest h
  rw [hrest]
  exact fun hc => hline (List.mem_of_mem_drop hc)

/-- A statement was read to the end of its line. -/
def EntryFinished : Entry → Reading → Prop
  | .blank, _ => True
  | .statement _ _ _, r => r.Finished

theorem ensures_entry_finished (hline : '\n' ∉ r.cursor.line) : Ensures (entry g) r
    EntryFinished (fun e _ => e.At r.cursor) := by
  unfold entry
  rw [ensures_cursor_bind]
  split
  · exact trivial
  apply Reads.bind_ensures (reads_skipIndent h)
  rintro _ r₁ hon₁ rfl
  rw [ensures_get_bind]
  apply Ensures.bind (ensures_checkIndent hon₁.inside)
  rintro level r₂ ⟨hcursor, -, -⟩
  have hin : r₂.cursor.Inside := hcursor ▸ hon₁.inside
  have hrest : '\n' ∉ r₂.cursor.rest := by
    rw [hcursor]
    exact lf_notMem_rest hline hon₁.inside
  rw [← hcursor]
  apply Reads.bind_ensures (reads_statement?_finished hin hrest g)
  intro said r₃ hon₃ hsaid
  cases said with
  | none =>
    have hfail : Reads (expected .statement : Production Entry) r₃ fun _ _ => False :=
      reads_expected hon₃.inside .statement
    exact Ensures.imp hfail (fun _ _ hf => hf.2.elim) fun _ _ he => he.2
  | some node => exact hsaid rfl

omit h in
theorem ensures_nextEntry_finished (hlines : ∀ line ∈ r.cursor.lines, '\n' ∉ line.text) :
    Ensures (nextEntry g) r (fun said r' => ∀ s ∈ said, EntryFinished s r')
      (fun e _ => e.At r.cursor) := by
  unfold nextEntry nextLine
  rw [bind_assoc, ensures_cursor_bind]
  cases hp : r.cursor.peekLine with
  | none =>
    rw [Cursor.nextLine_eq_of_none hp]
    nofun
  | some line =>
    have hon := (Cursor.onward_nextLine hp).1
    have hline : '\n' ∉ line := by
      obtain ⟨l, hl, rfl⟩ := Option.map_eq_some_iff.mp hp
      exact hlines l (List.mem_of_getElem? hl)
    rw [Cursor.nextLine_eq hp] at hon ⊢
    dsimp only at hon ⊢
    change Ensures (do joinMultiline; return some (← entry g)) { r with cursor := _ } _ _
    refine Ensures.imp (Reads.bind_ensures (reads_joinMultiline_line hon.inside rfl ?_ hlines hline)
      fun _ r₁ hon₁ hline₁ => ?_) (fun _ _ hr => hr) fun _ _ he => he.of_onward hon
    · simp [Cursor.lineIndex]
    · apply Ensures.bind (ensures_entry_finished hon₁.inside hline₁)
      intro said r₂ hsaid s hs
      obtain rfl := Option.some.inj hs
      exact hsaid

end Entries

end Production

/-- A statement is read to the end of the line that the cursor then stands on, wherever it starts.
The only condition is that its own line is one, with no line feed in it, and every line of a template
is. -/
theorem finished_of_statement :
    (∀ (g : Grammar) (r r' : Reading) (n : Node), r.cursor.Inside → '\n' ∉ r.cursor.line →
      (Production.statement? g).run r = (.ok (some n), r') → Text.isBlankLine r'.cursor.rest = true) ∧
    ∀ (g : Grammar) (source filename : String) (firstLine : Int) (es : List Entry) (r r' : Reading)
      (n : Node) (level previous : Nat), Run g (.opening g source filename firstLine) es r →
      (Production.nextEntry g).run r = (.ok (some (.statement n level previous)), r') →
      Text.isBlankLine r'.cursor.rest = true := by
  refine ⟨?_, ?_⟩
  · intro g r r' n h hline hrun
    have hrest := Production.lf_notMem_rest hline h
    exact ((Production.reads_statement?_finished h hrest g).of_run hrun).2 rfl
  · intro g source filename firstLine es r r' n level previous hrun hentry
    have hlines : ∀ line ∈ r.cursor.lines, '\n' ∉ line.text := by
      rw [hrun.settled.lines]
      exact Text.lf_notMem_ofSource source.toList
    have hfinished := Production.ensures_nextEntry_finished (g := g) hlines
    unfold Production.Ensures at hfinished
    rw [hentry] at hfinished
    exact hfinished _ rfl

/-- A tag on its own, and a filter that is read from the start of a template. -/
theorem finished_of_statement_tag :
    (∃ n r', (Production.statement? (.standard .haml)).run (.onFirstLine "%a(b=c)= d \n") =
        (.ok (some n), r') ∧ Text.isBlankLine r'.cursor.rest = true) ∧
    ∃ n level previous r', (Production.nextEntry (.standard .haml)).run
        (.opening (.standard .haml) ":a\n  b\n" "t" 1) =
      (.ok (some (.statement n level previous)), r') ∧
      Text.isBlankLine r'.cursor.rest = true := by
  constructor
  · have hinside : (Reading.onFirstLine "%a(b=c)= d \n").cursor.Inside :=
      (Reading.standsBefore_onFirstLine (by decide)).inside
    have heval : ((Production.statement? (.standard .haml)).run
        (.onFirstLine "%a(b=c)= d \n")).1.toOption.join.isSome := by decide +kernel
    rcases hrun : (Production.statement? (.standard .haml)).run
        (.onFirstLine "%a(b=c)= d \n") with ⟨_ | _ | n, r'⟩
    · rw [hrun] at heval
      cases heval
    · rw [hrun] at heval
      cases heval
    · exact ⟨n, r', rfl, finished_of_statement.1 _ _ _ _ hinside (by decide) hrun⟩
  · have heval : (((Production.nextEntry (.standard .haml)).run
        (.opening (.standard .haml) ":a\n  b\n" "t" 1)).1.toOption.join.bind
          Entry.statement?).isSome := by decide +kernel
    rcases hrun : (Production.nextEntry (.standard .haml)).run
        (.opening (.standard .haml) ":a\n  b\n" "t" 1) with
      ⟨_ | _ | _ | ⟨n, level, previous⟩, r'⟩
    · rw [hrun] at heval
      cases heval
    · rw [hrun] at heval
      cases heval
    · rw [hrun] at heval
      cases heval
    · exact ⟨n, level, previous, r', rfl,
        finished_of_statement.2 _ _ _ _ _ _ _ _ _ _ .start hrun⟩

end TemplateTree
