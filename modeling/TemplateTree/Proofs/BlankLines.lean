import TemplateTree.Proofs.Gaps.Lines

/-!
# Blank lines between statements

A template may have more blank lines where a new line is about to be read, unless the last statement
before is a filter, whose block would take them. The template comes to the same tree, or it is refused
for the same cause. Only lines and offsets of positions tell them apart.

The second reading goes the way of the first one up to the gap. It may have passed some of the blank
lines with the statement before, and reads the others as lines that say nothing. From there on both
have the same lines ahead.
-/

set_option autoImplicit false

namespace TemplateTree

open Production Correspondence

/-- The lines of a source without what ends them. -/
def Text.linesOf (source : String) : List (List Char) :=
  (Line.ofSource source.toList).map (·.text)

/-- A failure without its line. -/
def Failure.lineless : Failure → Failure
  | .refused e => .refused { e with line := 0 }
  | e => e

/-- Entries that are alike are added to outlines that are alike, and nothing else is asked. -/
theorem Production.exists_place {e e' : Entry} {s s' t : Reading} {f f' : Position → Position}
    (he : e.relocate f = e'.relocate f') (ho : s.outline.relocate f = s'.outline.relocate f')
    (hplaces : (place e).run s = (.ok (), t)) :
    ∃ o o', t = { s with outline := o } ∧
      (place e').run s' = (.ok (), { s' with outline := o' }) ∧ o.relocate f = o'.relocate f' := by
  rcases e with _ | ⟨node, level, previous⟩ <;> rcases e' with _ | ⟨node', level', previous'⟩
  · exact ⟨s.outline, s'.outline, (Prod.mk.inj hplaces).2.symm, rfl, ho⟩
  · cases he
  · cases he
  · obtain ⟨hnode, rfl, rfl⟩ := Entry.statement.inj he
    obtain ⟨o, hinsert, ht⟩ := place_statement_iff.mp hplaces
    obtain ⟨hadded, hgrown⟩ := Outline.insert_alike ho hnode level previous
    rw [hinsert] at hadded hgrown
    let o' := (s'.outline.insert node' level previous).2
    have hinsert' : s'.outline.insert node' level previous = (.ok (), o') := Prod.ext hadded rfl
    exact ⟨o, o', ht, place_statement_iff.mpr ⟨o', hinsert', rfl⟩, hgrown⟩

theorem Production.cursor_of_place {e : Entry} {s t : Reading}
    (hplaces : (place e).run s = (.ok (), t)) : t.cursor = s.cursor := by
  have he : e.relocate id = e.relocate id := rfl
  have ho : s.outline.relocate id = s.outline.relocate id := rfl
  obtain ⟨_, _, rfl, -⟩ := exists_place he ho hplaces
  rfl

theorem Production.outline_of_nextEntry {g : Grammar} {e : Entry} {r s : Reading}
    (hreads : (nextEntry g).run r = (.ok (some e), s)) : s.outline = r.outline := by
  cases finds_of_nextEntry hreads with
  | blank entered => exact entered.outline
  | statement entered => exact entered.outline

/-- A reading of the same lines before a gap of blank lines in the second source, which has added the
same statements. -/
structure Behind (tail : List (List Char)) (r r' : Reading) : Prop extends Lags tail r r' where
  outline : r.outline.relocate Position.columnOnly = r'.outline.relocate Position.columnOnly

/-- No filter was added last, unless more lines than `tail` are ahead. -/
def FilterBefore (tail : List (List Char)) (es : List Entry) (r : Reading) : Prop :=
  ∀ said ∈ (statementsOf es).getLast?, said.1.kind = .filter →
    tail.length < r.cursor.upcoming.length

variable {g : Grammar} {tail blanks : List (List Char)} {r r' s t : Reading} {es : List Entry}
  {e : Entry}

namespace Behind

theorem last (h : Behind tail r r') : r'.outline.last = r.outline.last :=
  (congrArg Outline.last h.outline).symm

/-- One step of both readings before the gap. -/
theorem step (h : Behind tail r r') (hreads : (nextEntry g).run r = (.ok (some e), s))
    (hplaces : (place e).run s = (.ok (), t)) (hfits : e.Fits tail s) :
    ∃ e' s' t', (nextEntry g).run r' = (.ok (some e'), s') ∧ (place e').run s' = (.ok (), t') ∧
      Behind tail t t' := by
  obtain ⟨e', s', hreads', hsame, hs⟩ := h.nextEntry h.last hreads hfits
  have houtline : s.outline.relocate Position.columnOnly =
      s'.outline.relocate Position.columnOnly := by
    rw [outline_of_nextEntry hreads, outline_of_nextEntry hreads']
    exact h.outline
  obtain ⟨o, o', rfl, hplaces', hgrown⟩ := exists_place hsame houtline hplaces
  exact ⟨e', s', _, hreads', hplaces', ⟨hs.filename, hs.indent, hs.ahead⟩, hgrown⟩

/-- Both readings up to the gap. Every line that is entered leaves fewer lines ahead, so a filter
before the last statement ends its block before the gap. -/
theorem run (h : Behind tail r r') (hrun : Run g r es s) (hleft : s.Before tail)
    (hlast : FilterBefore tail es s) : ∃ es' s', Run g r' es' s' ∧ Behind tail s s' := by
  induction hrun with
  | start => exact ⟨[], r', .start, h⟩
  | @step es e r₁ r₂ r₃ _ hreads hplaces ih =>
    have hcursor := cursor_of_place hplaces
    have hless := upcoming_lt_of_nextEntry hreads
    rw [← hcursor] at hless
    have hbefore : tail.length < r₁.cursor.upcoming.length := Nat.lt_of_le_of_lt hleft hless
    obtain ⟨es', s', hrun', hs⟩ := ih (Nat.le_of_lt hbefore) fun _ _ _ => hbefore
    have hfits : e.Fits tail r₂ := by
      unfold Entry.Fits Reading.Before
      rw [← hcursor]
      refine ⟨hleft, fun said hsaid hkind => hlast said ?_ hkind⟩
      rw [statementsOf, List.filterMap_append, List.filterMap_cons_some hsaid]
      simp
    obtain ⟨e', s₁, s₂, hreads', hplaces', hs₂⟩ := hs.step hreads hplaces hfits
    exact ⟨es' ++ [e'], s₂, .step hrun' hreads' hplaces', hs₂⟩

end Behind

namespace Production

/-- A blank line says nothing. -/
theorem run_nextEntry_of_blank {line : List Char} {lines : List (List Char)}
    (hblank : Text.isBlankLine line) (hl : r.cursor.upcoming = line :: lines) :
    (nextEntry g).run r = (.ok (some .blank), { r with cursor := r.cursor.nextLine.2 }) := by
  have hline := (Cursor.starts_nextLine hl).line
  rw [run_nextEntry (Cursor.peekLine_of_upcoming hl),
    Cursor.joined_of_plain (by rw [hline, Text.not_isMultiline_of_isBlankLine hblank])]
  unfold entry
  rw [run_bind, run_cursor_bind, if_pos (by rw [hline]; exact hblank)]
  rfl

/-- Blank lines are passed over, and nothing is added. -/
theorem exists_run_of_blanks (hblanks : ∀ line ∈ blanks, Text.isBlankLine line)
    (hl : r.cursor.upcoming = blanks ++ tail) :
    ∃ es s, Run g r es s ∧ s.cursor.upcoming = tail ∧ s.indent = r.indent ∧
      s.outline = r.outline ∧ s.cursor.filename = r.cursor.filename := by
  induction blanks generalizing r with
  | nil => exact ⟨[], r, .start, hl, rfl, rfl, rfl⟩
  | cons line blanks ih =>
    obtain ⟨hblank, hrest⟩ := List.forall_mem_cons.mp hblanks
    have hstarts := Cursor.starts_nextLine hl
    let q : Reading := { r with cursor := r.cursor.nextLine.2 }
    obtain ⟨es, s, hrun, hupcoming, hindent, houtline, hfile⟩ := ih (r := q) hrest hstarts.upcoming
    exact ⟨_, s, (Run.step .start (run_nextEntry_of_blank hblank hl) rfl).trans hrun, hupcoming,
      hindent, houtline, hfile.trans hstarts.filename⟩

end Production

/-- Where the gap is, the second reading passes the blank lines that are left. -/
theorem Behind.exists_run_parallel (h : Behind r.cursor.upcoming r r') :
    ∃ es s, Run g r' es s ∧ (reaching []).Parallel r s := by
  obtain ⟨shared, blanks, hblanks, hahead, hahead'⟩ := h.ahead
  obtain rfl : shared = [] := List.append_left_eq_self.mp hahead.symm
  obtain ⟨es, s, hrun, hupcoming, hindent, houtline, hfile⟩ :=
    exists_run_of_blanks (g := g) hblanks hahead'
  refine ⟨es, s, hrun, ahead_reaching (hfile.trans h.filename) ?_, hindent.trans h.indent, ?_⟩
  · rw [hupcoming, List.append_nil]
  · rw [houtline]
    exact h.outline

/-- Blank lines may be added where a new line is about to be read, unless the last statement before
is a filter. The template comes to the same tree, up to lines and offsets of positions, or it is
refused for the same cause. -/
theorem readTemplate_of_blanks {source source' filename : String} {firstLine : Int}
    (hrun : Run g (.opening g source filename firstLine) es r)
    (hlast : ∀ said ∈ (statementsOf es).getLast?, said.1.kind ≠ .filter)
    (hblanks : ∀ line ∈ blanks, Text.isBlankLine line)
    (hlines : Text.linesOf source' = (Text.linesOf source).take r.cursor.entered ++
      (blanks ++ (Text.linesOf source).drop r.cursor.entered)) :
    ((readTemplate g source' filename firstLine).1.mapError Failure.lineless).map Node.lineless =
      ((readTemplate g source filename firstLine).1.mapError Failure.lineless).map
        Node.lineless := by
  have htail : r.cursor.upcoming = (Text.linesOf source).drop r.cursor.entered := by
    rw [Cursor.upcoming, Cursor.ahead, hrun.settled.lines, List.map_drop, Text.linesOf]
  have hbehind : Behind r.cursor.upcoming (.opening g source filename firstLine)
      (.opening g source' filename firstLine) := by
    refine ⟨⟨rfl, rfl, (Text.linesOf source).take r.cursor.entered, blanks, hblanks, ?_, ?_⟩, rfl⟩
    · rw [htail, List.take_append_drop]
      rfl
    · rw [htail, ← hlines]
      rfl
  obtain ⟨es', s, hrun', hs⟩ := hbehind.run hrun (Nat.le_refl _) fun said hsaid hkind =>
    absurd hkind (hlast said hsaid)
  obtain ⟨rest, t, hrest, hparallel⟩ := hs.exists_run_parallel (g := g)
  have hconcur := hparallel.concur rfl hrun (hrun'.trans hrest)
  generalize (readTemplate g source filename firstLine).1 = result at hconcur ⊢
  generalize (readTemplate g source' filename firstLine).1 = result' at hconcur ⊢
  cases hconcur with
  | trees same => exact congrArg Except.ok same.symm
  | refused refused =>
    obtain ⟨s, s', rfl, rfl, hcause, hfilename, hcolumn, -⟩ := refused
    simp only [Except.mapError, Except.map, Failure.lineless, hcause, hfilename, hcolumn]

/-- Blank lines after a silent comment, whose block takes them. -/
theorem readTemplate_of_blanks_comment :
    let source := "%p a |\n  b |\n-# c\n  d\n= e\n"
    let source' := "%p a |\n  b |\n-# c\n  d\n\n \t\n= e\n"
    (∃ es r, Run (.standard .haml) (.opening (.standard .haml) source "t" 1) es r ∧
      r.cursor.entered = 4 ∧ ∀ said ∈ (statementsOf es).getLast?, said.1.kind ≠ .filter) ∧
    ((readTemplate (.standard .haml) source' "t" 1).1.mapError Failure.lineless).map Node.lineless =
      ((readTemplate (.standard .haml) source "t" 1).1.mapError Failure.lineless).map
        Node.lineless ∧
    (readTemplate (.standard .haml) source "t" 1).1.toOption.isSome := by
  intro source source'
  have heval : (steps (.standard .haml) 2 (.opening (.standard .haml) source "t" 1)).map
      (fun result => (result.1.length, result.2.cursor.entered,
        (statementsOf result.1).getLast?.map fun said => said.1.kind)) =
          some (2, 4, some .comment) := by decide +kernel
  obtain ⟨⟨es, r⟩, hsteps, hfacts⟩ := Option.map_eq_some_iff.mp heval
  obtain ⟨hlength, hfacts⟩ := Prod.mk.inj hfacts
  obtain ⟨hentered, hkinds⟩ := Prod.mk.inj hfacts
  obtain ⟨⟨node, level⟩, hsaid, hkind⟩ := Option.map_eq_some_iff.mp hkinds
  have hrun := run_iff_steps.mpr (hlength.symm ▸ hsteps)
  have hlast : ∀ said ∈ (statementsOf es).getLast?, said.1.kind ≠ .filter := by
    intro said hs
    obtain rfl := Option.some.inj (hsaid.symm.trans hs)
    rw [hkind]
    decide
  have hblanks : ∀ line ∈ ["".toList, " \t".toList], Text.isBlankLine line := by decide
  refine ⟨⟨es, r, hrun, hentered, hlast⟩, readTemplate_of_blanks hrun hlast hblanks ?_,
    by decide +kernel⟩
  rw [hentered]
  decide +kernel

end TemplateTree
